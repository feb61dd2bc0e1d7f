import PandaOS.Theorems.OpenErrors
import PandaOS.Kernel.FileCalls

/-!
# Files created at run time

Without a tmpfs, `O_CREAT` below `/tmp` enters the path into a map with a node index of its
own, and then opens the index as if it were one of the table of static files. There is no
such node, so the call fails with the file created. The index is the number of files so
far, so that after an `unlink` two files can have the same one.
-/

namespace PandaOS.Kernel

open Lib

/-- The files created at run time come after those of the table. -/
def Vfs.Above (v : Vfs) : Prop := ∀ path index, v.dynamicFiles.lookup path = some index →
    staticFiles.length ≤ index

namespace Files

/-- What the files created at run time are for. -/
structure DynamicFilesWork (debug : Bool) (st : Files) : Prop where
  distinct : ∀ p q i, st.vfs.dynamicFiles.lookup p = some i →
    st.vfs.dynamicFiles.lookup q = some i → p = q
  above : st.vfs.Above
  /-- Removing one leaves the contents of the others. -/
  unlink_others : ∀ p q i st', p ≠ q → Returns (unlinkPath p) st () st' →
    st.vfs.dynamicFiles.lookup q = some i → st'.vfs.writableFiles i = st.vfs.writableFiles i
  /-- A process of root with a free descriptor can open a new one, and reads what it wrote. -/
  usable : ∀ path table, "/tmp/".toList <+: path → st.vfs.lookupNode path = none →
    table.freeFds ≠ [] →
    ∃ fd st' kind, Returns (openPathWithFlags debug path (oCreat ||| oRdwr) ⟨0, 0⟩)
      { st with table := table } fd st' ∧
      st'.table.get? fd = some kind ∧ ∀ heap data n s, Returns (OpenEntry.write heap data)
        ⟨kind, st'.pool, st'.vfs⟩ n s → kind.readBytes s.vfs data.length = .ok data

/-- There is always a path below `/tmp` that names no file. -/
theorem exists_new_path (v : Vfs) : ∃ path, "/tmp/".toList <+: path ∧ v.lookupNode path = none := by
  refine ⟨"/tmp/".toList ++ v.dynamicFiles.keys.flatten, List.prefix_append _ _, ?_⟩
  have hstatic : staticFiles.findIdx? (·.path = "/tmp/".toList ++ v.dynamicFiles.keys.flatten) =
      none := by
    have hnot : ∀ file ∈ staticFiles, ¬"/tmp/".toList <+: file.path := by decide
    refine List.findIdx?_eq_none_iff.mpr fun file hfile => decide_eq_false fun heq =>
      hnot file hfile ?_
    exact heq ▸ List.prefix_append _ _
  -- it is longer than every path there is
  have hkey : "/tmp/".toList ++ v.dynamicFiles.keys.flatten ∉ v.dynamicFiles := by
    intro hmem
    have hlength := (List.sublist_flatten_of_mem (AList.mem_keys.mp hmem)).length_le
    rw [List.length_append] at hlength
    exact absurd hlength (by simp)
  unfold Vfs.lookupNode
  rw [hstatic, AList.lookup_eq_none.mpr hkey]
  rfl

/-- They never work: in no state with the memory file system at `/tmp`. -/
theorem dynamic_files_never_work (debug : Bool) {st : Files}
    (hmount : ∀ path, "/tmp/".toList <+: path → st.vfs.resolveMountPath path = none) :
    ¬DynamicFilesWork debug st := by
  intro h
  obtain ⟨path, htmp, hnew⟩ := exists_new_path st.vfs
  obtain ⟨fd, st', kind, hopen, -⟩ := h.usable path FdTable.new htmp hnew (by decide)
  have hfails : Throws (openPathWithFlags debug path (oCreat ||| oRdwr) ⟨0, 0⟩)
      { st with table := FdTable.new }
      (.err .enoent) (withDynamic { st with table := FdTable.new } path) := by
    refine throws_bind.mpr (Or.inr ⟨_, _, get_returns _, ?_⟩)
    dsimp only
    rw [hmount path htmp]
    exact openMemory_throws hnew (by decide) htmp
  exact not_returns_of_throws hfails hopen

/-- A system with nothing mounted. -/
def bootFiles : Files := ⟨FdTable.new, PipePool.new, Vfs.boot⟩

theorem dynamic_files_fail_at_boot : ¬DynamicFilesWork true bootFiles :=
  dynamic_files_never_work true fun _ _ => rfl

/-- With `/tmp/a`, `/tmp/b` and, after `/tmp/a` is gone, `/tmp/c` created, `/tmp/b` and `/tmp/c`
are one file, and removing `/tmp/c` removes the contents of both. -/
theorem dynamic_files_collide : ∃ st₁ st₂ st₃ st₄ st₅,
    Throws (openPathWithFlags true "/tmp/a".toList (oCreat ||| oRdwr) ⟨0, 0⟩) bootFiles
      (.err .enoent) st₁ ∧
    Throws (openPathWithFlags true "/tmp/b".toList (oCreat ||| oRdwr) ⟨0, 0⟩) st₁
      (.err .enoent) st₂ ∧
    Returns (unlinkPath "/tmp/a".toList) st₂ () st₃ ∧
    Throws (openPathWithFlags true "/tmp/c".toList (oCreat ||| oRdwr) ⟨0, 0⟩) st₃
      (.err .enoent) st₄ ∧
    st₄.vfs.dynamicFiles.lookup "/tmp/b".toList = some 8 ∧
      st₄.vfs.dynamicFiles.lookup "/tmp/c".toList = some 8 ∧
    Returns (unlinkPath "/tmp/c".toList) st₄ () st₅ ∧
    st₄.vfs.writableFiles 8 = some [] ∧ st₅.vfs.writableFiles 8 = none :=
  ⟨_, _, _, _, _, rfl, rfl, rfl, rfl, by rfl, by rfl, rfl, by rfl, by rfl⟩

end Files

end PandaOS.Kernel
