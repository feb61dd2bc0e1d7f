import PandaOS.Logic.Spawn

/-!
# What a process finds in a page it is given

Frames go from process to process, and what the last owner left in a frame must
not reach the next one. The stack, the image and demand paging clear a frame
through the bootloader's mapping of physical memory. `brk` and `mmap` clear it
through its physical address, taken for a virtual one: in the address space of
the caller another page, or no page, is there, and the frame keeps its contents.
Which of their pages are clear can be read off the frames that the call took.
-/

namespace PandaOS.Kernel

open Hal Lib

variable {s s' s0 s1 : KMem} {roots K : Set Nat}

/-- Contents of a frame that are all zero. -/
def Clear (c : Nat → Word) : Prop := ∀ i < 512, c i = 0

theorem clear_zero : Clear fun _ => 0 := fun _ _ => rfl

/-! ## The calls -/

/-- What makes pages readable to a process. A fault is one for a missing page,
from user code or from the kernel on its behalf. -/
inductive Grant
  | brk (addr : Nat)
  | mmap (addr length : Nat) (prot flags : BitVec 32) (fd : Int)
  | fault (cr2 : Nat) (write user : Bool)
  | stack (stackTop numPages : Nat)
  | load (info : ElfInfo) (data : List Byte)

namespace Grant

/-- The call, and whether it succeeds. -/
def run (p : ProcMem) : Grant → KM Bool
  | brk addr => return (← brkHandler p addr).2.isOk
  | mmap addr length prot flags fd => return (← mmapHandler p addr length prot flags fd).2.isOk
  | fault cr2 write user => do
    pageFaultHandler (some p) cr2 false write user
    return true
  | stack stackTop numPages => do
    allocateUserStack p.pageTablePhys stackTop numPages
    return true
  | load info data => do
    loadElfSegments info data p.pageTablePhys
    return true

/-- The call came to its end or gave up with an error; the kernel did not stop. -/
def Ran (op : Grant) (p : ProcMem) (s : KMem) (ok : Bool) (s' : KMem) : Prop :=
  Returns (op.run p) s ok s' ∨ ok = false ∧ ∃ msg, Throws (op.run p) s (.err msg) s'

/-- What a new page may hold: zeros, and bytes of the file that is loaded. -/
def Content : Grant → (Nat → Word) → Prop
  | load _ data => FileBytes data
  | _ => Clear

/-- The state a call starts in: well-formed address spaces, among them that of
the process, which is the running one if it has made a system call. -/
structure Starts (op : Grant) (roots K : Set Nat) (p : ProcMem) (s : KMem) : Prop where
  wf : Wf s roots K
  root : p.pageTablePhys ∈ roots
  base : p.mmapBase ≤ userSpaceMax
  heap : p.heap.heapEnd ≤ userSpaceMax
  active : op matches brk _ | mmap .. → s.cr3 = p.pageTablePhys

/-- The first of the pages that `brk` or `mmap` maps once its checks are passed, and
their number. There are none for arguments that a check refuses and for a break that
does not move up. -/
def span (p : ProcMem) : Grant → Nat × Nat
  | brk addr =>
    if p.heap.heapStart ≤ addr ∧ addr ≤ p.heap.heapLimit ∧ addr ≤ p.mmapBase then
      (p.heap.heapEnd / 4096, (pageOf (addr + 0xFFF) - p.heap.heapEnd) / 4096)
    else (0, 0)
  | mmap addr length prot flags fd =>
    let size := pageOf (length + 0xFFF)
    let mapAddr := if addr = 0 then p.mmapBase - size else addr
    if (0 < length ∧ length ≤ 0x4000_0000) ∧ (flags &&& 0x20 ≠ 0 ∧ flags &&& 2 ≠ 0) ∧ fd = -1 ∧
        ¬(prot &&& 2 ≠ 0 ∧ prot &&& 4 ≠ 0) ∧ addr % 4096 = 0 ∧ mapAddr < userSpaceMax ∧
        p.heap.heapEnd ≤ mapAddr then
      (mapAddr / 4096, size / 4096)
    else (0, 0)
  | _ => (0, 0)

/-- The pages of the call are pages of the user half. For `brk` they always are. -/
def InUserHalf (p : ProcMem) : Grant → Prop
  | brk _ => True
  | op@(mmap ..) => (op.span p).1 + (op.span p).2 ≤ userPages
  | fault cr2 _ _ => cr2 < userSpaceMax
  | stack stackTop _ => stackTop ≤ userSpaceMax
  | load info _ => UserImage info

/-- The frames that a call took for the pages of its span, one after the other. -/
structure Took (op : Grant) (p : ProcMem) (s : KMem) (ok : Bool) (s' : KMem)
    (taken : List Nat) : Prop where
  le : taken.length ≤ (op.span p).2
  all : ok = true → taken.length = (op.span p).2
  page : ∀ i f, taken[i]? = some f → Fresh s.frames f ∧
    leafOf s p.pageTablePhys ((op.span p).1 + i) = none ∧
    (leafOf s' p.pageTablePhys ((op.span p).1 + i)).map Pte.frame = some f

end Grant

/-- Every page that became readable holds what a new page may hold, and no other
page has its frame. -/
def NoLeak (op : Grant) (roots : Set Nat) (pt : Nat) (s s' : KMem) : Prop :=
  ∀ v < userPages, leafOf s pt v = none → ∀ e, leafOf s' pt v = some e →
    op.Content (s'.mem (Pte.frame e)) ∧
    ∀ r ∈ roots, ∀ w < userPages, ∀ e', leafOf s' r w = some e' →
      Pte.frame e' = Pte.frame e → r = pt ∧ w = v

/-! ## Pages that were added -/

/-- The pages that were added since `s0` hold what `C` says of the page and its frame,
and are nobody else's; the frames that are free hold what they held. -/
structure Granted (C : Nat → Nat → (Nat → Word) → Prop) (roots K : Set Nat) (pt : Nat)
    (s0 s : KMem) : Prop where
  wf : Wf s roots K
  free : ∀ f, Fresh s.frames f → Fresh s0.frames f ∧ s.mem f = s0.mem f
  old : ∀ v < userPages, leafOf s pt v = none → leafOf s0 pt v = none
  pages : ∀ v < userPages, leafOf s0 pt v = none → ∀ e, leafOf s pt v = some e →
    C v (Pte.frame e) (s.mem (Pte.frame e)) ∧
    ∀ r ∈ roots, ∀ w < userPages, ∀ e', leafOf s r w = some e' →
      Pte.frame e' = Pte.frame e → r = pt ∧ w = v

namespace Granted

variable {C C' : Nat → Nat → (Nat → Word) → Prop} {pt v f : Nat} {flags e : Word}

theorem start (h : Wf s roots K) : Granted C roots K pt s s := by
  refine ⟨h, fun f hf => ⟨hf, rfl⟩, fun _ _ hnone => hnone, fun v _ hnone e he => ?_⟩
  rw [hnone] at he
  cases he

/-- Neither the pages nor what they hold has changed. -/
theorem same (h : Granted C roots K pt s0 s) (hr : pt ∈ roots) (hsame : SamePages roots K s s') :
    Granted C roots K pt s0 s' := by
  refine ⟨hsame.wf, fun f hf => ?_, fun v hv hnone => ?_, fun v hv hnone e he => ?_⟩
  · rw [hsame.kept f (hsame.wf.fresh hf).1]
    exact h.free f (hsame.frames.fresh hf)
  · exact h.old v hv (hsame.leaves pt hr v hv ▸ hnone)
  · rw [hsame.kept _ (hsame.wf.leaf_apart pt hr v hv e he).1]
    rw [hsame.leaves pt hr v hv] at he
    obtain ⟨hc, hone⟩ := h.pages v hv hnone e he
    refine ⟨hc, fun r hr' w hw e' he' => ?_⟩
    rw [hsame.leaves r hr' w hw] at he'
    exact hone r hr' w hw e' he'

/-- One page more. -/
theorem page (h : Granted C roots K pt s0 s) (hr : pt ∈ roots) (hv : v < userPages)
    (hfl : PageFlags flags) (new : NewPage roots K pt v f flags s s')
    (hothers : ∀ w, w ≠ v → ∀ g c, C w g c → C' w g c) (hnew : C' v f (s'.mem f)) :
    Granted C' roots K pt s0 s' := by
  have hframe : Pte.frame (Pte.make (frameAddr f) flags) = f :=
    Pte.frame_make (lt_of_lt_of_le new.fresh.2.1 h.wf.bound) hfl.1
  -- an entry afterwards is the new one or an old one, of another frame
  have hcases : ∀ r ∈ roots, ∀ w < userPages, ∀ e, leafOf s' r w = some e →
      (r = pt ∧ w = v ∧ Pte.frame e = f) ∨
        (¬(r = pt ∧ w = v) ∧ leafOf s r w = some e ∧ Pte.frame e ≠ f) := by
    intro r hr' w hw e he
    rw [new.leaf r hr' w hw] at he
    split at he
    · rename_i hp
      cases he
      exact .inl ⟨hp.1, hp.2, hframe⟩
    · exact .inr ⟨‹_›, he, (h.wf.fresh new.fresh).2.1 r hr' w hw e he⟩
  refine ⟨new.wf, fun g hg => ?_, fun w hw hnone => ?_, fun w hw hnone e he => ?_⟩
  · have hgf : g ≠ f := by
      rintro rfl
      have hleaf : leafOf s' pt v = some (Pte.make (frameAddr g) flags) := by
        rw [new.leaf pt hr v hv, if_pos ⟨rfl, rfl⟩]
      have howned := new.wf.leaf_owned pt hr v hv _ hleaf
      rw [hframe] at howned
      exact howned.not_fresh hg
    rw [new.kept g hgf (new.wf.fresh hg).1]
    exact h.free g (new.frames.fresh hg)
  · rw [new.leaf pt hr w hw] at hnone
    split at hnone
    · cases hnone
    · exact h.old w hw hnone
  · have hapart := (new.wf.leaf_apart pt hr w hw e he).1
    rcases hcases pt hr w hw e he with ⟨-, rfl, hef⟩ | ⟨hne, hold, hef⟩
    · refine ⟨by rwa [hef], fun r hr' w' hw' e' he' heq => ?_⟩
      rcases hcases r hr' w' hw' e' he' with ⟨hrp, hwv, -⟩ | ⟨-, -, hef'⟩
      · exact ⟨hrp, hwv⟩
      · exact absurd (heq.trans hef) hef'
    · obtain ⟨hc, hone⟩ := h.pages w hw hnone e hold
      rw [new.kept _ hef hapart]
      refine ⟨hothers w (fun hwv => hne ⟨rfl, hwv⟩) _ _ hc, fun r hr' w' hw' e' he' heq => ?_⟩
      rcases hcases r hr' w' hw' e' he' with ⟨-, -, hef'⟩ | ⟨-, hold', -⟩
      · exact absurd (heq.symm.trans hef') hef
      · exact hone r hr' w' hw' e' hold' heq

/-- The frame of a page is cleared. If the page is an old one, no new page has the
frame. -/
theorem clear (h : Granted C roots K pt s0 s) (hr : pt ∈ roots) (hv : v < userPages)
    (leaf : leafOf s pt v = some e) (hothers : ∀ w, w ≠ v → ∀ g c, C w g c → C' w g c)
    (hzero : ∀ g, C' v g fun _ => 0) : Granted C' roots K pt s0 (s.zeroFrame (Pte.frame e)) := by
  have hagree := zeroFrame_agree (h.wf.leaf_apart pt hr v hv e leaf).1
  have hother : ∀ g, g ≠ Pte.frame e → (s.zeroFrame (Pte.frame e)).mem g = s.mem g :=
    fun g hg => if_neg hg
  refine ⟨h.wf.of_agree hagree (.refl _), fun f hf => ?_, fun w hw hnone => ?_,
    fun w hw hnone e' he' => ?_⟩
  · rw [hother]
    · exact h.free f hf
    · rintro rfl
      exact (h.wf.leaf_owned pt hr v hv e leaf).not_fresh hf
  · rw [leafOf_agree hagree hr hw] at hnone
    exact h.old w hw hnone
  · rw [leafOf_agree hagree hr hw] at he'
    obtain ⟨hc, hone⟩ := h.pages w hw hnone e' he'
    refine ⟨?_, fun r hr' w' hw' e'' he'' => ?_⟩
    · by_cases heq : Pte.frame e = Pte.frame e'
      · obtain ⟨-, rfl⟩ := hone pt hr v hv e leaf heq
        rw [← heq, show (s.zeroFrame (Pte.frame e)).mem (Pte.frame e) = fun _ => 0 from if_pos rfl]
        exact hzero _
      · rw [hother _ (Ne.symm heq)]
        refine hothers w ?_ _ _ hc
        rintro rfl
        rw [leaf] at he'
        cases he'
        exact heq rfl
    · rw [leafOf_agree hagree hr' hw'] at he''
      exact hone r hr' w' hw' e'' he''

end Granted

/-! ## The pages of brk and mmap -/

/-- What a page holds that was added since `s0`, when the call has taken the frames
`taken` for its pages from `first` on: such a page keeps what was in its frame, unless
its number is that of a frame taken; all other pages are clear. -/
def Holds (s0 : KMem) (first : Nat) (taken : List Nat) (v f : Nat) (c : Nat → Word) : Prop :=
  c = if first ≤ v ∧ v < first + taken.length ∧ v ∉ taken then s0.mem f else fun _ => 0

/-- The loop of `brk` and `mmap` after it has taken `taken`. -/
structure InLoop (roots K : Set Nat) (pt first : Nat) (taken : List Nat) (s0 s : KMem) : Prop where
  cr3 : s.cr3 = pt
  granted : Granted (Holds s0 first taken) roots K pt s0 s
  page : ∀ i f, taken[i]? = some f → first + i < userPages ∧ Fresh s0.frames f ∧
    leafOf s0 pt (first + i) = none ∧ ∃ e, leafOf s pt (first + i) = some e ∧ Pte.frame e = f
  number : ∀ f ∈ taken, f < userPages ∧ leafOf s pt f ≠ none

section

variable {p : ProcMem} {pt first n f : Nat} {taken : List Nat} {flags : Word}

theorem InLoop.same (h : InLoop roots K pt first taken s0 s) (hr : pt ∈ roots)
    (hsame : SamePages roots K s s') : InLoop roots K pt first taken s0 s' := by
  refine ⟨hsame.cr3.trans h.cr3, h.granted.same hr hsame, fun i f hi => ?_, fun f hf => ?_⟩
  · obtain ⟨hv, hrest⟩ := h.page i f hi
    rw [hsame.leaves pt hr _ hv]
    exact ⟨hv, hrest⟩
  · obtain ⟨hlow, hmapped⟩ := h.number f hf
    rw [hsame.leaves pt hr _ hlow]
    exact ⟨hlow, hmapped⟩

/-- One turn of the loop. -/
theorem InLoop.turn (h : InLoop roots K p.pageTablePhys first taken s0 s)
    (hr : p.pageTablePhys ∈ roots) (hv : first + taken.length < userPages) (hfl : PageFlags flags)
    (u : UserPage roots K p (first + taken.length) f flags s s1 s') :
    InLoop roots K p.pageTablePhys first (taken ++ [f]) s0 s' := by
  have hnone := u.new.free
  -- a page with the number of a frame taken earlier would be mapped by now
  have hnot : first + taken.length ∉ taken := fun hin => (h.number _ hin).2 hnone
  obtain ⟨hfresh, hstale⟩ := h.granted.free f u.new.fresh
  have hkeep : ∀ w < userPages, ∀ e, leafOf s p.pageTablePhys w = some e →
      leafOf s' p.pageTablePhys w = some e := by
    intro w hw e he
    refine u.kept hr hw ?_
    rw [u.new.leaf _ hr w hw, if_neg, he]
    rintro ⟨-, rfl⟩
    rw [hnone] at he
    cases he
  -- first the page with its old contents, then the store through page `f`
  have hpage : Granted (fun w g c => if w = first + taken.length then c = s0.mem g
      else Holds s0 first taken w g c) roots K p.pageTablePhys s0 s1 := by
    refine h.granted.page hr hv hfl u.new (fun w hw g c hc => ?_) ?_
    · rwa [if_neg hw]
    · rw [if_pos rfl, u.stale, hstale]
  have hothers : ∀ w, w ≠ f → ∀ g c, (if w = first + taken.length then c = s0.mem g
      else Holds s0 first taken w g c) → Holds s0 first (taken ++ [f]) w g c := by
    intro w hwf g c hc
    simp only [Holds, List.mem_append, List.mem_singleton, hwf, or_false, List.length_append,
      List.length_singleton] at hc ⊢
    split at hc
    · subst_vars
      rw [if_pos ⟨by omega, by omega, hnot⟩]
    · rw [hc]
      congr 1
      grind
  have hzero : ∀ g, Holds s0 first (taken ++ [f]) f g fun _ => 0 := by
    intro g
    simp [Holds]
  refine ⟨u.cr3.trans h.cr3, ?_, fun i g hi => ?_, fun g hg => ?_⟩
  · cases u.cleared with
    | mapped e leaf eq =>
      subst eq
      exact hpage.clear hr u.low leaf hothers hzero
    | missing g leaf new zero =>
      exact hpage.page hr u.low (pageFlags_demand _ _) new hothers (zero ▸ hzero g)
  · by_cases hlt : i < taken.length
    · rw [List.getElem?_append_left hlt] at hi
      obtain ⟨hlow, hfr, hbefore, e, he, hef⟩ := h.page i g hi
      exact ⟨hlow, hfr, hbefore, e, hkeep _ hlow e he, hef⟩
    · obtain ⟨rfl, rfl⟩ : i = taken.length ∧ f = g := by
        rw [List.getElem?_append_right (by omega), List.getElem?_singleton] at hi
        split at hi
        · cases hi
          exact ⟨by omega, rfl⟩
        · cases hi
      have hhere : leafOf s1 p.pageTablePhys (first + taken.length) =
          some (Pte.make (frameAddr f) flags) := by
        rw [u.new.leaf _ hr _ hv, if_pos ⟨rfl, rfl⟩]
      exact ⟨hv, hfresh, h.granted.old _ hv hnone, _, u.kept hr hv hhere,
        Pte.frame_make (lt_of_lt_of_le u.new.fresh.2.1 h.granted.wf.bound) hfl.1⟩
  · rcases List.mem_append.mp hg with hold | hnew
    · obtain ⟨hlow, hmapped⟩ := h.number g hold
      obtain ⟨e, he⟩ := Option.ne_none_iff_exists'.mp hmapped
      exact ⟨hlow, by simp [hkeep _ hlow e he]⟩
    · rw [List.mem_singleton.mp hnew]
      exact ⟨u.low, u.number hr⟩

/-- The loop of `brk` and `mmap`, whether it gets to its end or not. -/
theorem mapUserPages_takes {base result : Nat} (h : Wf s roots K) (hr : p.pageTablePhys ∈ roots)
    (hcr3 : s.cr3 = p.pageTablePhys) (hfl : PageFlags flags) (hfit : base / 4096 + n ≤ userPages) :
    Ends (orEnomem do
        forRange 0 n fun i => mapUserPage p flags (base + i * 4096)
        return .ok result) s
      (fun r s' => ∃ taken, InLoop roots K p.pageTablePhys (base / 4096) taken s s' ∧
        taken.length ≤ n ∧ (r.isOk = true → taken.length = n))
      fun e _ => Stopped e := by
  have hloop : Ends (forRange 0 n fun i => mapUserPage p flags (base + i * 4096)) s
      (fun _ s' => ∃ taken, InLoop roots K p.pageTablePhys (base / 4096) taken s s' ∧
        taken.length = 0 + n)
      fun e s' => Stopped e ∨ ∃ taken,
        InLoop roots K p.pageTablePhys (base / 4096) taken s s' ∧ taken.length ≤ n := by
    refine ends_forRange_from (fun k t => ∃ taken,
      InLoop roots K p.pageTablePhys (base / 4096) taken s t ∧ taken.length = k)
      ⟨[], ⟨hcr3, .start h, by simp, by simp⟩, rfl⟩ ?_
    rintro i t - hi ⟨taken, ht, rfl⟩
    have hva : base + taken.length * 4096 < 2 ^ 47 := by
      simp only [userPages] at hfit
      omega
    have hpage : (base + taken.length * 4096) / 4096 = base / 4096 + taken.length := by omega
    refine (mapUserPage_ends ht.granted.wf hr ht.cr3 hfl hva).mono ?_ fun e t' he =>
      he.imp_right fun hsame => ⟨taken, ht.same hr hsame, by omega⟩
    rintro _ t' ⟨f, t1, u⟩
    rw [hpage] at u
    exact ⟨taken ++ [f], ht.turn hr (by omega) hfl u, by simp⟩
  unfold orEnomem
  rw [ends_tryCatch]
  refine hloop.bind ?_ fun e s' he => ?_
  · rintro _ s' ⟨taken, ht, hlen⟩
    exact ⟨taken, ht, by omega, fun _ => by omega⟩
  · cases e with
    | err m =>
      obtain ⟨taken, ht, hle⟩ := he.resolve_left fun ⟨_, hp⟩ => nomatch hp
      exact ⟨taken, ht, hle, fun hok => nomatch hok⟩
    | panic m => exact ⟨m, rfl⟩

end

/-! ## The calls -/

/-- The outcome of a call: which frames it took for its pages, and that their old
contents decide whether anything leaks. -/
def Grant.Settled (op : Grant) (roots : Set Nat) (p : ProcMem) (s : KMem) (ok : Bool)
    (s' : KMem) : Prop :=
  ∃ taken, op.Took p s ok s' taken ∧ (NoLeak op roots p.pageTablePhys s s' ↔
    ∀ i f, taken[i]? = some f → Clear (s.mem f) ∨ (op.span p).1 + i ∈ taken)

section

variable {op : Grant} {p q : ProcMem} {ok : Bool} {addr : Nat}

/-- A call that takes nothing for pages of its own. -/
theorem settled_of_noLeak (hall : ok = true → (op.span p).2 = 0)
    (h : NoLeak op roots p.pageTablePhys s s') : op.Settled roots p s ok s' :=
  ⟨[], ⟨Nat.zero_le _, fun hok => (hall hok).symm, by simp⟩, by simpa using h⟩

/-- A call that adds no page. -/
theorem noLeak_of_leaves {pt : Nat}
    (h : ∀ v, ∀ e, leafOf s' pt v = some e → leafOf s pt v = some e) : NoLeak op roots pt s s' := by
  intro v hv hnone e he
  rw [h v e he] at hnone
  cases hnone

theorem noLeak_refl {pt : Nat} : NoLeak op roots pt s s := noLeak_of_leaves fun _ _ he => he

/-- A call that has gone through the loop. -/
theorem InLoop.settled {first n : Nat} {taken : List Nat} (hop : op.Content = Clear)
    (hspan : op.span p = (first, n)) (h : InLoop roots K p.pageTablePhys first taken s s')
    (hle : taken.length ≤ n) (hall : ok = true → taken.length = n) :
    op.Settled roots p s ok s' := by
  refine ⟨taken, ⟨by rwa [hspan], by rwa [hspan], fun i f hi => ?_⟩, ?_⟩
  · obtain ⟨-, hfresh, hbefore, e, he, hef⟩ := h.page i f hi
    rw [hspan]
    exact ⟨hfresh, hbefore, by rw [he, Option.map_some, hef]⟩
  rw [hspan]
  constructor
  · intro hno i f hi
    obtain ⟨hlow, -, hbefore, e, he, rfl⟩ := h.page i f hi
    have hclear := (hno _ hlow hbefore e he).1
    have hholds := (h.granted.pages _ hlow hbefore e he).1
    have hlt := (List.getElem?_eq_some_iff.mp hi).1
    by_cases hin : first + i ∈ taken
    · exact .inr hin
    · rw [Holds, if_pos ⟨by omega, by omega, hin⟩] at hholds
      rw [hop, hholds] at hclear
      exact .inl hclear
  · intro hclear v hv hnone e he
    obtain ⟨hholds, hone⟩ := h.granted.pages v hv hnone e he
    refine ⟨?_, hone⟩
    rw [hop, hholds]
    split
    · rename_i hin
      obtain ⟨i, rfl⟩ := Nat.exists_eq_add_of_le hin.1
      have hi : taken[i]? = some (taken[i]) := List.getElem?_eq_getElem (by omega)
      obtain ⟨-, -, -, e', he', hef⟩ := h.page i _ hi
      rw [he] at he'
      cases he'
      rw [hef]
      exact (hclear i _ hi).resolve_right hin.2.2
    · exact clear_zero

theorem brk_settled (h : (Grant.brk addr).Starts roots K p s) :
    Ends ((Grant.brk addr).run p) s (fun ok s' => (Grant.brk addr).Settled roots p s ok s')
      fun e s' => Stopped e ∨ (Grant.brk addr).Settled roots p s false s' := by
  have hbase : p.mmapBase ≤ 2 ^ 47 := h.base
  show Ends (brkHandler p addr >>= fun r => pure r.2.isOk) s _ _
  rw [ends_bind]
  unfold brkHandler
  by_cases h0 : addr = 0
  · rw [if_pos h0]
    refine settled_of_noLeak (fun _ => ?_) noLeak_refl
    subst h0
    simp only [Grant.span]
    split
    · simp [pageOf, pageSize]
    · rfl
  rw [if_neg h0]
  by_cases hrange : addr < p.heap.heapStart ∨ addr > p.heap.heapLimit
  · rw [if_pos hrange]
    refine settled_of_noLeak (fun _ => ?_) noLeak_refl
    simp only [Grant.span]
    rw [if_neg (by omega)]
  rw [if_neg hrange]
  by_cases hmmap : addr > p.mmapBase
  · rw [if_pos hmmap]
    exact settled_of_noLeak (fun hok => absurd hok Bool.false_ne_true) noLeak_refl
  rw [if_neg hmmap, addU64_eq (by omega), pure_bind]
  have hspan : (Grant.brk addr).span p =
      (p.heap.heapEnd / 4096, (pageOf (addr + 0xFFF) - p.heap.heapEnd) / 4096) := if_pos (by omega)
  have hround : pageOf (addr + 0xFFF) ≤ 2 ^ 47 := by
    simp only [pageOf, pageSize]
    omega
  generalize pageOf (addr + 0xFFF) = newBreak at *
  unfold moveBreak
  -- only a break that grows takes frames
  by_cases hgrow : newBreak > p.heap.heapEnd
  · simp only [hgrow, if_true, ends_bind]
    refine (mapUserPages_takes h.wf h.root (h.active rfl) pageFlags_heap ?_).mono ?_
      fun _ _ hs => .inl hs
    · simp only [userPages]
      omega
    · rintro r s' ⟨taken, ht, hle, hall⟩
      exact ht.settled rfl hspan hle hall
  have hnone : ((Grant.brk addr).span p).2 = 0 := by
    rw [hspan]
    simp only
    omega
  simp only [hgrow, if_false]
  by_cases hshrink : newBreak < p.heap.heapEnd
  · simp only [hshrink, if_true, ends_bind]
    have hclears : ∀ {ok s'}, Clears s s' → (Grant.brk addr).Settled roots p s ok s' := fun hc =>
      settled_of_noLeak (fun _ => hnone) (noLeak_of_leaves fun _ _ => hc.leaf)
    exact (MovesAlong.forRange (fun i => clears_unmapHeapPage p _) 0 _ s).mono
      (fun _ _ => hclears) fun _ _ hc => .inr (hclears hc)
  · simp only [hshrink, if_false]
    exact settled_of_noLeak (fun _ => hnone) noLeak_refl

/-- The rest of `mmap_handler`, with the process `q` after the choice of the address. -/
theorem mapAnonymous_settled {mapAddr size : Nat} {prot flags : BitVec 32}
    (h : op.Starts roots K p s)
    (hactive : s.cr3 = p.pageTablePhys) (hop : op.Content = Clear)
    (hq : q.pageTablePhys = p.pageTablePhys)
    (hspan : mapAddr < userSpaceMax → q.heap.heapEnd ≤ mapAddr →
      op.span p = (mapAddr / 4096, size / 4096))
    (hfit : (op.span p).1 + (op.span p).2 ≤ userPages) :
    Ends (mapAnonymous q mapAddr size prot flags) s (fun r s' => op.Settled roots p s r.2.isOk s')
      fun e _ => Stopped e := by
  unfold mapAnonymous
  by_cases hhigh : mapAddr ≥ userSpaceMax
  · rw [if_pos hhigh]
    exact settled_of_noLeak (fun hok => absurd hok Bool.false_ne_true) noLeak_refl
  rw [if_neg hhigh]
  by_cases hheap : mapAddr < q.heap.heapEnd
  · rw [if_pos hheap]
    exact settled_of_noLeak (fun hok => absurd hok Bool.false_ne_true) noLeak_refl
  rw [if_neg hheap]
  have hspan := hspan (by omega) (by omega)
  rw [hspan] at hfit
  simp only [ends_bind]
  refine (mapUserPages_takes h.wf (hq ▸ h.root) (hq ▸ hactive) (pageFlags_prot prot) hfit).imp ?_
  rintro r s' ⟨taken, ht, hle, hall⟩
  rw [hq] at ht
  exact ht.settled hop hspan hle hall

theorem mmap_settled {length : Nat} {prot flags : BitVec 32} {fd : Int}
    (h : (Grant.mmap addr length prot flags fd).Starts roots K p s)
    (hhalf : (Grant.mmap addr length prot flags fd).InUserHalf p) :
    Ends ((Grant.mmap addr length prot flags fd).run p) s
      (fun ok s' => (Grant.mmap addr length prot flags fd).Settled roots p s ok s')
      fun e _ => Stopped e := by
  have hrefused : (Grant.mmap addr length prot flags fd).Settled roots p s false s :=
    settled_of_noLeak (fun hok => absurd hok Bool.false_ne_true) noLeak_refl
  show Ends (mmapHandler p addr length prot flags fd >>= fun r => pure r.2.isOk) s _ _
  rw [ends_bind]
  unfold mmapHandler
  simp only
  -- the checks of the arguments, in the order of the handler
  by_cases hlen : length = 0 ∨ length > 0x4000_0000
  · rw [if_pos hlen]
    exact hrefused
  rw [if_neg hlen]
  by_cases hkind : flags &&& 0x20 = 0 ∨ flags &&& 2 = 0
  · rw [if_pos hkind]
    exact hrefused
  rw [if_neg hkind]
  by_cases hfd : fd ≠ -1
  · rw [if_pos hfd]
    exact hrefused
  rw [if_neg hfd]
  by_cases hwx : prot &&& 2 ≠ 0 ∧ prot &&& 4 ≠ 0
  · rw [if_pos hwx]
    exact hrefused
  rw [if_neg hwx]
  have hchecks : (0 < length ∧ length ≤ 0x4000_0000) ∧ (flags &&& 0x20 ≠ 0 ∧ flags &&& 2 ≠ 0) ∧
      fd = -1 ∧ ¬(prot &&& 2 ≠ 0 ∧ prot &&& 4 ≠ 0) :=
    ⟨by omega, not_or.mp hkind, not_not.mp hfd, hwx⟩
  obtain ⟨hlen, hkind, hfd, hwx⟩ := hchecks
  -- all checks are passed: only the choice of the address is left
  unfold chooseAddr
  by_cases h0 : addr = 0
  · simp only [h0, if_true]
    subst h0
    exact mapAnonymous_settled h (h.active rfl) rfl rfl
      (fun hlow habove => if_pos ⟨hlen, hkind, hfd, hwx, rfl, hlow, habove⟩) hhalf
  · simp only [h0, if_false]
    by_cases halign : addr % 4096 = 0
    · simp only [halign, ne_eq, not_true_eq_false, if_false]
      refine mapAnonymous_settled h (h.active rfl) rfl rfl (fun hlow habove => ?_) hhalf
      simp only [Grant.span, h0, if_false]
      exact if_pos ⟨hlen, hkind, hfd, hwx, halign, hlow, habove⟩
    · simp only [halign, ne_eq, not_false_eq_true, if_true]
      exact hrefused

/-! ## Stacks, images and faults -/

/-- New pages with contents `C`. -/
def grantRule (C : (Nat → Word) → Prop) : PageRule := fun _ flags _ new => PageFlags flags ∧ C new

theorem pageInv_granted {C : (Nat → Word) → Prop} {pt : Nat} (hr : pt ∈ roots) :
    PageInv roots K pt (grantRule C) (Granted (fun _ _ => C) roots K pt s0) where
  wf _ h := h.wf
  step _ _ _ _ _ hv h rule new := h.page hr hv rule.1 new (fun _ _ _ _ hc => hc) rule.2

theorem noLeak_of_pages (h : Wf s roots K) (hr : p.pageTablePhys ∈ roots)
    (m : Pages roots K p.pageTablePhys (grantRule op.Content) s s') :
    NoLeak op roots p.pageTablePhys s s' :=
  ((pageInv_granted hr).pages (.start h) m).pages

theorem noLeak_of_gaveUp (h : Wf s roots K) (hr : p.pageTablePhys ∈ roots)
    (hgave : GaveUp roots K p.pageTablePhys (grantRule op.Content) s s') :
    NoLeak op roots p.pageTablePhys s s' := by
  obtain ⟨t, m, hsame⟩ := hgave
  exact (((pageInv_granted hr).pages (.start h) m).same hr hsame).pages

theorem fault_noLeak {cr2 : Nat} {write user : Bool}
    (h : (Grant.fault cr2 write user).Starts roots K p s) (hcr2 : cr2 < userSpaceMax) :
    Ends (pageFaultHandler (some p) cr2 false write user) s
      (fun _ s' => NoLeak (.fault cr2 write user) roots p.pageTablePhys s s')
      fun e _ => Stopped e := by
  rw [pageFaultHandler_missing hcr2]
  refine (handleDemandPaging_ends h.wf h.root hcr2).imp ?_
  rintro _ s' ⟨f, new, zero⟩
  refine noLeak_of_pages h.wf h.root (.single ⟨_, f, _, page_lt hcr2, ?_, new⟩)
  rw [zero]
  exact ⟨pageFlags_demand _ _, clear_zero⟩

/-- Every call, however it ends. -/
theorem Grant.settled (h : op.Starts roots K p s) (hhalf : op.InUserHalf p) :
    Ends (op.run p) s (fun ok s' => op.Settled roots p s ok s')
      fun e s' => Stopped e ∨ op.Settled roots p s false s' := by
  cases op with
  | brk addr => exact brk_settled h
  | mmap addr length prot flags fd =>
    exact (mmap_settled h hhalf).mono (fun _ _ hd => hd) fun _ _ hs => .inl hs
  | fault cr2 write user =>
    refine (fault_noLeak h hhalf).bind (fun _ s' hno => ?_) fun _ _ hs => .inl hs
    exact settled_of_noLeak (fun _ => rfl) hno
  | stack stackTop numPages =>
    refine (allocateStack_ends (A := grantRule Clear) h.wf h.root pageFlags_userStack hhalf
      fun i _ c => ⟨pageFlags_userStack, clear_zero⟩).bind (fun _ s' hpages => ?_) fun e s' he => ?_
    · exact settled_of_noLeak (fun _ => rfl) (noLeak_of_pages h.wf h.root hpages.1)
    · exact he.imp_right fun hgave =>
        settled_of_noLeak (fun _ => rfl) (noLeak_of_gaveUp h.wf h.root hgave)
  | load info data =>
    refine (loadElfSegments_ends (A := grantRule (FileBytes data)) h.wf h.root fun seg hseg =>
      ⟨hhalf seg hseg,
      fun v _ c c' hc => ⟨pageFlags_segment seg, hc⟩⟩).bind (fun _ s' hpages => ?_)
        fun e s' he => ?_
    · exact settled_of_noLeak (fun _ => rfl) (noLeak_of_pages h.wf h.root hpages.1)
    · exact he.imp (fun hs => hs.1) fun hgave =>
        settled_of_noLeak (fun _ => rfl) (noLeak_of_gaveUp h.wf h.root hgave.2.1)

end

/-- A process with an empty heap at 4 MiB. -/
def heapProc (pt heapEnd : Nat) : ProcMem where
  entryPoint := 0
  userStackPtr := 0
  kernelStackPtr := 0
  pageTablePhys := pt
  heap := ⟨0x40_0000, heapEnd, 0x8000_0000⟩
  mappings := []
  mmapBase := initialMmapBase
  vmRegions := []

/-- Frames 1 to 31 are free and hold zeros. -/
def cleanMem : KMem where
  mem := fun _ _ => 0
  frames := FrameAllocator.new 1 32
  tracker := none
  cr3 := 0
  debug := true

/-- Make a page table current. -/
def switchTo (pt : Nat) : KM Unit := modify fun s => { s with cr3 := pt }

/-- One process takes a page of heap, writes to it and gives it back. -/
def leaveSecret (pt : Nat) : KM Unit := do
  switchTo pt
  let _ ← brkHandler (heapProc pt 0x40_0000) 0x40_1000
  match translate (← get).mem pt 0x40_0000 with
  | some t => writeEntry t.frame 0 0x5EC
  | none => throwPanic "heap page is not mapped"
  let _ ← brkHandler (heapProc pt 0x40_1000) 0x40_0000

/-- Two processes; the first has run. -/
def secondProcess : KM Nat := do
  let a ← createUserPageTable
  let b ← createUserPageTable
  leaveSecret a
  switchTo b
  return b

end PandaOS.Kernel
