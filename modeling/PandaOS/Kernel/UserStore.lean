import PandaOS.Kernel.Fault
import PandaOS.Kernel.Syscall

/-!
# Stores of the kernel to user memory

`copy_to_user_bytes` of `usermode.rs` on the page tables. System calls hand
their results to the program through it: each byte is stored at its user
address with the process's table active, so that a missing or read-only page
raises a fault in kernel mode.
-/

namespace PandaOS.Kernel

open Lib

/-- A store of one byte by the kernel. A page that is missing is brought in by
the fault handler, and the store is tried again. -/
def kernelStore (p : ProcMem) (va : Nat) (b : BitVec 8) : KM Unit := do
  failIf (!canonical va) (.panic "EXCEPTION: DOUBLE FAULT")
  if (translate (← get).mem (← get).cr3 va).isNone then
    pageFaultHandler (some p) va false true false
  match translate (← get).mem (← get).cr3 va with
  | none => pageFaultHandler (some p) va false true false
  | some t =>
    if t.writable then writeBytes (t.frame * 4096 + va % 4096) [b]
    else pageFaultHandler (some p) va true true false

/-- The first `n` bytes of `src` stored from `ptr` on. -/
def storeUserBytes (p : ProcMem) (ptr : Nat) (src : List (BitVec 8)) (n : Nat) : KM Unit :=
  forRange 0 n fun i => kernelStore p (ptr + i) (src.getD i 0)

/-- `copy_to_user_bytes`. -/
def copyToUser (p : ProcMem) (ptr : Nat) (src : List (BitVec 8)) : KM (Except ErrorCode Nat) :=
  if ptr = 0 then return .error .efault
  else if src.isEmpty then return .ok 0
  else if 2 ^ 64 ≤ ptr + src.length then return .error .efault
  else do
    storeUserBytes p ptr src src.length
    return .ok src.length

end PandaOS.Kernel
