import DsfMmu.Interleaving
import DsfMmu.KvExample

namespace DsfMmu

namespace ParallelTest

open Procedure

/-- Where a worker is in its loop. The lock is held for the whole of an API call, so that a call is one turn; the
check of the flag and the store through `host_ptr` are turns of their own. -/
inductive Phase
  | checking
  | mapping
  | storing (mapped : MappedBlock)
  | unmapping (mapped : MappedBlock)
  | returned
  deriving DecidableEq

structure Worker where
  phase : Phase
  iter : Nat
  lastValue : UInt8

/-- What the workers share. -/
structure Shared (threads : Nat) where
  mmu : MmuRuntime
  failed : Bool
  expectedLast : Fin threads → UInt8

/-- `(tid * 31u + iter) & 0xFFu`. -/
def workerValue (tid iter : Nat) : UInt8 := ((UInt32.ofNat tid * 31 + .ofNat iter) &&& 0xFF).toUInt8

section Program

variable {threads : Nat} (contexts : Fin threads → CtxHandle) (iters : Nat)

/-- The thread's lambda, one turn at a time. -/
def workerTurn (tid : Fin threads) (w : Worker) (s : Shared threads) : Option (Worker × Shared threads) :=
  match w.phase with
  | .checking =>
    if w.iter < iters then
      if s.failed then some ({ w with phase := .returned }, s) else some ({ w with phase := .mapping }, s)
    else
      some ({ w with phase := .returned }, { s with expectedLast := Function.update s.expectedLast tid w.lastValue })
  | .mapping =>
    match mmuMapLogicalBlock s.mmu (contexts tid) 0 KvExample.mapReadWrite with
    | (.error _, mmu) => some ({ w with phase := .returned }, { s with mmu := mmu, failed := true })
    | (.ok mapped, mmu) => some ({ w with phase := .storing mapped }, { s with mmu := mmu })
  | .storing mapped =>
    let lastValue := workerValue tid w.iter
    some ({ w with phase := .unmapping mapped, lastValue := lastValue },
      { s with mmu := hostWrite s.mmu mapped 0 lastValue })
  | .unmapping mapped =>
    match mmuUnmapLogicalBlock s.mmu (contexts tid) mapped with
    | (.error _, mmu) => some ({ w with phase := .returned }, { s with mmu := mmu, failed := true })
    | (.ok _, mmu) => some ({ w with phase := .checking, iter := w.iter + 1 }, { s with mmu := mmu })
  | .returned => none

def workers : Parties (Fin threads) Worker (Shared threads) := ⟨workerTurn contexts iters⟩

/-- A context with one block for each worker. -/
def setUp : Procedure MmuRuntime Unit :=
  (List.finRange threads).forM fun tid => do
    let _ ← attempt (mmuCreateContext · (some (contexts tid)))
    attempt (mmuAllocateBlocks · (contexts tid) 1)

/-- The check after the threads have been joined. -/
def checkLast (expectedLast : Fin threads → UInt8) : Procedure MmuRuntime Bool :=
  (List.finRange threads).foldlM (fun same tid => do
    let mapped ← attempt (mmuMapLogicalBlock · (contexts tid) 0 mapRead)
    let value ← query fun mmu => (hostRead mmu mapped).headD 0
    attempt (mmuUnmapLogicalBlock · (contexts tid) mapped)
    pure (same && value == expectedLast tid)) true

/-- All threads about to enter their loops. -/
def launched (mmu : MmuRuntime) : (Fin threads → Worker) × Shared threads :=
  (fun _ => ⟨.checking, 0, 0⟩, ⟨mmu, false, fun _ => 0⟩)

/-- The test passes however its threads are scheduled. -/
def AlwaysPasses (start : MmuRuntime) : Prop :=
  ∃ mmu, setUp contexts start = (some (), mmu) ∧
    ∀ n t, (workers contexts iters).Run (launched mmu) n t → (workers contexts iters).Quiet t →
      t.2.failed = false ∧ ∃ mmu', checkLast contexts t.2.expectedLast t.2.mmu = (some true, mmu')

end Program

end ParallelTest

end DsfMmu
