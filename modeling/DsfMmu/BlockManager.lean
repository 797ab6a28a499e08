import DsfMmu.Types

namespace DsfMmu

/-- `BlockManager`. A count is kept without a bound: the source's `int` agrees as long as
no count passes `INT_MAX`. The back of `free_list_` is the end of the list. -/
structure BlockManager where
  refCounts : IntTable Int
  freeList : List Int

namespace BlockManager

/-- The ids pushed by `for (int i = n - 1; i >= 0; --i)`. -/
def countDown : Nat → List Int
  | 0 => []
  | n + 1 => (n : Int) :: countDown n

/-- The constructor, for every count whose loop start is an `int`. At `2 ^ 31` blocks `static_cast<int>` yields
`INT_MIN` and the loop start overflows: see `construct`. -/
def new (totalBlocks : Nat) : BlockManager :=
  ⟨⟨totalBlocks, fun _ => 0⟩, countDown (staticCastInt totalBlocks).toNat⟩

/-- `static_cast<int>(total_blocks) - 1`, wrapping as compiled code does where the subtraction overflows. -/
def loopStart (totalBlocks : Nat) : Int := Int.bmod (staticCastInt totalBlocks - 1) (2 ^ 32)

/-- The constructor as compiled, for every `uint32_t`. -/
def construct (totalBlocks : Nat) : BlockManager :=
  ⟨⟨totalBlocks, fun _ => 0⟩, countDown (loopStart totalBlocks + 1).toNat⟩

theorem loopStart_eq {n : Nat} (fits : n < 2 ^ 32) (hne : n ≠ 2 ^ 31) : loopStart n = staticCastInt n - 1 := by
  unfold loopStart
  by_cases hlt : n < 2 ^ 31
  · rw [staticCastInt_of_lt hlt, Int.bmod_def]
    omega
  · rw [staticCastInt_neg (not_lt.mp hlt) fits, Int.bmod_def]
    omega

/-- The two differ at `2 ^ 31` blocks only. -/
theorem construct_eq_new {n : Nat} (fits : n < 2 ^ 32) (hne : n ≠ 2 ^ 31) : construct n = new n := by
  unfold construct new
  rw [loopStart_eq fits hne, sub_add_cancel]

def isValid (bm : BlockManager) (physicalBlockId : Int) : Prop :=
  bm.refCounts.InRange physicalBlockId

instance (bm : BlockManager) (p : Int) : Decidable (bm.isValid p) :=
  inferInstanceAs (Decidable (bm.refCounts.InRange p))

def allocate (bm : BlockManager) : Option (Int × BlockManager) :=
  match bm.freeList.getLast? with
  | none => none
  | some pbid => some (pbid, ⟨bm.refCounts.set pbid 1, bm.freeList.dropLast⟩)

def allocateSpecific (bm : BlockManager) (physicalBlockId : Int) : Bool × BlockManager :=
  if ¬bm.isValid physicalBlockId then (false, bm)
  else if physicalBlockId ∉ bm.freeList then (false, bm)
  else (true, ⟨bm.refCounts.set physicalBlockId 1, bm.freeList.erase physicalBlockId⟩)

def retain (bm : BlockManager) (physicalBlockId : Int) : Bool × BlockManager :=
  if ¬bm.isValid physicalBlockId then (false, bm)
  else if bm.refCounts.entry physicalBlockId ≤ 0 then (false, bm)
  else
    (true, { bm with
      refCounts := bm.refCounts.set physicalBlockId (bm.refCounts.entry physicalBlockId + 1) })

def release (bm : BlockManager) (physicalBlockId : Int) : Bool × BlockManager :=
  if ¬bm.isValid physicalBlockId then (false, bm)
  else if bm.refCounts.entry physicalBlockId ≤ 0 then (false, bm)
  else
    let count := bm.refCounts.entry physicalBlockId - 1
    let refCounts := bm.refCounts.set physicalBlockId count
    (true, ⟨refCounts, if count = 0 then bm.freeList ++ [physicalBlockId] else bm.freeList⟩)

def refCount (bm : BlockManager) (physicalBlockId : Int) : Int :=
  if bm.isValid physicalBlockId then bm.refCounts.entry physicalBlockId else -1

def freeBlocks (bm : BlockManager) : Nat := bm.freeList.length

def capacity (bm : BlockManager) : Nat := bm.refCounts.size

/-- Releasing a list of ids in order, results ignored. -/
def releaseAll (bm : BlockManager) (ids : List Int) : BlockManager :=
  ids.foldl (fun bm id => (bm.release id).2) bm

/-- The free list holds exactly the ids whose count is zero, and no count is negative. -/
structure Ok (bm : BlockManager) : Prop where
  nodup : bm.freeList.Nodup
  free_iff : ∀ p, p ∈ bm.freeList ↔ bm.isValid p ∧ bm.refCounts.entry p = 0
  nonneg : ∀ p, 0 ≤ bm.refCounts.entry p
  outside : ∀ p, ¬bm.isValid p → bm.refCounts.entry p = 0

end BlockManager

end DsfMmu
