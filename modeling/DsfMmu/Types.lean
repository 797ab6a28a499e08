import DsfMmu.IntTable

namespace DsfMmu

/-- `mmu_tier_t`. -/
inductive MmuTier
  | l0
  | l1
  | l2
  deriving DecidableEq, Repr

/-- The failing values of `mmu_status_t`; `MMU_STATUS_OK` is `Except.ok`. -/
inductive MmuError
  | invalidArgument
  | outOfMemory
  | unallocated
  | notFound
  | internal
  | versionMismatch
  | badHandle
  deriving DecidableEq, Repr

abbrev Bytes := List UInt8

/-- A block slot of a chunk: `chunk.get() + block * block_size`. -/
structure PagePtr where
  chunk : Nat
  block : Nat
  deriving DecidableEq, Repr

/-- `physical_route_t`. -/
structure PhysicalRoute where
  tier : MmuTier
  physicalBlockId : Int
  byteOffset : Nat
  deriving DecidableEq, Repr

/-- `MMU_MAP_READ` and `MMU_MAP_WRITE`. -/
def mapRead : UInt32 := 1
def mapWrite : UInt32 := 2

/-- `mmu_mapped_block_t`. -/
structure MappedBlock where
  hostPtr : PagePtr
  sizeBytes : Nat
  physicalBlockId : Int
  logicalBlockId : UInt32
  mapFlags : UInt32
  deriving DecidableEq, Repr

/-- A context's address; zero is `nullptr`. -/
abbrev CtxHandle := Nat

def nullHandle : CtxHandle := 0

/-- `kInvalidBlockId`, `kInvalidFrameId` and `kInvalidSlotId`. -/
def kInvalidBlockId : Int := -1
def kInvalidFrameId : Int := -1
def kInvalidSlotId : Int := -1

/-- `std::numeric_limits<int>::max()`. -/
def intMax : Int := 2 ^ 31 - 1

/-- `U32ToInt`. -/
def u32ToInt (value : UInt32) : Option Int :=
  if value.toNat > 2 ^ 31 - 1 then none else some value.toNat

theorem u32ToInt_eq_some {value : UInt32} {out : Int} (h : u32ToInt value = some out) :
    out = value.toNat ∧ value.toNat < 2 ^ 31 := by
  unfold u32ToInt at h
  split at h
  next => simp at h
  next hb =>
    cases Option.some.inj h
    exact ⟨rfl, by omega⟩

theorem u32ToInt_inj {a b : UInt32} {out : Int} (ha : u32ToInt a = some out)
    (hb : u32ToInt b = some out) : a = b := by
  have ea := (u32ToInt_eq_some ha).1
  have eb := (u32ToInt_eq_some hb).1
  exact UInt32.toNat_inj.mp (by omega)

/-- `ValidateMapFlags`. -/
def validateMapFlags (mapFlags : UInt32) : Bool :=
  let allowed := mapRead ||| mapWrite
  if mapFlags &&& allowed = 0 then false
  else if mapFlags &&& ~~~allowed ≠ 0 then false
  else true

/-- The write bit of a mapping's flags. -/
def hasWrite (mapFlags : UInt32) : Bool := mapFlags &&& mapWrite ≠ 0

end DsfMmu
