import DsfMmu.Types

namespace DsfMmu

/-- `PageTable`: the `block_id` of each `LogicalEntry`, `kInvalidBlockId` in a released one. -/
structure PageTable where
  entries : List Int
  deriving DecidableEq

namespace PageTable

def empty : PageTable := ⟨[]⟩

def append (pt : PageTable) (blockId : Int) : PageTable := ⟨pt.entries ++ [blockId]⟩

/-- The bounds check of `get` and `set`, against the size narrowed to `int`. -/
def inBounds (pt : PageTable) (logicalBlockId : Int) : Prop :=
  0 ≤ logicalBlockId ∧ logicalBlockId < staticCastInt pt.entries.length

instance (pt : PageTable) (lvid : Int) : Decidable (pt.inBounds lvid) :=
  inferInstanceAs (Decidable (0 ≤ lvid ∧ lvid < staticCastInt pt.entries.length))

def get (pt : PageTable) (logicalBlockId : Int) : Option Int :=
  if pt.inBounds logicalBlockId then pt.entries[logicalBlockId.toNat]? else none

def set (pt : PageTable) (logicalBlockId blockId : Int) : PageTable :=
  if pt.inBounds logicalBlockId then ⟨pt.entries.set logicalBlockId.toNat blockId⟩ else pt

end PageTable

end DsfMmu
