import DsfMmu.Types

namespace DsfMmu

/-- `BlockMeta`. -/
structure BlockMeta where
  allocated : Bool
  tier : MmuTier
  residentInL1 : Bool
  dirty : Bool
  pinCount : Nat
  lastAccessEpoch : Nat
  l1FrameId : Int
  l2SlotId : Int
  hasL2Backing : Bool
  deriving DecidableEq, Repr

/-- `MakeFreshMeta`. -/
def makeFreshMeta : BlockMeta where
  allocated := true
  tier := .l1
  residentInL1 := false
  dirty := false
  pinCount := 0
  lastAccessEpoch := 0
  l1FrameId := kInvalidFrameId
  l2SlotId := kInvalidSlotId
  hasL2Backing := false

/-- `BlockDirectory::MakeDefaultMeta`. -/
def makeDefaultMeta : BlockMeta where
  allocated := false
  tier := .l2
  residentInL1 := false
  dirty := false
  pinCount := 0
  lastAccessEpoch := 0
  l1FrameId := kInvalidFrameId
  l2SlotId := kInvalidSlotId
  hasL2Backing := false

/-- `++meta->pin_count` on a `uint32_t`. -/
def nextPinCount (pinCount : Nat) : Nat := (pinCount + 1) % 2 ^ 32

/-- `BlockDirectory`. -/
structure BlockDirectory where
  metas : IntTable BlockMeta

namespace BlockDirectory

def new (capacity : Nat) : BlockDirectory := ⟨⟨capacity, fun _ => makeDefaultMeta⟩⟩

def isValid (d : BlockDirectory) (blockId : Int) : Prop := d.metas.InRange blockId

instance (d : BlockDirectory) (p : Int) : Decidable (d.isValid p) :=
  inferInstanceAs (Decidable (d.metas.InRange p))

/-- `get` and `snapshot`. -/
def get (d : BlockDirectory) (blockId : Int) : Option BlockMeta :=
  if d.isValid blockId then some (d.metas.entry blockId) else none

/-- A write through `mutable_get`; a null record is left alone. -/
def mutate (d : BlockDirectory) (blockId : Int) (f : BlockMeta → BlockMeta) : BlockDirectory :=
  if d.isValid blockId then ⟨d.metas.set blockId (f (d.metas.entry blockId))⟩ else d

def initializeFreshBlock (d : BlockDirectory) (blockId : Int) : BlockDirectory :=
  d.mutate blockId fun _ => makeFreshMeta

def reset (d : BlockDirectory) (blockId : Int) : BlockDirectory :=
  d.mutate blockId fun _ => makeDefaultMeta

def setTier (d : BlockDirectory) (blockId : Int) (tier : MmuTier) : BlockDirectory :=
  d.mutate blockId fun m => { m with tier := tier }

def setDirty (d : BlockDirectory) (blockId : Int) (dirty : Bool) : BlockDirectory :=
  d.mutate blockId fun m => { m with dirty := dirty }

def incrementPinCount (d : BlockDirectory) (blockId : Int) : Bool × BlockDirectory :=
  if d.isValid blockId then
    (true, d.mutate blockId fun m => { m with pinCount := nextPinCount m.pinCount })
  else (false, d)

def decrementPinCount (d : BlockDirectory) (blockId : Int) : Bool × BlockDirectory :=
  match d.get blockId with
  | none => (false, d)
  | some blockMeta =>
    if blockMeta.pinCount = 0 then (false, d)
    else (true, d.mutate blockId fun m => { m with pinCount := m.pinCount - 1 })

def setLastAccessEpoch (d : BlockDirectory) (blockId : Int) (epoch : Nat) : BlockDirectory :=
  d.mutate blockId fun m => { m with lastAccessEpoch := epoch }

def setL1FrameId (d : BlockDirectory) (blockId frameId : Int) : BlockDirectory :=
  d.mutate blockId fun m => { m with l1FrameId := frameId }

def setL2SlotId (d : BlockDirectory) (blockId slotId : Int) : BlockDirectory :=
  d.mutate blockId fun m => { m with l2SlotId := slotId }

def setHasL2Backing (d : BlockDirectory) (blockId : Int) (has : Bool) : BlockDirectory :=
  d.mutate blockId fun m => { m with hasL2Backing := has }

@[simp] theorem mutate_size (d : BlockDirectory) (p : Int) (f : BlockMeta → BlockMeta) :
    (d.mutate p f).metas.size = d.metas.size := by
  unfold mutate
  split <;> rfl

@[simp] theorem mutate_isValid (d : BlockDirectory) (p q : Int) (f : BlockMeta → BlockMeta) :
    (d.mutate p f).isValid q ↔ d.isValid q := by
  unfold mutate
  split <;> rfl

theorem mutate_entry {d : BlockDirectory} {p : Int} (hv : d.isValid p) (f : BlockMeta → BlockMeta)
    (q : Int) : (d.mutate p f).metas.entry q = if q = p then f (d.metas.entry p) else d.metas.entry q := by
  simp [mutate, hv, IntTable.set_entry]

theorem mutate_mutate (d : BlockDirectory) (p : Int) (f g : BlockMeta → BlockMeta) :
    (d.mutate p f).mutate p g = d.mutate p (fun m => g (f m)) := by
  by_cases hv : d.isValid p
  · have hv' : (d.mutate p f).isValid p := by simpa using hv
    rw [mutate, if_pos hv']
    simp [mutate, hv, IntTable.set]
  · simp [mutate, hv]

theorem mutate_eq_self {d : BlockDirectory} {p : Int} {f : BlockMeta → BlockMeta}
    (h : f (d.metas.entry p) = d.metas.entry p) : d.mutate p f = d := by
  unfold mutate
  split
  · rw [h, IntTable.set_same]
  · rfl

theorem get_eq_some {d : BlockDirectory} {p : Int} (hv : d.isValid p) :
    d.get p = some (d.metas.entry p) := by
  simp [get, hv]

end BlockDirectory

end DsfMmu
