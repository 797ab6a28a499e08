import DsfMmu.Runtime

namespace DsfMmu

/-- A page a block owns: where it is and what it holds. -/
structure Page where
  ptr : PagePtr
  bytes : Bytes

/-- All there is to one physical block: its record and the pages it owns. -/
@[ext] structure BlockView where
  info : BlockMeta
  l1 : Option Page
  l2 : Option Page

namespace BlockView

/-- What a copy from a page, or from none, leaves. -/
def pageBytes (zero : Bytes) : Option Page → Bytes
  | none => zero
  | some page => page.bytes

@[simp] theorem pageBytes_none (zero : Bytes) : pageBytes zero none = zero := rfl
@[simp] theorem pageBytes_some (zero : Bytes) (page : Page) : pageBytes zero (some page) = page.bytes := rfl

/-- The logical bytes: the L1 page of a resident block, else the L2 page, zeros without one. -/
def bytes (zero : Bytes) (v : BlockView) : Bytes :=
  if v.info.residentInL1 then pageBytes zero v.l1 else pageBytes zero v.l2

def unused : BlockView := ⟨makeDefaultMeta, none, none⟩

/-- What the directory and the pools agree on for block `p`; `live` says that it is referenced. -/
structure Ok (zero : Bytes) (p : Int) (live : Prop) (v : BlockView) : Prop where
  allocated : v.info.allocated = true ↔ live
  unused : ¬live → v = BlockView.unused
  tier : live → v.info.tier = if v.info.residentInL1 then .l1 else .l2
  frame : v.info.l1FrameId = if v.info.residentInL1 then p else kInvalidFrameId
  backing : v.info.hasL2Backing = v.l2.isSome
  slot : v.info.l2SlotId = if v.l2.isSome then p else kInvalidSlotId
  l1_resident : v.l1.isSome → v.info.residentInL1 = true
  pinned : 0 < v.info.pinCount → v.l1.isSome
  unmaterialised : v.info.residentInL1 = true → v.l1 = none → pageBytes zero v.l2 = zero

/-- `SyncL1ToL2`. -/
def writtenBack (zero : Bytes) (p : Int) (ptr : PagePtr) (v : BlockView) : BlockView where
  info := { v.info with hasL2Backing := true, l2SlotId := p }
  l1 := v.l1
  l2 := some ⟨ptr, pageBytes zero v.l1⟩

/-- `MoveBlockToL2` of a resident block. -/
def demoted (zero : Bytes) (p : Int) (ptr : PagePtr) (v : BlockView) : BlockView where
  info := { (v.writtenBack zero p ptr).info with
    residentInL1 := false, l1FrameId := kInvalidFrameId, tier := .l2 }
  l1 := none
  l2 := (v.writtenBack zero p ptr).l2

/-- `SyncL2ToL1` and what `EnsureResidentInL1` does after it. -/
def promoted (zero : Bytes) (p : Int) (ptr : PagePtr) (epoch : Nat) (v : BlockView) : BlockView where
  info := { v.info with
    residentInL1 := true, l1FrameId := p, tier := .l1, lastAccessEpoch := epoch }
  l1 := some ⟨ptr, pageBytes zero v.l2⟩
  l2 := v.l2

def touched (epoch : Nat) (v : BlockView) : BlockView :=
  { v with info := { v.info with lastAccessEpoch := epoch } }

def withDirty (dirty : Bool) (v : BlockView) : BlockView :=
  { v with info := { v.info with dirty := dirty } }

/-- The L1 page of a block is there after `AcquirePage`, cleared when it is new. -/
def materialised (zero : Bytes) (ptr : PagePtr) (v : BlockView) : BlockView :=
  { v with l1 := some ⟨ptr, pageBytes zero v.l1⟩ }

def withPins (pins : Nat) (v : BlockView) : BlockView :=
  { v with info := { v.info with pinCount := pins } }

/-- A new block that `RegisterFreshBlock` makes resident. -/
def freshResident (p : Int) (epoch : Nat) : BlockView where
  info := { makeFreshMeta with
    residentInL1 := true, l1FrameId := p, lastAccessEpoch := epoch }
  l1 := none
  l2 := none

/-- A new block outside L1: `RegisterFreshBlock` without room, or CoW before the clone. -/
def freshSwapped : BlockView := ⟨{ makeFreshMeta with tier := .l2 }, none, none⟩

/-- A CoW target after the clone. -/
def cloned (p : Int) (ptr : PagePtr) (source : Bytes) : BlockView where
  info := { makeFreshMeta with tier := .l2, hasL2Backing := true, l2SlotId := p }
  l1 := none
  l2 := some ⟨ptr, source⟩

/-- A byte stored at an L1 slot, whoever owns it. -/
def stored (ptr : PagePtr) (offset : Nat) (byte : UInt8) (v : BlockView) : BlockView :=
  { v with l1 := v.l1.map fun page =>
      if page.ptr = ptr then ⟨ptr, page.bytes.set offset byte⟩ else page }

/-- The bytes `CloneBlockDataForCow` copies when the caller names the tier of the source. -/
def cowBytes (zero : Bytes) (srcTier : MmuTier) (v : BlockView) : Bytes :=
  pageBytes zero
    (((if srcTier = .l1 ∧ v.info.residentInL1 then v.l1 else none).or v.l2).or v.l1)

/-- A new view of one block changes nothing in which it agrees with the old one. -/
theorem update_field {α : Type} (g : BlockView → α) {f : Int → BlockView} {p : Int} {v : BlockView}
    (h : g v = g (f p)) (q : Int) : g (Function.update f p v q) = g (f q) := by
  by_cases hq : q = p
  · rw [hq, Function.update_self, h]
  · rw [Function.update_of_ne hq]

section Preserved

variable {zero : Bytes} {p : Int} {v : BlockView}

theorem unused_ok : Ok zero p False unused := by
  constructor <;> simp [unused, makeDefaultMeta, kInvalidFrameId, kInvalidSlotId]

theorem Ok.resident_live {live : Prop} (h : Ok zero p live v) (hr : v.info.residentInL1 = true) : live := by
  by_contra hl
  rw [h.unused hl] at hr
  simp [BlockView.unused, makeDefaultMeta] at hr

theorem Ok.pinned_resident {live : Prop} (h : Ok zero p live v) (hp : 0 < v.info.pinCount) :
    v.info.residentInL1 = true := h.l1_resident (h.pinned hp)

theorem Ok.congr {live live' : Prop} (h : Ok zero p live v) (hl : live ↔ live') : Ok zero p live' v := by
  have : live = live' := propext hl
  exact this ▸ h

theorem writtenBack_ok (h : Ok zero p True v) (ptr : PagePtr) :
    Ok zero p True (v.writtenBack zero p ptr) := by
  refine ⟨h.allocated, fun hl => absurd trivial hl, h.tier, h.frame, rfl, rfl, h.l1_resident, h.pinned, ?_⟩
  intro _ hn
  have hn' : v.l1 = none := hn
  simp [writtenBack, hn']

theorem writtenBack_bytes (hr : v.info.residentInL1 = true) (ptr : PagePtr) :
    (v.writtenBack zero p ptr).bytes zero = v.bytes zero := by
  simp [bytes, writtenBack, hr]

theorem demoted_ok (h : Ok zero p True v) (hp : v.info.pinCount = 0) (ptr : PagePtr) :
    Ok zero p True (v.demoted zero p ptr) := by
  refine ⟨h.allocated, fun hl => absurd trivial hl, fun _ => rfl, rfl, rfl, rfl, ?_, ?_, ?_⟩
  · intro hn
    simp [demoted] at hn
  · intro hn
    have hn' : 0 < v.info.pinCount := hn
    omega
  · intro hr
    simp [demoted] at hr

theorem demoted_bytes (hr : v.info.residentInL1 = true) (ptr : PagePtr) :
    (v.demoted zero p ptr).bytes zero = v.bytes zero := by
  simp [bytes, demoted, writtenBack, hr]

theorem promoted_ok (h : Ok zero p True v) (ptr : PagePtr) (epoch : Nat) :
    Ok zero p True (v.promoted zero p ptr epoch) := by
  refine ⟨h.allocated, fun hl => absurd trivial hl, fun _ => rfl, rfl, h.backing, h.slot, fun _ => rfl,
    fun _ => rfl, ?_⟩
  intro _ hn
  simp [promoted] at hn

theorem promoted_bytes (hr : v.info.residentInL1 = false) (ptr : PagePtr) (epoch : Nat) :
    (v.promoted zero p ptr epoch).bytes zero = v.bytes zero := by
  simp [bytes, promoted, hr]

theorem touched_ok (h : Ok zero p True v) (epoch : Nat) : Ok zero p True (v.touched epoch) :=
  ⟨h.allocated, fun hl => absurd trivial hl, h.tier, h.frame, h.backing, h.slot, h.l1_resident, h.pinned,
    h.unmaterialised⟩

theorem withDirty_ok (h : Ok zero p True v) (dirty : Bool) : Ok zero p True (v.withDirty dirty) :=
  ⟨h.allocated, fun hl => absurd trivial hl, h.tier, h.frame, h.backing, h.slot, h.l1_resident, h.pinned,
    h.unmaterialised⟩

theorem materialised_ok (h : Ok zero p True v) (hr : v.info.residentInL1 = true) (ptr : PagePtr) :
    Ok zero p True (v.materialised zero ptr) := by
  refine ⟨h.allocated, fun hl => absurd trivial hl, h.tier, h.frame, h.backing, h.slot, fun _ => hr,
    fun _ => rfl, ?_⟩
  intro _ hn
  simp [materialised] at hn

theorem materialised_bytes (hr : v.info.residentInL1 = true) (ptr : PagePtr) :
    (v.materialised zero ptr).bytes zero = v.bytes zero := by
  simp [bytes, materialised, hr]

/-- Any pin count is coherent while the block owns its L1 page. -/
theorem withPins_ok (h : Ok zero p True v) (hl : v.l1.isSome) (pins : Nat) :
    Ok zero p True (v.withPins pins) :=
  ⟨h.allocated, fun hl => absurd trivial hl, h.tier, h.frame, h.backing, h.slot, h.l1_resident,
    fun _ => hl, h.unmaterialised⟩

theorem withPins_le_ok (h : Ok zero p True v) {pins : Nat} (hp : pins ≤ v.info.pinCount) :
    Ok zero p True (v.withPins pins) :=
  ⟨h.allocated, fun hl => absurd trivial hl, h.tier, h.frame, h.backing, h.slot, h.l1_resident,
    fun hpos => h.pinned (lt_of_lt_of_le hpos hp), h.unmaterialised⟩

theorem freshResident_ok (epoch : Nat) : Ok zero p True (freshResident p epoch) := by
  constructor <;> simp [freshResident, makeFreshMeta, kInvalidSlotId]

theorem freshSwapped_ok : Ok zero p True freshSwapped := by
  constructor <;> simp [freshSwapped, makeFreshMeta, kInvalidFrameId, kInvalidSlotId]

theorem cloned_ok (ptr : PagePtr) (source : Bytes) : Ok zero p True (cloned p ptr source) := by
  constructor <;> simp [cloned, makeFreshMeta, kInvalidFrameId]

theorem cloned_bytes (ptr : PagePtr) (source : Bytes) : (cloned p ptr source).bytes zero = source := by
  simp [bytes, cloned, makeFreshMeta]

/-- The tier of a coherent block leads the clone to the page that holds its bytes. -/
theorem cowBytes_tier (h : Ok zero p True v) : v.cowBytes zero v.info.tier = v.bytes zero := by
  have htier := h.tier trivial
  cases hr : v.info.residentInL1 with
  | true =>
    have ht : v.info.tier = .l1 := by simpa [hr] using htier
    cases hl : v.l1 with
    | some page => simp [cowBytes, bytes, ht, hr, hl]
    | none =>
      have hz := h.unmaterialised hr hl
      simpa [cowBytes, bytes, ht, hr, hl] using hz
  | false =>
    have hl : v.l1 = none := by
      cases hl : v.l1 with
      | none => rfl
      | some page => simp [h.l1_resident (by simp [hl])] at hr
    simp [cowBytes, bytes, hr, hl]

theorem stored_ok {live : Prop} (h : Ok zero p live v) (ptr : PagePtr) (offset : Nat) (byte : UInt8) :
    Ok zero p live (v.stored ptr offset byte) := by
  refine ⟨h.allocated, ?_, h.tier, h.frame, h.backing, h.slot, ?_, ?_, ?_⟩
  · intro hl
    rw [h.unused hl]
    rfl
  · simpa [stored] using h.l1_resident
  · simpa [stored] using h.pinned
  · simpa [stored] using h.unmaterialised

end Preserved

end BlockView

end DsfMmu
