import DsfMmu.BlockCounts
import DsfMmu.Machine

namespace DsfMmu

/-- The calls that change a `BlockManager`. `allocate` is given a place for its result. -/
inductive BlockCall
  | allocate
  | allocateSpecific (physicalBlockId : Int)
  | retain (physicalBlockId : Int)
  | release (physicalBlockId : Int)
  deriving DecidableEq

/-- The returned `bool`, and what `allocate` wrote to its result. -/
structure BlockReply where
  accepted : Bool
  allocated : Option Int
  deriving DecidableEq

namespace BlockManager

def perform (bm : BlockManager) : BlockCall → BlockReply × BlockManager
  | .allocate =>
    match bm.allocate with
    | none => (⟨false, none⟩, bm)
    | some (pbid, bm) => (⟨true, some pbid⟩, bm)
  | .allocateSpecific pbid => (⟨(bm.allocateSpecific pbid).1, none⟩, (bm.allocateSpecific pbid).2)
  | .retain pbid => (⟨(bm.retain pbid).1, none⟩, (bm.retain pbid).2)
  | .release pbid => (⟨(bm.release pbid).1, none⟩, (bm.release pbid).2)

/-- The call takes no count past `INT_MAX`. -/
def Countable (bm : BlockManager) : BlockCall → Prop
  | .retain pbid => bm.refCounts.entry pbid < intMax
  | _ => True

def machine : Machine BlockManager BlockCall BlockReply where
  enabled := Countable
  step := perform

/-- What every call keeps: the counts are the free list's, of the capacity the manager was built
with, and `int` holds them. -/
structure Sound (capacity : Nat) (bm : BlockManager) : Prop where
  ok : bm.Ok
  size : bm.refCounts.size = capacity
  counted : ∀ p, bm.refCounts.entry p ≤ intMax

variable {bm : BlockManager} {capacity : Nat}

theorem sound_new (capacity : Nat) : Sound capacity (new capacity) := by
  refine ⟨new_ok capacity, rfl, ?_⟩
  intro p
  show (0 : Int) ≤ intMax
  decide

theorem Taken.sound {ids : List Int} {bm' : BlockManager} (h : Sound capacity bm) (ht : Taken bm ids bm') :
    Sound capacity bm' := by
  refine ⟨ht.ok, ht.size.trans h.size, ?_⟩
  intro p
  rw [ht.entry]
  split
  next => decide
  next => exact h.counted p

theorem Sound.allocate (h : Sound capacity bm) : Sound capacity (bm.perform .allocate).2 := by
  cases ha : bm.allocate with
  | none =>
    simp only [perform, ha]
    exact h
  | some taken =>
    simp only [perform, ha]
    exact (h.ok.allocate_some ha).sound h

theorem Sound.allocateSpecific (h : Sound capacity bm) (p : Int) :
    Sound capacity (bm.perform (.allocateSpecific p)).2 := by
  by_cases hp : p ∈ bm.freeList
  · obtain ⟨bm', heq, ht⟩ := h.ok.allocateSpecific_some hp
    simp only [perform, heq]
    exact ht.sound h
  · simp only [perform, allocateSpecific_none hp]
    exact h

theorem Sound.retain {p : Int} (h : Sound capacity bm) (hcount : bm.Countable (.retain p)) :
    Sound capacity (bm.perform (.retain p)).2 := by
  have hlt : bm.refCounts.entry p < intMax := hcount
  refine ⟨h.ok.retain p, (retain_size bm p).trans h.size, ?_⟩
  intro q
  have hq := h.counted q
  show (bm.retain p).2.refCounts.entry q ≤ intMax
  rw [h.ok.retain_entry]
  split
  next hself =>
    rw [hself.1]
    omega
  next => exact hq

theorem Sound.release (h : Sound capacity bm) (p : Int) : Sound capacity (bm.perform (.release p)).2 := by
  refine ⟨h.ok.release p, (release_size bm p).trans h.size, ?_⟩
  intro q
  have hq := h.counted q
  show (bm.release p).2.refCounts.entry q ≤ intMax
  rw [h.ok.release_entry]
  split <;> omega

theorem Sound.perform {call : BlockCall} (h : Sound capacity bm) (hcount : bm.Countable call) :
    Sound capacity (bm.perform call).2 := by
  cases call with
  | allocate => exact h.allocate
  | allocateSpecific p => exact h.allocateSpecific p
  | retain p => exact h.retain hcount
  | release p => exact h.release p

theorem sound_of_reach (h : machine.Reach Machine.anyStep (new capacity) bm) : Sound capacity bm :=
  h.invariant (sound_new capacity) (fun _ _ hs hcount _ => hs.perform hcount)

/-- A refused call leaves the manager as it was. -/
theorem refused_unchanged {call : BlockCall} (h : bm.Ok) (hf : (bm.perform call).1.accepted = false) :
    (bm.perform call).2 = bm := by
  cases call with
  | allocate =>
    cases ha : bm.allocate with
    | none => simp only [BlockManager.perform, ha]
    | some taken =>
      simp only [BlockManager.perform, ha] at hf
      cases hf
  | allocateSpecific p =>
    by_cases hp : p ∈ bm.freeList
    · obtain ⟨bm', heq, -⟩ := h.allocateSpecific_some hp
      simp only [BlockManager.perform, heq] at hf
      cases hf
    · simp only [BlockManager.perform, allocateSpecific_none hp]
  | retain p =>
    simp only [BlockManager.perform, h.retain_eq] at hf ⊢
    split at hf
    next => cases hf
    next hp => rw [if_neg hp]
  | release p =>
    simp only [BlockManager.perform, h.release_eq] at hf ⊢
    split at hf
    next => cases hf
    next hp => rw [if_neg hp]

theorem isValid_iff_of_lt {p : Int} (fits : bm.refCounts.size < 2 ^ 31) :
    bm.isValid p ↔ 0 ≤ p ∧ p < bm.refCounts.size := by
  show 0 ≤ p ∧ p < staticCastInt bm.refCounts.size ↔ _
  rw [staticCastInt_of_lt fits]

/-- `allocate` refuses only when every block is in use. -/
theorem Ok.allocate_none_iff (h : bm.Ok) : bm.allocate = none ↔ ∀ p, bm.isValid p → 0 < bm.refCounts.entry p := by
  rw [allocate_none]
  constructor
  · intro hempty p hv
    have hnot : p ∉ bm.freeList := by rw [hempty]; exact List.not_mem_nil
    have hnonneg := h.nonneg p
    have hne : bm.refCounts.entry p ≠ 0 := fun hzero => hnot ((h.free_iff p).mpr ⟨hv, hzero⟩)
    omega
  · intro hused
    refine List.eq_nil_iff_forall_not_mem.mpr ?_
    intro p hp
    obtain ⟨hv, hzero⟩ := (h.free_iff p).mp hp
    have hpos := hused p hv
    omega

theorem freeList_of_allocate {bm' : BlockManager} {p : Int} (h : bm.allocate = some (p, bm')) :
    bm.freeList = bm'.freeList ++ [p] := by
  unfold BlockManager.allocate at h
  split at h
  next => cases h
  next last hlast =>
    obtain ⟨rfl, rfl⟩ := Prod.mk.inj (Option.some.inj h)
    obtain ⟨front, hfront⟩ := List.getLast?_eq_some_iff.mp hlast
    show bm.freeList = bm.freeList.dropLast ++ [last]
    rw [hfront, List.dropLast_concat]

/-- In every state a sequence of calls reaches, the free list lists each block without references
once, `allocate` hands out one of them unless there is none, and a refused call changes nothing. -/
theorem free_list_integrity (fits : capacity < 2 ^ 31)
    (h : machine.Reach Machine.anyStep (new capacity) bm) :
    bm.freeList.Nodup ∧
      (∀ p, p ∈ bm.freeList ↔ (0 ≤ p ∧ p < capacity) ∧ bm.refCounts.entry p = 0) ∧
      (∀ p, 0 ≤ bm.refCounts.entry p ∧ bm.refCounts.entry p ≤ intMax) ∧
      (∀ p bm', bm.allocate = some (p, bm') → p ∈ bm.freeList ∧ p ∉ bm'.freeList ∧ bm'.refCounts.entry p = 1) ∧
      (bm.allocate = none ↔ ∀ p : Int, 0 ≤ p ∧ p < capacity → 0 < bm.refCounts.entry p) ∧
      ∀ call, (bm.perform call).1.accepted = false → (bm.perform call).2 = bm := by
  have hs := sound_of_reach h
  have hvalid : ∀ p, bm.isValid p ↔ 0 ≤ p ∧ p < capacity := by
    intro p
    rw [isValid_iff_of_lt (hs.size ▸ fits), hs.size]
  refine ⟨hs.ok.nodup, ?_, ?_, ?_, ?_, ?_⟩
  · intro p
    rw [hs.ok.free_iff, hvalid]
  · exact fun p => ⟨hs.ok.nonneg p, hs.counted p⟩
  · intro p bm' ha
    have ht := hs.ok.allocate_some ha
    have hfree := ht.free p (List.mem_singleton_self p)
    have hone : bm'.refCounts.entry p = 1 := by rw [ht.entry, if_pos (List.mem_singleton_self p)]
    refine ⟨(hs.ok.free_iff p).mpr hfree, ?_, hone⟩
    intro hmem
    have hzero := ((ht.ok.free_iff p).mp hmem).2
    omega
  · rw [hs.ok.allocate_none_iff]
    simp only [hvalid]
  · exact fun call hf => refused_unchanged hs.ok hf

/-- Three blocks: two taken, one of them shared and the other given back, and four refusals. -/
def allocatorRun : List BlockCall :=
  [.allocate, .allocateSpecific 2, .allocateSpecific 2, .retain 0, .release 2, .release 2, .release (-1), .retain 1]

theorem free_list_integrity_run :
    let bm := machine.replay (new 3) allocatorRun
    bm.freeList = [1, 2] ∧ bm.refCounts.entry 0 = 2 ∧ bm.freeList.Nodup ∧
      (bm.perform (.allocateSpecific 0)).2 = bm := by
  have hmeets : machine.Meets Machine.anyStep (new 3) allocatorRun := by
    refine ⟨trivial, trivial, trivial, trivial, trivial, trivial, ?_, trivial, trivial, trivial, trivial, trivial,
      trivial, trivial, ?_, trivial, trivial⟩
    · show (1 : Int) < intMax
      decide
    · show (0 : Int) < intMax
      decide
  obtain ⟨hnodup, -, -, -, -, hrefused⟩ := free_list_integrity (by decide) (.replay .start hmeets)
  exact ⟨by decide, by decide, hnodup, hrefused _ (by decide)⟩

end BlockManager

end DsfMmu
