import Mathlib.Data.List.Basic
import Mathlib.Logic.Function.Basic

/-- The list of every owner there is; a slot given up is `none`. -/
abbrev EagerWorld (κ β : Type) := κ → Option (List (Option β))

namespace EagerWorld

variable {κ β : Type} [DecidableEq κ]

def none : EagerWorld κ β := fun _ => Option.none

def create (w : EagerWorld κ β) (k : κ) : EagerWorld κ β := Function.update w k (some [])

def destroy (w : EagerWorld κ β) (k : κ) : EagerWorld κ β := Function.update w k Option.none

def fork (w : EagerWorld κ β) (src k : κ) : EagerWorld κ β := Function.update w k (w src)

def allocate (w : EagerWorld κ β) (k : κ) (n : Nat) (fresh : β) : EagerWorld κ β :=
  Function.update w k ((w k).map (· ++ List.replicate n (some fresh)))

def release (w : EagerWorld κ β) (k : κ) (i : Nat) : EagerWorld κ β :=
  Function.update w k ((w k).map (·.set i Option.none))

def write (w : EagerWorld κ β) (k : κ) (i : Nat) (f : β → β) : EagerWorld κ β :=
  Function.update w k ((w k).map (·.modify i (Option.map f)))

/-- The value an owner has in a slot. -/
def slot (w : EagerWorld κ β) (k : κ) (i : Nat) : Option β := (w k).bind fun l => l[i]?.join

section Slots

variable (w : EagerWorld κ β) {k j : κ} (i : Nat)

/-- An owner that is not touched keeps its slots. -/
theorem slot_update_of_ne (l : Option (List (Option β))) (h : j ≠ k) :
    slot (Function.update w k l) j i = w.slot j i := by
  unfold slot
  rw [Function.update_of_ne h]

theorem slot_fork (src k : κ) : (w.fork src k).slot k i = w.slot src i := by
  unfold slot fork
  rw [Function.update_self]

omit [DecidableEq κ] in
theorem slot_some {w : EagerWorld κ β} {i : Nat} {b : β} (h : w.slot k i = some b) :
    ∃ l, w k = some l ∧ l[i]? = some (some b) := by
  unfold slot at h
  obtain ⟨l, hl, hslot⟩ := Option.bind_eq_some_iff.mp h
  exact ⟨l, hl, Option.join_eq_some_iff.mp hslot⟩

/-- New slots come after the ones there are. -/
theorem slot_allocate {w : EagerWorld κ β} {i : Nat} {b : β} (n : Nat) (fresh : β) (h : w.slot k i = some b) :
    (w.allocate k n fresh).slot k i = some b := by
  obtain ⟨l, hl, hslot⟩ := slot_some h
  have hlt := (List.getElem?_eq_some_iff.mp hslot).1
  unfold slot allocate
  rw [Function.update_self, hl]
  simp only [Option.map_some, Option.bind_some]
  rw [List.getElem?_append_left hlt, hslot]
  rfl

theorem slot_release_ne {m : Nat} (h : i ≠ m) : (w.release k m).slot k i = w.slot k i := by
  unfold slot release
  rw [Function.update_self]
  cases w k with
  | none => rfl
  | some l =>
    simp only [Option.map_some, Option.bind_some]
    rw [List.getElem?_set_ne h.symm]

theorem slot_write_ne {m : Nat} (f : β → β) (h : i ≠ m) : (w.write k m f).slot k i = w.slot k i := by
  unfold slot write
  rw [Function.update_self]
  cases w k with
  | none => rfl
  | some l =>
    simp only [Option.map_some, Option.bind_some]
    rw [List.getElem?_modify_ne _ _ h.symm]

end Slots

section Sizes

/-- How many slots there are, empty ones counted. -/
def size (w : EagerWorld κ β) (k : κ) : Option Nat := (w k).map List.length

variable {w : EagerWorld κ β} {k : κ} {i n : Nat} {b : β}

theorem size_create : (w.create k).size k = some 0 := by
  unfold size create
  rw [Function.update_self]
  rfl

theorem size_write (f : β → β) : (w.write k i f).size k = w.size k := by
  unfold size write
  rw [Function.update_self, Option.map_map]
  congr 1
  funext l
  exact List.length_modify ..

theorem size_allocate (fresh : β) (h : w.size k = some n) (m : Nat) : (w.allocate k m fresh).size k = some (n + m) := by
  obtain ⟨l, hl, rfl⟩ := Option.map_eq_some_iff.mp h
  unfold size allocate
  rw [Function.update_self, hl, Option.map_some, Option.map_some, List.length_append, List.length_replicate]

theorem slot_allocate_new (fresh : β) (h : w.size k = some n) {m : Nat} (hi : n ≤ i) (hm : i < n + m) :
    (w.allocate k m fresh).slot k i = some fresh := by
  obtain ⟨l, hl, rfl⟩ := Option.map_eq_some_iff.mp h
  unfold slot allocate
  rw [Function.update_self, hl, Option.map_some, Option.bind_some, List.getElem?_append_right hi,
    List.getElem?_replicate_of_lt (by omega)]
  rfl

theorem slot_write_self (f : β → β) (h : w.slot k i = some b) : (w.write k i f).slot k i = some (f b) := by
  obtain ⟨l, hl, hslot⟩ := slot_some h
  unfold slot write
  rw [Function.update_self, hl, Option.map_some, Option.bind_some, List.getElem?_modify_eq, hslot]
  rfl

theorem write_write (f g : β → β) : (w.write k i f).write k i g = w.write k i (g ∘ f) := by
  unfold write
  rw [Function.update_self, Function.update_idem, Option.map_map]
  congr 2
  funext l
  apply List.ext_getElem?
  intro j
  by_cases hj : j = i
  · subst hj
    simp only [Function.comp_apply, List.getElem?_modify_eq]
    cases l[j]? with
    | none => rfl
    | some slot => cases slot <;> rfl
  · simp only [Function.comp_apply, List.getElem?_modify_ne _ _ (Ne.symm hj)]

theorem write_id : w.write k i id = w := by
  unfold write
  rw [Option.map_id]
  apply Function.update_eq_self_iff.mpr
  cases h : w k with
  | none => rfl
  | some l => simp only [Option.map_some, List.modify_id]

end Sizes

section Shares

variable {own : κ → Prop} {w w' : EagerWorld κ β} {k : κ}

/-- To some of the owners two worlds look the same. -/
def SameFor (own : κ → Prop) (w w' : EagerWorld κ β) : Prop := ∀ k, own k → w k = w' k

theorem SameFor.update (h : SameFor own w w') {l l' : Option (List (Option β))} (hl : own k → l = l') :
    SameFor own (Function.update w k l) (Function.update w' k l') := by
  intro j hj
  by_cases hjk : j = k
  · subst hjk
    rw [Function.update_self, Function.update_self]
    exact hl hj
  · rw [Function.update_of_ne hjk, Function.update_of_ne hjk]
    exact h j hj

/-- What happens to an owner is nothing to the others. -/
theorem SameFor.update_other (h : SameFor own w w') (hk : ¬own k) (l : Option (List (Option β))) :
    SameFor own (Function.update w k l) w' := by
  intro j hj
  have hjk : j ≠ k := by
    rintro rfl
    exact hk hj
  rw [Function.update_of_ne hjk]
  exact h j hj

end Shares

end EagerWorld
