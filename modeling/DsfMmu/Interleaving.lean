import Mathlib.Algebra.BigOperators.Group.Finset.Basic
import Mathlib.Algebra.Order.BigOperators.Group.Finset
import Mathlib.Data.Fintype.Basic

/-- A turn of a party changes its own part and the shared state; a party with no turn left has finished. -/
structure Parties (ι κ σ : Type) where
  turn : ι → κ → σ → Option (κ × σ)

namespace Parties

variable {ι κ σ : Type} [DecidableEq ι]

/-- Every interleaving: `n` turns lead from one state to another. -/
inductive Run (P : Parties ι κ σ) (s : (ι → κ) × σ) : Nat → (ι → κ) × σ → Prop
  | start : Run P s 0 s
  | next {n : Nat} {t : (ι → κ) × σ} {i : ι} {l : κ} {r : σ} : Run P s n t → P.turn i (t.1 i) t.2 = some (l, r) →
      Run P s (n + 1) (Function.update t.1 i l, r)

/-- Nobody has a turn left. -/
def Quiet (P : Parties ι κ σ) (s : (ι → κ) × σ) : Prop := ∀ i, P.turn i (s.1 i) s.2 = none

/-- Each turn brings its party closer to its end. -/
def Lowers (P : Parties ι κ σ) (left : κ → Nat) : Prop :=
  ∀ i l s l' s', P.turn i l s = some (l', s') → left l' < left l

variable {P : Parties ι κ σ} {left : κ → Nat} {n m : Nat} {s t u : (ι → κ) × σ}

theorem Run.trans (h : P.Run s n t) (h' : P.Run t m u) : P.Run s (n + m) u := by
  induction h' with
  | start => exact h
  | next _ hturn ih => exact .next ih hturn

theorem Run.turn {i : ι} {l : κ} {r : σ} (h : P.turn i (s.1 i) s.2 = some (l, r)) :
    P.Run s 1 (Function.update s.1 i l, r) := .next .start h

/-- What every turn keeps holds however the turns fall. -/
theorem Run.invariant {I : (ι → κ) × σ → Prop} (h : P.Run s n t) (hs : I s)
    (keeps : ∀ t i l r, I t → P.turn i (t.1 i) t.2 = some (l, r) → I (Function.update t.1 i l, r)) : I t := by
  induction h with
  | start => exact hs
  | next _ hturn ih => exact keeps _ _ _ _ ih hturn

section Ends

variable [Fintype ι]

/-- Turns all parties can still take together. -/
def turnsLeft (left : κ → Nat) (s : (ι → κ) × σ) : Nat := ∑ i, left (s.1 i)

theorem turnsLeft_update {i : ι} {l : κ} (hlt : left l < left (s.1 i)) (r : σ) :
    turnsLeft left (Function.update s.1 i l, r) + (left (s.1 i) - left l) = turnsLeft left s := by
  unfold turnsLeft
  dsimp only
  rw [← Finset.add_sum_erase _ _ (Finset.mem_univ i), ← Finset.add_sum_erase _ (fun j => left (s.1 j)) (Finset.mem_univ i),
    Function.update_self]
  have hrest : ∑ j ∈ Finset.univ.erase i, left (Function.update s.1 i l j) = ∑ j ∈ Finset.univ.erase i, left (s.1 j) := by
    apply Finset.sum_congr rfl
    intro j hj
    rw [Function.update_of_ne (Finset.ne_of_mem_erase hj)]
  rw [hrest]
  omega

/-- No interleaving is longer than what the parties have left. -/
theorem Run.bounded (hlow : P.Lowers left) (h : P.Run s n t) : n + turnsLeft left t ≤ turnsLeft left s := by
  induction h with
  | start => omega
  | @next n t i l r _ hturn ih =>
    have hupdate := turnsLeft_update (hlow _ _ _ _ _ hturn) r
    have hlt := hlow _ _ _ _ _ hturn
    omega

/-- Every state can be run until nobody has a turn left. -/
theorem Lowers.completes (hlow : P.Lowers left) (s : (ι → κ) × σ) : ∃ n t, P.Run s n t ∧ P.Quiet t := by
  induction hs : turnsLeft left s using Nat.strong_induction_on generalizing s with
  | _ size ih =>
    by_cases hquiet : P.Quiet s
    · exact ⟨0, s, .start, hquiet⟩
    · unfold Quiet at hquiet
      push Not at hquiet
      obtain ⟨i, hi⟩ := hquiet
      obtain ⟨⟨l, r⟩, hturn⟩ := Option.ne_none_iff_exists'.mp hi
      have hlt := hlow _ _ _ _ _ hturn
      have hupdate := turnsLeft_update hlt r
      obtain ⟨n, t, hrun, ht⟩ := ih _ (by omega) (Function.update s.1 i l, r) rfl
      exact ⟨1 + n, t, (Run.turn hturn).trans hrun, ht⟩

end Ends

end Parties
