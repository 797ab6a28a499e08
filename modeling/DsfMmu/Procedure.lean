import Mathlib.Logic.Basic

/-- A program on a state: it returns a value, or gives up and leaves the state as it is then. -/
def Procedure (σ α : Type) := σ → Option α × σ

namespace Procedure

variable {σ α β ι ε : Type}

instance : Monad (Procedure σ) where
  pure a := fun s => (some a, s)
  bind c f := fun s =>
    match c s with
    | (none, s) => (none, s)
    | (some a, s) => f a s

/-- An operation whose error makes the program give up. -/
def attempt (f : σ → Except ε α × σ) : Procedure σ α := fun s =>
  match f s with
  | (.error _, s) => (none, s)
  | (.ok a, s) => (some a, s)

def query (f : σ → α) : Procedure σ α := fun s => (some (f s), s)

def update (f : σ → σ) : Procedure σ Unit := fun s => (some (), f s)

/-- Started in `P` the program ends in `Q`; where it gives up, `F` explains why. -/
def Ends (P : σ → Prop) (c : Procedure σ α) (Q : α → σ → Prop) (F : Prop) : Prop :=
  ∀ s, P s → match c s with
    | (some a, s') => Q a s'
    | (none, _) => F

variable {P P' : σ → Prop} {Q Q' : α → σ → Prop} {R : β → σ → Prop} {F : Prop}

theorem Ends.conseq {c : Procedure σ α} (h : Ends P c Q F) (hP : ∀ s, P' s → P s) (hQ : ∀ a s, Q a s → Q' a s) :
    Ends P' c Q' F := by
  intro s hs
  have hend := h s (hP s hs)
  split at hend
  next _ a s' _ => exact hQ a s' hend
  next => exact hend

theorem Ends.pre {c : Procedure σ α} (h : Ends P c Q F) (hP : ∀ s, P' s → P s) : Ends P' c Q F :=
  h.conseq hP fun _ _ hQ => hQ

theorem Ends.post {c : Procedure σ α} (h : Ends P c Q F) (hQ : ∀ a s, Q a s → Q' a s) : Ends P c Q' F :=
  h.conseq (fun _ hP => hP) hQ

/-- Facts that do not depend on the state. -/
theorem Ends.given {A : Prop} {c : Procedure σ α} (h : A → Ends P c Q F) : Ends (fun s => A ∧ P s) c Q F := by
  intro s hs
  exact h hs.1 s hs.2

theorem Ends.ret {a : α} (h : ∀ s, P s → Q a s) : Ends P (pure a : Procedure σ α) Q F := h

theorem Ends.bind {c : Procedure σ α} {f : α → Procedure σ β} (hc : Ends P c Q F) (hf : ∀ a, Ends (Q a) (f a) R F) :
    Ends P (c >>= f) R F := by
  intro s hs
  have hfirst := hc s hs
  show match (match c s with
    | (none, s) => (none, s)
    | (some a, s) => f a s) with
    | (some b, s') => R b s'
    | (none, _) => F
  split at hfirst
  next a s' heq =>
    rw [heq]
    exact hf a s' hfirst
  next s' heq =>
    rw [heq]
    exact hfirst

theorem ends_attempt {f : σ → Except ε α × σ}
    (h : ∀ s, P s → (∃ a s', f s = (.ok a, s') ∧ Q a s') ∨ (F ∧ ∃ e s', f s = (.error e, s'))) :
    Ends P (attempt f) Q F := by
  intro s hs
  unfold attempt
  rcases h s hs with ⟨a, s', heq, hQ⟩ | ⟨hF, e, s', heq⟩
  · rw [heq]
    exact hQ
  · rw [heq]
    exact hF

theorem ends_query {f : σ → α} (h : ∀ s, P s → Q (f s) s) : Ends P (query f) Q F := h

theorem ends_update {f : σ → σ} {Q : Unit → σ → Prop} (h : ∀ s, P s → Q () (f s)) : Ends P (update f) Q F := h

section Loops

variable {xs : List ι}

/-- A loop that carries a value: `I i b` before turn `i`, with `b` carried. -/
theorem Ends.foldlM {body : β → ι → Procedure σ β} {b : β} (I : Nat → β → σ → Prop) (start : ∀ s, P s → I 0 b s)
    (step : ∀ i x c, xs[i]? = some x → Ends (I i c) (body c x) (I (i + 1)) F)
    (finish : ∀ c s, I xs.length c s → R c s) : Ends P (xs.foldlM body b) R F := by
  induction xs generalizing I b P with
  | nil => exact Ends.ret fun s hs => finish b s (start s hs)
  | cons x rest ih =>
    have hfirst := (step 0 x b rfl).pre start
    refine hfirst.bind fun c => ?_
    exact ih (fun i => I (i + 1)) (fun _ h => h) (fun i y d hy => step (i + 1) y d hy) finish

theorem Ends.forM {body : ι → Procedure σ Unit} {S : Unit → σ → Prop} (I : Nat → σ → Prop) (start : ∀ s, P s → I 0 s)
    (step : ∀ i x, xs[i]? = some x → Ends (I i) (body x) (fun _ => I (i + 1)) F)
    (finish : ∀ s, I xs.length s → S () s) : Ends P (xs.forM body) S F := by
  induction xs generalizing I P with
  | nil => exact Ends.ret fun s hs => finish s (start s hs)
  | cons x rest ih =>
    have hfirst := (step 0 x rfl).pre start
    refine hfirst.bind fun _ => ?_
    exact ih (fun i => I (i + 1)) (fun _ h => h) (fun i y hy => step (i + 1) y hy) finish

theorem Ends.foldlRange {n : Nat} {body : β → Nat → Procedure σ β} {b : β} (I : Nat → β → σ → Prop)
    (start : ∀ s, P s → I 0 b s) (step : ∀ i c, i < n → Ends (I i c) (body c i) (I (i + 1)) F)
    (finish : ∀ c s, I n c s → R c s) : Ends P ((List.range n).foldlM body b) R F := by
  refine Ends.foldlM I start ?_ ?_
  · intro i x c hx
    obtain ⟨hi, rfl⟩ := List.getElem?_eq_some_iff.mp hx
    rw [List.length_range] at hi
    rw [List.getElem_range]
    exact step i c hi
  · rw [List.length_range]
    exact finish

theorem Ends.forRange {n : Nat} {body : Nat → Procedure σ Unit} {S : Unit → σ → Prop} (I : Nat → σ → Prop)
    (start : ∀ s, P s → I 0 s) (step : ∀ i, i < n → Ends (I i) (body i) (fun _ => I (i + 1)) F)
    (finish : ∀ s, I n s → S () s) : Ends P ((List.range n).forM body) S F := by
  refine Ends.forM I start ?_ ?_
  · intro i x hx
    obtain ⟨hi, rfl⟩ := List.getElem?_eq_some_iff.mp hx
    rw [List.length_range] at hi
    rw [List.getElem_range]
    exact step i hi
  · rw [List.length_range]
    exact finish

/-- A loop over the entries of an array with their indices. -/
theorem Ends.forIdx {body : ι × Nat → Procedure σ Unit} {S : Unit → σ → Prop} (I : Nat → σ → Prop)
    (start : ∀ s, P s → I 0 s) (step : ∀ i x, xs[i]? = some x → Ends (I i) (body (x, i)) (fun _ => I (i + 1)) F)
    (finish : ∀ s, I xs.length s → S () s) : Ends P (xs.zipIdx.forM body) S F := by
  refine Ends.forM I start ?_ ?_
  · intro i y hy
    rw [List.getElem?_zipIdx] at hy
    obtain ⟨x, hx, rfl⟩ := Option.map_eq_some_iff.mp hy
    rw [Nat.zero_add]
    exact step i x hx
  · rw [List.length_zipIdx]
    exact finish

end Loops

end Procedure
