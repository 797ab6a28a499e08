/-- `enabled` is what the environment promises of an input; the machine itself is total. -/
structure Machine (σ ι ο : Type) where
  enabled : σ → ι → Prop
  step : σ → ι → ο × σ

namespace Machine

variable {σ ι ο : Type}

/-- States reached from `s₀` by steps that all meet the condition `C`. -/
inductive Reach (M : Machine σ ι ο) (C : σ → ι → ο → Prop) (s₀ : σ) : σ → Prop
  | start : Reach M C s₀ s₀
  | next {s : σ} {i : ι} : Reach M C s₀ s → M.enabled s i → C s i (M.step s i).1 →
      Reach M C s₀ (M.step s i).2

/-- No condition on the steps. -/
def anyStep : σ → ι → ο → Prop := fun _ _ _ => True

variable {M : Machine σ ι ο} {C D : σ → ι → ο → Prop} {s₀ s t : σ}

/-- An invariant that every conditioned step keeps holds in every state reached. -/
theorem Reach.invariant {I : σ → Prop} (h : Reach M C s₀ s) (start : I s₀)
    (keeps : ∀ s i, I s → M.enabled s i → C s i (M.step s i).1 → I (M.step s i).2) : I s := by
  induction h with
  | start => exact start
  | next _ he hc ih => exact keeps _ _ ih he hc

theorem Reach.mono (h : Reach M C s₀ s) (weaker : ∀ s i o, C s i o → D s i o) :
    Reach M D s₀ s := by
  induction h with
  | start => exact .start
  | next _ he hc ih => exact .next ih he (weaker _ _ _ hc)

theorem Reach.any (h : Reach M C s₀ s) : Reach M anyStep s₀ s :=
  h.mono (fun _ _ _ _ => trivial)

theorem Reach.trans (h : Reach M C s₀ s) (h' : Reach M C s t) : Reach M C s₀ t := by
  induction h' with
  | start => exact h
  | next _ he hc ih => exact .next ih he hc

/-! Runs given as a list of inputs. -/

def replay (M : Machine σ ι ο) (s : σ) (inputs : List ι) : σ :=
  inputs.foldl (fun s i => (M.step s i).2) s

/-- Every input of the list is enabled when its turn comes, and meets the condition. -/
def Meets (M : Machine σ ι ο) (C : σ → ι → ο → Prop) : σ → List ι → Prop
  | _, [] => True
  | s, i :: rest => M.enabled s i ∧ C s i (M.step s i).1 ∧ Meets M C (M.step s i).2 rest

theorem Reach.replay {inputs : List ι} (h : Reach M C s₀ s) (hm : M.Meets C s inputs) :
    Reach M C s₀ (M.replay s inputs) := by
  induction inputs generalizing s with
  | nil => exact h
  | cons i rest ih =>
    obtain ⟨he, hc, hrest⟩ := hm
    exact ih (.next h he hc) hrest

/-! A machine seen through a function of its states and one of its replies. -/

section Image

variable {τ ω : Type}

/-- The replies to a list of inputs. -/
def trace (M : Machine σ ι ο) : σ → List ι → List ο
  | _, [] => []
  | s, i :: rest => (M.step s i).1 :: trace M (M.step s i).2 rest

/-- Where `I` holds, the image of a step that meets `C` is the step of `N` on the image, and `I` holds again. -/
def ImagesStep (M : Machine σ ι ο) (N : Machine τ ι ω) (f : σ → τ) (g : ο → ω) (I : σ → Prop)
    (C : σ → ι → ο → Prop) : Prop :=
  ∀ s i, I s → M.enabled s i → C s i (M.step s i).1 →
    I (M.step s i).2 ∧ N.step (f s) i = (g (M.step s i).1, f (M.step s i).2)

/-- So it is for a run: the same inputs lead to the images of its replies and of its last state. -/
theorem Meets.image {N : Machine τ ι ω} {f : σ → τ} {g : ο → ω} {I : σ → Prop} {inputs : List ι}
    (h : ImagesStep M N f g I C) (hs : I s) (hm : M.Meets C s inputs) :
    N.trace (f s) inputs = (M.trace s inputs).map g ∧ N.replay (f s) inputs = f (M.replay s inputs) := by
  induction inputs generalizing s with
  | nil => exact ⟨rfl, rfl⟩
  | cons i rest ih =>
    obtain ⟨he, hc, hrest⟩ := hm
    obtain ⟨hnext, hstep⟩ := h s i hs he hc
    obtain ⟨htrace, hreplay⟩ := ih hnext hrest
    constructor
    · rw [trace, hstep, htrace]
      rfl
    · rw [replay, List.foldl_cons, hstep]
      exact hreplay

end Image

/-! A ghost that the steps update and never look at. -/

section Ghost

variable {γ : Type}

def withGhost (M : Machine σ ι ο) (update : σ → ι → ο → γ → γ) : Machine (σ × γ) ι ο where
  enabled s i := M.enabled s.1 i
  step s i := ((M.step s.1 i).1, (M.step s.1 i).2, update s.1 i (M.step s.1 i).1 s.2)

instance (update : σ → ι → ο → γ → γ) (s : σ × γ) (i : ι) [Decidable (M.enabled s.1 i)] :
    Decidable ((M.withGhost update).enabled s i) := inferInstanceAs (Decidable (M.enabled s.1 i))

/-- Without its ghost a run is a run of the machine. -/
theorem Reach.forget {update : σ → ι → ο → γ → γ} {C : σ × γ → ι → ο → Prop} {D : σ → ι → ο → Prop}
    {s t : σ × γ} (h : (M.withGhost update).Reach C s t) (weaker : ∀ s i o, C s i o → D s.1 i o) :
    M.Reach D s.1 t.1 := by
  induction h with
  | start => exact .start
  | next _ he hc ih => exact .next ih he (weaker _ _ _ hc)

theorem withGhost_trace (update : σ → ι → ο → γ → γ) (s : σ × γ) (inputs : List ι) :
    (M.withGhost update).trace s inputs = M.trace s.1 inputs := by
  induction inputs generalizing s with
  | nil => rfl
  | cons i rest ih =>
    rw [trace, trace, ih]
    rfl

theorem withGhost_replay_fst (update : σ → ι → ο → γ → γ) (s : σ × γ) (inputs : List ι) :
    ((M.withGhost update).replay s inputs).1 = M.replay s.1 inputs := by
  induction inputs generalizing s with
  | nil => rfl
  | cons i rest ih => exact ih ((M.withGhost update).step s i).2

end Ghost

end Machine
