/-- The outcome of code that may throw: a value or an exception, and the state it leaves either way. -/
abbrev Throwing (ε σ α : Type) := Except ε α × σ

namespace Throwing

variable {ε σ α β ι : Type}

/-- Nothing undoes what `x` did before it threw. -/
def andThen (x : Throwing ε σ α) (f : α → σ → Throwing ε σ β) : Throwing ε σ β :=
  match x with
  | (.error e, s) => (.error e, s)
  | (.ok a, s) => f a s

@[simp] theorem andThen_ok (a : α) (s : σ) (f : α → σ → Throwing ε σ β) : andThen (.ok a, s) f = f a s := rfl

def forEach (step : σ → ι → Throwing ε σ Unit) : List ι → σ → Throwing ε σ Unit
  | [], s => (.ok (), s)
  | i :: rest, s => andThen (step s i) fun _ s => forEach step rest s

/-- `x` returns in `Q` or throws in `E`. -/
def Lands (x : Throwing ε σ α) (Q : α → σ → Prop) (E : ε → σ → Prop) : Prop :=
  match x with
  | (.error e, s) => E e s
  | (.ok a, s) => Q a s

section Lands

variable {x : Throwing ε σ α} {f : α → σ → Throwing ε σ β} {Q Q' : α → σ → Prop} {R : β → σ → Prop}
  {E E' : ε → σ → Prop}

theorem Lands.andThen (h : Lands x Q E) (thrown : ∀ e s, E e s → E' e s)
    (next : ∀ a s, Q a s → Lands (f a s) R E') : Lands (andThen x f) R E' := by
  obtain ⟨r, s⟩ := x
  cases r with
  | error e => exact thrown e s h
  | ok a => exact next a s h

theorem Lands.mono (h : Lands x Q E) (hQ : ∀ a s, Q a s → Q' a s) (hE : ∀ e s, E e s → E' e s) : Lands x Q' E' := by
  obtain ⟨r, s⟩ := x
  cases r with
  | error e => exact hE e s h
  | ok a => exact hQ a s h

theorem Lands.and (h : Lands x Q E) (h' : Lands x Q' E') :
    Lands x (fun a s => Q a s ∧ Q' a s) (fun e s => E e s ∧ E' e s) := by
  obtain ⟨r, s⟩ := x
  cases r with
  | error e => exact ⟨h, h'⟩
  | ok a => exact ⟨h, h'⟩

theorem Lands.returned {a : α} {s : σ} (h : Lands x Q E) (hx : x = (.ok a, s)) : Q a s := by
  subst hx
  exact h

theorem Lands.threw {e : ε} {s : σ} (h : Lands x Q E) (hx : x = (.error e, s)) : E e s := by
  subst hx
  exact h

/-- What holds of both outcomes holds of the state left. -/
theorem Lands.left {P : σ → Prop} (h : Lands x (fun _ s => P s) (fun _ s => P s)) : P x.2 := by
  obtain ⟨r, s⟩ := x
  cases r with
  | error e => exact h
  | ok a => exact h

end Lands

/-- `y` is what `x` returns, unless it throws in `E`. -/
def Gives (E : ε → Prop) (x : Throwing ε σ α) (y : α × σ) : Prop := Lands x (fun a s => y = (a, s)) (fun e _ => E e)

section Gives

variable {E E' : ε → Prop} {x : Throwing ε σ α} {f : α → σ → Throwing ε σ β} {y : α × σ} {z : β × σ}

theorem gives_return (a : α) (s : σ) : Gives E (.ok a, s) (a, s) := rfl

theorem Gives.andThen (h : Gives E x y) (next : Gives E (f y.1 y.2) z) : Gives E (andThen x f) z := by
  refine Lands.andThen h (fun _ _ h => h) ?_
  intro a s hy
  subst hy
  exact next

theorem Gives.weaken (h : Gives E x y) (hE : ∀ e, E e → E' e) : Gives E' x y :=
  h.mono (fun _ _ hy => hy) (fun e _ he => hE e he)

theorem Gives.forEach {step : σ → ι → Throwing ε σ Unit} {f : σ → ι → σ} (h : ∀ s i, Gives E (step s i) ((), f s i))
    (l : List ι) (s : σ) : Gives E (forEach step l s) ((), l.foldl f s) := by
  induction l generalizing s with
  | nil => exact gives_return () s
  | cons i rest ih => exact (h s i).andThen (ih (f s i))

/-- Where nothing can be thrown, `x` is `y`. -/
theorem Gives.eq (h : Gives E x y) (hE : ∀ e, ¬E e) : x = (.ok y.1, y.2) := by
  obtain ⟨r, s⟩ := x
  cases r with
  | error e => exact absurd h (hE e)
  | ok a =>
    have hy : y = (a, s) := h
    rw [hy]

end Gives

end Throwing
