import Mathlib.Data.List.Basic

namespace StreamedOutput

variable {α β ε : Type} (f : α → Except ε β)

/-- The loop from index `i` on. -/
def run : Nat → List α → List β → Except ε Unit × List β
  | _, [], out => (.ok (), out)
  | i, x :: rest, out =>
    match f x with
    | .error e => (.error e, out)
    | .ok y => run (i + 1) rest (out.set i y)

/-- The results in front of the first failure. -/
def leading : List α → List β
  | [] => []
  | x :: rest =>
    match f x with
    | .error _ => []
    | .ok y => y :: leading rest

/-- The first failure, if there is one. -/
def status : List α → Except ε Unit
  | [] => .ok ()
  | x :: rest =>
    match f x with
    | .error e => .error e
    | .ok _ => status rest

/-- Every input has a result. -/
def Succeeds (xs : List α) : Prop := ∀ x ∈ xs, ∃ y, f x = .ok y

/-- What callers expect of the outcome: all the results in place, or the first failure and the
array as it was. -/
structure AllOrNothing (xs : List α) (out : List β) (outcome : Except ε Unit × List β) : Prop where
  complete : Succeeds f xs →
    outcome.1 = .ok () ∧ ∀ (i : Nat) x, xs[i]? = some x → ∃ y, f x = .ok y ∧ outcome.2[i]? = some y
  refused : ∀ before x after e, xs = before ++ x :: after → Succeeds f before → f x = .error e →
    outcome = (.error e, out)

variable {f} {xs : List α} {out : List β}

/-- The loop in closed form. The induction is over the inputs, with the part of the array already
written in front. -/
theorem run_append (done : List β) (room : xs.length ≤ out.length) :
    run f done.length xs (done ++ out) =
      (status f xs, done ++ (leading f xs ++ out.drop (leading f xs).length)) := by
  induction xs generalizing done out with
  | nil => rfl
  | cons x rest ih =>
    cases hx : f x with
    | error e => simp only [run, status, leading, hx, List.length_nil, List.drop_zero, List.nil_append]
    | ok y =>
      cases out with
      | nil => simp at room
      | cons o tail =>
        have hset : (done ++ o :: tail).set done.length y = (done ++ [y]) ++ tail := by simp
        have hrest := ih (done ++ [y]) (Nat.le_of_succ_le_succ room)
        rw [List.length_append, List.length_singleton] at hrest
        simp only [run, status, leading, hx, hset]
        rw [hrest]
        simp

theorem run_eq (room : xs.length ≤ out.length) :
    run f 0 xs out = (status f xs, leading f xs ++ out.drop (leading f xs).length) :=
  run_append [] room

theorem status_ok (h : Succeeds f xs) : status f xs = .ok () := by
  induction xs with
  | nil => rfl
  | cons x rest ih =>
    obtain ⟨y, hy⟩ := h x (List.mem_cons_self ..)
    rw [status, hy]
    exact ih (fun z hz => h z (List.mem_cons_of_mem _ hz))

theorem leading_getElem? (h : Succeeds f xs) {i : Nat} {x : α} (hx : xs[i]? = some x) :
    ∃ y, f x = .ok y ∧ (leading f xs)[i]? = some y := by
  induction xs generalizing i with
  | nil => simp at hx
  | cons head rest ih =>
    obtain ⟨y, hy⟩ := h head (List.mem_cons_self ..)
    rw [leading, hy]
    cases i with
    | zero =>
      cases Option.some.inj hx
      exact ⟨y, hy, rfl⟩
    | succ i => exact ih (fun z hz => h z (List.mem_cons_of_mem _ hz)) hx

/-- Where the first failure is, the loop stops with it. -/
theorem status_error {before after : List α} {x : α} {e : ε} (h : Succeeds f before) (hx : f x = .error e) :
    status f (before ++ x :: after) = .error e := by
  induction before with
  | nil => rw [List.nil_append, status, hx]
  | cons head rest ih =>
    obtain ⟨y, hy⟩ := h head (List.mem_cons_self ..)
    rw [List.cons_append, status, hy]
    exact ih (fun z hz => h z (List.mem_cons_of_mem _ hz))

theorem first_failure (h : ¬Succeeds f xs) :
    ∃ before x after e, xs = before ++ x :: after ∧ Succeeds f before ∧ f x = .error e := by
  induction xs with
  | nil => exact absurd (fun _ hx => absurd hx List.not_mem_nil) h
  | cons x rest ih =>
    cases hx : f x with
    | error e => exact ⟨[], x, rest, e, rfl, fun _ hmem => absurd hmem List.not_mem_nil, hx⟩
    | ok y =>
      have hrest : ¬Succeeds f rest := by
        intro hs
        apply h
        intro z hz
        rcases List.mem_cons.mp hz with rfl | hmem
        · exact ⟨y, hx⟩
        · exact hs z hmem
      obtain ⟨before, z, after, e, rfl, hbefore, hz⟩ := ih hrest
      refine ⟨x :: before, z, after, e, rfl, ?_, hz⟩
      intro w hw
      rcases List.mem_cons.mp hw with rfl | hmem
      · exact ⟨y, hx⟩
      · exact hbefore w hmem

theorem append_drop_eq_iff {ys : List β} : ys ++ out.drop ys.length = out ↔ ys <+: out := by
  constructor
  · intro heq
    exact ⟨_, heq⟩
  · intro hpre
    obtain ⟨tail, rfl⟩ := hpre
    rw [List.drop_left]

/-- The loop is all-or-nothing exactly when nothing fails, or what it writes before the failure
was in the array already. -/
theorem run_allOrNothing_iff (room : xs.length ≤ out.length) :
    AllOrNothing f xs out (run f 0 xs out) ↔ Succeeds f xs ∨ leading f xs <+: out := by
  rw [run_eq room]
  constructor
  · intro h
    by_cases hs : Succeeds f xs
    · exact Or.inl hs
    · obtain ⟨before, x, after, e, heq, hbefore, hx⟩ := first_failure hs
      have hout := congrArg Prod.snd (h.refused before x after e heq hbefore hx)
      exact Or.inr (append_drop_eq_iff.mp hout)
  · intro h
    constructor
    · intro hs
      refine ⟨status_ok hs, ?_⟩
      intro i x hx
      obtain ⟨y, hy, hget⟩ := leading_getElem? hs hx
      refine ⟨y, hy, ?_⟩
      obtain ⟨hi, -⟩ := List.getElem?_eq_some_iff.mp hget
      show (leading f xs ++ _)[i]? = some y
      rw [List.getElem?_append_left hi]
      exact hget
    · intro before x after e heq hbefore hx
      have hfails : ¬Succeeds f xs := by
        intro hs
        obtain ⟨y, hy⟩ := hs x (by simp [heq])
        rw [hx] at hy
        cases hy
      have hpre := h.resolve_left hfails
      rw [append_drop_eq_iff.mpr hpre, heq, status_error hbefore hx]

end StreamedOutput
