namespace LeastKey

variable {α : Type} (P : α → Prop) (key : α → Nat)

/-- One step of the scan, on the element kept and its key. -/
def keepLess [DecidablePred P] (best : α × Nat) (a : α) : α × Nat := if P a ∧ key a < best.2 then (a, key a) else best

/-- What the scan of `l` keeps: what it began with, or an eligible element that beats it; either way no
eligible element of `l` beats what is kept. -/
structure Least (l : List α) (start best : α × Nat) : Prop where
  kept : best = start ∨ (best.1 ∈ l ∧ P best.1 ∧ best.2 = key best.1 ∧ best.2 < start.2)
  least : ∀ a ∈ l, P a → best.2 ≤ key a

variable {P key} {l : List α} {start best : α × Nat} {a : α}

theorem Least.le (h : Least P key l start best) : best.2 ≤ start.2 := by
  rcases h.kept with he | ⟨_, _, _, hlt⟩
  · exact Nat.le_of_eq (congrArg Prod.snd he)
  · omega

variable [DecidablePred P]

theorem Least.cons (h : Least P key l (keepLess P key start a) best) : Least P key (a :: l) start best := by
  have hle := h.le
  unfold keepLess at h hle
  split at h
  next ha =>
    rw [if_pos ha] at hle
    have hlow : best.2 ≤ key a := hle
    refine ⟨?_, ?_⟩
    · rcases h.kept with he | ⟨hmem, hP, hkey, hlt⟩
      · exact .inr ⟨by simp [he], by simpa [he] using ha.1, by simp [he], by simpa [he] using ha.2⟩
      · have hbeats := ha.2
        exact .inr ⟨List.mem_cons_of_mem _ hmem, hP, hkey, by omega⟩
    · intro b hb hPb
      rcases List.mem_cons.mp hb with rfl | hb
      · exact hlow
      · exact h.least b hb hPb
  next ha =>
    rw [if_neg ha] at hle
    refine ⟨?_, ?_⟩
    · rcases h.kept with he | ⟨hmem, hrest⟩
      · exact .inl he
      · exact .inr ⟨List.mem_cons_of_mem _ hmem, hrest⟩
    · intro b hb hPb
      rcases List.mem_cons.mp hb with rfl | hb
      · have hno : ¬key b < start.2 := fun hlt => ha ⟨hPb, hlt⟩
        omega
      · exact h.least b hb hPb

theorem foldl_least (l : List α) (start : α × Nat) : Least P key l start (l.foldl (keepLess P key) start) := by
  induction l generalizing start with
  | nil => exact ⟨.inl rfl, fun _ ha => by cases ha⟩
  | cons a rest ih => exact (ih (keepLess P key start a)).cons

end LeastKey
