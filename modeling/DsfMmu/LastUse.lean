namespace LastUse

variable {α : Type} [DecidableEq α] {history : List α} {a b : α}

/-- The time of the last use of an element, the first use of all being at time 1; 0 if there is none. -/
def lastUse : List α → α → Nat
  | [], _ => 0
  | b :: older, a => if b = a then older.length + 1 else lastUse older a

theorem lastUse_self (a : α) (older : List α) : lastUse (a :: older) a = older.length + 1 := if_pos rfl

theorem lastUse_of_ne (h : b ≠ a) (older : List α) : lastUse (b :: older) a = lastUse older a := if_neg h

theorem lastUse_le (history : List α) (a : α) : lastUse history a ≤ history.length := by
  induction history with
  | nil => exact Nat.le_refl 0
  | cons b older ih =>
    have hlen : (b :: older).length = older.length + 1 := rfl
    by_cases h : b = a
    · subst h
      rw [lastUse_self]
      omega
    · rw [lastUse_of_ne h]
      omega

/-- No two elements were last used at the same time. -/
theorem lastUse_inj (ha : a ∈ history) (h : lastUse history a = lastUse history b) : a = b := by
  induction history with
  | nil => cases ha
  | cons c older ih =>
    have hbound := lastUse_le older
    by_cases hca : c = a
    · by_cases hcb : c = b
      · exact hca.symm.trans hcb
      · subst hca
        rw [lastUse_self, lastUse_of_ne hcb] at h
        have hb := hbound b
        omega
    · rw [lastUse_of_ne hca] at h
      have hin : a ∈ older := by
        rcases List.mem_cons.mp ha with he | hin
        · exact absurd he.symm hca
        · exact hin
      by_cases hcb : c = b
      · subst hcb
        rw [lastUse_self] at h
        have hb := hbound a
        omega
      · rw [lastUse_of_ne hcb] at h
        exact ih hin h

end LastUse
