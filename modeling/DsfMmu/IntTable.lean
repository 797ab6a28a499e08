import Mathlib.Algebra.Group.Int.Defs
import Mathlib.Algebra.GroupWithZero.Nat
import Mathlib.Data.Finset.Card
import Mathlib.Data.Finset.Image
import Mathlib.Logic.Function.Basic

/-- A size narrowed to a 32-bit `int`: itself when it fits, else its two's complement. -/
def staticCastInt (n : Nat) : Int := if n < 2 ^ 31 then n else Int.bmod n (2 ^ 32)

theorem staticCastInt_of_lt {n : Nat} (h : n < 2 ^ 31) : staticCastInt n = n := if_pos h

/-- A size of `2 ^ 31` or more turns negative. -/
theorem staticCastInt_neg {n : Nat} (wide : 2 ^ 31 ≤ n) (fits : n < 2 ^ 32) : staticCastInt n = n - 2 ^ 32 := by
  rw [staticCastInt, if_neg (not_lt.mpr wide), Int.bmod_def]
  omega

theorem staticCastInt_le (n : Nat) : staticCastInt n ≤ n := by
  unfold staticCastInt
  split
  · exact le_rfl
  · rw [Int.bmod_def]
    omega

theorem staticCastInt_lt (n : Nat) : staticCastInt n < 2 ^ 31 := by
  unfold staticCastInt
  split
  · omega
  · rw [Int.bmod_def]
    omega

/-- A vector whose indices arrive as `int`: the size is kept beside the entries, and
an access is in range when it passes the signed bounds check. -/
structure IntTable (α : Type) where
  size : Nat
  entry : Int → α

namespace IntTable

variable {α : Type}

def InRange (t : IntTable α) (i : Int) : Prop := 0 ≤ i ∧ i < staticCastInt t.size

instance (t : IntTable α) (i : Int) : Decidable (t.InRange i) :=
  inferInstanceAs (Decidable (0 ≤ i ∧ i < staticCastInt t.size))

def set (t : IntTable α) (i : Int) (a : α) : IntTable α :=
  { t with entry := Function.update t.entry i a }

@[simp] theorem set_size (t : IntTable α) (i : Int) (a : α) : (t.set i a).size = t.size := rfl

theorem set_entry (t : IntTable α) (i j : Int) (a : α) :
    (t.set i a).entry j = if j = i then a else t.entry j := by
  simp [set, Function.update_apply]

@[simp] theorem set_entry_self (t : IntTable α) (i : Int) (a : α) : (t.set i a).entry i = a := by
  simp [set_entry]

theorem set_entry_ne (t : IntTable α) {i j : Int} (a : α) (h : j ≠ i) :
    (t.set i a).entry j = t.entry j := by
  simp [set_entry, h]

theorem set_same (t : IntTable α) (i : Int) : t.set i (t.entry i) = t := by
  simp [set]

theorem eq_of_entries {t t' : IntTable α} (hsize : t.size = t'.size) (hentry : ∀ i, t.entry i = t'.entry i) :
    t = t' := by
  obtain ⟨size, entry⟩ := t
  obtain ⟨size', entry'⟩ := t'
  cases hsize
  cases (funext hentry : entry = entry')
  rfl

/-- The indices a counting loop `for (int i = 0; i < (int)size; ++i)` visits. -/
def indices (n : Nat) : Finset Int :=
  (Finset.range (staticCastInt n).toNat).map ⟨Int.ofNat, fun _ _ => Int.ofNat.inj⟩

@[simp] theorem mem_indices {n : Nat} {i : Int} : i ∈ indices n ↔ 0 ≤ i ∧ i < staticCastInt n := by
  simp only [indices, Finset.mem_map, Finset.mem_range]
  constructor
  · intro hmem
    obtain ⟨k, hk, rfl⟩ := hmem
    have hpos : 0 ≤ (k : Int) := Int.natCast_nonneg k
    have hlt : (k : Int) < staticCastInt n := by omega
    exact ⟨hpos, hlt⟩
  · intro hrange
    have hcast : (i.toNat : Int) = i := Int.toNat_of_nonneg hrange.1
    exact ⟨i.toNat, by omega, hcast⟩

theorem inRange_iff_mem (t : IntTable α) (i : Int) : t.InRange i ↔ i ∈ indices t.size := by
  simp [InRange]

theorem card_indices (n : Nat) : (indices n).card = (staticCastInt n).toNat := by
  simp [indices]

end IntTable

/-! Counting the members of a finite set that satisfy a predicate, one member changing. -/

section Count

variable {κ : Type} [DecidableEq κ] {s : Finset κ} {P Q : κ → Prop} [DecidablePred P] [DecidablePred Q]

theorem card_filter_gain {a : κ} (ha : a ∈ s) (hp : ¬P a) (hq : Q a) (same : ∀ b ≠ a, (Q b ↔ P b)) :
    (s.filter Q).card = (s.filter P).card + 1 := by
  have hset : s.filter Q = insert a (s.filter P) := by
    ext b
    by_cases hb : b = a
    · subst b; simp [ha, hq]
    · simp [hb, same b hb]
  rw [hset, Finset.card_insert_of_notMem (by simp [hp])]

theorem card_filter_lose {a : κ} (ha : a ∈ s) (hp : P a) (hq : ¬Q a) (same : ∀ b ≠ a, (Q b ↔ P b)) :
    (s.filter P).card = (s.filter Q).card + 1 :=
  card_filter_gain ha hq hp (fun b hb => (same b hb).symm)

omit [DecidableEq κ] in
theorem card_filter_same (same : ∀ b ∈ s, (Q b ↔ P b)) : (s.filter Q).card = (s.filter P).card := by
  rw [Finset.filter_congr same]

/-- The number of members with a flag, when the flag of one member changes. -/
theorem card_flag_update {f g : κ → Bool} {a : κ} (ha : a ∈ s) (same : ∀ b ≠ a, g b = f b) :
    (s.filter (fun b => g b = true)).card + (if f a then 1 else 0) =
      (s.filter (fun b => f b = true)).card + if g a then 1 else 0 := by
  have hother : ∀ b ≠ a, (g b = true ↔ f b = true) := by
    intro b hb
    rw [same b hb]
  have hsame : g a = f a → ∀ b ∈ s, (g b = true ↔ f b = true) := by
    intro heq b _
    by_cases hb : b = a
    · rw [hb, heq]
    · exact hother b hb
  cases hf : f a <;> cases hg : g a
  · rw [card_filter_same (hsame (hg.trans hf.symm))]
  · have hgain := card_filter_gain ha (P := fun b => f b = true) (Q := fun b => g b = true)
      (by simp [hf]) hg hother
    simpa using hgain
  · have hlose := card_filter_lose ha (P := fun b => f b = true) (Q := fun b => g b = true)
      hf (by simp [hg]) hother
    simpa using hlose.symm
  · rw [card_filter_same (hsame (hg.trans hf.symm))]

end Count
