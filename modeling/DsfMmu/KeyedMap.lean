import Mathlib.Algebra.Order.BigOperators.Group.Finset
import Mathlib.Logic.Function.Basic

/-- A finite map: the live keys, and the value of each. -/
structure KeyedMap (κ α : Type) where
  keys : Finset κ
  value : κ → α

namespace KeyedMap

variable {κ α : Type} [DecidableEq κ]

def empty (a : α) : KeyedMap κ α := ⟨∅, fun _ => a⟩

def find? (m : KeyedMap κ α) (k : κ) : Option α := if k ∈ m.keys then some (m.value k) else none

def insert (m : KeyedMap κ α) (k : κ) (a : α) : KeyedMap κ α :=
  ⟨Insert.insert k m.keys, Function.update m.value k a⟩

def erase (m : KeyedMap κ α) (k : κ) : KeyedMap κ α := ⟨m.keys.erase k, m.value⟩

theorem find?_eq_some {m : KeyedMap κ α} {k : κ} {a : α} :
    m.find? k = some a ↔ k ∈ m.keys ∧ m.value k = a := by
  simp [find?]

theorem find?_eq_none {m : KeyedMap κ α} {k : κ} : m.find? k = none ↔ k ∉ m.keys := by
  simp [find?]

@[simp] theorem find?_empty (a : α) (k : κ) : (empty a : KeyedMap κ α).find? k = none := by
  simp [find?, empty]

theorem find?_insert (m : KeyedMap κ α) (k j : κ) (a : α) :
    (m.insert k a).find? j = if j = k then some a else m.find? j := by
  by_cases h : j = k
  · simp [find?, insert, h]
  · simp [find?, insert, h]

theorem find?_erase (m : KeyedMap κ α) (k j : κ) :
    (m.erase k).find? j = if j = k then none else m.find? j := by
  by_cases h : j = k
  · simp [find?, erase, h]
  · simp [find?, erase, h]

theorem insert_same {m : KeyedMap κ α} {k : κ} {a : α} (h : m.find? k = some a) : m.insert k a = m := by
  obtain ⟨hk, rfl⟩ := find?_eq_some.mp h
  simp [insert, Finset.insert_eq_of_mem hk]

/-- A quantity added up over the live keys. -/
def total (m : KeyedMap κ α) (f : α → Nat) : Nat := ∑ k ∈ m.keys, f (m.value k)

omit [DecidableEq κ] in
theorem total_of_keys_empty {m : KeyedMap κ α} (f : α → Nat) (h : m.keys = ∅) : m.total f = 0 := by
  simp [total, h]

theorem total_insert_fresh {m : KeyedMap κ α} {k : κ} (a : α) (f : α → Nat) (h : m.find? k = none) :
    (m.insert k a).total f = m.total f + f a := by
  have hk : k ∉ m.keys := find?_eq_none.mp h
  have hrest : ∑ j ∈ m.keys, f (Function.update m.value k a j) = ∑ j ∈ m.keys, f (m.value j) := by
    apply Finset.sum_congr rfl
    intro j hj
    have hne : j ≠ k := by
      intro heq
      subst heq
      exact hk hj
    rw [Function.update_of_ne hne]
  simp only [total, insert, Finset.sum_insert hk, Function.update_self, hrest]
  omega

theorem total_erase {m : KeyedMap κ α} {k : κ} {a : α} (f : α → Nat) (h : m.find? k = some a) :
    m.total f = (m.erase k).total f + f a := by
  obtain ⟨hk, rfl⟩ := find?_eq_some.mp h
  simp only [total, erase]
  rw [← Finset.sum_erase_add m.keys _ hk]

theorem erase_insert_total {m : KeyedMap κ α} {k : κ} (a : α) (f : α → Nat) :
    ((m.insert k a).erase k).total f = (m.erase k).total f := by
  have hkeys : ((m.insert k a).erase k).keys = (m.erase k).keys := by
    simp [insert, erase, Finset.erase_insert_eq_erase]
  simp only [total, hkeys]
  apply Finset.sum_congr rfl
  intro j hj
  have hne : j ≠ k := (Finset.mem_erase.mp hj).1
  simp [insert, erase, Function.update_of_ne hne]

theorem total_replace {m : KeyedMap κ α} {k : κ} {old : α} (new : α) (f : α → Nat)
    (h : m.find? k = some old) : (m.insert k new).total f + f old = m.total f + f new := by
  have hnew : (m.insert k new).find? k = some new := by simp [find?_insert]
  have h1 := total_erase f h
  have h2 := total_erase f hnew
  have h3 := erase_insert_total (m := m) (k := k) new f
  omega

omit [DecidableEq κ] in
theorem total_pos_iff {m : KeyedMap κ α} (f : α → Nat) :
    0 < m.total f ↔ ∃ k ∈ m.keys, 0 < f (m.value k) := by
  rw [Nat.pos_iff_ne_zero, Ne, total, Finset.sum_eq_zero_iff]
  constructor
  · intro h
    by_contra hno
    apply h
    intro k hk
    by_contra hne
    exact hno ⟨k, hk, Nat.pos_of_ne_zero hne⟩
  · intro hex hall
    obtain ⟨k, hk, hpos⟩ := hex
    have := hall k hk
    omega

theorem le_total {m : KeyedMap κ α} {k : κ} {a : α} (f : α → Nat) (h : m.find? k = some a) :
    f a ≤ m.total f := by
  have := total_erase f h
  omega

end KeyedMap
