import Mathlib.Data.Finset.Card
import Mathlib.Data.Finset.Dedup
import Mathlib.Tactic.Ring

namespace Paging

variable {α : Type*} [DecidableEq α] {k j spent misses loads : Nat} {a : α} {past phase old rest : List α}
  {cache final held : Finset α}

/-- Serving requests from `k` frames, whatever is loaded and dropped on the way, and at how many loads. -/
inductive Schedule (k : Nat) : Finset α → List α → Nat → Finset α → Prop
  | done (cache : Finset α) : Schedule k cache [] 0 cache
  | serve {cache next final : Finset α} {a : α} {rest : List α} {loads : Nat} :
      a ∈ next → next.card ≤ k → Schedule k next rest loads final →
      Schedule k cache (a :: rest) ((next \ cache).card + loads) final

/-- The last request of `a` is so recent that `a` and all requested since fit `k` frames. The past is given newest
first. -/
def Recent (k : Nat) (past : List α) (a : α) : Prop :=
  ∃ newer older, past = newer ++ a :: older ∧ (insert a newer.toFinset).card ≤ k

/-- Serving requests with so many misses, none of them of a recent element. -/
inductive Retains (k : Nat) : List α → List α → Nat → Prop
  | done (past : List α) : Retains k past [] 0
  | hit {past rest : List α} {a : α} {misses : Nat} :
      Retains k (a :: past) rest misses → Retains k past (a :: rest) misses
  | miss {past rest : List α} {a : α} {misses : Nat} :
      ¬Recent k past a → Retains k (a :: past) rest misses → Retains k past (a :: rest) (misses + 1)

theorem Retains.tail (h : Retains k past (a :: rest) misses) : ∃ later, Retains k (a :: past) rest later ∧
    misses ≤ later + 1 ∧ (Recent k past a → misses = later) := by
  cases h with
  | hit hrest => exact ⟨misses, hrest, by omega, fun _ => rfl⟩
  | miss hold hrest => exact ⟨_, hrest, le_rfl, fun hrecent => absurd hrecent hold⟩

theorem recent_of_mem (ha : a ∈ phase) (hfew : phase.toFinset.card ≤ k) (old : List α) : Recent k (phase ++ old) a := by
  obtain ⟨newer, older, rfl⟩ := List.append_of_mem ha
  refine ⟨newer, older ++ old, by simp, ?_⟩
  have hsub : insert a newer.toFinset ⊆ (newer ++ a :: older).toFinset := by
    intro x hx
    rcases Finset.mem_insert.mp hx with rfl | hx
    · simp
    · simp [List.mem_toFinset.mp hx]
  exact (Finset.card_le_card hsub).trans hfew

/-- The induction along the requests. `phase` holds the requests of the current phase; `held` is the cache the other
schedule had when the phase began and all the `spent` elements it has loaded since. A phase ends with its `k`-th
element, and by then the other schedule has had to load what its `j` frames could not hold. -/
theorem Retains.bound (h : Retains k (phase ++ old) rest misses) (hs : Schedule j cache rest loads final) (hj : j ≤ k)
    (hphase : phase.toFinset ⊆ held) (hcache : cache ⊆ held) (hheld : held.card ≤ j + spent)
    (hfew : phase.toFinset.card ≤ k) :
    (k - j + 1) * misses ≤ (k - j + 1) * (k - phase.toFinset.card) + k * (loads + spent) := by
  induction hs generalizing phase old misses held spent with
  | done cache =>
    cases h
    omega
  | @serve cache next final a rest loads ha hnext _ ih =>
    obtain ⟨later, hlater, hle, hhit⟩ := h.tail
    have hloaded : (held ∪ next).card ≤ j + (spent + (next \ cache).card) := by
      have hsub : held ∪ next ⊆ held ∪ (next \ cache) := by
        intro x hx
        by_cases hin : x ∈ cache
        · exact Finset.mem_union_left _ (hcache hin)
        · rcases Finset.mem_union.mp hx with hx | hx
          · exact Finset.mem_union_left _ hx
          · exact Finset.mem_union_right _ (Finset.mem_sdiff.mpr ⟨hx, hin⟩)
      have hcard := (Finset.card_le_card hsub).trans (Finset.card_union_le _ _)
      omega
    have hgrown : (a :: phase).toFinset ⊆ held ∪ next := by
      rw [List.toFinset_cons]
      exact Finset.insert_subset (Finset.mem_union_right _ ha) (hphase.trans Finset.subset_union_left)
    by_cases hseen : a ∈ phase
    · have hsame : (a :: phase).toFinset = phase.toFinset := by
        rw [List.toFinset_cons]
        exact Finset.insert_eq_of_mem (List.mem_toFinset.mpr hseen)
      have hrest := @ih _ later (a :: phase) old _ hlater hgrown Finset.subset_union_right hloaded
        (by rw [hsame]; exact hfew)
      have hsum : loads + (spent + (next \ cache).card) = (next \ cache).card + loads + spent := by omega
      rw [hsame, hsum] at hrest
      rw [hhit (recent_of_mem hseen hfew old)]
      exact hrest
    · have hone : (a :: phase).toFinset.card = phase.toFinset.card + 1 := by
        rw [List.toFinset_cons, Finset.card_insert_of_notMem (mt List.mem_toFinset.mp hseen)]
      have hmisses : (k - j + 1) * misses ≤ (k - j + 1) * later + (k - j + 1) := Nat.mul_le_mul_left _ hle
      rcases Nat.lt_or_eq_of_le hfew with hroom | hfull
      · have hrest := @ih _ later (a :: phase) old _ hlater hgrown Finset.subset_union_right hloaded
          (by omega)
        have hsum : loads + (spent + (next \ cache).card) = (next \ cache).card + loads + spent := by omega
        have hleft : k - phase.toFinset.card = k - (phase.toFinset.card + 1) + 1 := by omega
        rw [hone, hsum] at hrest
        rw [hleft, Nat.mul_succ]
        omega
      · -- the phase is over: its elements and `a` are one more than `k`, and the other schedule has held them all
        have hpaid : k - j + 1 ≤ (next \ cache).card + spent := by
          have hcard := Finset.card_le_card hgrown
          omega
        have hpos : 0 < k := by
          have := Finset.card_pos.mpr ⟨a, ha⟩
          omega
        have hsingle : [a].toFinset.card = 1 := by simp
        have hrest : (k - j + 1) * later ≤ (k - j + 1) * (k - [a].toFinset.card) + k * loads :=
          @ih 0 later [a] (phase ++ old) next hlater (by simpa using ha) Finset.Subset.rfl hnext (by omega)
        have hsplit : (k - j + 1) * k = (k - j + 1) * (k - 1) + (k - j + 1) := by
          rw [← Nat.mul_succ, Nat.succ_eq_add_one, Nat.sub_add_cancel hpos]
        have hcost : k * (k - j + 1) ≤ k * ((next \ cache).card + spent) := Nat.mul_le_mul_left _ hpaid
        have htotal : k * ((next \ cache).card + loads + spent) = k * ((next \ cache).card + spent) + k * loads := by ring
        rw [hsingle] at hrest
        rw [Nat.mul_comm k (k - j + 1)] at hcost
        rw [htotal]
        omega

/-- Keeping what is recent in `k` frames misses at most `k / (k - j + 1)` times as often as any schedule with `j` frames
loads, up to a constant. -/
theorem Retains.competitive (h : Retains k [] rest misses) (hs : Schedule j cache rest loads final) (hj : j ≤ k)
    (hcache : cache.card ≤ j) : (k - j + 1) * misses ≤ k * loads + (k - j + 1) * k := by
  have hstart : Retains k ([] ++ []) rest misses := h
  have hbound : (k - j + 1) * misses ≤ (k - j + 1) * k + k * loads :=
    @Retains.bound _ _ _ _ 0 _ _ _ _ _ _ _ _ hstart hs hj (Finset.empty_subset cache) Finset.Subset.rfl hcache
      (Nat.zero_le k)
  omega

end Paging
