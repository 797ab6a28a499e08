import DsfMmu.ChunkPool

namespace DsfMmu

namespace ChunkPool

/-- The block slots of the allocated chunks. -/
def IsSlot (pool : ChunkPool) (s : PagePtr) : Prop :=
  ∃ blocks, pool.chunks[s.chunk]? = some blocks ∧ s.block < blocks

/-- All block slots of a pool. -/
def totalSlots (pool : ChunkPool) : Nat := pool.chunks.sum

/-- No slot is owned twice or both owned and free, and `committed_pages` counts the owners. -/
structure Ok (pool : ChunkPool) : Prop where
  free_nodup : pool.freeBlocks.Nodup
  owner_inj : ∀ p q s, pool.ownerPages.entry p = some s → pool.ownerPages.entry q = some s → p = q
  owned_not_free : ∀ p s, pool.ownerPages.entry p = some s → s ∉ pool.freeBlocks
  free_slot : ∀ s ∈ pool.freeBlocks, pool.IsSlot s
  owned_slot : ∀ p s, pool.ownerPages.entry p = some s → pool.IsSlot s
  owned_valid : ∀ p s, pool.ownerPages.entry p = some s → pool.ownerPages.InRange p
  committed : pool.committedPages =
    ((IntTable.indices pool.ownerPages.size).filter (fun p => pool.ownerPages.entry p ≠ none)).card

/-- Every slot is free or owned: no slot was lost while the free list was filled. -/
structure Exact (pool : ChunkPool) : Prop where
  covers : ∀ s, pool.IsSlot s → s ∈ pool.freeBlocks ∨ ∃ p, pool.ownerPages.entry p = some s
  total : pool.totalSlots = pool.freeBlocks.length + pool.committedPages

theorem new_ok (n : Nat) (stale : PagePtr → Bytes) : (new n stale).Ok := by
  constructor <;> simp [new]

theorem new_exact (n : Nat) (stale : PagePtr → Bytes) : (new n stale).Exact := by
  constructor <;> simp [new, IsSlot, totalSlots]

theorem addChunk_isSlot {pool : ChunkPool} {blocks pushed : Nat} {s : PagePtr} :
    (pool.addChunk blocks pushed).IsSlot s ↔
      pool.IsSlot s ∨ (s.chunk = pool.chunks.length ∧ s.block < blocks) := by
  simp only [IsSlot, addChunk]
  rcases Nat.lt_trichotomy s.chunk pool.chunks.length with h | h | h
  · rw [List.getElem?_append_left h]
    constructor
    · exact Or.inl
    · rintro (h' | ⟨h', _⟩)
      · exact h'
      · omega
  · simp [h]
  · have h0 : (pool.chunks ++ [blocks])[s.chunk]? = none := by
      apply List.getElem?_eq_none
      simp only [List.length_append, List.length_singleton]
      omega
    have h1 : pool.chunks[s.chunk]? = none := List.getElem?_eq_none (by omega)
    simp only [h0, h1, reduceCtorEq, false_and, exists_false, false_or, false_iff]
    omega

theorem isSlot_chunk_lt {pool : ChunkPool} {s : PagePtr} (h : pool.IsSlot s) :
    s.chunk < pool.chunks.length := by
  obtain ⟨blocks, hc, _⟩ := h
  exact (List.getElem?_eq_some_iff.mp hc).1

/-- Fresh slots are new addresses, so growing a pool keeps its ownership. -/
theorem addChunk_ok {pool : ChunkPool} (h : pool.Ok) {blocks pushed : Nat} (hp : pushed ≤ blocks) :
    (pool.addChunk blocks pushed).Ok := by
  have old : ∀ s, s ∈ (List.range pushed).map (PagePtr.mk pool.chunks.length) → ¬pool.IsSlot s := by
    intro s hs hslot
    obtain ⟨i, _, rfl⟩ := List.mem_map.mp hs
    exact absurd (isSlot_chunk_lt hslot) (by simp)
  constructor
  · apply List.nodup_append.mpr
    refine ⟨h.free_nodup, ?_, ?_⟩
    · exact List.Nodup.map (fun a b hab => by simpa using hab) List.nodup_range
    · intro a ha b hb heq
      subst heq
      exact old a hb (h.free_slot a ha)
  · exact h.owner_inj
  · intro p s hs hmem
    rcases List.mem_append.mp hmem with hm | hm
    · exact h.owned_not_free p s hs hm
    · exact old s hm (h.owned_slot p s hs)
  · intro s hs
    apply addChunk_isSlot.mpr
    rcases List.mem_append.mp hs with hm | hm
    · exact Or.inl (h.free_slot s hm)
    · obtain ⟨i, hi, rfl⟩ := List.mem_map.mp hm
      exact Or.inr ⟨rfl, lt_of_lt_of_le (List.mem_range.mp hi) hp⟩
  · exact fun p s hs => addChunk_isSlot.mpr (Or.inl (h.owned_slot p s hs))
  · exact h.owned_valid
  · exact h.committed

theorem addChunk_exact {pool : ChunkPool} (h : pool.Exact) (blocks : Nat) :
    (pool.addChunk blocks blocks).Exact := by
  constructor
  · intro s hs
    rcases addChunk_isSlot.mp hs with hs | ⟨hc, hb⟩
    · exact (h.covers s hs).imp_left (List.mem_append_left _)
    · left
      apply List.mem_append_right
      exact List.mem_map.mpr ⟨s.block, List.mem_range.mpr hb, by cases s; simp_all⟩
  · have := h.total
    simp only [totalSlots, addChunk, List.sum_append, List.sum_singleton, List.length_append,
      List.length_map, List.length_range] at this ⊢
    omega

section Take

variable {pool : ChunkPool} {p : Int} {slot : PagePtr} {zero : Bytes}

theorem takeFree_ok (h : pool.Ok) (hv : pool.ownerPages.InRange p)
    (hn : pool.ownerPages.entry p = none) (hs : pool.freeBlocks.getLast? = some slot) :
    (pool.takeFree p slot zero).Ok := by
  obtain ⟨rest, hrest⟩ := List.getLast?_eq_some_iff.mp hs
  have hmem : slot ∈ pool.freeBlocks := List.mem_of_getLast? hs
  have hnodup : (rest ++ [slot]).Nodup := hrest ▸ h.free_nodup
  have hdrop : pool.freeBlocks.dropLast = rest := by simp [hrest]
  have hnot : slot ∉ rest := by
    have := (List.nodup_append.mp hnodup).2.2
    intro hm
    exact this slot hm slot (by simp) rfl
  have hfree : ∀ q s, pool.ownerPages.entry q = some s → s ≠ slot := by
    intro q s hq heq
    subst heq
    exact h.owned_not_free q s hq hmem
  constructor
  · simpa [takeFree, hdrop] using (List.nodup_append.mp hnodup).1
  · intro a b s ha hb
    simp only [takeFree, IntTable.set_entry] at ha hb
    split at ha <;> split at hb
    next ea eb => exact ea.trans eb.symm
    next ea eb => exact absurd (Option.some.inj ha).symm (hfree b s hb)
    next ea eb => exact absurd (Option.some.inj hb).symm (hfree a s ha)
    next ea eb => exact h.owner_inj a b s ha hb
  · intro a s ha hm
    simp only [takeFree, IntTable.set_entry, hdrop] at ha hm
    split at ha
    next ea =>
      cases Option.some.inj ha
      exact hnot hm
    next ea => exact h.owned_not_free a s ha (hrest ▸ List.mem_append_left _ hm)
  · intro s hm
    simp only [takeFree, hdrop] at hm
    exact h.free_slot s (hrest ▸ List.mem_append_left _ hm)
  · intro a s ha
    simp only [takeFree, IntTable.set_entry] at ha
    split at ha
    next ea =>
      cases Option.some.inj ha
      exact h.free_slot slot hmem
    next ea => exact h.owned_slot a s ha
  · intro a s ha
    simp only [takeFree, IntTable.set_entry] at ha
    split at ha
    next ea => exact ea ▸ hv
    next ea => exact h.owned_valid a s ha
  · have hc := h.committed
    have hp : p ∈ IntTable.indices pool.ownerPages.size := (IntTable.inRange_iff_mem _ _).mp hv
    simp only [takeFree, IntTable.set_size]
    rw [hc]
    symm
    apply card_filter_gain hp (by simp [hn]) (by simp)
    intro b hb
    rw [IntTable.set_entry_ne _ _ hb]

theorem takeFree_exact (h : pool.Exact) (hn : pool.ownerPages.entry p = none)
    (hs : pool.freeBlocks.getLast? = some slot) : (pool.takeFree p slot zero).Exact := by
  obtain ⟨rest, hrest⟩ := List.getLast?_eq_some_iff.mp hs
  constructor
  · intro s hslot
    rcases h.covers s hslot with hf | ⟨q, hq⟩
    · rw [hrest] at hf
      rcases List.mem_append.mp hf with hf | hf
      · exact Or.inl (by simpa [takeFree, hrest] using hf)
      · have he : s = slot := by simpa using hf
        exact Or.inr ⟨p, by simp [takeFree, he]⟩
    · have hne : q ≠ p := by
        intro heq
        subst heq
        simp [hn] at hq
      exact Or.inr ⟨q, by simpa [takeFree, IntTable.set_entry, hne] using hq⟩
  · have := h.total
    simp only [takeFree, totalSlots] at this ⊢
    simp only [hrest, List.length_append, List.length_singleton, List.dropLast_concat] at this ⊢
    omega

end Take

section Release

variable {pool : ChunkPool}

theorem releasePage_of_none {p : Int} (h : pool.ownerPages.entry p = none) :
    pool.releasePage p = pool := by
  simp [releasePage, h]

theorem releasePage_of_some (hok : pool.Ok) {p : Int} {slot : PagePtr}
    (h : pool.ownerPages.entry p = some slot) :
    pool.releasePage p =
      { pool with
        freeBlocks := pool.freeBlocks ++ [slot]
        ownerPages := pool.ownerPages.set p none
        committedPages := pool.committedPages - 1 } ∧ 0 < pool.committedPages := by
  have hv := hok.owned_valid p slot h
  have hpos : 0 < pool.committedPages := by
    rw [hok.committed]
    apply Finset.card_pos.mpr
    exact ⟨p, by simpa [h] using (IntTable.inRange_iff_mem _ _).mp hv⟩
  simp [releasePage, hv, h, hpos]

theorem releasePage_ok (hok : pool.Ok) (p : Int) : (pool.releasePage p).Ok := by
  cases he : pool.ownerPages.entry p with
  | none => rwa [releasePage_of_none he]
  | some slot =>
    obtain ⟨heq, hpos⟩ := releasePage_of_some hok he
    have hv := hok.owned_valid p slot he
    rw [heq]
    have other : ∀ a s, (pool.ownerPages.set p none).entry a = some s →
        a ≠ p ∧ pool.ownerPages.entry a = some s := by
      intro a s ha
      rw [IntTable.set_entry] at ha
      split at ha
      next => simp at ha
      next hne => exact ⟨hne, ha⟩
    constructor
    · apply List.nodup_append.mpr
      refine ⟨hok.free_nodup, by simp, ?_⟩
      intro a ha b hb heq
      subst heq
      have hb' : a = slot := by simpa using hb
      exact hok.owned_not_free p slot he (hb' ▸ ha)
    · intro a b s ha hb
      exact hok.owner_inj a b s (other a s ha).2 (other b s hb).2
    · intro a s ha hm
      obtain ⟨hne, ha⟩ := other a s ha
      rcases List.mem_append.mp hm with hm | hm
      · exact hok.owned_not_free a s ha hm
      · have hs : s = slot := by simpa using hm
        exact hne (hok.owner_inj a p s ha (hs ▸ he))
    · intro s hm
      rcases List.mem_append.mp hm with hm | hm
      · exact hok.free_slot s hm
      · have hs : s = slot := by simpa using hm
        exact hs ▸ hok.owned_slot p slot he
    · exact fun a s ha => hok.owned_slot a s (other a s ha).2
    · exact fun a s ha => hok.owned_valid a s (other a s ha).2
    · have hp : p ∈ IntTable.indices pool.ownerPages.size := (IntTable.inRange_iff_mem _ _).mp hv
      have hc := hok.committed
      have hl := card_filter_lose (s := IntTable.indices pool.ownerPages.size)
        (P := fun q => pool.ownerPages.entry q ≠ none)
        (Q := fun q => (pool.ownerPages.set p none).entry q ≠ none) hp (by simp [he]) (by simp)
        (fun b hb => by rw [IntTable.set_entry_ne _ _ hb])
      simp only [IntTable.set_size]
      omega

theorem releasePage_exact (hok : pool.Ok) (h : pool.Exact) (p : Int) :
    (pool.releasePage p).Exact := by
  cases he : pool.ownerPages.entry p with
  | none => rwa [releasePage_of_none he]
  | some slot =>
    obtain ⟨heq, hpos⟩ := releasePage_of_some hok he
    rw [heq]
    constructor
    · intro s hs
      rcases h.covers s hs with hf | ⟨q, hq⟩
      · exact Or.inl (List.mem_append_left _ hf)
      · by_cases hqp : q = p
        · subst q
          have hs' : s = slot := Option.some.inj (hq.symm.trans he)
          exact Or.inl (by simp [hs'])
        · exact Or.inr ⟨q, by simpa [IntTable.set_entry, hqp] using hq⟩
    · have := h.total
      simp only [totalSlots, List.length_append, List.length_singleton] at this ⊢
      omega

theorem releasePage_totalSlots (p : Int) : (pool.releasePage p).totalSlots = pool.totalSlots := by
  unfold releasePage
  split
  next => rfl
  next => split <;> rfl

theorem write_ok (hok : pool.Ok) (slot : PagePtr) (page : Bytes) : (pool.write slot page).Ok :=
  ⟨hok.free_nodup, hok.owner_inj, hok.owned_not_free, hok.free_slot, hok.owned_slot,
    hok.owned_valid, hok.committed⟩

theorem write_exact (h : pool.Exact) (slot : PagePtr) (page : Bytes) : (pool.write slot page).Exact :=
  ⟨h.covers, h.total⟩

end Release

end ChunkPool

end DsfMmu
