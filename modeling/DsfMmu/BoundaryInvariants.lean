import DsfMmu.Invariants

namespace DsfMmu

open MmuRuntime

variable {mmu : MmuRuntime}

/-- What the directory, the counts and the pools say about block `p` fits together. -/
structure DirectoryCoherent (mmu : MmuRuntime) (p : Int) : Prop where
  allocated : (mmu.blockDirectory.metas.entry p).allocated = true ↔ 0 < mmu.l1Allocator.refCount p
  tier : (mmu.blockDirectory.metas.entry p).allocated = true →
    (mmu.blockDirectory.metas.entry p).tier =
      if (mmu.blockDirectory.metas.entry p).residentInL1 then .l1 else .l2
  frame : (mmu.blockDirectory.metas.entry p).l1FrameId =
    if (mmu.blockDirectory.metas.entry p).residentInL1 then p else kInvalidFrameId
  backing : (mmu.blockDirectory.metas.entry p).hasL2Backing = true ↔
    (mmu.blockDirectory.metas.entry p).l2SlotId = p
  slot : (mmu.blockDirectory.metas.entry p).l2SlotId = p ↔ (mmu.l2Pool.rawPage p).isSome
  l1_resident : (mmu.l1Pool.rawPage p).isSome → (mmu.blockDirectory.metas.entry p).residentInL1 = true
  pinned : 0 < (mmu.blockDirectory.metas.entry p).pinCount →
    (mmu.blockDirectory.metas.entry p).residentInL1 = true ∧ (mmu.l1Pool.rawPage p).isSome
  unused : mmu.l1Allocator.refCount p = 0 → mmu.blockDirectory.metas.entry p = makeDefaultMeta ∧
    mmu.l1Pool.rawPage p = none ∧ mmu.l2Pool.rawPage p = none

theorem page_isSome (mmu : MmuRuntime) (id : PoolId) (p : Int) :
    (mmu.page id p).isSome = ((mmu.pool id).rawPage p).isSome := by
  simp [page]

theorem MmuRuntime.Settled.directoryCoherent (h : mmu.Settled) {p : Int} (hp : 0 ≤ p) :
    DirectoryCoherent mmu p := by
  have hok := h.coherent.blocks p
  have hl1 : (mmu.block p).l1.isSome = (mmu.l1Pool.rawPage p).isSome := page_isSome mmu .l1 p
  have hl2 : (mmu.block p).l2.isSome = (mmu.l2Pool.rawPage p).isSome := page_isSome mmu .l2 p
  have hslot : (mmu.blockDirectory.metas.entry p).l2SlotId = p ↔ (mmu.l2Pool.rawPage p).isSome := by
    have hs := hok.slot
    rw [hl2] at hs
    rw [show (mmu.blockDirectory.metas.entry p).l2SlotId = (mmu.block p).info.l2SlotId from rfl, hs]
    cases (mmu.l2Pool.rawPage p).isSome with
    | true => simp
    | false =>
      simp only [Bool.false_eq_true, if_false, iff_false]
      intro he
      have : kInvalidSlotId < 0 := by decide
      omega
  have hback : (mmu.blockDirectory.metas.entry p).hasL2Backing = (mmu.l2Pool.rawPage p).isSome :=
    hok.backing.trans hl2
  refine ⟨?_, ?_, hok.frame, ?_, hslot, ?_, ?_, ?_⟩
  · rw [h.allocator.refCount_pos]
    exact hok.allocated
  · exact fun ha => hok.tier (hok.allocated.mp ha)
  · rw [hback, hslot]
  · intro hp1
    exact hok.l1_resident (hl1.trans hp1)
  · intro hpin
    have hsome := hok.pinned hpin
    exact ⟨hok.l1_resident hsome, hl1.symm.trans hsome⟩
  · intro hz
    have hlive : ¬mmu.Live p := by
      intro hl
      have := h.allocator.refCount_pos.mpr hl
      omega
    have hun := h.coherent.unused hlive
    refine ⟨congrArg BlockView.info hun, ?_, ?_⟩
    · have h1 : mmu.page .l1 p = none := congrArg BlockView.l1 hun
      exact page_eq_none.mp h1
    · have h2 : mmu.page .l2 p = none := congrArg BlockView.l2 hun
      exact page_eq_none.mp h2

/-- Two blocks mapped and forked with room for one in L1. -/
def forkedCalls : List Call :=
  [.createContext (some 1), .allocateBlocks 1 2, .mapLogicalBlock 1 0 mapRead, .mapLogicalBlock 1 1 mapRead,
    .forkContext 1 (fun _ => true) (some 2), .prepareBlockForWrite 2 0]

/-- The free slots and the owned ones are pairwise distinct and are all the slots there are. -/
structure PoolPartition (pool : ChunkPool) : Prop where
  free_nodup : pool.freeBlocks.Nodup
  owner_inj : ∀ p q s, pool.rawPage p = some s → pool.rawPage q = some s → p = q
  owned_not_free : ∀ p s, pool.rawPage p = some s → s ∉ pool.freeBlocks
  slots : ∀ s, pool.IsSlot s ↔ s ∈ pool.freeBlocks ∨ ∃ p, pool.rawPage p = some s
  committed : pool.committedPages =
    ((IntTable.indices pool.ownerPages.size).filter (fun p => pool.rawPage p ≠ none)).card

theorem ChunkPool.Ok.partition {pool : ChunkPool} (h : pool.Ok) (he : pool.Exact) : PoolPartition pool := by
  refine ⟨h.free_nodup, h.owner_inj, h.owned_not_free, ?_, h.committed⟩
  intro s
  constructor
  · exact he.covers s
  · rintro (hfree | ⟨p, hp⟩)
    · exact h.free_slot s hfree
    · exact h.owned_slot p s hp

/-- The guard of `ReleasePage` is true whenever there is a page to release. -/
theorem ChunkPool.Ok.committed_pos {pool : ChunkPool} (h : pool.Ok) {p : Int} (hp : pool.rawPage p ≠ none) :
    0 < pool.committedPages := by
  rw [h.committed]
  obtain ⟨s, hs⟩ := Option.ne_none_iff_exists'.mp hp
  have hv := (IntTable.inRange_iff_mem _ p).mp (h.owned_valid p s hs)
  exact Finset.card_pos.mpr ⟨p, Finset.mem_filter.mpr ⟨hv, hp⟩⟩

/-- Who owns the slots of the two pools, and how many there may be. -/
structure PoolOwnership (mmu : MmuRuntime) : Prop where
  partition : ∀ id, PoolPartition (mmu.pool id)
  guard : ∀ id p, (mmu.pool id).rawPage p ≠ none → 0 < (mmu.pool id).committedPages
  l2_slots : mmu.l2Pool.totalSlots ≤ mmu.config.l2BlockCount
  l2_committed : mmu.l2Pool.committedPages ≤ mmu.config.l2BlockCount
  l1_committed : mmu.l1Pool.committedPages ≤ mmu.residentCount
  l1_slots : mmu.l1Pool.totalSlots ≤ mmu.config.l1ResidentBlockLimit - 1 + mmu.config.chunkBlockCount

/-- Page-pool ownership and capacity at every API boundary. -/
theorem page_pool_ownership (h : Reachable mmu) (hg : mmu.GrowsFreely) : PoolOwnership mmu := by
  have hc := h.settled.coherent
  have hs := hc.sound
  refine ⟨?_, ?_, hs.slots hg .l2, hs.l2_capped, hc.committed_le, hs.slots hg .l1⟩
  · intro id
    exact (hs.pool_ok id).partition (hs.exact hg id)
  · intro id p hp
    exact (hs.pool_ok id).committed_pos hp

theorem page_pool_ownership_forked : PoolOwnership (machine.replay (smallInstance 1 2) forkedCalls) :=
  page_pool_ownership ((smallInstance_reachable 1 2).replay (by decide +kernel)) (by
    intro k pushed
    have hset : SameSetup (smallInstance 1 2) (machine.replay (smallInstance 1 2) forkedCalls) :=
      replay_setup (new_settled _ _) (by decide +kernel)
    have hreply : (smallInstance 1 2).host.reply k = .granted := rfl
    rw [hset.replies, hreply]
    exact fun hne => ChunkReply.noConfusion hne)

/-- The counter is exact and within the limit. -/
def CountExact (mmu : MmuRuntime) : Prop :=
  mmu.residentCount = mmu.residents.card ∧ mmu.residentCount ≤ mmu.config.l1ResidentBlockLimit

theorem MmuRuntime.Coherent.countExact {live : Int → Prop} (h : mmu.Coherent live) : CountExact mmu := by
  refine ⟨h.count, ?_⟩
  have := h.sound.limit
  have := h.limit
  omega

end DsfMmu
