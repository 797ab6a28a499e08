import DsfMmu.BlockCounts
import DsfMmu.Coherence

namespace DsfMmu

namespace MmuRuntime

/-- The blocks with references. -/
def Live (mmu : MmuRuntime) (p : Int) : Prop := 0 < mmu.l1Allocator.refCounts.entry p

/-- The state of the runtime between two calls. -/
structure Settled (mmu : MmuRuntime) : Prop where
  allocator : mmu.l1Allocator.Ok
  coherent : mmu.Coherent mmu.Live

theorem not_live_of_zero {mmu : MmuRuntime} {p : Int} (h : mmu.l1Allocator.refCounts.entry p = 0) : ¬mmu.Live p :=
  not_lt.mpr h.le

theorem SameRouting.live {mmu mmu' : MmuRuntime} (h : SameRouting mmu mmu') (p : Int) :
    mmu'.Live p ↔ mmu.Live p := by
  simp only [Live, h.allocator]

theorem Quiet.settled {mmu mmu' : MmuRuntime} (hs : mmu.Settled) (h : Quiet mmu.Live mmu mmu') :
    mmu'.Settled := by
  refine ⟨?_, h.coherent.congr (fun p => (h.routing.live p).symm)⟩
  rw [h.routing.allocator]
  exact hs.allocator

end MmuRuntime

open MmuRuntime

section Reclaim

variable {mmu : MmuRuntime} {p : Int}

theorem setPool_self (mmu : MmuRuntime) (id : PoolId) : mmu.setPool id (mmu.pool id) = mmu := by
  cases id <;> rfl

theorem releasePage_self {id : PoolId} (h : mmu.page id p = none) : releasePage mmu id p = mmu := by
  rw [releasePage, ChunkPool.releasePage_of_none (page_eq_none.mp h), setPool_self]

theorem mutate_self {f : BlockMeta → BlockMeta}
    (h : f (mmu.blockDirectory.metas.entry p) = mmu.blockDirectory.metas.entry p) :
    mmu.setDirectory (mmu.blockDirectory.mutate p f) = mmu := by
  rw [BlockDirectory.mutate_eq_self h]
  rfl

/-- Forgetting a block that was never used changes nothing at all. -/
theorem forgetBlock_self (h : mmu.block p = .unused) : forgetBlock mmu p = mmu := by
  have hmeta : mmu.blockDirectory.metas.entry p = makeDefaultMeta := congrArg BlockView.info h
  have h1 : mmu.page .l1 p = none := congrArg BlockView.l1 h
  have h2 : mmu.page .l2 p = none := congrArg BlockView.l2 h
  have hreset : (resetBlockData mmu p).setDirectory ((resetBlockData mmu p).blockDirectory.reset p) = mmu := by
    rw [resetBlockData]
    rw [releasePage_self h1, releasePage_self h2, mutateMeta, mutate_self, BlockDirectory.reset, mutate_self]
    · exact hmeta.symm
    · rw [hmeta]
      rfl
  unfold forgetBlock
  cases hg : mmu.blockDirectory.get p with
  | none => exact hreset
  | some m =>
    have hm : m = makeDefaultMeta := by
      unfold BlockDirectory.get at hg
      split at hg
      next => exact (Option.some.inj hg).symm.trans hmeta
      next => simp at hg
    rw [hm]
    exact hreset

theorem reclaimBlock_self (h : mmu.Settled) (p : Int) : reclaimBlock mmu p = mmu := by
  unfold reclaimBlock
  split
  next hz =>
    have hlive : ¬mmu.Live p := by
      intro hp
      have := h.allocator.refCount_pos.mpr hp
      omega
    exact forgetBlock_self (h.coherent.unused hlive)
  next => rfl

/-- Between calls the scan finds nothing to reclaim. -/
theorem reclaimUnusedResidentBlocks_self (h : mmu.Settled) : reclaimUnusedResidentBlocks mmu = mmu := by
  unfold reclaimUnusedResidentBlocks
  induction scanIds mmu with
  | nil => rfl
  | cons q rest ih =>
    rw [List.foldl_cons, reclaimBlock_self h]
    exact ih

end Reclaim

section Room

variable {mmu mmu' : MmuRuntime} {live : Int → Prop} {p : Int}

namespace MmuRuntime

theorem Coherent.owned_resident (h : mmu.Coherent live)
    (hp : (mmu.pool .l1).ownerPages.entry p ≠ none) : (mmu.block p).info.residentInL1 = true := by
  have hpage : mmu.page .l1 p ≠ none := fun hn => hp (page_eq_none.mp hn)
  exact (h.blocks p).l1_resident (Option.isSome_iff_ne_none.mpr hpage)

theorem Coherent.committed_eq (h : mmu.Coherent live) :
    (mmu.pool .l1).committedPages =
      ((IntTable.indices mmu.config.l1BlockCount).filter
        (fun q => (mmu.pool .l1).ownerPages.entry q ≠ none)).card := by
  rw [(h.sound.pool_ok .l1).committed, h.sound.owners_size]

/-- Only resident blocks own L1 pages. -/
theorem Coherent.committed_le (h : mmu.Coherent live) :
    (mmu.pool .l1).committedPages ≤ mmu.residentCount := by
  rw [h.committed_eq, h.count]
  apply Finset.card_le_card
  intro q hq
  exact h.mem_residents.mpr (h.owned_resident (Finset.mem_filter.mp hq).2)

theorem Coherent.committed_lt (h : mmu.Coherent live) (hr : (mmu.block p).info.residentInL1 = true)
    (hn : (mmu.pool .l1).ownerPages.entry p = none) :
    (mmu.pool .l1).committedPages < mmu.residentCount := by
  rw [h.committed_eq, h.count]
  apply Finset.card_lt_card
  refine ⟨?_, ?_⟩
  · intro q hq
    exact h.mem_residents.mpr (h.owned_resident (Finset.mem_filter.mp hq).2)
  · intro hsub
    have hp := hsub (h.mem_residents.mpr hr)
    exact (Finset.mem_filter.mp hp).2 hn

/-- A resident block may always be given its L1 page. -/
theorem Coherent.roomFor_resident (h : mmu.Coherent live)
    (hr : (mmu.block p).info.residentInL1 = true) (id : PoolId) : RoomFor mmu id p := by
  intro heq hn
  subst heq
  have hlt := h.committed_lt hr hn
  have := h.limit
  omega

theorem Coherent.roomFor_below (h : mmu.Coherent live) (hlt : mmu.residentCount < mmu.residentLimit)
    (id : PoolId) : RoomFor mmu id p := by
  intro heq _
  subst heq
  have := h.committed_le
  omega

theorem Coherent.touch (h : mmu.Coherent live) (hp : live p) : Quiet live mmu (touchBlock mmu p) := by
  have he := touchBlock_effect h.sound (h.valid p hp)
  exact h.quiet_update hp he (BlockView.touched_ok (h.ok hp) _) rfl rfl (fun _ => rfl) rfl h.limit

theorem Coherent.evict (h : mmu.Coherent live) {u : Unit} (hp : live p)
    (hr : (mmu.block p).info.residentInL1 = true) (hpin : (mmu.block p).info.pinCount = 0)
    (hm : moveBlockToL2 mmu p = (.ok u, mmu')) :
    ∃ ptr, Quiet live mmu mmu' ∧ mmu'.residentCount + 1 = mmu.residentCount ∧
      mmu'.block = Function.update mmu.block p ((mmu.block p).demoted mmu.zeroPage p ptr) := by
  obtain ⟨ptr, he⟩ := moveBlockToL2_ok h.sound (h.valid p hp) hr hm
  have hpos := h.count_pos hr
  have hlimit := h.limit
  refine ⟨ptr, ?_, ?_, he.blocks⟩
  · apply h.quiet_update hp he (BlockView.demoted_ok (h.ok hp) hpin ptr) (BlockView.demoted_bytes hr ptr) rfl
    · intro hpos
      omega
    · simp only [weight, hr, if_true, BlockView.demoted, Bool.false_eq_true, if_false]
      omega
    · omega
  · rw [he.residentCount]
    omega

theorem Coherent.evict_error (h : mmu.Coherent live) {e : MmuError}
    (hm : moveBlockToL2 mmu p = (.error e, mmu')) : Quiet live mmu mmu' ∧ mmu'.block = mmu.block := by
  have he := moveBlockToL2_error h.sound hm
  exact ⟨h.quiet_same he, he.blocks⟩

theorem Coherent.promote (h : mmu.Coherent live) {u : Unit} (hp : live p)
    (hr : (mmu.block p).info.residentInL1 = false) (hlt : mmu.residentCount < mmu.residentLimit)
    (hm : promoteToL1 mmu p = (.ok u, mmu')) :
    ∃ ptr, Quiet live mmu mmu' ∧
      mmu'.block = Function.update mmu.block p
        ((mmu.block p).promoted mmu.zeroPage p ptr (nextEpoch mmu.epoch)) := by
  obtain ⟨ptr, he⟩ := promoteToL1_ok h.sound (h.valid p hp) (h.roomFor_below hlt .l1) hm
  refine ⟨ptr, ?_, he.blocks⟩
  apply h.quiet_update hp he (BlockView.promoted_ok (h.ok hp) ptr _) (BlockView.promoted_bytes hr ptr _) rfl
  · intro hpin
    have := (h.ok hp).pinned_resident hpin
    rw [hr] at this
    cases this
  · simp only [weight, hr, BlockView.promoted, Bool.false_eq_true, if_false, if_true]
  · omega

theorem Coherent.promote_error (h : mmu.Coherent live) {e : MmuError}
    (hlt : mmu.residentCount < mmu.residentLimit) (hm : promoteToL1 mmu p = (.error e, mmu')) :
    Quiet live mmu mmu' ∧ mmu'.block = mmu.block := by
  have he := promoteToL1_error h.sound (h.roomFor_below hlt .l1) hm
  exact ⟨h.quiet_same he, he.blocks⟩

/-- Taking the L1 page of a resident block, cleared when it is new. -/
theorem Coherent.materialise (h : mmu.Coherent live) {slot : PagePtr} (hp : live p)
    (hr : (mmu.block p).info.residentInL1 = true) (ha : acquirePage mmu .l1 p = (.ok slot, mmu')) :
    Quiet live mmu mmu' ∧
      mmu'.block = Function.update mmu.block p ((mmu.block p).materialised mmu.zeroPage slot) := by
  have hacq := acquirePage_ok h.sound (h.roomFor_resident hr .l1) ha
  have hblocks : mmu'.block = Function.update mmu.block p ((mmu.block p).materialised mmu.zeroPage slot) := by
    funext q
    simp only [block, hacq.directory, hacq.page]
    by_cases hq : q = p
    · subst q
      simp [BlockView.materialised]
    · simp [hq, block]
  have he : Effect mmu mmu' (Function.update mmu.block p ((mmu.block p).materialised mmu.zeroPage slot))
      mmu.residentCount mmu.epoch := ⟨hacq.sound, hacq.routing, hblocks, hacq.count, hacq.epoch⟩
  refine ⟨?_, hblocks⟩
  apply h.quiet_update hp he (BlockView.materialised_ok (h.ok hp) hr slot)
    (BlockView.materialised_bytes hr slot) rfl _ rfl h.limit
  intro hpin
  obtain ⟨pg, hpg⟩ := Option.isSome_iff_exists.mp ((h.ok hp).pinned hpin)
  have hslot := hacq.kept pg hpg
  show some (⟨slot, BlockView.pageBytes mmu.zeroPage (mmu.block p).l1⟩ : Page) = (mmu.block p).l1
  rw [hpg, hslot]
  rfl

theorem Coherent.materialise_error (h : mmu.Coherent live) {e : MmuError}
    (hr : (mmu.block p).info.residentInL1 = true) (ha : acquirePage mmu .l1 p = (.error e, mmu')) :
    Quiet live mmu mmu' ∧ mmu'.block = mmu.block := by
  obtain ⟨hsm, hsame⟩ := acquirePage_error h.sound (h.roomFor_resident hr .l1) ha
  exact ⟨h.quiet_same (hsame.effect hsm), hsame.block⟩

end MmuRuntime

end Room

end DsfMmu
