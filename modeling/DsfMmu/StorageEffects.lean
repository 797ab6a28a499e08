import DsfMmu.PageEffects

namespace DsfMmu

open MmuRuntime

section Directory

variable {mmu : MmuRuntime} {p : Int}

/-- A write to one record changes that record and nothing else. -/
theorem mutate_effect (hs : mmu.Sound) (hv : mmu.Valid p) (f : BlockMeta → BlockMeta) :
    Effect mmu (mmu.setDirectory (mmu.blockDirectory.mutate p f))
      (Function.update mmu.block p { mmu.block p with info := f (mmu.block p).info })
      mmu.residentCount mmu.epoch := by
  refine ⟨hs.of_same rfl rfl (by simp [setDirectory]) (fun id => by cases id <;> rfl) rfl rfl,
    ⟨rfl, rfl, rfl, rfl, rfl⟩, ?_, rfl, rfl⟩
  funext q
  have hpage : ∀ id, (mmu.setDirectory (mmu.blockDirectory.mutate p f)).page id q = mmu.page id q := by
    intro id
    cases id <;> rfl
  have hentry := BlockDirectory.mutate_entry (hs.meta_inRange.mpr hv) f q
  simp only [MmuRuntime.block, hpage]
  by_cases hq : q = p
  · subst q
    simp [setDirectory, hentry]
  · simp [setDirectory, hentry, hq, MmuRuntime.block]

theorem touchBlock_effect (hs : mmu.Sound) (hv : mmu.Valid p) :
    Effect mmu (touchBlock mmu p)
      (Function.update mmu.block p ((mmu.block p).touched (nextEpoch mmu.epoch)))
      mmu.residentCount (nextEpoch mmu.epoch) := by
  have h := mutate_effect hs hv (fun m => { m with lastAccessEpoch := nextEpoch mmu.epoch })
  refine ⟨h.sound.of_same rfl rfl rfl (fun id => by cases id <;> rfl) rfl rfl,
    ⟨rfl, rfl, rfl, rfl, rfl⟩, ?_, rfl, rfl⟩
  funext q
  exact congrFun h.blocks q

theorem setCount_effect (hs : mmu.Sound) (n : Nat) :
    Effect mmu { mmu with residentCount := n } mmu.block n mmu.epoch :=
  ⟨hs.of_same rfl rfl rfl (fun id => by cases id <;> rfl) rfl rfl, ⟨rfl, rfl, rfl, rfl, rfl⟩, rfl, rfl, rfl⟩

theorem dropResident_effect (hs : mmu.Sound) :
    Effect mmu (dropResident mmu) mmu.block (mmu.residentCount - 1) mmu.epoch := by
  have hn : (if mmu.residentCount > 0 then mmu.residentCount - 1 else mmu.residentCount) =
      mmu.residentCount - 1 := by
    split <;> omega
  simpa only [dropResident, hn] using setCount_effect hs (mmu.residentCount - 1)

end Directory

section Pages

variable {mmu : MmuRuntime} {p : Int}

theorem releasePage_page (hs : mmu.Sound) (id : PoolId) (i : PoolId) (q : Int) :
    (releasePage mmu id p).page i q = if i = id ∧ q = p then none else mmu.page i q := by
  unfold releasePage
  by_cases hi : i = id
  · subst i
    cases he : (mmu.pool id).ownerPages.entry p with
    | none =>
      rw [ChunkPool.releasePage_of_none he]
      split
      next hq =>
        rw [page_eq_none]
        simpa [hq.2] using he
      next => apply page_congr <;> simp
    | some slot =>
      rw [(ChunkPool.releasePage_of_some (hs.pool_ok id) he).1]
      by_cases hq : q = p
      · rw [if_pos ⟨rfl, hq⟩, page_eq_none]
        simp [hq]
      · rw [if_neg (by simp [hq])]
        apply page_congr <;> simp [IntTable.set_entry, hq]
  · rw [if_neg (by simp [hi])]
    apply page_congr <;> simp [hi]

theorem releasePage_sound (hs : mmu.Sound) (id : PoolId) : (releasePage mmu id p).Sound := by
  have hsize : ((mmu.pool id).releasePage p).ownerPages.size = (mmu.pool id).ownerPages.size := by
    unfold ChunkPool.releasePage
    split
    · rfl
    · split <;> rfl
  refine hs.setPool hsize (ChunkPool.releasePage_ok (hs.pool_ok id) p) ?_ ?_
  · intro heq
    subst heq
    have hcap := hs.l2_capped
    cases he : (mmu.pool .l2).ownerPages.entry p with
    | none => rwa [ChunkPool.releasePage_of_none he]
    | some slot =>
      rw [(ChunkPool.releasePage_of_some (hs.pool_ok .l2) he).1]
      exact le_trans (Nat.sub_le _ _) hcap
  · intro hg
    refine ⟨ChunkPool.releasePage_exact (hs.pool_ok id) (hs.exact hg id) p, ?_⟩
    rw [ChunkPool.releasePage_totalSlots]
    exact hs.slots hg id

/-- Releasing a page of `p` changes the view of `p` alone. -/
theorem releasePage_effect (hs : mmu.Sound) (id : PoolId) :
    Effect mmu (releasePage mmu id p)
      (Function.update mmu.block p (match id with
        | .l1 => { mmu.block p with l1 := none }
        | .l2 => { mmu.block p with l2 := none }))
      mmu.residentCount mmu.epoch := by
  refine ⟨releasePage_sound hs id, setPool_routing _ _ _, ?_, by simp [releasePage], by simp [releasePage]⟩
  funext q
  have hdir : (releasePage mmu id p).blockDirectory = mmu.blockDirectory := by simp [releasePage]
  simp only [MmuRuntime.block, hdir, releasePage_page hs]
  by_cases hq : q = p
  · subst q
    cases id <;> simp
  · simp [hq, MmuRuntime.block]

theorem copyOrZero_rawPage (mmu : MmuRuntime) (src dst : PoolId) (q : Int) (slot : PagePtr) :
    copyOrZero mmu (rawPage mmu src q) dst slot =
      mmu.setPool dst ((mmu.pool dst).write slot (BlockView.pageBytes mmu.zeroPage (mmu.page src q))) := by
  unfold copyOrZero rawPage MmuRuntime.page
  cases (mmu.pool src).rawPage q <;> rfl

/-- A whole-page store to a slot that `p` owns changes the page of `p` alone. -/
theorem write_page (hs : mmu.Sound) {id : PoolId} {slot : PagePtr}
    (howned : (mmu.pool id).ownerPages.entry p = some slot) (b : Bytes) (i : PoolId) (q : Int) :
    (mmu.setPool id ((mmu.pool id).write slot b)).page i q =
      if i = id ∧ q = p then some ⟨slot, b⟩ else mmu.page i q := by
  by_cases hi : i = id
  · subst i
    by_cases hq : q = p
    · subst q
      simp [MmuRuntime.page, ChunkPool.rawPage, ChunkPool.write, howned]
    · rw [if_neg (by simp [hq])]
      apply page_congr
      · simp [ChunkPool.write]
      · intro ptr hptr
        have hne : ptr ≠ slot := by
          intro heq
          subst heq
          exact hq ((hs.pool_ok id).owner_inj q p ptr hptr howned)
        simp [ChunkPool.write, Function.update_of_ne hne]
  · rw [if_neg (by simp [hi])]
    apply page_congr <;> simp [hi]

theorem write_sound (hs : mmu.Sound) (id : PoolId) (slot : PagePtr) (b : Bytes) :
    (mmu.setPool id ((mmu.pool id).write slot b)).Sound := by
  refine hs.setPool rfl (ChunkPool.write_ok (hs.pool_ok id) slot b) ?_ ?_
  · intro heq
    subst heq
    exact hs.l2_capped
  · exact fun hg => ⟨ChunkPool.write_exact (hs.exact hg id) slot b, hs.slots hg id⟩

/-- Acquiring a page and filling it: the page of `p` in that pool is the slot with these bytes. -/
theorem Acquired.filled {mmu mmu' : MmuRuntime} {id : PoolId} {slot : PagePtr}
    (h : Acquired mmu mmu' id p slot) (b : Bytes) :
    Effect mmu (mmu'.setPool id ((mmu'.pool id).write slot b))
      (Function.update mmu.block p (match id with
        | .l1 => { mmu.block p with l1 := some ⟨slot, b⟩ }
        | .l2 => { mmu.block p with l2 := some ⟨slot, b⟩ }))
      mmu.residentCount mmu.epoch := by
  have howned : (mmu'.pool id).ownerPages.entry p = some slot := by
    have hp := h.page id p
    rw [if_pos ⟨rfl, rfl⟩] at hp
    exact (page_eq_some.mp hp).1
  refine ⟨write_sound h.sound id slot b, h.routing.trans (setPool_routing _ _ _), ?_, by simpa using h.count,
    by simpa using h.epoch⟩
  funext q
  simp only [MmuRuntime.block, setPool_directory, h.directory, write_page h.sound howned, h.page]
  by_cases hq : q = p
  · subst q
    cases id <;> simp
  · simp [hq, MmuRuntime.block]

end Pages

/-! Continuing an effect by one more operation on a block. -/

namespace MmuRuntime.Effect

variable {a b : MmuRuntime} {f : Int → BlockView} {n e : Nat} {p : Int}

theorem valid (h : Effect a b f n e) (hv : a.Valid p) : b.Valid p := (h.routing.valid p).mpr hv

theorem mutate (h : Effect a b f n e) (hv : a.Valid p) (g : BlockMeta → BlockMeta) :
    Effect a (b.setDirectory (b.blockDirectory.mutate p g))
      (Function.update f p { f p with info := g (f p).info }) n e := by
  have h' := mutate_effect h.sound (h.valid hv) g
  rw [h.blocks, h.residentCount, h.epoch] at h'
  exact h.trans h'

theorem touch (h : Effect a b f n e) (hv : a.Valid p) :
    Effect a (touchBlock b p) (Function.update f p ((f p).touched (nextEpoch e))) n
      (nextEpoch e) := by
  have h' := touchBlock_effect h.sound (h.valid hv)
  rw [h.blocks, h.residentCount, h.epoch] at h'
  exact h.trans h'

theorem mutateMeta (h : Effect a b f n e) (hv : a.Valid p) (g : BlockMeta → BlockMeta) :
    Effect a (b.mutateMeta p g) (Function.update f p { f p with info := g (f p).info }) n e :=
  h.mutate hv g

theorem gainResident (h : Effect a b f n e) :
    Effect a { b with residentCount := b.residentCount + 1 } f (n + 1) e := by
  have h' := setCount_effect h.sound (b.residentCount + 1)
  exact ⟨h'.sound, h.routing.trans h'.routing, h'.blocks.trans h.blocks,
    congrArg (· + 1) h.residentCount, h.epoch⟩

theorem dropResident (h : Effect a b f n e) : Effect a (DsfMmu.dropResident b) f (n - 1) e := by
  have h' := dropResident_effect h.sound
  rw [h.blocks, h.residentCount, h.epoch] at h'
  exact h.trans h'

theorem releaseL1 (h : Effect a b f n e) :
    Effect a (releasePage b .l1 p) (Function.update f p { f p with l1 := none }) n e := by
  have h' := releasePage_effect (p := p) h.sound .l1
  simp only [h.blocks, h.residentCount, h.epoch] at h'
  exact h.trans h'

theorem releaseL2 (h : Effect a b f n e) :
    Effect a (releasePage b .l2 p) (Function.update f p { f p with l2 := none }) n e := by
  have h' := releasePage_effect (p := p) h.sound .l2
  simp only [h.blocks, h.residentCount, h.epoch] at h'
  exact h.trans h'

theorem of_blocks (h : Effect a b f n e) {g : Int → BlockView} (hg : f = g) : Effect a b g n e := hg ▸ h

end MmuRuntime.Effect

section Sync

variable {mmu mmu' : MmuRuntime} {p : Int}

theorem roomFor_l2 (mmu : MmuRuntime) (p : Int) : RoomFor mmu .l2 p := by
  intro h
  simp at h

theorem syncL1ToL2_ok {u : Unit} (hs : mmu.Sound) (hv : mmu.Valid p)
    (h : syncL1ToL2 mmu p = (.ok u, mmu')) :
    ∃ ptr, Effect mmu mmu' (Function.update mmu.block p ((mmu.block p).writtenBack mmu.zeroPage p ptr))
      mmu.residentCount mmu.epoch := by
  unfold syncL1ToL2 at h
  split at h
  next => simp at h
  next slot mid hacq =>
    have ha := acquirePage_ok hs (roomFor_l2 mmu p) hacq
    have hsrc : mid.page .l1 p = mmu.page .l1 p := by simp [ha.page]
    have h1 := ha.filled (BlockView.pageBytes mid.zeroPage (mid.page .l1 p))
    rw [← copyOrZero_rawPage, hsrc, ha.routing.zeroPage] at h1
    have h2 := (h1.mutate hv (fun m => { m with hasL2Backing := true })).mutate hv
      (fun m => { m with l2SlotId := p })
    obtain ⟨_, rfl⟩ := Prod.mk.inj h
    refine ⟨slot, h2.of_blocks ?_⟩
    simp only [Function.update_idem, Function.update_self]
    rfl

theorem syncL1ToL2_error {e : MmuError} (hs : mmu.Sound) (h : syncL1ToL2 mmu p = (.error e, mmu')) :
    Effect mmu mmu' mmu.block mmu.residentCount mmu.epoch := by
  unfold syncL1ToL2 at h
  split at h
  next hacq =>
    cases h
    obtain ⟨hsm, hsame⟩ := acquirePage_error hs (roomFor_l2 mmu p) hacq
    exact hsame.effect hsm
  next => simp at h

theorem syncL2ToL1_ok {u : Unit} (hs : mmu.Sound) (hv : mmu.Valid p) (hroom : RoomFor mmu .l1 p)
    (h : syncL2ToL1 mmu p = (.ok u, mmu')) :
    ∃ ptr, Effect mmu mmu'
      (Function.update mmu.block p
        { mmu.block p with
          info := { (mmu.block p).info with l1FrameId := p }
          l1 := some ⟨ptr, BlockView.pageBytes mmu.zeroPage (mmu.block p).l2⟩ })
      mmu.residentCount mmu.epoch := by
  unfold syncL2ToL1 at h
  split at h
  next => simp at h
  next slot mid hacq =>
    have ha := acquirePage_ok hs hroom hacq
    have hsrc : mid.page .l2 p = mmu.page .l2 p := by simp [ha.page]
    have h1 := ha.filled (BlockView.pageBytes mid.zeroPage (mid.page .l2 p))
    rw [← copyOrZero_rawPage, hsrc, ha.routing.zeroPage] at h1
    have h2 := h1.mutate hv (fun m => { m with l1FrameId := p })
    obtain ⟨_, rfl⟩ := Prod.mk.inj h
    refine ⟨slot, h2.of_blocks ?_⟩
    simp only [Function.update_idem, Function.update_self]
    rfl

theorem promoteToL1_ok {u : Unit} (hs : mmu.Sound) (hv : mmu.Valid p) (hroom : RoomFor mmu .l1 p)
    (h : promoteToL1 mmu p = (.ok u, mmu')) :
    ∃ ptr, Effect mmu mmu'
      (Function.update mmu.block p ((mmu.block p).promoted mmu.zeroPage p ptr (nextEpoch mmu.epoch)))
      (mmu.residentCount + 1) (nextEpoch mmu.epoch) := by
  unfold promoteToL1 at h
  split at h
  next => simp at h
  next hsync =>
    obtain ⟨ptr, h1⟩ := syncL2ToL1_ok hs hv hroom hsync
    have h2 := h1.mutateMeta hv (fun m => { m with residentInL1 := true, l1FrameId := p, tier := .l1 })
    have h3 := h2.gainResident.touch hv
    obtain ⟨_, rfl⟩ := Prod.mk.inj h
    refine ⟨ptr, h3.of_blocks ?_⟩
    simp only [Function.update_idem, Function.update_self]
    rfl

theorem promoteToL1_error {e : MmuError} (hs : mmu.Sound) (hroom : RoomFor mmu .l1 p)
    (h : promoteToL1 mmu p = (.error e, mmu')) :
    Effect mmu mmu' mmu.block mmu.residentCount mmu.epoch := by
  unfold promoteToL1 at h
  split at h
  next hsync =>
    cases h
    unfold syncL2ToL1 at hsync
    split at hsync
    next hacq =>
      cases hsync
      obtain ⟨hsm, hsame⟩ := acquirePage_error hs hroom hacq
      exact hsame.effect hsm
    next => simp at hsync
  next => simp at h

/-- `MoveBlockToL2` of a resident block. -/
theorem moveBlockToL2_ok {u : Unit} (hs : mmu.Sound) (hv : mmu.Valid p)
    (hr : (mmu.block p).info.residentInL1 = true) (h : moveBlockToL2 mmu p = (.ok u, mmu')) :
    ∃ ptr, Effect mmu mmu' (Function.update mmu.block p ((mmu.block p).demoted mmu.zeroPage p ptr))
      (mmu.residentCount - 1) mmu.epoch := by
  have hget := BlockDirectory.get_eq_some (hs.meta_inRange.mpr hv)
  have hr' : (mmu.blockDirectory.metas.entry p).residentInL1 = true := hr
  unfold moveBlockToL2 at h
  rw [hget] at h
  split at h
  next => simp at h
  next =>
    dsimp only at h
    split at h
    next => simp at h
    next =>
      split at h
      next => simp at h
      next hsync =>
        obtain ⟨ptr, h1⟩ := syncL1ToL2_ok hs hv hsync
        have h2 := h1.mutate hv (fun m => { m with residentInL1 := false, l1FrameId := kInvalidFrameId })
        have h3 := (h2.dropResident.releaseL1 (p := p)).mutate hv (fun m => { m with tier := .l2 })
        obtain ⟨_, rfl⟩ := Prod.mk.inj h
        refine ⟨ptr, h3.of_blocks ?_⟩
        simp only [Function.update_idem, Function.update_self]
        rfl

theorem moveBlockToL2_error {e : MmuError} (hs : mmu.Sound) (h : moveBlockToL2 mmu p = (.error e, mmu')) :
    Effect mmu mmu' mmu.block mmu.residentCount mmu.epoch := by
  unfold moveBlockToL2 at h
  split at h
  next => cases h; exact hs.effect_refl
  next =>
    split at h
    next => cases h; exact hs.effect_refl
    next =>
      split at h
      next => cases h; exact hs.effect_refl
      next =>
        dsimp only at h
        split at h
        next =>
          split at h
          next hsync => cases h; exact syncL1ToL2_error hs hsync
          next => simp at h
        next => simp at h

end Sync

section Reset

variable {mmu mmu' : MmuRuntime} {p : Int}

theorem resetBlockData_effect (hs : mmu.Sound) (hv : mmu.Valid p) :
    Effect mmu (resetBlockData mmu p)
      (Function.update mmu.block p
        { info := { BlockView.unused.info with
            allocated := (mmu.block p).info.allocated
            tier := (mmu.block p).info.tier }
          l1 := none
          l2 := none })
      mmu.residentCount mmu.epoch := by
  have h := ((hs.effect_refl.releaseL1 (p := p)).releaseL2 (p := p)).mutate hv (fun m =>
    { m with
      residentInL1 := false
      dirty := false
      pinCount := 0
      lastAccessEpoch := 0
      l1FrameId := kInvalidFrameId
      l2SlotId := kInvalidSlotId
      hasL2Backing := false })
  refine h.of_blocks ?_
  simp only [Function.update_idem, Function.update_self]
  rfl

/-- Forgetting a block leaves it as if it had never been used. -/
theorem forgetBlock_effect (hs : mmu.Sound) (hv : mmu.Valid p) :
    Effect mmu (forgetBlock mmu p) (Function.update mmu.block p .unused)
      (if (mmu.block p).info.residentInL1 then mmu.residentCount - 1 else mmu.residentCount) mmu.epoch := by
  have hget := BlockDirectory.get_eq_some (hs.meta_inRange.mpr hv)
  have hreset : ∀ {b : MmuRuntime} {n : Nat}, Effect mmu b mmu.block n mmu.epoch →
      Effect mmu ((resetBlockData b p).setDirectory ((resetBlockData b p).blockDirectory.reset p))
        (Function.update mmu.block p .unused) n mmu.epoch := by
    intro b n hb
    have h1 := resetBlockData_effect hb.sound (hb.valid hv)
    rw [hb.blocks, hb.residentCount, hb.epoch] at h1
    refine ((hb.trans h1).mutate hv (fun _ => makeDefaultMeta)).of_blocks ?_
    simp only [Function.update_idem, Function.update_self]
    rfl
  unfold forgetBlock
  simp only [hget]
  cases hr : (mmu.blockDirectory.metas.entry p).residentInL1 with
  | true =>
    have hr' : (mmu.block p).info.residentInL1 = true := hr
    simp only [hr', if_true]
    exact hreset hs.effect_refl.dropResident
  | false =>
    have hr' : (mmu.block p).info.residentInL1 = false := hr
    simp only [hr', Bool.false_eq_true, if_false]
    exact hreset hs.effect_refl

theorem registerFreshBlock_effect (hs : mmu.Sound) (hv : mmu.Valid p) :
    (mmu.residentCount < mmu.residentLimit → Effect mmu (registerFreshBlock mmu p)
      (Function.update mmu.block p (.freshResident p (nextEpoch mmu.epoch)))
      (mmu.residentCount + 1) (nextEpoch mmu.epoch)) ∧
    (¬mmu.residentCount < mmu.residentLimit → Effect mmu (registerFreshBlock mmu p)
      (Function.update mmu.block p .freshSwapped) mmu.residentCount mmu.epoch) := by
  have h1 := hs.effect_refl.mutate hv (fun _ => makeFreshMeta)
  have h2 := resetBlockData_effect h1.sound (h1.valid hv)
  rw [h1.blocks, h1.residentCount, h1.epoch, Function.update_idem, Function.update_self] at h2
  have h3 := h1.trans h2
  unfold registerFreshBlock BlockDirectory.initializeFreshBlock
  dsimp only
  generalize resetBlockData (mmu.setDirectory (mmu.blockDirectory.mutate p fun _ => makeFreshMeta)) p = mid
    at h3 ⊢
  have hget := BlockDirectory.get_eq_some (h3.sound.meta_inRange.mpr (h3.valid hv))
  have hmeta : mid.blockDirectory.metas.entry p = makeFreshMeta := by
    have h := congrArg BlockView.info (congrFun h3.blocks p)
    rw [Function.update_self] at h
    exact h
  rw [hget, hmeta]
  dsimp only
  rw [h3.residentCount, h3.routing.limit]
  constructor
  · intro hlt
    have h4 := (h3.mutateMeta hv (fun m => { m with residentInL1 := true, l1FrameId := p })).gainResident
    have h5 := (h4.mutateMeta hv (fun m => { m with tier := .l1 })).touch hv
    rw [if_pos hlt, if_pos (show makeFreshMeta.residentInL1 = false from rfl)]
    refine h5.of_blocks ?_
    simp only [Function.update_idem, Function.update_self]
    rfl
  · intro hlt
    rw [if_neg hlt]
    refine (h3.mutate hv _).of_blocks ?_
    simp only [Function.update_idem, Function.update_self]
    rfl

end Reset

section Cow

variable {mmu mmu' : MmuRuntime} {src dst : Int}

/-- The clone reads a page of the source block, or has none to read. -/
theorem cowSource_cases (mmu : MmuRuntime) (src : Int) (srcTier : MmuTier) :
    (cowSource mmu src srcTier (mmu.block src).info = none ∧
      (mmu.block src).cowBytes mmu.zeroPage srcTier = mmu.zeroPage) ∨
    ∃ id pg, cowSource mmu src srcTier (mmu.block src).info = some (id, pg.ptr) ∧
      mmu.page id src = some pg ∧ (mmu.block src).cowBytes mmu.zeroPage srcTier = pg.bytes := by
  have hraw : ∀ id, rawPage mmu id src = (mmu.page id src).map (fun pg => (id, pg.ptr)) := by
    intro id
    simp only [rawPage, MmuRuntime.page, Option.map_map]
    rfl
  have hl1 : (mmu.block src).l1 = mmu.page .l1 src := rfl
  have hl2 : (mmu.block src).l2 = mmu.page .l2 src := rfl
  simp only [cowSource, BlockView.cowBytes, hraw, hl1, hl2]
  cases h1 : mmu.page .l1 src with
  | none =>
    cases h2 : mmu.page .l2 src with
    | none => exact .inl ⟨by simp, by simp⟩
    | some pg => exact .inr ⟨.l2, pg, by simp, h2, by simp⟩
  | some pg =>
    by_cases htier : srcTier = .l1 ∧ (mmu.block src).info.residentInL1
    · exact .inr ⟨.l1, pg, by simp [htier], h1, by simp [htier]⟩
    · cases h2 : mmu.page .l2 src with
      | none => exact .inr ⟨.l1, pg, by simp [htier], h1, by simp [htier]⟩
      | some pg2 => exact .inr ⟨.l2, pg2, by simp [htier], h2, by simp [htier]⟩

/-- The copy that follows the acquired page stores the bytes the source had before. -/
theorem copyOrZero_cowSource {mid : MmuRuntime} {slot : PagePtr} (hne : src ≠ dst) (srcTier : MmuTier)
    (ha : Acquired mmu mid .l2 dst slot) :
    copyOrZero mid (cowSource mmu src srcTier (mmu.block src).info) .l2 slot =
      mid.setPool .l2 ((mid.pool .l2).write slot ((mmu.block src).cowBytes mmu.zeroPage srcTier)) := by
  obtain ⟨hsrc, hbytes⟩ | ⟨id, pg, hsrc, hpage, hbytes⟩ := cowSource_cases mmu src srcTier
  · rw [hsrc, hbytes, ← ha.routing.zeroPage]
    rfl
  · have hmid : mid.page id src = some pg := by
      rw [ha.page, if_neg (fun h => hne h.2), hpage]
    rw [hsrc, hbytes, (page_eq_some.mp hmid).2]
    rfl

/-- `CloneBlockDataForCow` into a new block outside L1. -/
theorem cloneBlockDataForCow_ok {u : Unit} {srcTier : MmuTier} (hs : mmu.Sound) (hsrc : mmu.Valid src)
    (hdst : mmu.Valid dst) (hne : src ≠ dst) (hfresh : mmu.block dst = .freshSwapped)
    (h : cloneBlockDataForCow mmu src srcTier dst = (.ok u, mmu')) :
    ∃ ptr, Effect mmu mmu'
      (Function.update mmu.block dst
        (.cloned dst ptr ((mmu.block src).cowBytes mmu.zeroPage srcTier)))
      mmu.residentCount mmu.epoch := by
  have hgets := BlockDirectory.get_eq_some (hs.meta_inRange.mpr hsrc)
  have hgetd := BlockDirectory.get_eq_some (hs.meta_inRange.mpr hdst)
  have hr : (mmu.blockDirectory.metas.entry dst).residentInL1 = false := by
    have := congrArg (fun v => v.info.residentInL1) hfresh
    exact this
  unfold cloneBlockDataForCow at h
  rw [hgets, hgetd] at h
  split at h
  next => simp at h
  next =>
    dsimp only at h
    split at h
    next => simp at h
    next slot mid hacq =>
      have ha := acquirePage_ok hs (roomFor_l2 mmu dst) hacq
      have h1 := ha.filled ((mmu.block src).cowBytes mmu.zeroPage srcTier)
      rw [← copyOrZero_cowSource hne srcTier ha] at h1
      have h2 := (h1.mutate hdst (fun m => { m with hasL2Backing := true })).mutate hdst
        (fun m => { m with l2SlotId := dst })
      rw [hr] at h
      obtain ⟨_, rfl⟩ := Prod.mk.inj h
      refine ⟨slot, (h2.releaseL1 (p := dst)).of_blocks ?_⟩
      simp only [Function.update_idem, Function.update_self, hfresh]
      rfl

theorem cloneBlockDataForCow_error {e : MmuError} {srcTier : MmuTier} (hs : mmu.Sound)
    (hdst : mmu.Valid dst) (hfresh : mmu.block dst = .freshSwapped)
    (h : cloneBlockDataForCow mmu src srcTier dst = (.error e, mmu')) :
    Effect mmu mmu' mmu.block mmu.residentCount mmu.epoch := by
  have hgetd := BlockDirectory.get_eq_some (hs.meta_inRange.mpr hdst)
  have hr : (mmu.blockDirectory.metas.entry dst).residentInL1 = false := by
    have := congrArg (fun v => v.info.residentInL1) hfresh
    exact this
  unfold cloneBlockDataForCow at h
  rw [hgetd] at h
  split at h
  next => cases h; exact hs.effect_refl
  next =>
    split at h
    next srcMeta dstMeta _ hd =>
      cases Option.some.inj hd
      split at h
      next hacq =>
        cases h
        obtain ⟨hsm, hsame⟩ := acquirePage_error hs (roomFor_l2 mmu dst) hacq
        exact hsame.effect hsm
      next =>
        rw [hr] at h
        simp at h
    next => cases h; exact hs.effect_refl

end Cow

end DsfMmu
