import DsfMmu.Storage

namespace DsfMmu

open MmuRuntime

/-- Everything is as before except chunks, free lists and the number of requests made. -/
structure SamePages (mmu mmu' : MmuRuntime) : Prop where
  routing : SameRouting mmu mmu'
  directory : mmu'.blockDirectory = mmu.blockDirectory
  count : mmu'.residentCount = mmu.residentCount
  epoch : mmu'.epoch = mmu.epoch
  owners : ∀ id, (mmu'.pool id).ownerPages = (mmu.pool id).ownerPages
  bytes : ∀ id, (mmu'.pool id).bytes = (mmu.pool id).bytes
  committed : ∀ id, (mmu'.pool id).committedPages = (mmu.pool id).committedPages

theorem SamePages.refl (mmu : MmuRuntime) : SamePages mmu mmu :=
  ⟨.refl mmu, rfl, rfl, rfl, fun _ => rfl, fun _ => rfl, fun _ => rfl⟩

theorem SamePages.page {mmu mmu' : MmuRuntime} (h : SamePages mmu mmu') (id : PoolId) (q : Int) :
    mmu'.page id q = mmu.page id q :=
  page_congr (by rw [h.owners]) (fun _ _ => by rw [h.bytes])

theorem SamePages.block {mmu mmu' : MmuRuntime} (h : SamePages mmu mmu') : mmu'.block = mmu.block := by
  funext q
  simp only [MmuRuntime.block, h.directory, h.page]

theorem SamePages.effect {mmu mmu' : MmuRuntime} (h : SamePages mmu mmu') (hs : mmu'.Sound) :
    Effect mmu mmu' mmu.block mmu.residentCount mmu.epoch :=
  ⟨hs, h.routing, h.block, h.count, h.epoch⟩

theorem askHost_same (mmu : MmuRuntime) : SamePages mmu mmu.askHost.2 :=
  ⟨⟨rfl, rfl, rfl, rfl, rfl⟩, rfl, rfl, rfl, fun id => by cases id <;> rfl, fun id => by cases id <;> rfl,
    fun id => by cases id <;> rfl⟩

theorem askHost_sound {mmu : MmuRuntime} (h : mmu.Sound) : mmu.askHost.2.Sound :=
  h.of_same rfl rfl rfl (fun id => by cases id <;> rfl) rfl rfl

theorem addChunk_same (mmu : MmuRuntime) (id : PoolId) (blocks pushed : Nat) :
    SamePages mmu (mmu.setPool id ((mmu.pool id).addChunk blocks pushed)) := by
  refine ⟨setPool_routing _ _ _, by simp, by simp, by simp, ?_, ?_, ?_⟩
  all_goals
    intro i
    by_cases hi : i = id
    · subst i; simp [ChunkPool.addChunk]
    · simp [hi]

theorem SamePages.trans {a b c : MmuRuntime} (h : SamePages a b) (h' : SamePages b c) : SamePages a c :=
  ⟨h.routing.trans h'.routing, h'.directory.trans h.directory, h'.count.trans h.count,
    h'.epoch.trans h.epoch, fun id => (h'.owners id).trans (h.owners id),
    fun id => (h'.bytes id).trans (h.bytes id), fun id => (h'.committed id).trans (h.committed id)⟩

theorem addChunk_sound {mmu : MmuRuntime} (h : mmu.Sound) {id : PoolId} {blocks pushed : Nat}
    (hp : pushed ≤ blocks)
    (hfull : mmu.GrowsFreely → pushed = blocks ∧ (mmu.pool id).totalSlots + blocks ≤ mmu.slotCap id) :
    (mmu.setPool id ((mmu.pool id).addChunk blocks pushed)).Sound := by
  refine h.setPool rfl (ChunkPool.addChunk_ok (h.pool_ok id) hp) ?_ ?_
  · intro heq
    subst heq
    exact h.l2_capped
  · intro hg
    obtain ⟨rfl, hb⟩ := hfull hg
    refine ⟨ChunkPool.addChunk_exact (h.exact hg id) _, ?_⟩
    simpa [ChunkPool.addChunk, ChunkPool.totalSlots] using hb

/-- Whatever the host replies, a chunk request touches no page that is owned. -/
theorem allocateChunk_same {mmu mmu' : MmuRuntime} {id : PoolId} {blocks : Nat} {r : Except MmuError Unit}
    (hs : mmu.Sound)
    (hroom : mmu.GrowsFreely → (mmu.pool id).totalSlots + blocks ≤ mmu.slotCap id)
    (h : allocateChunk mmu id blocks = (r, mmu')) : mmu'.Sound ∧ SamePages mmu mmu' := by
  have ha := askHost_same mmu
  have has := askHost_sound hs
  have hpool : ∀ i, mmu.askHost.2.pool i = mmu.pool i := fun i => by cases i <;> rfl
  have hcap : ∀ i, mmu.askHost.2.slotCap i = mmu.slotCap i := fun i => by cases i <;> rfl
  unfold allocateChunk at h
  dsimp only at h
  split at h
  next => cases h; exact ⟨hs, .refl mmu⟩
  next =>
    split at h
    next => cases h; exact ⟨hs, .refl mmu⟩
    next =>
      split at h
      next hask =>
        have he := congrArg Prod.snd hask
        dsimp only at he
        subst he
        cases h
        refine ⟨addChunk_sound has le_rfl ?_, ha.trans (addChunk_same _ _ _ _)⟩
        intro hg
        rw [hpool, hcap]
        exact ⟨rfl, hroom hg⟩
      next hask =>
        have he := congrArg Prod.snd hask
        dsimp only at he
        subst he
        cases h
        exact ⟨has, ha⟩
      next pushed _ hask =>
        have hreply : mmu.host.reply mmu.host.requests = .listFull pushed := congrArg Prod.fst hask
        have he := congrArg Prod.snd hask
        dsimp only at he
        subst he
        cases h
        refine ⟨addChunk_sound has (Nat.min_le_right _ _) ?_, ha.trans (addChunk_same _ _ _ _)⟩
        intro hg
        exact absurd hreply (hg _ _)

/-- A block about to get its first L1 page finds the pool below the resident limit. -/
def RoomFor (mmu : MmuRuntime) (id : PoolId) (p : Int) : Prop :=
  id = .l1 → (mmu.pool id).rawPage p = none → (mmu.pool id).committedPages < mmu.residentLimit

theorem chunkRequest_le {mmu : MmuRuntime} (hs : mmu.Sound) {id : PoolId} {p : Int}
    (hroom : RoomFor mmu id p) (hn : (mmu.pool id).rawPage p = none)
    (hempty : (mmu.pool id).freeBlocks = []) (hg : mmu.GrowsFreely) :
    (mmu.pool id).totalSlots + chunkRequest mmu id ≤ mmu.slotCap id := by
  have ht := (hs.exact hg id).total
  rw [hempty, List.length_nil, Nat.zero_add] at ht
  cases id with
  | l1 =>
    have hlt := hroom rfl hn
    have hlim := hs.limit
    simp only [chunkRequest, reduceCtorEq, false_and, if_false, slotCap]
    omega
  | l2 =>
    have hpos := mmu.config.l2_pos
    have hle := hs.l2_capped
    simp only [chunkRequest, hpos, and_self, if_true, slotCap]
    split <;> omega

theorem refill_same {mmu mmu' : MmuRuntime} {id : PoolId} {p : Int} {r : Except MmuError Unit}
    (hs : mmu.Sound) (hroom : RoomFor mmu id p) (hn : (mmu.pool id).rawPage p = none)
    (h : refill mmu id = (r, mmu')) : mmu'.Sound ∧ SamePages mmu mmu' := by
  unfold refill at h
  split at h
  next => cases h; exact ⟨hs, .refl mmu⟩
  next hempty =>
    split at h
    next => cases h; exact ⟨hs, .refl mmu⟩
    next => exact allocateChunk_same hs (chunkRequest_le hs hroom hn (not_not.mp hempty)) h

/-- `AcquirePage` that succeeds: the block owns the returned slot; a new page is all zeros. -/
structure Acquired (mmu mmu' : MmuRuntime) (id : PoolId) (p : Int) (slot : PagePtr) : Prop where
  sound : mmu'.Sound
  routing : SameRouting mmu mmu'
  directory : mmu'.blockDirectory = mmu.blockDirectory
  count : mmu'.residentCount = mmu.residentCount
  epoch : mmu'.epoch = mmu.epoch
  page : ∀ i q, mmu'.page i q =
    if i = id ∧ q = p then some ⟨slot, BlockView.pageBytes mmu.zeroPage (mmu.page id p)⟩ else mmu.page i q
  kept : ∀ pg, mmu.page id p = some pg → slot = pg.ptr

/-- Taking the back of the free list changes the page of `p` and of no other block. -/
theorem takeFree_page {mmu : MmuRuntime} (hs : mmu.Sound) {id : PoolId} {p : Int} {slot : PagePtr}
    (hslot : (mmu.pool id).freeBlocks.getLast? = some slot) (zero : Bytes) (i : PoolId) (q : Int) :
    (mmu.setPool id ((mmu.pool id).takeFree p slot zero)).page i q =
      if i = id ∧ q = p then some ⟨slot, zero⟩ else mmu.page i q := by
  by_cases hi : i = id
  · subst i
    by_cases hq : q = p
    · subst q
      simp [MmuRuntime.page, ChunkPool.rawPage, ChunkPool.takeFree]
    · rw [if_neg (by simp [hq])]
      apply page_congr
      · simp [ChunkPool.takeFree, IntTable.set_entry, hq]
      · intro ptr hptr
        have hne : ptr ≠ slot := by
          intro heq
          subst heq
          exact (hs.pool_ok id).owned_not_free q ptr hptr (List.mem_of_getLast? hslot)
        simp [ChunkPool.takeFree, Function.update_of_ne hne]
  · rw [if_neg (by simp [hi])]
    apply page_congr <;> simp [hi]

theorem takeFree_sound {mmu : MmuRuntime} (hs : mmu.Sound) {id : PoolId} {p : Int} {slot : PagePtr}
    (hv : (mmu.pool id).ownerPages.InRange p) (hn : (mmu.pool id).ownerPages.entry p = none)
    (hslot : (mmu.pool id).freeBlocks.getLast? = some slot)
    (hcap : id = .l2 → (mmu.pool id).committedPages < mmu.config.l2BlockCount) (zero : Bytes) :
    (mmu.setPool id ((mmu.pool id).takeFree p slot zero)).Sound := by
  refine hs.setPool rfl (ChunkPool.takeFree_ok (hs.pool_ok id) hv hn hslot) hcap ?_
  intro hg
  exact ⟨ChunkPool.takeFree_exact (hs.exact hg id) hn hslot, hs.slots hg id⟩

theorem acquirePage_ok {mmu mmu' : MmuRuntime} {id : PoolId} {p : Int} {slot : PagePtr}
    (hs : mmu.Sound) (hroom : RoomFor mmu id p) (h : acquirePage mmu id p = (.ok slot, mmu')) :
    Acquired mmu mmu' id p slot := by
  unfold acquirePage at h
  split at h
  next => simp at h
  next hv =>
    rw [not_not] at hv
    split at h
    next _ owned howned =>
      obtain ⟨hslot, hmmu⟩ := Prod.mk.inj h
      subst hmmu
      cases Except.ok.inj hslot
      have hpage : mmu.page id p = some ⟨slot, (mmu.pool id).bytes slot⟩ := page_eq_some.mpr ⟨howned, rfl⟩
      refine ⟨hs, .refl mmu, rfl, rfl, rfl, ?_, ?_⟩
      · intro i q
        split
        next hiq =>
          obtain ⟨rfl, rfl⟩ := hiq
          simp [hpage]
        next => rfl
      · intro pg hpg
        cases Option.some.inj (hpage.symm.trans hpg)
        rfl
    next hnone =>
      split at h
      next => simp at h
      next hcap =>
        split at h
        next => simp at h
        next _ mid hrefill =>
          obtain ⟨hsm, hsame⟩ := refill_same hs hroom hnone hrefill
          have hpagen : mmu.page id p = none := page_eq_none.mpr hnone
          split at h
          next => simp at h
          next last hlast =>
            obtain ⟨hslot, hmmu⟩ := Prod.mk.inj h
            cases Except.ok.inj hslot
            subst hmmu
            refine ⟨?_, hsame.routing.trans (setPool_routing _ _ _), ?_, ?_, ?_, ?_, ?_⟩
            · apply takeFree_sound hsm _ _ hlast
              · intro heq
                subst heq
                rw [hsame.committed, hsame.routing.config]
                have := mmu.config.l2_pos
                simp only [true_and, not_and, not_le] at hcap
                exact hcap this
              · rwa [hsame.owners]
              · rwa [hsame.owners]
            · simpa using hsame.directory
            · simpa using hsame.count
            · simpa using hsame.epoch
            · intro i q
              rw [takeFree_page hsm hlast, hsame.page, hsame.routing.zeroPage, hpagen]
              rfl
            · intro pg hpg
              simp [hpagen] at hpg

theorem acquirePage_error {mmu mmu' : MmuRuntime} {id : PoolId} {p : Int} {e : MmuError}
    (hs : mmu.Sound) (hroom : RoomFor mmu id p) (h : acquirePage mmu id p = (.error e, mmu')) :
    mmu'.Sound ∧ SamePages mmu mmu' := by
  unfold acquirePage at h
  split at h
  next => cases h; exact ⟨hs, .refl mmu⟩
  next =>
    split at h
    next => simp at h
    next hnone =>
      split at h
      next => cases h; exact ⟨hs, .refl mmu⟩
      next =>
        split at h
        next hrefill =>
          cases h
          exact refill_same hs hroom hnone hrefill
        next hrefill =>
          split at h
          next =>
            cases h
            exact refill_same hs hroom hnone hrefill
          next => simp at h

end DsfMmu
