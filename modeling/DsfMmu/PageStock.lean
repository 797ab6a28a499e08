import DsfMmu.Mapping

namespace DsfMmu

open MmuRuntime

/-- What decides whether a pool can hand out another page: the free slots of both pools, the pages
L2 has in use, and how many chunks the host has been asked for. -/
structure PageStock where
  free : PoolId → Nat
  committed : Nat
  requests : Nat

namespace PageStock

/-- One free slot is put to use. -/
def spend (s : PageStock) (id : PoolId) : PageStock :=
  { s with
    free := Function.update s.free id (s.free id - 1)
    committed := if id = .l2 then s.committed + 1 else s.committed }

/-- The host has granted the next chunk of a pool. -/
def refilled (config : ResolvedConfig) (s : PageStock) (id : PoolId) : PageStock :=
  { s with
    free := Function.update s.free id
      (if id = .l2 then min (config.l2BlockCount - s.committed) config.chunkBlockCount
      else config.chunkBlockCount)
    requests := s.requests + 1 }

/-- One page for a block that has none; `none` when the pool cannot supply it. -/
def take (config : ResolvedConfig) (reply : Nat → ChunkReply) (s : PageStock) (id : PoolId) : Option PageStock :=
  if id = .l2 ∧ config.l2BlockCount ≤ s.committed then none
  else if 0 < s.free id then some (s.spend id)
  else if reply s.requests = .granted then some ((s.refilled config id).spend id)
  else none

/-- A page of L1 comes back. -/
def giveL1 (s : PageStock) : PageStock := { s with free := Function.update s.free .l1 (s.free .l1 + 1) }

end PageStock

namespace MmuRuntime

def stock (mmu : MmuRuntime) : PageStock :=
  ⟨fun id => (mmu.pool id).freeBlocks.length, (mmu.pool .l2).committedPages, mmu.host.requests⟩

/-- One more page out of a stock, under this runtime's configuration and host. -/
def supply (mmu : MmuRuntime) (s : PageStock) (id : PoolId) : Option PageStock :=
  s.take mmu.config mmu.host.reply id

end MmuRuntime

section Acquire

variable {mmu mmu' : MmuRuntime} {id : PoolId} {p : Int}

theorem addChunk_stock (mmu : MmuRuntime) (id : PoolId) (blocks : Nat) (hempty : (mmu.pool id).freeBlocks = []) :
    (mmu.setPool id ((mmu.pool id).addChunk blocks blocks)).stock =
      { mmu.stock with free := Function.update mmu.stock.free id blocks } := by
  have hcommitted : ((mmu.setPool id ((mmu.pool id).addChunk blocks blocks)).pool .l2).committedPages =
      (mmu.pool .l2).committedPages := by
    cases id <;> rfl
  have hfree : (fun i => ((mmu.setPool id ((mmu.pool id).addChunk blocks blocks)).pool i).freeBlocks.length) =
      Function.update (fun i => (mmu.pool i).freeBlocks.length) id blocks := by
    funext i
    by_cases hi : i = id
    · subst i
      simp [ChunkPool.addChunk, hempty]
    · simp [hi]
  simp only [stock, hcommitted, hfree, setPool_host]

/-- The bytes of a chunk of legal size do not overflow. -/
theorem chunkBytes_div {blocks : Nat} (h0 : 0 < blocks) (h1 : blocks < 2 ^ 32) :
    blocks * mmu.config.blockSizeBytes % 2 ^ 64 / blocks = mmu.config.blockSizeBytes := by
  have hfits := mmu.config.size_fits
  have hmul : blocks * mmu.config.blockSizeBytes < 2 ^ 64 := by
    calc blocks * mmu.config.blockSizeBytes < 2 ^ 32 * 2 ^ 32 := Nat.mul_lt_mul'' h1 hfits
      _ = 2 ^ 64 := (pow_add 2 32 32).symm
  rw [Nat.mod_eq_of_lt hmul, Nat.mul_div_cancel_left _ h0]

/-- A chunk of legal size is had exactly when the host grants it. -/
theorem allocateChunk_granted {blocks : Nat} (h0 : 0 < blocks) (h1 : blocks < 2 ^ 32)
    (hempty : (mmu.pool id).freeBlocks = []) (hg : mmu.host.reply mmu.host.requests = .granted) :
    ∃ mmu', allocateChunk mmu id blocks = (.ok (), mmu') ∧ mmu'.stock =
      { mmu.stock with
        free := Function.update mmu.stock.free id blocks
        requests := mmu.host.requests + 1 } := by
  have hsize := mmu.config.size_pos
  have hdiv := @chunkBytes_div mmu _ h0 h1
  have hempty' : (mmu.askHost.2.pool id).freeBlocks = [] := by
    cases id <;> exact hempty
  refine ⟨mmu.askHost.2.setPool id ((mmu.askHost.2.pool id).addChunk blocks blocks), ?_, ?_⟩
  · unfold allocateChunk askHost
    dsimp only
    rw [if_neg (by omega), if_neg (not_not.mpr hdiv), hg]
  · rw [addChunk_stock _ _ _ hempty']
    cases id <;> rfl

theorem allocateChunk_refused {blocks : Nat} (hg : mmu.host.reply mmu.host.requests ≠ .granted) :
    ∃ e mmu', allocateChunk mmu id blocks = (.error e, mmu') := by
  unfold allocateChunk askHost
  dsimp only
  split
  next => exact ⟨_, _, rfl⟩
  next =>
    split
    next => exact ⟨_, _, rfl⟩
    next =>
      split
      next hask => exact absurd (congrArg Prod.fst hask) hg
      next => exact ⟨_, _, rfl⟩
      next => exact ⟨_, _, rfl⟩

/-- A chunk of legal size fails for want of memory only. -/
theorem allocateChunk_status {blocks : Nat} {e : MmuError} (h0 : 0 < blocks) (h1 : blocks < 2 ^ 32)
    (ha : allocateChunk mmu id blocks = (.error e, mmu')) : e = .outOfMemory := by
  have hsize := mmu.config.size_pos
  have hdiv := @chunkBytes_div mmu _ h0 h1
  unfold allocateChunk at ha
  dsimp only at ha
  rw [if_neg (by omega), if_neg (not_not.mpr hdiv)] at ha
  split at ha
  next => cases ha
  next => exact (Except.error.inj (Prod.mk.inj ha).1).symm
  next => exact (Except.error.inj (Prod.mk.inj ha).1).symm

theorem chunkRequest_eq (mmu : MmuRuntime) (id : PoolId) : chunkRequest mmu id =
    if id = .l2 then min (mmu.config.l2BlockCount - mmu.stock.committed) mmu.config.chunkBlockCount
    else mmu.config.chunkBlockCount := by
  have hpos := mmu.config.l2_pos
  unfold chunkRequest
  cases id with
  | l1 => simp
  | l2 =>
    simp only [hpos, and_self, if_true, stock]
    split
    next h => exact (Nat.min_eq_left (Nat.le_of_lt h)).symm
    next h => exact (Nat.min_eq_right (not_lt.mp h)).symm

/-- Below the cap a chunk of legal size is asked for. -/
theorem chunkRequest_legal (hcap : ¬(id = .l2 ∧ mmu.config.l2BlockCount ≤ mmu.stock.committed)) :
    0 < chunkRequest mmu id ∧ chunkRequest mmu id < 2 ^ 32 := by
  have hchunk := mmu.config.chunk_pos
  have hle := mmu.config.chunk_le
  have hl1 := mmu.config.l1_fits
  rw [chunkRequest_eq]
  split
  next h2 =>
    have hnot : ¬mmu.config.l2BlockCount ≤ mmu.stock.committed := fun hc => hcap ⟨h2, hc⟩
    omega
  next => omega

theorem acquirePage_owned {pg : Page} (hs : mmu.Sound) (hv : mmu.Valid p) (hpg : mmu.page id p = some pg) :
    acquirePage mmu id p = (.ok pg.ptr, mmu) := by
  have hin := (hs.owner_inRange id).mpr hv
  obtain ⟨howner, -⟩ := page_eq_some.mp hpg
  unfold acquirePage
  rw [if_neg (not_not.mpr hin), howner]

/-- While a valid block owns no page of a pool, fewer than all blocks do. -/
theorem committedPages_lt (hs : mmu.Sound) (hv : mmu.Valid p) (hnone : mmu.page id p = none) :
    (mmu.pool id).committedPages < mmu.config.l1BlockCount := by
  have hsize : (IntTable.indices mmu.config.l1BlockCount).card ≤ mmu.config.l1BlockCount := by
    rw [IntTable.card_indices]
    have := staticCastInt_le mmu.config.l1BlockCount
    omega
  rw [(hs.pool_ok id).committed, hs.owners_size]
  apply lt_of_lt_of_le (Finset.card_lt_card ⟨Finset.filter_subset _ _, ?_⟩) hsize
  intro hsub
  exact (Finset.mem_filter.mp (hsub hv)).2 (page_eq_none.mp hnone)

/-- With a host that grants every chunk only the cap of L2 holds a page back. -/
theorem supply_granted (hg : ∀ n, mmu.host.reply n = .granted) (s : PageStock) (id : PoolId) :
    mmu.supply s id = none ↔ id = .l2 ∧ mmu.config.l2BlockCount ≤ s.committed := by
  unfold supply PageStock.take
  split
  next hcap => simp [hcap]
  next hroom =>
    rw [if_pos (hg _)]
    split <;> simpa using hroom

theorem takeFree_stock (mmu : MmuRuntime) (id : PoolId) (p : Int) (slot : PagePtr) (zero : Bytes) :
    (mmu.setPool id ((mmu.pool id).takeFree p slot zero)).stock = mmu.stock.spend id := by
  have hfree : (fun i => ((mmu.setPool id ((mmu.pool id).takeFree p slot zero)).pool i).freeBlocks.length) =
      Function.update (fun i => (mmu.pool i).freeBlocks.length) id ((mmu.pool id).freeBlocks.length - 1) := by
    funext i
    by_cases hi : i = id
    · subst i
      simp [ChunkPool.takeFree]
    · simp [hi]
  simp only [stock, hfree, setPool_host, PageStock.spend]
  cases id <;> rfl

/-- The stock decides whether a block without a page is given one. -/
theorem acquirePage_stock (hs : mmu.Sound) (hv : mmu.Valid p) (hn : mmu.page id p = none) :
    match mmu.supply mmu.stock id with
    | none => ∃ e mmu', acquirePage mmu id p = (.error e, mmu')
    | some s => ∃ slot mmu', acquirePage mmu id p = (.ok slot, mmu') ∧ mmu'.stock = s := by
  have hin := (hs.owner_inRange id).mpr hv
  have howner := page_eq_none.mp hn
  have hl2 := mmu.config.l2_pos
  unfold acquirePage supply PageStock.take
  rw [if_neg (not_not.mpr hin), howner]
  dsimp only
  by_cases hcap : id = .l2 ∧ mmu.config.l2BlockCount ≤ mmu.stock.committed
  · rw [if_pos hcap]
    obtain ⟨rfl, hle⟩ := hcap
    rw [if_pos ⟨rfl, hl2, hle⟩]
    exact ⟨_, _, rfl⟩
  · have hcap' : ¬(id = .l2 ∧ 0 < mmu.config.l2BlockCount ∧
        mmu.config.l2BlockCount ≤ (mmu.pool id).committedPages) := by
      intro hboth
      obtain ⟨rfl, -, hle⟩ := hboth
      exact hcap ⟨rfl, hle⟩
    rw [if_neg hcap, if_neg hcap']
    by_cases hfree : (mmu.pool id).freeBlocks = []
    · have hlen : ¬0 < mmu.stock.free id := by
        show ¬0 < (mmu.pool id).freeBlocks.length
        rw [hfree]
        exact Nat.lt_irrefl 0
      have hnone : ¬(id = .l2 ∧ 0 < mmu.config.l2BlockCount ∧
          mmu.config.l2BlockCount - (mmu.pool id).committedPages = 0) := by
        intro hboth
        obtain ⟨rfl, h0, hz⟩ := hboth
        exact hcap' ⟨rfl, h0, by omega⟩
      rw [if_neg hlen]
      unfold refill
      rw [if_neg (not_not.mpr hfree), if_neg hnone]
      by_cases hg : mmu.host.reply mmu.host.requests = .granted
      · have hg' : mmu.host.reply mmu.stock.requests = .granted := hg
        rw [if_pos hg']
        obtain ⟨hpos, hsmall⟩ := chunkRequest_legal hcap
        obtain ⟨mid, heq, hstock⟩ := allocateChunk_granted hpos hsmall hfree hg
        rw [heq]
        dsimp only
        have hmid : (mid.pool id).freeBlocks.length = chunkRequest mmu id := by
          have h := congrFun (congrArg PageStock.free hstock) id
          exact h.trans (Function.update_self _ _ _)
        have hrefilled : mid.stock = mmu.stock.refilled mmu.config id := by
          rw [hstock, chunkRequest_eq]
          rfl
        cases hlast : (mid.pool id).freeBlocks.getLast? with
        | none =>
          rw [List.getLast?_eq_none_iff.mp hlast, List.length_nil] at hmid
          omega
        | some slot => exact ⟨slot, _, rfl, by rw [takeFree_stock, hrefilled]⟩
      · have hg' : ¬mmu.host.reply mmu.stock.requests = .granted := hg
        rw [if_neg hg']
        obtain ⟨e, mid, heq⟩ := @allocateChunk_refused mmu id (chunkRequest mmu id) hg
        rw [heq]
        exact ⟨e, mid, rfl⟩
    · have hlen : 0 < mmu.stock.free id := List.length_pos_iff.mpr hfree
      rw [if_pos hlen]
      unfold refill
      rw [if_pos hfree]
      dsimp only
      cases hlast : (mmu.pool id).freeBlocks.getLast? with
      | none => exact absurd (List.getLast?_eq_none_iff.mp hlast) hfree
      | some slot => exact ⟨slot, _, rfl, takeFree_stock _ _ _ _ _⟩

/-- A page that is not had for a block in range is missing for want of memory. -/
theorem acquirePage_status (hs : mmu.Sound) (hv : mmu.Valid p) {e : MmuError}
    (ha : acquirePage mmu id p = (.error e, mmu')) : e = .outOfMemory := by
  have hin := (hs.owner_inRange id).mpr hv
  have hl2 := mmu.config.l2_pos
  unfold acquirePage at ha
  rw [if_neg (not_not.mpr hin)] at ha
  split at ha
  next => cases ha
  next =>
    split at ha
    next => exact (Except.error.inj (Prod.mk.inj ha).1).symm
    next hcap =>
      have hcap' : ¬(id = .l2 ∧ mmu.config.l2BlockCount ≤ mmu.stock.committed) := by
        intro hboth
        obtain ⟨rfl, hle⟩ := hboth
        exact hcap ⟨rfl, hl2, hle⟩
      obtain ⟨hpos, hsmall⟩ := chunkRequest_legal hcap'
      split at ha
      next status mid hrefill =>
        cases Except.error.inj (Prod.mk.inj ha).1
        unfold refill at hrefill
        split at hrefill
        next => cases hrefill
        next =>
          split at hrefill
          next => exact (Except.error.inj (Prod.mk.inj hrefill).1).symm
          next => exact allocateChunk_status hpos hsmall hrefill
      next =>
        split at ha
        next => exact (Except.error.inj (Prod.mk.inj ha).1).symm
        next => cases ha

end Acquire

/-! The stock along an eviction and a promotion. -/

namespace MmuRuntime

/-- Writing a block back needs a page of L2 unless it has one. -/
def writeBackSupply (mmu : MmuRuntime) (v : BlockView) (s : PageStock) : Option PageStock :=
  if v.l2.isSome then some s else mmu.supply s .l2

/-- Evicting a block writes it back and then returns its page of L1, if it ever got one. -/
def evictionSupply (mmu : MmuRuntime) (v : BlockView) (s : PageStock) : Option PageStock :=
  (mmu.writeBackSupply v s).map fun s => if v.l1.isSome then s.giveL1 else s

/-- Promoting a block needs room, which may take an eviction, and then a page of L1. -/
def promotionSupply (mmu : MmuRuntime) (p : Int) (s : PageStock) : Option PageStock :=
  (if mmu.residentCount < mmu.residentLimit then some s
  else if pickEvictionCandidate mmu p < 0 then none
  else mmu.evictionSupply (mmu.block (pickEvictionCandidate mmu p)) s).bind fun s => mmu.supply s .l1

theorem SameRouting.supply {mmu mmu' : MmuRuntime} (h : SameRouting mmu mmu') (s : PageStock) (id : PoolId) :
    mmu'.supply s id = mmu.supply s id := by
  unfold MmuRuntime.supply
  rw [h.config, h.replies]

end MmuRuntime

section Swap

variable {mmu mmu' : MmuRuntime} {p : Int}

theorem copyOrZero_stock (mmu : MmuRuntime) (src : Option (PoolId × PagePtr)) (dst : PoolId) (slot : PagePtr) :
    (copyOrZero mmu src dst slot).stock = mmu.stock := by
  have hwrite : ∀ page, (mmu.setPool dst ((mmu.pool dst).write slot page)).stock = mmu.stock := by
    intro page
    have hfree : ∀ i, ((mmu.setPool dst ((mmu.pool dst).write slot page)).pool i).freeBlocks =
        (mmu.pool i).freeBlocks := by
      intro i
      cases dst <;> cases i <;> rfl
    simp only [stock, hfree, setPool_host]
    cases dst <;> rfl
  unfold copyOrZero
  split
  next => exact hwrite _
  next => exact hwrite _

theorem syncL1ToL2_stock (hs : mmu.Sound) (hv : mmu.Valid p) :
    match mmu.writeBackSupply (mmu.block p) mmu.stock with
    | none => ∃ e mmu', syncL1ToL2 mmu p = (.error e, mmu')
    | some s => ∃ mmu', syncL1ToL2 mmu p = (.ok (), mmu') ∧ mmu'.stock = s := by
  have hl2 : (mmu.block p).l2 = mmu.page .l2 p := rfl
  unfold writeBackSupply syncL1ToL2
  rw [hl2]
  cases hpage : mmu.page .l2 p with
  | some pg =>
    rw [acquirePage_owned hs hv hpage]
    exact ⟨_, rfl, copyOrZero_stock _ _ _ _⟩
  | none =>
    have hacq := acquirePage_stock hs hv hpage
    simp only [Option.isSome_none, Bool.false_eq_true, if_false]
    cases hsup : mmu.supply mmu.stock .l2 with
    | none =>
      rw [hsup] at hacq
      obtain ⟨e, mid, heq⟩ := hacq
      rw [heq]
      exact ⟨e, mid, rfl⟩
    | some s =>
      rw [hsup] at hacq
      obtain ⟨slot, mid, heq, hstock⟩ := hacq
      rw [heq]
      exact ⟨_, rfl, (copyOrZero_stock _ _ _ _).trans hstock⟩

theorem releaseL1_stock (hs : mmu.Sound) (p : Int) :
    (releasePage mmu .l1 p).stock = if (mmu.page .l1 p).isSome then mmu.stock.giveL1 else mmu.stock := by
  unfold releasePage
  cases howner : (mmu.pool .l1).ownerPages.entry p with
  | none =>
    rw [ChunkPool.releasePage_of_none howner, setPool_self, page_eq_none.mpr howner]
    rfl
  | some slot =>
    have hpage : (mmu.page .l1 p).isSome = true := by
      have hpg : mmu.page .l1 p = some ⟨slot, (mmu.pool .l1).bytes slot⟩ := page_eq_some.mpr ⟨howner, rfl⟩
      rw [hpg]
      rfl
    rw [(ChunkPool.releasePage_of_some (hs.pool_ok .l1) howner).1, hpage, if_pos rfl]
    simp only [stock, PageStock.giveL1, PageStock.mk.injEq]
    refine ⟨?_, rfl, rfl⟩
    funext i
    cases i with
    | l1 => simp
    | l2 => rfl

@[simp] theorem mutateMeta_stock (mmu : MmuRuntime) (p : Int) (f : BlockMeta → BlockMeta) :
    (mmu.mutateMeta p f).stock = mmu.stock := rfl

@[simp] theorem dropResident_stock (mmu : MmuRuntime) : (dropResident mmu).stock = mmu.stock := rfl

theorem moveBlockToL2_stock (hs : mmu.Sound) (hv : mmu.Valid p) (ha : (mmu.block p).info.allocated = true)
    (hr : (mmu.block p).info.residentInL1 = true) :
    match mmu.evictionSupply (mmu.block p) mmu.stock with
    | none => ∃ e mmu', moveBlockToL2 mmu p = (.error e, mmu')
    | some s => ∃ mmu', moveBlockToL2 mmu p = (.ok (), mmu') ∧ mmu'.stock = s := by
  have hget := BlockDirectory.get_eq_some (hs.meta_inRange.mpr hv)
  have ha' : (mmu.blockDirectory.metas.entry p).allocated = true := ha
  have hr' : (mmu.blockDirectory.metas.entry p).residentInL1 = true := hr
  have hsync := syncL1ToL2_stock hs hv
  unfold evictionSupply moveBlockToL2
  rw [if_neg (not_not.mpr (hs.refs_inRange.mpr hv)), hget]
  dsimp only
  rw [ha', hr', if_neg (by simp), if_pos rfl]
  cases hsup : mmu.writeBackSupply (mmu.block p) mmu.stock with
  | none =>
    rw [hsup] at hsync
    obtain ⟨e, mid, heq⟩ := hsync
    rw [heq]
    exact ⟨e, mid, rfl⟩
  | some s =>
    rw [hsup] at hsync
    obtain ⟨mid, heq, hstock⟩ := hsync
    rw [heq]
    refine ⟨_, rfl, ?_⟩
    obtain ⟨ptr, he⟩ := syncL1ToL2_ok hs hv heq
    have he' := (he.mutateMeta hv
      (fun m => { m with residentInL1 := false, l1FrameId := kInvalidFrameId })).dropResident
    have hl1 := congrArg BlockView.l1 (congrFun he'.blocks p)
    rw [Function.update_self, Function.update_self] at hl1
    have hmid : (dropResident (mid.mutateMeta p (fun m =>
        { m with residentInL1 := false, l1FrameId := kInvalidFrameId }))).stock = s := by
      rw [dropResident_stock, mutateMeta_stock, hstock]
    rw [mutateMeta_stock]
    have hsound := he'.sound
    revert hl1 hmid hsound
    generalize dropResident _ = low
    intro hl1 hmid hsound
    have hl1' : low.page .l1 p = (mmu.block p).l1 := hl1
    rw [releaseL1_stock hsound, hl1', hmid]

theorem promoteToL1_stock (hs : mmu.Sound) (hv : mmu.Valid p) (hn : mmu.page .l1 p = none) :
    match mmu.supply mmu.stock .l1 with
    | none => ∃ e mmu', promoteToL1 mmu p = (.error e, mmu')
    | some _ => ∃ mmu', promoteToL1 mmu p = (.ok (), mmu') := by
  have hacq := acquirePage_stock hs hv hn
  unfold promoteToL1 syncL2ToL1
  cases hsup : mmu.supply mmu.stock .l1 with
  | none =>
    rw [hsup] at hacq
    obtain ⟨e, mid, heq⟩ := hacq
    rw [heq]
    exact ⟨e, mid, rfl⟩
  | some s =>
    rw [hsup] at hacq
    obtain ⟨slot, mid, heq, -⟩ := hacq
    rw [heq]
    exact ⟨_, rfl⟩

theorem syncL1ToL2_status (hs : mmu.Sound) (hv : mmu.Valid p) {e : MmuError}
    (h : syncL1ToL2 mmu p = (.error e, mmu')) : e = .outOfMemory := by
  unfold syncL1ToL2 at h
  split at h
  next hacq =>
    cases Except.error.inj (Prod.mk.inj h).1
    exact acquirePage_status hs hv hacq
  next => cases h

theorem moveBlockToL2_status (hs : mmu.Sound) (hv : mmu.Valid p) (ha : (mmu.block p).info.allocated = true)
    {e : MmuError} (h : moveBlockToL2 mmu p = (.error e, mmu')) : e = .outOfMemory := by
  have hget := BlockDirectory.get_eq_some (hs.meta_inRange.mpr hv)
  have ha' : (mmu.blockDirectory.metas.entry p).allocated = true := ha
  unfold moveBlockToL2 at h
  rw [if_neg (not_not.mpr (hs.refs_inRange.mpr hv)), hget] at h
  dsimp only at h
  rw [ha', if_neg (by simp)] at h
  split at h
  next =>
    split at h
    next hsync =>
      cases Except.error.inj (Prod.mk.inj h).1
      exact syncL1ToL2_status hs hv hsync
    next => cases h
  next => cases h

theorem promoteToL1_status (hs : mmu.Sound) (hv : mmu.Valid p) {e : MmuError}
    (h : promoteToL1 mmu p = (.error e, mmu')) : e = .outOfMemory := by
  unfold promoteToL1 at h
  split at h
  next hsync =>
    cases Except.error.inj (Prod.mk.inj h).1
    unfold syncL2ToL1 at hsync
    split at hsync
    next hacq =>
      cases Except.error.inj (Prod.mk.inj hsync).1
      exact acquirePage_status hs hv hacq
    next => cases hsync
  next => cases h

/-- The promotion of a block outside L1 succeeds exactly when the stock allows it. -/
theorem ensureResidentInL1_stock (h : mmu.Settled) (hp : mmu.Live p)
    (hr : (mmu.block p).info.residentInL1 = false) :
    match mmu.promotionSupply p mmu.stock with
    | none => ∃ e mmu', ensureResidentInL1 mmu p = (.error e, mmu')
    | some _ => ∃ mmu', ensureResidentInL1 mmu p = (.ok (), mmu') ∧ (mmu'.block p).l1.isSome := by
  have hs := h.coherent.sound
  have hv := h.valid hp
  have hunowned : ∀ {mid : MmuRuntime}, mid.block p = mmu.block p → mid.page .l1 p = none := by
    intro mid hmid
    have hl1 : mid.page .l1 p = (mmu.block p).l1 := congrArg BlockView.l1 hmid
    rw [hl1]
    cases hl : (mmu.block p).l1 with
    | none => rfl
    | some pg =>
      have hres := (h.coherent.ok hp).l1_resident (by rw [hl]; rfl)
      rw [hr] at hres
      cases hres
  -- the last step, once there is room
  have hpromote : ∀ {mid : MmuRuntime}, Quiet mmu.Live mmu mid → mid.residentCount < mid.residentLimit →
      mid.block p = mmu.block p → match mmu.supply mid.stock .l1 with
        | none => ∃ e mmu', promoteToL1 mid p = (.error e, mmu')
        | some _ => ∃ mmu', promoteToL1 mid p = (.ok (), mmu') ∧ (mmu'.block p).l1.isSome := by
    intro mid hq hlt hmid
    have hpro := promoteToL1_stock hq.coherent.sound ((hq.routing.valid p).mpr hv) (hunowned hmid)
    rw [hq.routing.supply] at hpro
    cases hsup : mmu.supply mid.stock .l1 with
    | none =>
      rw [hsup] at hpro
      exact hpro
    | some s =>
      rw [hsup] at hpro
      obtain ⟨m, heq⟩ := hpro
      have hr' : (mid.block p).info.residentInL1 = false := by
        rw [hmid]
        exact hr
      obtain ⟨ptr, _, hblock⟩ := hq.coherent.promote hp hr' hlt heq
      refine ⟨m, heq, ?_⟩
      rw [hblock, Function.update_self]
      rfl
  rw [ensureResidentInL1_outside h hp hr, evictForRoom_eq h.coherent]
  unfold promotionSupply evictOnce
  by_cases hlt : mmu.residentCount < mmu.residentLimit
  · rw [if_pos hlt, if_pos hlt]
    exact hpromote h.coherent.quiet_refl hlt rfl
  · rw [if_neg hlt, if_neg hlt]
    by_cases hneg : pickEvictionCandidate mmu p < 0
    · rw [if_pos hneg, if_pos hneg]
      exact ⟨_, _, rfl⟩
    · rw [if_neg hneg, if_neg hneg]
      have hvictim := pickEvictionCandidate_nonneg hneg
      have hmove := moveBlockToL2_stock hs (h.coherent.sound.meta_inRange.mp hvictim.valid) hvictim.allocated
        hvictim.resident
      cases hsup : mmu.evictionSupply (mmu.block (pickEvictionCandidate mmu p)) mmu.stock with
      | none =>
        rw [hsup] at hmove
        obtain ⟨e, mid, heq⟩ := hmove
        rw [heq]
        exact ⟨e, mid, rfl⟩
      | some s =>
        rw [hsup] at hmove
        obtain ⟨mid, heq, hstock⟩ := hmove
        rw [heq]
        obtain ⟨v, ptr, hne, _, hq, hroom, hblock⟩ := evict_victim h.coherent hlt hneg heq
        have hmid : mid.block p = mmu.block p := by
          rw [hblock, Function.update_of_ne hne.symm]
        have hpro := hpromote hq hroom hmid
        rw [hstock] at hpro
        exact hpro

/-- A block that cannot be brought to L1 is kept out for want of memory. -/
theorem ensureResidentInL1_status (h : mmu.Settled) (hp : mmu.Live p) {e : MmuError}
    (he : ensureResidentInL1 mmu p = (.error e, mmu')) : e = .outOfMemory := by
  cases hr : (mmu.block p).info.residentInL1 with
  | true =>
    rw [ensureResidentInL1_inside h hp hr] at he
    cases he
  | false =>
    rw [ensureResidentInL1_outside h hp hr] at he
    split at he
    next hroom =>
      cases Except.error.inj (Prod.mk.inj he).1
      rw [evictForRoom_eq h.coherent, evictOnce] at hroom
      split at hroom
      next => cases hroom
      next =>
        split at hroom
        next => exact (Except.error.inj (Prod.mk.inj hroom).1).symm
        next hneg =>
          have hvictim := pickEvictionCandidate_nonneg hneg
          exact moveBlockToL2_status h.coherent.sound (h.coherent.sound.meta_inRange.mp hvictim.valid)
            hvictim.allocated hroom
    next mid hroom =>
      obtain ⟨hq, _⟩ := evictForRoom_ok h.coherent hroom
      exact promoteToL1_status hq.coherent.sound ((hq.routing.valid p).mpr (h.valid hp)) he

/-- So does the map of an entry that names such a block. -/
theorem mapResolved_stock (h : mmu.Settled) {c : Context} {lvid : Int} (hn : c.Names mmu.l1Allocator lvid p)
    (hr : (mmu.block p).info.residentInL1 = false) (lb flags : UInt32) :
    match mmu.promotionSupply p mmu.stock with
    | none => ∃ e mmu', mapResolved mmu c lvid lb flags = (.error e, mmu')
    | some _ => ∃ d mmu', mapResolved mmu c lvid lb flags = (.ok d, mmu') := by
  have hp : mmu.Live p := hn.live
  have hens := ensureResidentInL1_stock h hp hr
  rw [mapResolved_names h hn]
  cases hsup : mmu.promotionSupply p mmu.stock with
  | none =>
    rw [hsup] at hens
    obtain ⟨e, mid, heq⟩ := hens
    rw [heq]
    exact ⟨e, mid, rfl⟩
  | some s =>
    rw [hsup] at hens
    obtain ⟨mid, heq, hl1⟩ := hens
    obtain ⟨hq, _⟩ := ensureResidentInL1_ok h hp heq
    have hv : mid.Valid p := (hq.routing.valid p).mpr (h.valid hp)
    obtain ⟨pg, hpg⟩ := Option.isSome_iff_exists.mp hl1
    have hpage : mid.page .l1 p = some pg := hpg
    rw [heq]
    dsimp only
    rw [acquirePage_owned hq.coherent.sound hv hpage]
    exact ⟨_, _, rfl⟩

/-- A resident block that owns its page is mapped: one pin more and two touches. -/
theorem mapResolved_resident (h : mmu.Settled) {c : Context} {lvid : Int} (hn : c.Names mmu.l1Allocator lvid p)
    {pg : Page} (hpage : mmu.page .l1 p = some pg) (lb flags : UInt32) :
    mapResolved mmu c lvid lb flags =
      (.ok ⟨pg.ptr, mmu.config.blockSizeBytes, p, lb, flags⟩,
        touchBlock ((touchBlock mmu p).setDirectory
          ((touchBlock mmu p).blockDirectory.incrementPinCount p).2) p) := by
  have hp : mmu.Live p := hn.live
  have hs := h.coherent.sound
  have hv := h.valid hp
  have hl1 : (mmu.block p).l1 = some pg := hpage
  have hr : (mmu.block p).info.residentInL1 = true := (h.coherent.ok hp).l1_resident (by rw [hl1]; rfl)
  have hq := h.coherent.touch hp
  have hts := hq.settled h
  have htv : (touchBlock mmu p).Valid p := (hq.routing.valid p).mpr hv
  have hblock : (touchBlock mmu p).block p = (mmu.block p).touched (nextEpoch mmu.epoch) := by
    rw [(touchBlock_effect hs hv).blocks, Function.update_self]
  have htpage : (touchBlock mmu p).page .l1 p = some pg := by
    have h1 := congrArg BlockView.l1 hblock
    exact h1.trans hl1
  rw [mapResolved_names h hn]
  simp only [ensureResidentInL1_inside h hp hr, acquirePage_owned hts.coherent.sound htv htpage]
  rfl

/-- A resident block is mapped if it owns its page or L1 can supply one. -/
theorem mapResolved_inside (h : mmu.Settled) {c : Context} {lvid : Int} (hn : c.Names mmu.l1Allocator lvid p)
    (hr : (mmu.block p).info.residentInL1 = true) (hsup : mmu.supply mmu.stock .l1 ≠ none) (lb flags : UInt32) :
    ∃ d mmu', mapResolved mmu c lvid lb flags = (.ok d, mmu') := by
  obtain hnone | ⟨pg, hpage⟩ := Option.eq_none_or_eq_some (mmu.page .l1 p)
  · have hp : mmu.Live p := hn.live
    have ht := touchBlock_effect h.coherent.sound (h.valid hp)
    have hv : (touchBlock mmu p).Valid p := ht.valid (h.valid hp)
    have hnone' : (touchBlock mmu p).page .l1 p = none := hnone
    have hacq := acquirePage_stock ht.sound hv hnone'
    have hsame : (touchBlock mmu p).supply (touchBlock mmu p).stock .l1 = mmu.supply mmu.stock .l1 := rfl
    obtain ⟨s, hs⟩ := Option.ne_none_iff_exists'.mp hsup
    rw [hsame, hs] at hacq
    obtain ⟨slot, mid, heq, -⟩ := hacq
    rw [mapResolved_names h hn, ensureResidentInL1_inside h hp hr]
    dsimp only
    rw [heq]
    exact ⟨_, _, rfl⟩
  · rw [mapResolved_resident h hn hpage]
    exact ⟨_, _, rfl⟩

theorem mapResolved_status (h : mmu.Settled) {c : Context} {lvid : Int} (hn : c.Names mmu.l1Allocator lvid p)
    {lb flags : UInt32} {e : MmuError} (hm : mapResolved mmu c lvid lb flags = (.error e, mmu')) :
    e = .outOfMemory := by
  have hp : mmu.Live p := hn.live
  rw [mapResolved_names h hn] at hm
  split at hm
  next hens =>
    cases Except.error.inj (Prod.mk.inj hm).1
    exact ensureResidentInL1_status h hp hens
  next mid hens =>
    obtain ⟨hq, _⟩ := ensureResidentInL1_ok h hp hens
    have hv : mid.Valid p := (hq.routing.valid p).mpr (h.valid hp)
    split at hm
    next hacq =>
      cases Except.error.inj (Prod.mk.inj hm).1
      exact acquirePage_status hq.coherent.sound hv hacq
    next => cases hm

end Swap

end DsfMmu
