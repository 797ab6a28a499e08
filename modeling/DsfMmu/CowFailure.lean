import DsfMmu.Invariants
import DsfMmu.PageStock

namespace DsfMmu

open MmuRuntime BlockManager Context

section Clone

variable {mmu mmu' : MmuRuntime} {src dst : Int}

/-- The clone succeeds exactly when L2 has a page for the new block. -/
theorem cloneBlockDataForCow_stock (srcTier : MmuTier) (hs : mmu.Sound) (hsrc : mmu.Valid src)
    (hdst : mmu.Valid dst) (hne : src ≠ dst) (hfresh : mmu.block dst = .freshSwapped) :
    match mmu.supply mmu.stock .l2 with
    | none => ∃ e mmu', cloneBlockDataForCow mmu src srcTier dst = (.error e, mmu')
    | some s => ∃ mmu', cloneBlockDataForCow mmu src srcTier dst = (.ok (), mmu') ∧ mmu'.stock = s := by
  have hgets : mmu.blockDirectory.get src = some (mmu.block src).info :=
    BlockDirectory.get_eq_some (hs.meta_inRange.mpr hsrc)
  have hgetd := BlockDirectory.get_eq_some (hs.meta_inRange.mpr hdst)
  have hr : (mmu.blockDirectory.metas.entry dst).residentInL1 = false :=
    congrArg (fun v => v.info.residentInL1) hfresh
  have hpage : mmu.page .l2 dst = none := congrArg BlockView.l2 hfresh
  have hacq := acquirePage_stock hs hdst hpage
  have hvalid : ¬(¬mmu.l1Allocator.isValid src ∨ ¬mmu.l1Allocator.isValid dst) := by
    rw [not_or, not_not, not_not]
    exact ⟨hs.refs_inRange.mpr hsrc, hs.refs_inRange.mpr hdst⟩
  unfold cloneBlockDataForCow
  rw [if_neg hvalid, hgets, hgetd]
  dsimp only
  cases hsup : mmu.supply mmu.stock .l2 with
  | none =>
    rw [hsup] at hacq
    obtain ⟨e, mid, heq⟩ := hacq
    rw [heq]
    exact ⟨e, mid, rfl⟩
  | some s =>
    rw [hsup] at hacq
    obtain ⟨slot, mid, heq, hstock⟩ := hacq
    rw [heq, hr]
    refine ⟨_, rfl, ?_⟩
    have ha := acquirePage_ok hs (roomFor_l2 mmu dst) heq
    have h1 := ha.filled ((mmu.block src).cowBytes mmu.zeroPage srcTier)
    rw [← copyOrZero_cowSource hne srcTier ha] at h1
    have h2 := (h1.mutate hdst (fun m => { m with hasL2Backing := true })).mutate hdst
      (fun m => { m with l2SlotId := dst })
    have hl1 := congrArg BlockView.l1 (congrFun h2.blocks dst)
    simp only [Function.update_self, hfresh] at hl1
    have hlow : (((copyOrZero mid (cowSource mmu src srcTier (mmu.block src).info) .l2 slot).setDirectory
        ((copyOrZero mid (cowSource mmu src srcTier (mmu.block src).info) .l2 slot).blockDirectory.setHasL2Backing
          dst true)).mutateMeta dst (fun m => { m with l2SlotId := dst })).stock = s := by
      rw [mutateMeta_stock, BlockDirectory.setHasL2Backing]
      exact (copyOrZero_stock _ _ _ _).trans hstock
    have hsound := h2.sound
    unfold BlockDirectory.setL2SlotId
    unfold mutateMeta at hlow
    unfold BlockDirectory.setHasL2Backing at hlow ⊢
    revert hl1 hlow hsound
    generalize MmuRuntime.setDirectory _ (BlockDirectory.mutate _ dst (fun m : BlockMeta =>
      { m with l2SlotId := dst })) = low
    intro hl1 hlow hsound
    have hl1' : low.page .l1 dst = none := hl1
    rw [releaseL1_stock hsound, hl1', hlow]
    rfl

end Clone

section Victims

variable {mmu mmu' : MmuRuntime} {p : Int}

/-- A block outside L1 is no candidate, protected or not. -/
theorem considerVictim_outside (hr : (mmu.block p).info.residentInL1 = false) (q : Int) (best : Int × Nat) :
    considerVictim mmu q best p = best := by
  unfold considerVictim
  cases hget : mmu.blockDirectory.get p with
  | none => rfl
  | some m =>
    have hm : m = (mmu.block p).info := by
      unfold BlockDirectory.get at hget
      split at hget
      next => exact (Option.some.inj hget).symm
      next => cases hget
    dsimp only
    rw [hm, hr, if_pos (.inr rfl)]

/-- A new block outside L1 changes nothing for the choice of a victim, and needs no protection. -/
theorem pickEvictionCandidate_outside {v : BlockView} (hconfig : mmu'.config = mmu.config)
    (hsize : mmu'.blockDirectory.metas.size = mmu.blockDirectory.metas.size)
    (hblocks : mmu'.block = Function.update mmu.block p v) (hv : v.info.residentInL1 = false)
    (hr : (mmu.block p).info.residentInL1 = false) :
    pickEvictionCandidate mmu' p = pickEvictionCandidate mmu kInvalidBlockId := by
  have hstep : considerVictim mmu' p = considerVictim mmu kInvalidBlockId := by
    funext best q
    by_cases hq : q = p
    · subst q
      rw [considerVictim_outside hr, considerVictim_outside]
      rw [hblocks, Function.update_self]
      exact hv
    · have hvalid : mmu'.blockDirectory.isValid q ↔ mmu.blockDirectory.isValid q := by
        unfold BlockDirectory.isValid IntTable.InRange
        rw [hsize]
      have hinfo : mmu'.blockDirectory.metas.entry q = mmu.blockDirectory.metas.entry q := by
        have h := congrFun hblocks q
        rw [Function.update_of_ne hq] at h
        exact congrArg BlockView.info h
      have hget : mmu'.blockDirectory.get q = mmu.blockDirectory.get q := by
        simp only [BlockDirectory.get, hvalid, hinfo]
      unfold considerVictim
      rw [hget]
      by_cases hin : mmu.blockDirectory.isValid q
      · have hne : q ≠ kInvalidBlockId := by
          intro heq
          subst heq
          exact absurd hin.1 (by decide)
        rw [BlockDirectory.get_eq_some hin]
        simp only [hq, hne, if_false]
      · simp only [BlockDirectory.get, hin, if_false]
  unfold pickEvictionCandidate scanIds
  rw [hconfig, hstep]

end Victims

section Prepare

variable {mmu mmu' : MmuRuntime} {ctx : CtxHandle} {lb : UInt32}

/-- With a free block to move to, the write preparation of a shared block succeeds exactly when the
clone does. -/
theorem mmuPrepareBlockForWrite_stock (h : mmu.Settled) {c : Context} {lvid b : Int}
    (hc : findContext mmu ctx = some c) (hlvid : u32ToInt lb = some lvid) (hn : c.Names mmu.l1Allocator lvid b)
    (hshared : 1 < mmu.l1Allocator.refCounts.entry b) (hfree : mmu.l1Allocator.freeList ≠ []) :
    match mmu.supply mmu.stock .l2 with
    | none => ∃ e mmu', mmuPrepareBlockForWrite mmu ctx lb = (.error e, mmu')
    | some s => ∃ new mmu', mmuPrepareBlockForWrite mmu ctx lb = (.ok new, mmu') ∧ mmu'.stock = s := by
  have hsame : ∀ b', c.Names mmu.l1Allocator lvid b' → b' = b := by
    intro b' hb'
    exact Option.some.inj (hb'.entry.symm.trans hn.entry)
  rcases prepareBlockForWrite_cases h.allocator c lvid with
    ⟨e, _, hno⟩ | ⟨b', hb', hone, _⟩ | ⟨b', new, bm, hb', _, ht, heq⟩
  · exact absurd (hno b hn).2 hfree
  · rw [hsame b' hb'] at hone
    omega
  · rw [hsame b' hb'] at heq
    have hne : new ≠ b := (ht.ne_new (by omega)).symm
    obtain ⟨hvalid, _⟩ := taken_new h ht
    have h1 := staged_effect (r := ⟨(bm.release b).2, mmu.contexts.insert ctx (c.remapped lvid new)⟩)
      h ht ((release_size _ _).trans ht.size)
    have hstock : (staged mmu ⟨(bm.release b).2, mmu.contexts.insert ctx (c.remapped lvid new)⟩ new).stock =
        mmu.stock := rfl
    rw [mmuPrepareBlockForWrite_staged h hc hlvid hn hne heq]
    revert h1 hstock
    generalize staged mmu ⟨(bm.release b).2, mmu.contexts.insert ctx (c.remapped lvid new)⟩ new = mid
    intro h1 hstock
    have hfresh : mid.block new = .freshSwapped := by
      rw [h1.blocks, Function.update_self]
    have hclone := cloneBlockDataForCow_stock (mmu.block b).info.tier h1.sound
      (h1.valid (h.valid hn.live)) (h1.valid hvalid) hne.symm hfresh
    rw [hstock, h1.routing.supply] at hclone
    have hsupply : (mmu.withRouting ⟨(bm.release b).2, mmu.contexts.insert ctx (c.remapped lvid new)⟩).supply
        mmu.stock .l2 = mmu.supply mmu.stock .l2 := rfl
    rw [hsupply] at hclone
    cases hsup : mmu.supply mmu.stock .l2 with
    | none =>
      rw [hsup] at hclone
      obtain ⟨e, m4, heq4⟩ := hclone
      rw [heq4]
      exact ⟨e, m4, rfl⟩
    | some s =>
      rw [hsup] at hclone
      obtain ⟨m4, heq4, hs4⟩ := hclone
      rw [heq4]
      exact ⟨new, m4, rfl, hs4⟩

end Prepare

section Atomic

variable {mmu mmu' : MmuRuntime} {ctx : CtxHandle} {lb flags : UInt32}

/-- The block an entry routes to, if it resolves. -/
def routedBlock (mmu : MmuRuntime) (ctx : CtxHandle) (logicalBlock : UInt32) : Option Int :=
  match mmuResolveRouting mmu ctx logicalBlock with
  | .ok route => some route.physicalBlockId
  | .error _ => none

theorem routedBlock_of_resolve {route : PhysicalRoute} (h : mmuResolveRouting mmu ctx lb = .ok route) :
    routedBlock mmu ctx lb = some route.physicalBlockId := by
  unfold routedBlock
  rw [h]

theorem routedBlock_eq_some (h : mmu.Settled) {b : Int} : routedBlock mmu ctx lb = some b ↔
    ∃ c lvid, findContext mmu ctx = some c ∧ u32ToInt lb = some lvid ∧ c.Names mmu.l1Allocator lvid b := by
  unfold routedBlock mmuResolveRouting
  constructor
  · intro hb
    split at hb
    next route hroute =>
      split at hroute
      next => cases hroute
      next c hc =>
        split at hroute
        next => cases hroute
        next lvid hlvid =>
          obtain ⟨hn, -⟩ := resolveRouting_ok h c hroute
          cases Option.some.inj hb
          exact ⟨c, lvid, hc, hlvid, hn⟩
    next => cases hb
  · intro hex
    obtain ⟨c, lvid, hc, hlvid, hn⟩ := hex
    rw [hc]
    dsimp only
    rw [hlvid]
    dsimp only
    rw [resolveRouting_names h hn]

/-- Routing decides where an entry leads. -/
theorem routedBlock_congr (h : mmu.Settled) (h' : mmu'.Settled) (hr : SameRouting mmu mmu') (ctx : CtxHandle)
    (lb : UInt32) : routedBlock mmu' ctx lb = routedBlock mmu ctx lb := by
  have hfind : findContext mmu' ctx = findContext mmu ctx := by
    unfold findContext
    rw [hr.contexts]
  apply Option.ext
  intro b
  rw [routedBlock_eq_some h, routedBlock_eq_some h', hfind, hr.allocator]

/-- A failed call left the entry, its bytes, the counts and the free blocks as they were. -/
structure FailureAtomic (mmu mmu' : MmuRuntime) (ctx : CtxHandle) (lb : UInt32) : Prop where
  route : routedBlock mmu' ctx lb = routedBlock mmu ctx lb
  bytes : ∀ b, routedBlock mmu ctx lb = some b → mmu'.logicalBytes b = mmu.logicalBytes b
  refs : ∀ p, mmuGetRefCount mmu' p = mmuGetRefCount mmu p
  free : ∀ p, p ∈ mmu'.l1Allocator.freeList ↔ p ∈ mmu.l1Allocator.freeList

theorem MmuRuntime.Quiet.failureAtomic (h : mmu.Settled) (hq : Quiet mmu.Live mmu mmu') (ctx : CtxHandle)
    (lb : UInt32) : FailureAtomic mmu mmu' ctx lb := by
  refine ⟨routedBlock_congr h (hq.settled h) hq.routing ctx lb, fun b _ => hq.bytes b, ?_, ?_⟩
  · intro p
    unfold mmuGetRefCount
    rw [hq.routing.allocator]
  · intro p
    rw [hq.routing.allocator]

/-- The entry's block is shared and there is a free block to move the entry to. -/
def Switches (mmu : MmuRuntime) (ctx : CtxHandle) (lb : UInt32) : Prop :=
  ∃ b ∈ routedBlock mmu ctx lb, 1 < mmuGetRefCount mmu b ∧ 0 < mmuGetFreeBlockCount mmu

instance (mmu : MmuRuntime) (ctx : CtxHandle) (lb : UInt32) : Decidable (Switches mmu ctx lb) :=
  inferInstanceAs (Decidable (∃ b ∈ routedBlock mmu ctx lb,
    1 < mmuGetRefCount mmu b ∧ 0 < mmuGetFreeBlockCount mmu))

theorem switches_iff (h : mmu.Settled) : Switches mmu ctx lb ↔
    ∃ c lvid b, findContext mmu ctx = some c ∧ u32ToInt lb = some lvid ∧ c.Names mmu.l1Allocator lvid b ∧
      1 < mmu.l1Allocator.refCounts.entry b ∧ mmu.l1Allocator.freeList ≠ [] := by
  have hcount : ∀ {b}, mmu.Live b → mmuGetRefCount mmu b = mmu.l1Allocator.refCounts.entry b := by
    intro b hb
    exact if_pos (h.coherent.sound.refs_inRange.mpr (h.valid hb))
  have hpos : 0 < mmuGetFreeBlockCount mmu ↔ mmu.l1Allocator.freeList ≠ [] := List.length_pos_iff
  constructor
  · intro hex
    obtain ⟨b, hb, hshared, hfree⟩ := hex
    obtain ⟨c, lvid, hc, hlvid, hn⟩ := (routedBlock_eq_some h).mp hb
    rw [hcount hn.live] at hshared
    exact ⟨c, lvid, b, hc, hlvid, hn, hshared, hpos.mp hfree⟩
  · intro hex
    obtain ⟨c, lvid, b, hc, hlvid, hn, hshared, hfree⟩ := hex
    refine ⟨b, (routedBlock_eq_some h).mpr ⟨c, lvid, hc, hlvid, hn⟩, ?_, hpos.mpr hfree⟩
    rw [hcount hn.live]
    exact hshared

/-- The write preparation switches the entry and then finds no page of L2 for the copy. -/
def PrepareLosesBlock (mmu : MmuRuntime) (ctx : CtxHandle) (lb : UInt32) : Prop :=
  Switches mmu ctx lb ∧ mmu.supply mmu.stock .l2 = none

/-- A WRITE map switches the entry and then finds no page for the copy or for its promotion. -/
def MapLosesBlock (mmu : MmuRuntime) (ctx : CtxHandle) (lb flags : UInt32) : Prop :=
  validateMapFlags flags = true ∧ Switches mmu ctx lb ∧
    (mmu.supply mmu.stock .l2).bind (mmu.promotionSupply kInvalidBlockId) = none

/-- A switched entry has taken a reference from its old block. -/
theorem Remapped.not_atomic {mid : MmuRuntime} {b new : Int} {bm : BlockManager} {v : BlockView}
    {contexts : KeyedMap CtxHandle Context} (h : mmu.Settled) (hb : mmu.Live b)
    (hshared : 1 < mmu.l1Allocator.refCounts.entry b) (ht : Taken mmu.l1Allocator [new] bm)
    (hm : Remapped mmu mid b new v ⟨(bm.release b).2, contexts⟩)
    (hr : mmu'.l1Allocator = mid.l1Allocator) : ¬FailureAtomic mmu mmu' ctx lb := by
  intro ha
  have hne : b ≠ new := ht.ne_new (by omega)
  have halloc : mid.l1Allocator = (bm.release b).2 := congrArg Routing.allocator hm.routing
  have hvalid : mmu.l1Allocator.isValid b := h.allocator.valid_of_pos hb
  have hvalid' : mmu'.l1Allocator.isValid b := by
    rw [hr, halloc]
    unfold isValid IntTable.InRange
    rw [release_size, ht.size]
    exact hvalid
  have hrefs := ha.refs b
  unfold mmuGetRefCount refCount at hrefs
  rw [if_pos hvalid, if_pos hvalid', hr, halloc, remap_entry ht hshared, if_neg hne, if_pos rfl] at hrefs
  omega

/-- A failed write preparation is atomic unless the clone of a switched entry finds no page. -/
theorem prepare_failure_atomic (h : mmu.Settled) (ctx : CtxHandle) (lb : UInt32) :
    (∀ e mmu', mmuPrepareBlockForWrite mmu ctx lb = (.error e, mmu') → FailureAtomic mmu mmu' ctx lb) ↔
      ¬PrepareLosesBlock mmu ctx lb := by
  constructor
  · intro hall hboth
    obtain ⟨hsw, hsup⟩ := hboth
    obtain ⟨c, lvid, b, hc, hlvid, hn, hshared, hfree⟩ := (switches_iff h).mp hsw
    have hstock := mmuPrepareBlockForWrite_stock h hc hlvid hn hshared hfree
    rw [hsup] at hstock
    obtain ⟨e, mmu', herr⟩ := hstock
    have hatomic := hall e mmu' herr
    rcases mmuPrepareBlockForWrite_cases h herr with
      ⟨_, _, hno⟩ | ⟨_, _, _, _, _, _, _, hok, _⟩ | ⟨_, _, b', new, bm, v, _, _, hn', hshared', ht, hm, _⟩
    · exact hfree (hno c lvid b hc hlvid hn).2
    · cases hok
    · exact hm.not_atomic h hn'.live hshared' ht rfl hatomic
  · intro hno e mmu' herr
    rcases mmuPrepareBlockForWrite_cases h herr with
      ⟨_, rfl, _⟩ | ⟨_, _, _, _, _, _, _, hok, _⟩ | ⟨c, lvid, b, new, bm, v, hc, hlvid, hn, hshared, ht, hm, _⟩
    · exact h.coherent.quiet_refl.failureAtomic h ctx lb
    · cases hok
    · exfalso
      have hfree := ht.supplied
      have hstock := mmuPrepareBlockForWrite_stock h hc hlvid hn hshared hfree
      cases hsup : mmu.supply mmu.stock .l2 with
      | none => exact hno ⟨(switches_iff h).mpr ⟨c, lvid, b, hc, hlvid, hn, hshared, hfree⟩, hsup⟩
      | some s =>
        rw [hsup] at hstock
        obtain ⟨new', m, hok, _⟩ := hstock
        rw [herr] at hok
        cases hok

/-- What a promotion of the new block needs was there to see before the entry was switched. -/
theorem Remapped.promotionSupply {mid : MmuRuntime} {b new : Int} {v : BlockView} {r : Routing}
    (h : mmu.Settled) (hm : Remapped mmu mid b new v r) (hv : v.info.residentInL1 = false)
    (hnew : mmu.block new = .unused) (s : PageStock) :
    mid.promotionSupply new s = mmu.promotionSupply kInvalidBlockId s := by
  have hr : (mmu.block new).info.residentInL1 = false := by
    rw [hnew]
    rfl
  have hsize : mid.blockDirectory.metas.size = mmu.blockDirectory.metas.size := by
    rw [hm.settled.coherent.sound.metas_size, h.coherent.sound.metas_size, hm.setup.config]
  have hpick := pickEvictionCandidate_outside hm.setup.config hsize hm.blocks hv hr
  have hsupply : ∀ s id, mid.supply s id = mmu.supply s id := by
    intro s id
    unfold MmuRuntime.supply
    rw [hm.setup.config, hm.setup.replies]
  have hevict : ∀ w, mid.evictionSupply w s = mmu.evictionSupply w s := by
    intro w
    simp only [evictionSupply, writeBackSupply, hsupply]
  have hvictim : ¬pickEvictionCandidate mmu kInvalidBlockId < 0 →
      mid.block (pickEvictionCandidate mmu kInvalidBlockId) =
        mmu.block (pickEvictionCandidate mmu kInvalidBlockId) := by
    intro hneg
    have hne : pickEvictionCandidate mmu kInvalidBlockId ≠ new := by
      intro he
      have hres := (pickEvictionCandidate_nonneg hneg).resident
      rw [he, hr] at hres
      cases hres
    rw [hm.blocks, Function.update_of_ne hne]
  unfold MmuRuntime.promotionSupply
  rw [hm.count, hm.setup.limit, hpick]
  simp only [hsupply]
  by_cases hlt : mmu.residentCount < mmu.residentLimit
  · rw [if_pos hlt, if_pos hlt]
  · rw [if_neg hlt, if_neg hlt]
    by_cases hneg : pickEvictionCandidate mmu kInvalidBlockId < 0
    · rw [if_pos hneg, if_pos hneg]
    · rw [if_neg hneg, if_neg hneg, hvictim hneg, hevict]

theorem mmuMapLogicalBlock_write {c : Context} {lvid : Int} (hflags : validateMapFlags flags = true)
    (hw : hasWrite flags = true) (hc : findContext mmu ctx = some c) (hlvid : u32ToInt lb = some lvid) :
    mmuMapLogicalBlock mmu ctx lb flags =
      match mmuPrepareBlockForWrite mmu ctx lb with
      | (.error status, mmu) => (.error status, mmu)
      | (.ok _, mmu) =>
        match findContext mmu ctx with
        | none => (.error .badHandle, mmu)
        | some context => mapResolved mmu context lvid lb flags := by
  unfold mmuMapLogicalBlock
  rw [hflags, if_neg (by simp), hc]
  dsimp only
  rw [hlvid]
  dsimp only
  refine (if_pos hw).trans ?_
  rcases mmuPrepareBlockForWrite mmu ctx lb with ⟨_ | _, mid⟩
  · rfl
  · rfl

/-- The new block a switched entry names, and that it resolves there. -/
theorem Remapped.names_new {mid : MmuRuntime} {c : Context} {lvid b new : Int} {bm : BlockManager} {v : BlockView}
    (hn : c.Names mmu.l1Allocator lvid b) (hshared : 1 < mmu.l1Allocator.refCounts.entry b)
    (ht : Taken mmu.l1Allocator [new] bm)
    (hm : Remapped mmu mid b new v ⟨(bm.release b).2, mmu.contexts.insert ctx (c.remapped lvid new)⟩) :
    (c.remapped lvid new).Names mid.l1Allocator lvid new := by
  have halloc : mid.l1Allocator = (bm.release b).2 := congrArg Routing.allocator hm.routing
  refine ⟨?_, ?_, ?_⟩
  · show (c.pageTable.set lvid new).get lvid = some new
    rw [PageTable.get_set (PageTable.get_eq_some.mp hn.entry).1, if_pos rfl]
  · exact ht.ne_unallocated (List.mem_singleton.mpr rfl)
  · rw [halloc, remap_entry ht hshared, if_pos rfl]
    exact Int.one_pos

/-- A map of an entry that was just switched goes through when the pages last for the promotion. -/
theorem Remapped.map_outcome {mid : MmuRuntime} {c : Context} {lvid b new : Int} {bm : BlockManager} {v : BlockView}
    (h : mmu.Settled) (hc : findContext mmu ctx = some c) (hlvid : u32ToInt lb = some lvid)
    (hn : c.Names mmu.l1Allocator lvid b) (hshared : 1 < mmu.l1Allocator.refCounts.entry b)
    (ht : Taken mmu.l1Allocator [new] bm)
    (hm : Remapped mmu mid b new v ⟨(bm.release b).2, mmu.contexts.insert ctx (c.remapped lvid new)⟩)
    (hv : v.info.residentInL1 = false) (hprep : mmuPrepareBlockForWrite mmu ctx lb = (.ok new, mid))
    (flags : UInt32) :
    match (mmu.supply mmu.stock .l2).bind (mmu.promotionSupply kInvalidBlockId) with
    | none => ∃ e mmu', mapResolved mid (c.remapped lvid new) lvid lb flags = (.error e, mmu')
    | some _ => ∃ d mmu', mapResolved mid (c.remapped lvid new) lvid lb flags = (.ok d, mmu') := by
  have hstock := mmuPrepareBlockForWrite_stock h hc hlvid hn hshared ht.supplied
  rw [hprep] at hstock
  have hnew := hm.names_new hn hshared ht
  have hout : (mid.block new).info.residentInL1 = false := by
    rw [hm.blocks, Function.update_self]
    exact hv
  have hmapped := mapResolved_stock hm.settled hnew hout lb flags
  cases hsup : mmu.supply mmu.stock .l2 with
  | none =>
    rw [hsup] at hstock
    obtain ⟨_, _, herr⟩ := hstock
    cases herr
  | some s =>
    rw [hsup] at hstock
    obtain ⟨_, m, hok, hs⟩ := hstock
    obtain ⟨_, rfl⟩ := Prod.mk.inj hok
    rw [hs, hm.promotionSupply h hv (taken_new h ht).2 s] at hmapped
    exact hmapped

/-- Where pages are missing a switched entry makes the map fail, and the failure shows. -/
theorem map_loses_block (h : mmu.Settled) (hw : hasWrite flags = true) (hloses : MapLosesBlock mmu ctx lb flags) :
    ∃ e mmu', mmuMapLogicalBlock mmu ctx lb flags = (.error e, mmu') ∧ ¬FailureAtomic mmu mmu' ctx lb := by
  obtain ⟨hflags, hsw, hbind⟩ := hloses
  obtain ⟨c, lvid, b, hc, hlvid, hn, hshared, hfree⟩ := (switches_iff h).mp hsw
  have hmap := mmuMapLogicalBlock_write hflags hw hc hlvid
  obtain ⟨r, mid, hprep⟩ : ∃ r mid, mmuPrepareBlockForWrite mmu ctx lb = (r, mid) := ⟨_, _, rfl⟩
  rw [hprep] at hmap
  rcases mmuPrepareBlockForWrite_cases h hprep with
    ⟨_, _, hno⟩ | ⟨c', lvid', b', hc', hl', hn', hone, _, _⟩ |
    ⟨c', lvid', b', new, bm, v, hc', hl', hn', hshared', ht, hm, hres⟩
  · exact absurd (hno c lvid b hc hlvid hn).2 hfree
  · cases Option.some.inj (hc.symm.trans hc')
    cases Option.some.inj (hlvid.symm.trans hl')
    cases Option.some.inj (hn.entry.symm.trans hn'.entry)
    omega
  · cases Option.some.inj (hc.symm.trans hc')
    cases Option.some.inj (hlvid.symm.trans hl')
    cases Option.some.inj (hn.entry.symm.trans hn'.entry)
    rcases hres with ⟨⟨ptr, rfl⟩, rfl⟩ | ⟨-, e, rfl⟩
    · have hmapped := hm.map_outcome h hc hlvid hn hshared ht rfl hprep flags
      rw [hbind] at hmapped
      obtain ⟨e, mmu', herr⟩ := hmapped
      dsimp only at hmap
      rw [hm.context (findContext_find? hc).1] at hmap
      have hq := (mapResolved_error hm.settled herr).1
      exact ⟨e, mmu', hmap.trans herr, hm.not_atomic h hn.live hshared ht hq.routing.allocator⟩
    · exact ⟨e, mid, hmap, hm.not_atomic h hn.live hshared ht rfl⟩

/-- A failed WRITE map is atomic unless a page is missing once the entry has been switched. -/
theorem map_failure_atomic (h : mmu.Settled) (ctx : CtxHandle) (lb flags : UInt32) (hw : hasWrite flags = true) :
    (∀ e mmu', mmuMapLogicalBlock mmu ctx lb flags = (.error e, mmu') → FailureAtomic mmu mmu' ctx lb) ↔
      ¬MapLosesBlock mmu ctx lb flags := by
  constructor
  · intro hall hloses
    obtain ⟨e, mmu', herr, hshows⟩ := map_loses_block h hw hloses
    exact hshows (hall e mmu' herr)
  · intro hno e mmu' herr
    by_cases hflags : validateMapFlags flags = true
    swap
    · rw [mmuMapLogicalBlock_invalid hflags] at herr
      obtain ⟨_, rfl⟩ := Prod.mk.inj herr
      exact h.coherent.quiet_refl.failureAtomic h ctx lb
    rcases mmuMapLogicalBlock_cases h herr with
      ⟨_, rfl⟩ | ⟨_, e', _, hprep⟩ | ⟨mid, c1, lvid1, hc1, hl1, ⟨hr, _⟩ | ⟨_, p, hprep⟩, hres⟩
    · exact h.coherent.quiet_refl.failureAtomic h ctx lb
    · apply (prepare_failure_atomic h ctx lb).mpr _ e' mmu' hprep
      intro hboth
      obtain ⟨hsw, hsup⟩ := hboth
      exact hno ⟨hflags, hsw, by rw [hsup]; rfl⟩
    · rw [hw] at hr
      cases hr
    · rcases mmuPrepareBlockForWrite_cases h hprep with
        ⟨⟨_, he⟩, _⟩ | ⟨_, _, _, _, _, _, _, _, rfl⟩ | ⟨c, lvid, b, new, bm, v, hc, hlvid, hn, hshared, ht, hm, hok⟩
      · cases he
      · exact (mapResolved_error h hres).1.failureAtomic h ctx lb
      · exfalso
        rcases hok with ⟨⟨ptr, rfl⟩, hnew⟩ | ⟨_, e', he⟩
        · have hsw : Switches mmu ctx lb := (switches_iff h).mpr ⟨c, lvid, b, hc, hlvid, hn, hshared, ht.supplied⟩
          cases Except.ok.inj hnew
          cases Option.some.inj ((hm.context (findContext_find? hc).1).symm.trans hc1)
          cases Option.some.inj (hlvid.symm.trans hl1)
          have hmapped := hm.map_outcome h hc hlvid hn hshared ht rfl hprep flags
          cases hbind : (mmu.supply mmu.stock .l2).bind (mmu.promotionSupply kInvalidBlockId) with
          | none => exact hno ⟨hflags, hsw, hbind⟩
          | some t =>
            rw [hbind] at hmapped
            obtain ⟨d, m', hgot⟩ := hmapped
            rw [hres] at hgot
            cases hgot
        · cases he

/-- Copy-on-write is failure-atomic exactly where a switched entry still gets all the pages it needs. -/
theorem cow_failure_atomic (h : Reachable mmu) (ctx : CtxHandle) (lb flags : UInt32)
    (hw : hasWrite flags = true) :
    ((∀ e mmu', mmuPrepareBlockForWrite mmu ctx lb = (.error e, mmu') → FailureAtomic mmu mmu' ctx lb) ↔
      ¬PrepareLosesBlock mmu ctx lb) ∧
    ((∀ e mmu', mmuMapLogicalBlock mmu ctx lb flags = (.error e, mmu') → FailureAtomic mmu mmu' ctx lb) ↔
      ¬MapLosesBlock mmu ctx lb flags) :=
  ⟨prepare_failure_atomic h.settled ctx lb, map_failure_atomic h.settled ctx lb flags hw⟩

end Atomic

/-- Four shared blocks and none free. -/
def sharedFull : MmuRuntime :=
  machine.replay (smallInstance 1 1)
    [.createContext (some 1), .allocateBlocks 1 4, .forkContext 1 (fun _ => true) (some 2)]

/-- Without a free block both calls fail before anything is switched. -/
theorem cow_failure_atomic_full :
    (mmuPrepareBlockForWrite sharedFull 2 0).1 = .error .outOfMemory ∧
    (∀ e mmu', mmuPrepareBlockForWrite sharedFull 2 0 = (.error e, mmu') →
      FailureAtomic sharedFull mmu' 2 0) ∧
    (∀ e mmu', mmuMapLogicalBlock sharedFull 2 0 mapWrite = (.error e, mmu') →
      FailureAtomic sharedFull mmu' 2 0) := by
  have hfull : Reachable sharedFull := (smallInstance_reachable 1 1).replay (by decide +kernel)
  have hno : ¬Switches sharedFull 2 0 := by decide +kernel
  obtain ⟨hprepare, hmap⟩ := cow_failure_atomic hfull 2 0 mapWrite (by decide)
  exact ⟨by decide +kernel, hprepare.mpr fun hl => hno hl.1, hmap.mpr fun hl => hno hl.2.1⟩

/-- A WRITE mapping of context 1. -/
def firstMapping : MappedBlock := ⟨⟨0, 3⟩, 4, 0, 0, mapWrite⟩

/-- A block whose bytes were written, mirrored in the only page of L2, and shared by a fork. -/
def sharedWritten : MmuRuntime :=
  machine.replay (smallInstance 1 1)
    [.createContext (some 1), .allocateBlocks 1 2, .mapLogicalBlock 1 0 mapWrite,
      .hostWrite 1 firstMapping 0 7, .unmapLogicalBlock 1 firstMapping,
      .forkContext 1 (fun _ => true) (some 2)]

/-- The clone finds L2 full: the call fails, and the entry now leads to a block of zeros. -/
theorem failed_cow_loses_block :
    Reachable sharedWritten ∧
    (let after := (mmuPrepareBlockForWrite sharedWritten 2 0).2
     (mmuPrepareBlockForWrite sharedWritten 2 0).1 = .error .outOfMemory ∧
     routedBlock sharedWritten 2 0 = some 0 ∧ sharedWritten.logicalBytes 0 = [7, 0, 0, 0] ∧
     routedBlock after 2 0 = some 2 ∧ after.logicalBytes 2 = [0, 0, 0, 0]) ∧
    ¬(∀ e mmu', mmuPrepareBlockForWrite sharedWritten 2 0 = (.error e, mmu') →
      FailureAtomic sharedWritten mmu' 2 0) := by
  have herr : (mmuPrepareBlockForWrite sharedWritten 2 0).1 = .error .outOfMemory := by decide +kernel
  have hbefore : routedBlock sharedWritten 2 0 = some 0 := by decide +kernel
  have hafter : routedBlock (mmuPrepareBlockForWrite sharedWritten 2 0).2 2 0 = some 2 := by decide +kernel
  refine ⟨(smallInstance_reachable 1 1).replay (by decide +kernel), by decide +kernel, ?_⟩
  intro hall
  have hroute := (of_error hall herr).route
  rw [hbefore, hafter] at hroute
  cases hroute

end DsfMmu
