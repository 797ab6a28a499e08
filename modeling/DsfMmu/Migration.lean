import DsfMmu.MapPins
import DsfMmu.OutstandingMappings

namespace DsfMmu

open MmuRuntime BlockManager Context

/-- The end of `mmu_test_update_mapping`. -/
def placeBlock (mmu : MmuRuntime) (physicalBlockId : Int) : MmuTier → Except MmuError Unit × MmuRuntime
  | .l1 => ensureResidentInL1 mmu physicalBlockId
  | .l2 => moveBlockToL2 mmu physicalBlockId
  | .l0 => (.error .invalidArgument, mmu)

/-- `mmu_test_update_mapping`. The old block is treated as `mmu_release_logical_block` treats a released one. -/
def mmuTestUpdateMapping (mmu : MmuRuntime) (ctx : CtxHandle) (logicalBlock : UInt32) (newPhysicalBlock : Int)
    (newTier : MmuTier) : Except MmuError Unit × MmuRuntime :=
  match findContext mmu ctx with
  | none => (.error .badHandle, mmu)
  | some context =>
    if newPhysicalBlock < 0 then (.error .invalidArgument, mmu)
    else
      match u32ToInt logicalBlock with
      | none => (.error .invalidArgument, mmu)
      | some lvid =>
        match context.resolveRouting mmu.blockDirectory lvid with
        | .error status => (.error status, mmu)
        | .ok previousRoute =>
          match context.updateMapping mmu.l1Allocator lvid newPhysicalBlock with
          | (.error status, bm, context) => (.error status, mmu.setContext bm ctx context)
          | (.ok _, bm, context) =>
            let mmu := mmu.setContext bm ctx context
            let mmu :=
              if previousRoute.physicalBlockId = newPhysicalBlock then mmu
              else
                let mmu := mmu.setDirectory (mmu.blockDirectory.initializeFreshBlock newPhysicalBlock)
                reclaimBlock mmu previousRoute.physicalBlockId
            placeBlock mmu newPhysicalBlock newTier

/-- `mmu_test_get_block_metadata`. -/
def mmuTestGetBlockMetadata (mmu : MmuRuntime) (blockId : Int) : Except MmuError BlockMeta :=
  if blockId < 0 then .error .invalidArgument
  else
    match mmu.blockDirectory.get blockId with
    | none => .error .invalidArgument
    | some blockMeta => .ok blockMeta

section Update

variable {bm : BlockManager} {c : Context} {lvid b new : Int}

/-- An entry that names a block is moved to any other block that is free. -/
theorem updateMapping_cases (h : bm.Ok) (hn : c.Names bm lvid b) (new : Int) :
    (b ≠ new ∧ new ∉ bm.freeList ∧ ∃ e, c.updateMapping bm lvid new = (.error e, bm, c)) ∨
    (b = new ∧ c.updateMapping bm lvid new = (.ok (), bm, c)) ∨
    ∃ bm', b ≠ new ∧ Taken bm [new] bm' ∧
      c.updateMapping bm lvid new = (.ok (), (bm'.release b).2, c.remapped lvid new) := by
  unfold updateMapping
  rw [hn.entry]
  dsimp only
  by_cases hsame : b = new
  · subst hsame
    rw [if_neg (not_not.mpr (h.valid_of_pos hn.live)), if_pos rfl]
    exact .inr (.inl ⟨rfl, rfl⟩)
  · by_cases hfree : new ∈ bm.freeList
    · obtain ⟨bm', hsome, ht⟩ := h.allocateSpecific_some hfree
      have hlive : 0 < bm'.refCounts.entry b := by
        rw [ht.entry]
        split
        next => exact Int.one_pos
        next => exact hn.live
      rw [if_neg (not_not.mpr (ht.free new (List.mem_singleton_self new)).1), if_neg hsame, hsome]
      dsimp only
      have hrelease : bm'.release b = (true, (bm'.release b).2) := by
        rw [ht.ok.release_eq, if_pos hlive]
      rw [if_pos hn.block, hrelease]
      exact .inr (.inr ⟨bm', hsame, ht, rfl⟩)
    · left
      refine ⟨hsame, hfree, ?_⟩
      split
      next => exact ⟨_, rfl⟩
      next =>
        rw [allocateSpecific_none hfree]
        exact ⟨_, rfl⟩

end Update

section Cases

variable {mmu mmu' : MmuRuntime} {ctx : CtxHandle} {lb : UInt32} {new : Int} {tier : MmuTier}

/-- The runtime when the entry has moved and the old block has been dealt with. -/
def relocated (mmu : MmuRuntime) (r : Routing) (new b : Int) : MmuRuntime :=
  reclaimBlock ((mmu.withRouting r).setDirectory (mmu.blockDirectory.initializeFreshBlock new)) b

theorem free_nonneg (h : mmu.Settled) (hfree : new ∈ mmu.l1Allocator.freeList) : 0 ≤ new :=
  ((h.allocator.free_iff new).mp hfree).1.1

/-- A move is refused, or places the entry's own block, or switches the entry to a free one and places that. -/
theorem mmuTestUpdateMapping_cases (h : mmu.Settled) {r : Except MmuError Unit}
    (hu : mmuTestUpdateMapping mmu ctx lb new tier = (r, mmu')) :
    (((∃ e, r = .error e) ∧ mmu' = mmu) ∧
      ∀ b, routedBlock mmu ctx lb = some b → b ≠ new ∧ new ∉ mmu.l1Allocator.freeList) ∨
    (routedBlock mmu ctx lb = some new ∧ placeBlock mmu new tier = (r, mmu')) ∨
    ∃ c lvid b bm, findContext mmu ctx = some c ∧ u32ToInt lb = some lvid ∧ c.Names mmu.l1Allocator lvid b ∧
      Taken mmu.l1Allocator [new] bm ∧
      placeBlock (relocated mmu ⟨(bm.release b).2, mmu.contexts.insert ctx (c.remapped lvid new)⟩ new b) new tier =
        (r, mmu') := by
  have hrefused : ∀ {e : MmuError}, (Except.error e, mmu) = (r, mmu') →
      (∀ b, routedBlock mmu ctx lb = some b → b ≠ new ∧ new ∉ mmu.l1Allocator.freeList) →
      ((∃ e, r = .error e) ∧ mmu' = mmu) ∧
        ∀ b, routedBlock mmu ctx lb = some b → b ≠ new ∧ new ∉ mmu.l1Allocator.freeList := by
    intro e he hno
    cases he
    exact ⟨⟨⟨e, rfl⟩, rfl⟩, hno⟩
  obtain hroute | ⟨b, hroute⟩ := Option.eq_none_or_eq_some (routedBlock mmu ctx lb)
  · have hno : ∀ b, routedBlock mmu ctx lb = some b → b ≠ new ∧ new ∉ mmu.l1Allocator.freeList := by
      intro b hb
      cases hroute.symm.trans hb
    unfold mmuTestUpdateMapping at hu
    unfold routedBlock mmuResolveRouting at hroute
    split at hu
    next => exact .inl (hrefused hu hno)
    next c hc =>
      rw [hc] at hroute
      split at hu
      next => exact .inl (hrefused hu hno)
      next =>
        split at hu
        next => exact .inl (hrefused hu hno)
        next lvid hlvid =>
          dsimp only at hroute
          rw [hlvid] at hroute
          dsimp only at hroute
          split at hu
          next => exact .inl (hrefused hu hno)
          next route hr =>
            rw [hr] at hroute
            cases hroute
  · obtain ⟨c, lvid, hc, hlvid, hn⟩ := (routedBlock_eq_some h).mp hroute
    have hb := h.coherent.sound.refs_inRange.mpr (h.valid hn.live)
    unfold mmuTestUpdateMapping at hu
    rw [hc] at hu
    dsimp only at hu
    split at hu
    next hneg =>
      refine .inl (hrefused hu ?_)
      intro b' hb'
      cases Option.some.inj (hroute.symm.trans hb')
      have h0 := hb.1
      refine ⟨by omega, fun hfree => ?_⟩
      have := free_nonneg h hfree
      omega
    next hnonneg =>
      rw [hlvid] at hu
      dsimp only at hu
      rw [resolveRouting_names h hn] at hu
      dsimp only at hu
      rcases updateMapping_cases h.allocator hn new with
        ⟨hne, hfree, e, heq⟩ | ⟨rfl, heq⟩ | ⟨bm, hne, ht, heq⟩
      · rw [heq] at hu
        dsimp only at hu
        rw [setContext_same (findContext_find? hc).2] at hu
        refine .inl (hrefused hu ?_)
        intro b' hb'
        cases Option.some.inj (hroute.symm.trans hb')
        exact ⟨hne, hfree⟩
      · rw [heq] at hu
        dsimp only at hu
        rw [setContext_same (findContext_find? hc).2, if_pos rfl] at hu
        exact .inr (.inl ⟨hroute, hu⟩)
      · rw [heq] at hu
        dsimp only at hu
        rw [if_neg hne] at hu
        exact .inr (.inr ⟨c, lvid, b, bm, hc, hlvid, hn, ht, hu⟩)

end Cases

/-! The moved block starts with tier L1 but outside L1; with the tier put right the runtime is settled. -/

/-- The runtime with the tier of one block put to L2. -/
def tiered (p : Int) (mmu : MmuRuntime) : MmuRuntime := mmu.mutateMeta p fun m => { m with tier := .l2 }

section Relocated

variable {mmu mmu' : MmuRuntime} {ctx : CtxHandle} {c : Context} {bm : BlockManager} {lvid b new : Int}

theorem moved_live (ht : Taken mmu.l1Allocator [new] bm) (hb : mmu.Live b) (q : Int) :
    0 < (bm.release b).2.refCounts.entry q ↔
      (mmu.Live q ∨ q = new) ∧ (q = b → 0 < (bm.release b).2.refCounts.entry b) := by
  have hentry := moved_entry ht hb q
  have hpos : 0 < mmu.l1Allocator.refCounts.entry b := hb
  by_cases hqb : q = b
  · subst q
    have hlive : mmu.Live b ∨ b = new := .inl hb
    simp only [hlive, true_and, forall_const]
  · rw [hentry, if_neg hqb]
    by_cases hq : q = new
    · rw [if_pos hq]
      exact iff_of_true Int.one_pos ⟨.inr hq, fun he => absurd he hqb⟩
    · rw [if_neg hq]
      exact ⟨fun hl => ⟨.inl hl, fun he => absurd he hqb⟩, fun hboth => hboth.1.resolve_right hq⟩

/-- The staged runtime, before the old block is dealt with. -/
theorem staged_coherent (h : mmu.Settled) {r : Routing} (ht : Taken mmu.l1Allocator [new] bm)
    (hsize : r.allocator.refCounts.size = mmu.l1Allocator.refCounts.size) :
    (staged mmu r new).Coherent fun q => mmu.Live q ∨ q = new := by
  obtain ⟨hvalid, hunused⟩ := taken_new h ht
  have hcoh : (mmu.withRouting r).Coherent mmu.Live := h.coherent.withRouting hsize
  apply hcoh.of_update (staged_effect h ht hsize) hvalid (BlockView.freshSwapped_ok.congr (by simp))
  · intro q hq
    simp [hq]
  · rw [withRouting_block, hunused]
    rfl
  · exact h.coherent.limit

/-- A block that loses its last reference to the move. -/
theorem relocated_forgets (h : mmu.Settled) {r : Routing} (ht : Taken mmu.l1Allocator [new] bm)
    (hsize : r.allocator.refCounts.size = mmu.l1Allocator.refCounts.size) (hb : mmu.Live b)
    (hzero : r.allocator.refCount b = 0) :
    ∃ n, n + weight (mmu.block b) = mmu.residentCount ∧
      Effect (mmu.withRouting r) (tiered new (relocated mmu r new b))
        (Function.update (Function.update mmu.block new .freshSwapped) b .unused) n mmu.epoch := by
  obtain ⟨hvalid, hunused⟩ := taken_new h ht
  have hne : b ≠ new := ht.ne_new hb
  have hcoh : (mmu.withRouting r).Coherent mmu.Live := h.coherent.withRouting hsize
  have h1 := hcoh.sound.effect_refl.mutate hvalid (fun _ => makeFreshMeta)
  have h2 := h1.trans (forgetBlock_effect h1.sound (h1.valid (h.valid hb)))
  have h3 := h2.mutateMeta hvalid (fun m => { m with tier := .l2 })
  simp only [h1.blocks, h1.residentCount, withRouting_block, hunused, Function.update_of_ne hne] at h3
  have heq : tiered new (relocated mmu r new b) = (forgetBlock ((mmu.withRouting r).setDirectory
      ((mmu.withRouting r).blockDirectory.mutate new fun _ => makeFreshMeta)) b).mutateMeta new
        fun m => { m with tier := .l2 } :=
    congrArg (tiered new) (if_pos hzero)
  refine ⟨if (mmu.block b).info.residentInL1 then mmu.residentCount - 1 else mmu.residentCount, ?_, ?_⟩
  · unfold weight
    cases hr : (mmu.block b).info.residentInL1 with
    | false => rfl
    | true =>
      have := h.coherent.count_pos hr
      simp only [if_true]
      omega
  · rw [heq]
    refine h3.of_blocks ?_
    rw [Function.update_of_ne hne.symm, Function.update_self, Function.update_comm hne, Function.update_idem]
    rfl

/-- With its tier put right the moved block is like any other. -/
theorem relocated_settled (h : mmu.Settled) {contexts : KeyedMap CtxHandle Context}
    (ht : Taken mmu.l1Allocator [new] bm) (hb : mmu.Live b) :
    (tiered new (relocated mmu ⟨(bm.release b).2, contexts⟩ new b)).Settled ∧
      SameRouting (mmu.withRouting ⟨(bm.release b).2, contexts⟩)
        (tiered new (relocated mmu ⟨(bm.release b).2, contexts⟩ new b)) ∧
      ∀ q, (tiered new (relocated mmu ⟨(bm.release b).2, contexts⟩ new b)).Live q →
        (tiered new (relocated mmu ⟨(bm.release b).2, contexts⟩ new b)).block q =
          Function.update mmu.block new .freshSwapped q := by
  have hsize : (bm.release b).2.refCounts.size = mmu.l1Allocator.refCounts.size := (release_size _ _).trans ht.size
  have hok := ht.ok.release b
  have hst := @staged_coherent _ _ _ h ⟨(bm.release b).2, contexts⟩ ht hsize
  have hse := @staged_effect _ h _ _ ⟨(bm.release b).2, contexts⟩ ht hsize
  have hlive := moved_live ht hb
  by_cases hl : 0 < (bm.release b).2.refCounts.entry b
  · have hcount : (bm.release b).2.refCount b ≠ 0 := by
      have := hok.refCount_pos.mpr hl
      omega
    have heq : tiered new (relocated mmu ⟨(bm.release b).2, contexts⟩ new b) =
        staged mmu ⟨(bm.release b).2, contexts⟩ new := congrArg (tiered new) (if_neg hcount)
    rw [heq]
    refine ⟨⟨hok, hst.congr fun q => ?_⟩, hse.routing, fun q _ => congrFun hse.blocks q⟩
    have hq := hlive q
    simp only [hl, implies_true, and_true] at hq
    exact hq.symm
  · have hn := hok.nonneg b
    have hzero : (bm.release b).2.refCount b = 0 := by
      have hcoh : (mmu.withRouting ⟨(bm.release b).2, contexts⟩).Coherent mmu.Live := h.coherent.withRouting hsize
      have hv : (bm.release b).2.isValid b := hcoh.sound.refs_inRange.mpr (h.valid hb)
      rw [refCount, if_pos hv]
      omega
    obtain ⟨n, hn, he⟩ := @relocated_forgets _ _ _ _ h ⟨(bm.release b).2, contexts⟩ ht hsize hb hzero
    have hne : b ≠ new := ht.ne_new hb
    have hold : (staged mmu ⟨(bm.release b).2, contexts⟩ new).block b = mmu.block b := by
      rw [hse.blocks, Function.update_of_ne hne]
    have hstep : Effect (staged mmu ⟨(bm.release b).2, contexts⟩ new)
        (tiered new (relocated mmu ⟨(bm.release b).2, contexts⟩ new b))
        (Function.update (staged mmu ⟨(bm.release b).2, contexts⟩ new).block b .unused) n mmu.epoch := by
      rw [hse.blocks]
      have hrouting := he.routing
      exact ⟨he.sound, ⟨hrouting.config, hrouting.allocator, hrouting.contexts, hrouting.limit, hrouting.replies⟩,
        he.blocks, he.residentCount, he.epoch⟩
    have hdead : ∀ q, (mmu.Live q ∨ q = new) ∧ q ≠ b ↔ 0 < (bm.release b).2.refCounts.entry q := by
      intro q
      rw [hlive q]
      simp only [hl, imp_false]
    have hlimit : n ≤ mmu.residentLimit := by
      have := h.coherent.limit
      omega
    have hcoh : (tiered new (relocated mmu ⟨(bm.release b).2, contexts⟩ new b)).Coherent
        fun q => (mmu.Live q ∨ q = new) ∧ q ≠ b := by
      refine hst.of_update hstep (hst.valid b (.inl hb)) (BlockView.unused_ok.congr (by simp)) ?_ ?_ hlimit
      · intro q hq
        simp [hq]
      · rw [hold, hn]
        rfl
    have halloc := he.routing.allocator
    refine ⟨⟨halloc ▸ hok, hcoh.congr fun q => ?_⟩, he.routing, ?_⟩
    · rw [hdead q]
      show _ ↔ 0 < (tiered new (relocated mmu ⟨(bm.release b).2, contexts⟩ new b)).l1Allocator.refCounts.entry q
      rw [halloc]
      rfl
    · intro q hq
      have hq' : 0 < (bm.release b).2.refCounts.entry q := by
        have : 0 < (tiered new (relocated mmu ⟨(bm.release b).2, contexts⟩ new b)).l1Allocator.refCounts.entry q := hq
        rw [halloc] at this
        exact this
      rw [he.blocks, Function.update_of_ne ((hdead q).mpr hq').2]

end Relocated

section Placed

variable {mmu mmu' : MmuRuntime} {live : Int → Prop} {p : Int}

theorem sound_of_tiered (h : (tiered p mmu).Sound) : mmu.Sound :=
  ⟨h.refs_size, (BlockDirectory.mutate_size _ _ _).symm.trans h.metas_size, h.owners_size, h.limit, h.pool_ok,
    h.l2_capped, h.exact, h.slots⟩

theorem tiered_block (hs : mmu.Sound) (hv : mmu.Valid p) : (tiered p mmu).block =
    Function.update mmu.block p { mmu.block p with info := { (mmu.block p).info with tier := .l2 } } :=
  (mutate_effect hs hv _).blocks

theorem tiered_block_ne (hs : mmu.Sound) (hv : mmu.Valid p) {q : Int} (hq : q ≠ p) :
    (tiered p mmu).block q = mmu.block q := by
  rw [tiered_block hs hv, Function.update_of_ne hq]

/-- What happens to another block happens to it with the tier put right, too. -/
theorem tiered_effect {v : BlockView} {q : Int} {n e : Nat} (hs : mmu.Sound) (hv : mmu.Valid p) (hq : q ≠ p)
    (he : Effect mmu mmu' (Function.update mmu.block q v) n e) :
    Effect (tiered p mmu) (tiered p mmu') (Function.update (tiered p mmu).block q v) n e := by
  have h1 := he.mutateMeta hv (fun m => { m with tier := .l2 })
  rw [Function.update_of_ne hq.symm, Function.update_comm hq, ← tiered_block hs hv] at h1
  exact ⟨h1.sound, ⟨h1.routing.config, h1.routing.allocator, h1.routing.contexts, h1.routing.limit,
    h1.routing.replies⟩, h1.blocks, h1.residentCount, h1.epoch⟩

theorem tiered_same {n e : Nat} (hs : mmu.Sound) (hv : mmu.Valid p) (he : Effect mmu mmu' mmu.block n e) :
    Effect (tiered p mmu) (tiered p mmu') (tiered p mmu).block n e := by
  have h1 := he.mutateMeta hv (fun m => { m with tier := .l2 })
  rw [tiered_block hs hv]
  exact ⟨h1.sound, ⟨h1.routing.config, h1.routing.allocator, h1.routing.contexts, h1.routing.limit,
    h1.routing.replies⟩, h1.blocks, h1.residentCount, h1.epoch⟩

/-- The eviction does not look at the tier of the block it makes room for. -/
theorem evictForRoom_tiered (h : (tiered p mmu).Coherent live) (hp : live p) {r : Except MmuError Unit}
    (he : evictForRoom mmu p = (r, mmu')) :
    Quiet live (tiered p mmu) (tiered p mmu') ∧ (tiered p mmu').block p = (tiered p mmu).block p ∧
      (r = .ok () ∧ mmu'.residentCount < mmu'.residentLimit ∨ r = .error .outOfMemory) := by
  have hs := sound_of_tiered h.sound
  have hv : mmu.Valid p := h.valid p hp
  have hlimit : mmu.residentCount ≤ mmu.residentLimit := h.limit
  have hpos := hs.limit_pos
  rw [evictForRoom, evictionLoop] at he
  split at he
  next hroom =>
    cases he
    exact ⟨h.quiet_refl, rfl, .inl ⟨rfl, hroom⟩⟩
  next hfull =>
    dsimp only at he
    split at he
    next =>
      cases he
      exact ⟨h.quiet_refl, rfl, .inr rfl⟩
    next hneg =>
      have hvictim := pickEvictionCandidate_nonneg hneg
      have hvv := hs.meta_inRange.mp hvictim.valid
      have hblock := tiered_block_ne hs hv hvictim.other
      obtain ⟨r1, mid, hm⟩ : ∃ r1 mid, moveBlockToL2 mmu (pickEvictionCandidate mmu p) = (r1, mid) := ⟨_, _, rfl⟩
      rw [hm] at he
      cases r1 with
      | error e =>
        cases he
        have heff := tiered_same hs hv (moveBlockToL2_error hs hm)
        refine ⟨h.quiet_same heff, by rw [heff.blocks], .inr ?_⟩
        exact congrArg Except.error (moveBlockToL2_status hs hvv hvictim.allocated hm)
      | ok u =>
        obtain ⟨ptr, heff⟩ := moveBlockToL2_ok hs hvv hvictim.resident hm
        have ht := tiered_effect hs hv hvictim.other heff
        have hroom : mid.residentCount < mid.residentLimit := by
          have := heff.residentCount
          have := heff.routing.limit
          omega
        obtain ⟨k, hk⟩ : ∃ k, mmu.residentCount = k + 1 := ⟨mmu.residentCount - 1, by omega⟩
        dsimp only at he
        rw [hk, evictionLoop, if_pos hroom] at he
        cases he
        have hr : ((tiered p mmu).block (pickEvictionCandidate mmu p)).info.residentInL1 = true :=
          (congrArg (fun v => v.info.residentInL1) hblock).trans hvictim.resident
        have hpin : ((tiered p mmu).block (pickEvictionCandidate mmu p)).info.pinCount = 0 :=
          (congrArg (fun v => v.info.pinCount) hblock).trans hvictim.unpinned
        have hlive := h.live_of_resident hr
        have hcount : 0 < mmu.residentCount := h.count_pos hr
        rw [← hblock] at ht
        refine ⟨?_, ?_, .inl ⟨rfl, hroom⟩⟩
        · refine h.quiet_update hlive ht (BlockView.demoted_ok (h.ok hlive) hpin ptr) (BlockView.demoted_bytes hr ptr)
            rfl (fun hne => by omega) ?_ ?_
          · simp only [weight, hr, if_true, BlockView.demoted, Bool.false_eq_true, if_false]
            show mmu.residentCount - 1 + 1 = mmu.residentCount + 0
            omega
          · show mmu.residentCount - 1 ≤ mmu.residentLimit
            omega
        · rw [ht.blocks, Function.update_of_ne hvictim.other.symm]

/-- Nor does the scan, as it stops at blocks without references only. -/
theorem reclaimUnused_tiered (h : (tiered p mmu).Settled) (hp : mmu.Live p) :
    reclaimUnusedResidentBlocks mmu = mmu := by
  have hs := sound_of_tiered h.coherent.sound
  have hv : mmu.Valid p := h.coherent.valid p hp
  have hself : ∀ q, reclaimBlock mmu q = mmu := by
    intro q
    unfold reclaimBlock
    split
    next hzero =>
      have hdead : ¬(tiered p mmu).Live q := by
        intro hlive
        have := h.allocator.refCount_pos.mpr hlive
        have hsame : (tiered p mmu).l1Allocator.refCount q = mmu.l1Allocator.refCount q := rfl
        omega
      have hne : q ≠ p := fun he => hdead (he ▸ hp)
      apply forgetBlock_self
      rw [← tiered_block_ne hs hv hne]
      exact h.coherent.unused hdead
    next => rfl
  unfold reclaimUnusedResidentBlocks
  induction scanIds mmu with
  | nil => rfl
  | cons q rest ih =>
    rw [List.foldl_cons, hself]
    exact ih

/-- A block outside L1 is brought in and its tier with it, or stays out with all else as it should be. -/
theorem ensureResidentInL1_tiered (h : (tiered p mmu).Settled) (hp : mmu.Live p)
    (hr : (mmu.block p).info.residentInL1 = false) {r : Except MmuError Unit}
    (he : ensureResidentInL1 mmu p = (r, mmu')) :
    (r = .ok () ∧ Quiet mmu.Live (tiered p mmu) mmu' ∧ (mmu'.block p).info.residentInL1 = true) ∨
      (r = .error .outOfMemory ∧ Quiet mmu.Live (tiered p mmu) (tiered p mmu')) := by
  have hcoh : (tiered p mmu).Coherent mmu.Live := h.coherent
  have hs := sound_of_tiered hcoh.sound
  have hv : mmu.Valid p := hcoh.valid p hp
  have hblock := tiered_block hs hv
  have hself : ((tiered p mmu).block p).info.residentInL1 = false := by
    rw [hblock, Function.update_self]
    exact hr
  have halloc : (mmu.block p).info.allocated = true := by
    have hok := (hcoh.ok hp).allocated.mpr trivial
    rw [hblock, Function.update_self] at hok
    exact hok
  have hget : mmu.blockDirectory.get p = some (mmu.block p).info := BlockDirectory.get_eq_some (hs.meta_inRange.mpr hv)
  unfold ensureResidentInL1 at he
  rw [if_neg (not_not.mpr (hs.refs_inRange.mpr hv)), reclaimUnused_tiered h hp] at he
  dsimp only at he
  rw [hget] at he
  dsimp only at he
  rw [halloc, hr] at he
  simp only [Bool.false_eq_true, Bool.true_eq_false, if_false] at he
  obtain ⟨r1, mid, hroom⟩ : ∃ r1 mid, evictForRoom mmu p = (r1, mid) := ⟨_, _, rfl⟩
  obtain ⟨hq, hkept, hcase⟩ := evictForRoom_tiered hcoh hp hroom
  rw [hroom] at he
  rcases hcase with ⟨rfl, hlt⟩ | rfl
  · have hsm := sound_of_tiered hq.coherent.sound
    have hvm : mid.Valid p := (hq.routing.valid p).mpr hv
    have hroomFor : RoomFor mid .l1 p := hq.coherent.roomFor_below hlt .l1
    dsimp only at he
    cases r with
    | error e =>
      right
      have heff := tiered_same hsm hvm (promoteToL1_error hsm hroomFor he)
      exact ⟨congrArg Except.error (promoteToL1_status hsm hvm he), hq.trans (hq.coherent.quiet_same heff)⟩
    | ok u =>
      left
      obtain ⟨ptr, heff⟩ := promoteToL1_ok hsm hvm hroomFor he
      have hmid := tiered_block hsm hvm
      have hout : ((tiered p mid).block p).info.residentInL1 = false := by
        rw [hkept]
        exact hself
      have hstep : Effect (tiered p mid) mmu' (Function.update (tiered p mid).block p
          (((tiered p mid).block p).promoted (tiered p mid).zeroPage p ptr (nextEpoch mid.epoch)))
          (mid.residentCount + 1) (nextEpoch mid.epoch) := by
        refine ⟨heff.sound, ⟨heff.routing.config, heff.routing.allocator, heff.routing.contexts, heff.routing.limit,
          heff.routing.replies⟩, ?_, heff.residentCount, heff.epoch⟩
        rw [heff.blocks, hmid, Function.update_idem, Function.update_self]
        rfl
      have hqm : Quiet mmu.Live (tiered p mid) mmu' := by
        refine hq.coherent.quiet_update hp hstep (BlockView.promoted_ok (hq.coherent.ok hp) ptr _)
          (BlockView.promoted_bytes hout ptr _) rfl ?_ ?_ hlt
        · intro hpin
          have hin := (hq.coherent.ok hp).pinned_resident hpin
          rw [hout] at hin
          cases hin
        · simp only [weight, hout, BlockView.promoted, Bool.false_eq_true, if_false, if_true]
          rfl
      refine ⟨rfl, hq.trans hqm, ?_⟩
      rw [heff.blocks, Function.update_self]
      rfl
  · cases he
    exact .inr ⟨rfl, hq⟩

/-- A block outside L1 needs only its tier put right to be in L2. -/
theorem moveBlockToL2_tiered (h : (tiered p mmu).Settled) (hp : mmu.Live p)
    (hr : (mmu.block p).info.residentInL1 = false) : moveBlockToL2 mmu p = (.ok (), tiered p mmu) := by
  have hs := sound_of_tiered h.coherent.sound
  have hv : mmu.Valid p := h.coherent.valid p hp
  have hok := h.coherent.ok hp
  rw [tiered_block hs hv, Function.update_self] at hok
  have halloc : (mmu.block p).info.allocated = true := hok.allocated.mpr trivial
  have hpage : mmu.page .l1 p = none := by
    cases hl1 : mmu.page .l1 p with
    | none => rfl
    | some pg =>
      have hin : (mmu.block p).info.residentInL1 = true := hok.l1_resident (by
        show (mmu.page .l1 p).isSome
        rw [hl1]
        rfl)
      rw [hr] at hin
      cases hin
  have hget : mmu.blockDirectory.get p = some (mmu.block p).info := BlockDirectory.get_eq_some (hs.meta_inRange.mpr hv)
  unfold moveBlockToL2
  rw [if_neg (not_not.mpr (hs.refs_inRange.mpr hv)), hget]
  dsimp only
  rw [halloc, hr, releasePage_self hpage]
  rfl

/-- The records of a block that was placed. -/
structure OnTier (mmu : MmuRuntime) (p : Int) (wanted : MmuTier) : Prop where
  found : mmuTestGetBlockMetadata mmu p = .ok (mmu.block p).info
  allocated : (mmu.block p).info.allocated = true
  tier : (mmu.block p).info.tier = wanted
  resident : (mmu.block p).info.residentInL1 = true ↔ wanted = .l1

/-- Why a block could not be placed. -/
def placeFault : MmuTier → MmuError
  | .l0 => .invalidArgument
  | .l1 => .outOfMemory
  | .l2 => .outOfMemory

theorem onTier_of_settled (h : mmu.Settled) (hp : mmu.Live p) (hr : (mmu.block p).info.residentInL1 = true) :
    OnTier mmu p .l1 := by
  have hv := h.coherent.sound.meta_inRange.mpr (h.valid hp)
  have htier := (h.coherent.ok hp).tier trivial
  rw [hr, if_pos rfl] at htier
  refine ⟨?_, h.allocated hp, htier, iff_of_true hr rfl⟩
  unfold mmuTestGetBlockMetadata
  rw [if_neg (not_lt.mpr hv.1), h.get_meta hp]

theorem onTier_of_outside (h : mmu.Settled) (hp : mmu.Live p) (hr : (mmu.block p).info.residentInL1 = false) :
    OnTier mmu p .l2 := by
  have hv := h.coherent.sound.meta_inRange.mpr (h.valid hp)
  have htier := (h.coherent.ok hp).tier trivial
  rw [hr, if_neg Bool.false_ne_true] at htier
  refine ⟨?_, h.allocated hp, htier, iff_of_false ?_ (by simp)⟩
  · unfold mmuTestGetBlockMetadata
    rw [if_neg (not_lt.mpr hv.1), h.get_meta hp]
  · rw [hr]
    exact Bool.false_ne_true

/-- A block outside L1 whose tier is wrong at most. -/
theorem placeBlock_fresh (h : (tiered p mmu).Settled) (hp : mmu.Live p)
    (hr : (mmu.block p).info.residentInL1 = false) {tier : MmuTier} {r : Except MmuError Unit}
    (he : placeBlock mmu p tier = (r, mmu')) :
    (r = .ok () ∧ Quiet mmu.Live (tiered p mmu) mmu' ∧ OnTier mmu' p tier) ∨
      (r = .error (placeFault tier) ∧ Quiet mmu.Live (tiered p mmu) (tiered p mmu')) := by
  have hs := sound_of_tiered h.coherent.sound
  have hv : mmu.Valid p := h.coherent.valid p hp
  cases tier with
  | l0 =>
    cases he
    exact .inr ⟨rfl, h.coherent.quiet_refl⟩
  | l1 =>
    rcases ensureResidentInL1_tiered h hp hr he with ⟨rfl, hq, hin⟩ | ⟨rfl, hq⟩
    · have hp' : mmu'.Live p := (hq.routing.live p).mpr hp
      exact .inl ⟨rfl, hq, onTier_of_settled (hq.settled h) hp' hin⟩
    · exact .inr ⟨rfl, hq⟩
  | l2 =>
    have hout : ((tiered p mmu).block p).info.residentInL1 = false := by
      rw [tiered_block hs hv, Function.update_self]
      exact hr
    cases (moveBlockToL2_tiered h hp hr).symm.trans he
    exact .inl ⟨rfl, h.coherent.quiet_refl, onTier_of_outside h hp hout⟩

theorem tiered_self (h : mmu.Settled) (hp : mmu.Live p) (hr : (mmu.block p).info.residentInL1 = false) :
    tiered p mmu = mmu := by
  have htier := (h.coherent.ok hp).tier trivial
  rw [hr, if_neg Bool.false_ne_true] at htier
  apply mutate_self
  have hinfo : mmu.blockDirectory.metas.entry p = (mmu.block p).info := rfl
  rw [hinfo, ← htier]

/-- A block in use stays where it is or goes where it is wanted; it leaves L1 only if nobody has it mapped. -/
theorem placeBlock_settled (h : mmu.Settled) (hp : mmu.Live p) {tier : MmuTier}
    (hpin : tier = .l2 → (mmu.block p).info.pinCount = 0) {r : Except MmuError Unit}
    (he : placeBlock mmu p tier = (r, mmu')) :
    Quiet mmu.Live mmu mmu' ∧ ((r = .ok () ∧ OnTier mmu' p tier) ∨ r = .error (placeFault tier)) := by
  cases tier with
  | l0 =>
    cases he
    exact ⟨h.coherent.quiet_refl, .inr rfl⟩
  | l1 =>
    have he' : ensureResidentInL1 mmu p = (r, mmu') := he
    cases r with
    | ok u =>
      obtain ⟨hq, hin, _⟩ := ensureResidentInL1_ok h hp he'
      have hp' : mmu'.Live p := (hq.routing.live p).mpr hp
      exact ⟨hq, .inl ⟨rfl, onTier_of_settled (hq.settled h) hp' hin⟩⟩
    | error e =>
      exact ⟨(ensureResidentInL1_error h hp he').1, .inr (congrArg Except.error (ensureResidentInL1_status h hp he'))⟩
  | l2 =>
    have he' : moveBlockToL2 mmu p = (r, mmu') := he
    have hv := h.valid hp
    cases hr : (mmu.block p).info.residentInL1 with
    | false =>
      have hself := tiered_self h hp hr
      have hmove := moveBlockToL2_tiered (hself.symm ▸ h) hp hr
      rw [hself] at hmove
      cases hmove.symm.trans he'
      exact ⟨h.coherent.quiet_refl, .inl ⟨rfl, onTier_of_outside h hp hr⟩⟩
    | true =>
      cases r with
      | ok u =>
        obtain ⟨ptr, hq, _, hblock⟩ := h.coherent.evict hp hr (hpin rfl) he'
        have hp' : mmu'.Live p := (hq.routing.live p).mpr hp
        refine ⟨hq, .inl ⟨rfl, onTier_of_outside (hq.settled h) hp' ?_⟩⟩
        rw [hblock, Function.update_self]
        rfl
      | error e =>
        have hstatus := moveBlockToL2_status h.coherent.sound hv (h.allocated hp) he'
        exact ⟨(h.coherent.evict_error he').1, .inr (congrArg Except.error hstatus)⟩

end Placed

end DsfMmu
