import DsfMmu.Mapping
import DsfMmu.Routing

namespace DsfMmu

open MmuRuntime BlockManager Context

namespace MmuRuntime

/-- What no call ever changes. -/
structure SameSetup (mmu mmu' : MmuRuntime) : Prop where
  config : mmu'.config = mmu.config
  limit : mmu'.residentLimit = mmu.residentLimit
  replies : mmu'.host.reply = mmu.host.reply

theorem SameSetup.refl (mmu : MmuRuntime) : SameSetup mmu mmu := ⟨rfl, rfl, rfl⟩

theorem SameSetup.trans {a b c : MmuRuntime} (h : SameSetup a b) (h' : SameSetup b c) : SameSetup a c :=
  ⟨h'.config.trans h.config, h'.limit.trans h.limit, h'.replies.trans h.replies⟩

theorem SameRouting.setup {mmu mmu' : MmuRuntime} (h : SameRouting mmu mmu') : SameSetup mmu mmu' :=
  ⟨h.config, h.limit, h.replies⟩

theorem SameSetup.zeroPage {mmu mmu' : MmuRuntime} (h : SameSetup mmu mmu') : mmu'.zeroPage = mmu.zeroPage := by
  simp [MmuRuntime.zeroPage, h.config]

theorem SameRouting.routing_eq {mmu mmu' : MmuRuntime} (h : SameRouting mmu mmu') :
    mmu'.routing = mmu.routing := by
  simp [routing, h.allocator, h.contexts]

section WithRouting

variable {mmu : MmuRuntime} {live : Int → Prop} {r : Routing}

theorem withRouting_setup (mmu : MmuRuntime) (r : Routing) : SameSetup mmu (mmu.withRouting r) := ⟨rfl, rfl, rfl⟩

theorem withRouting_block (mmu : MmuRuntime) (r : Routing) : (mmu.withRouting r).block = mmu.block := rfl

theorem Coherent.withRouting (h : mmu.Coherent live)
    (hsize : r.allocator.refCounts.size = mmu.l1Allocator.refCounts.size) :
    (mmu.withRouting r).Coherent live :=
  ⟨h.sound.of_same rfl hsize rfl (fun id => by cases id <;> rfl) rfl rfl, h.valid, h.blocks, h.count, h.limit⟩

/-- New counts with the same blocks in use. -/
theorem Settled.withRouting (h : mmu.Settled) (hok : r.allocator.Ok)
    (hsize : r.allocator.refCounts.size = mmu.l1Allocator.refCounts.size)
    (hlive : ∀ p, 0 < r.allocator.refCounts.entry p ↔ mmu.Live p) : (mmu.withRouting r).Settled :=
  ⟨hok, (h.coherent.withRouting hsize).congr (fun p => (hlive p).symm)⟩

end WithRouting

theorem Settled.findContext {mmu : MmuRuntime} (hnull : mmu.contexts.find? nullHandle = none)
    {ctx : CtxHandle} {c : Context} : findContext mmu ctx = some c ↔ mmu.contexts.find? ctx = some c := by
  unfold DsfMmu.findContext
  split
  next h =>
    rw [h, hnull]
  next => rfl

theorem findContext_find? {mmu : MmuRuntime} {ctx : CtxHandle} {c : Context}
    (h : DsfMmu.findContext mmu ctx = some c) : ctx ≠ nullHandle ∧ mmu.contexts.find? ctx = some c := by
  unfold DsfMmu.findContext at h
  split at h
  next => cases h
  next hne => exact ⟨hne, h⟩

theorem findContext_inserted {mmu mmu' : MmuRuntime} {ctx : CtxHandle} {c : Context} (hne : ctx ≠ nullHandle)
    (hcontexts : mmu'.contexts = mmu.contexts.insert ctx c) : DsfMmu.findContext mmu' ctx = some c := by
  unfold DsfMmu.findContext
  rw [if_neg hne, hcontexts, KeyedMap.find?_insert, if_pos rfl]

theorem setContext_eq (mmu : MmuRuntime) (bm : BlockManager) (ctx : CtxHandle) (c : Context) :
    mmu.setContext bm ctx c = mmu.withRouting ⟨bm, mmu.contexts.insert ctx c⟩ := rfl

theorem setContext_same {mmu : MmuRuntime} {ctx : CtxHandle} {c : Context}
    (h : mmu.contexts.find? ctx = some c) : mmu.setContext mmu.l1Allocator ctx c = mmu := by
  unfold setContext
  rw [KeyedMap.insert_same h]

end MmuRuntime

section Forget

variable {mmu : MmuRuntime} {live : Int → Prop} {p : Int}

/-- One round of the scan: a block in use without references is forgotten. -/
theorem reclaimBlock_coherent (ha : mmu.l1Allocator.Ok) (h : mmu.Coherent live) (hp : mmu.Valid p) :
    (reclaimBlock mmu p).Coherent (fun q => live q ∧ (q = p → mmu.Live q)) ∧
      SameRouting mmu (reclaimBlock mmu p) ∧
      (reclaimBlock mmu p).epoch = mmu.epoch ∧
      ∀ q, live q ∧ (q = p → mmu.Live q) → (reclaimBlock mmu p).block q = mmu.block q := by
  have hv : mmu.l1Allocator.isValid p := h.sound.refs_inRange.mpr hp
  have hcount : mmu.l1Allocator.refCount p = mmu.l1Allocator.refCounts.entry p := if_pos hv
  have hn := ha.nonneg p
  by_cases hl : mmu.Live p
  · have hne : mmu.l1Allocator.refCount p ≠ 0 := by
      have : 0 < mmu.l1Allocator.refCounts.entry p := hl
      omega
    rw [reclaimBlock, if_neg hne]
    refine ⟨h.congr ?_, .refl mmu, rfl, fun _ _ => rfl⟩
    intro q
    refine ⟨fun hq => ⟨hq, ?_⟩, And.left⟩
    intro heq
    subst heq
    exact hl
  · have hz : mmu.l1Allocator.refCount p = 0 := by
      have : ¬0 < mmu.l1Allocator.refCounts.entry p := hl
      omega
    rw [reclaimBlock, if_pos hz]
    have he := forgetBlock_effect h.sound hp
    refine ⟨?_, he.routing, he.epoch, ?_⟩
    · have hlim := h.limit
      apply h.of_update he hp
      · have hnot : ¬(live p ∧ (p = p → mmu.Live p)) := fun hc => hl (hc.2 rfl)
        exact BlockView.unused_ok.congr (iff_false_intro hnot).symm
      · intro q hq
        exact ⟨fun hlq => ⟨hlq, fun he => absurd he hq⟩, And.left⟩
      · have hpos := @Coherent.count_pos _ _ p h
        simp only [weight, BlockView.unused, makeDefaultMeta, Bool.false_eq_true, if_false]
        split
        next hr =>
          have := hpos hr
          omega
        next => omega
      · split <;> omega
    · intro q hq
      have hqp : q ≠ p := by
        intro heq
        subst heq
        exact hl (hq.2 rfl)
      rw [he.blocks, Function.update_of_ne hqp]

/-- Any part of the scan. -/
theorem reclaimAll_coherent (ids : List Int) (ha : mmu.l1Allocator.Ok) (h : mmu.Coherent live)
    (hids : ∀ q ∈ ids, mmu.Valid q) :
    (ids.foldl reclaimBlock mmu).Coherent (fun q => live q ∧ (q ∈ ids → mmu.Live q)) ∧
      SameRouting mmu (ids.foldl reclaimBlock mmu) ∧
      (ids.foldl reclaimBlock mmu).epoch = mmu.epoch ∧
      ∀ q, live q ∧ (q ∈ ids → mmu.Live q) → (ids.foldl reclaimBlock mmu).block q = mmu.block q := by
  induction ids generalizing mmu live with
  | nil =>
    refine ⟨h.congr ?_, .refl mmu, rfl, fun _ _ => rfl⟩
    simp
  | cons p rest ih =>
    obtain ⟨hc, hr, hepoch, hb⟩ := reclaimBlock_coherent ha h (hids p (by simp))
    have ha' : (reclaimBlock mmu p).l1Allocator.Ok := by
      rw [hr.allocator]
      exact ha
    obtain ⟨hc', hr', hepoch', hb'⟩ := ih ha' hc
      (fun q hq => (hr.valid q).mpr (hids q (List.mem_cons_of_mem _ hq)))
    have hiff : ∀ q, (live q ∧ (q = p → mmu.Live q)) ∧ (q ∈ rest → (reclaimBlock mmu p).Live q) ↔
        live q ∧ (q ∈ p :: rest → mmu.Live q) := by
      intro q
      rw [hr.live]
      simp only [List.mem_cons]
      tauto
    rw [List.foldl_cons]
    refine ⟨hc'.congr hiff, hr.trans hr', hepoch'.trans hepoch, ?_⟩
    intro q hq
    have hq' := (hiff q).mpr hq
    rw [hb' q hq', hb q hq'.1]

/-- What releases leave: the blocks that lost their last reference are unused again. -/
structure Forgot (mmu mmu' : MmuRuntime) (r : Routing) : Prop where
  settled : mmu'.Settled
  setup : SameSetup mmu mmu'
  routing : mmu'.routing = r
  epoch : mmu'.epoch = mmu.epoch
  blocks : ∀ q, mmu'.Live q → mmu'.block q = mmu.block q

theorem Coherent.forgot {mmu' : MmuRuntime} {r : Routing} (hok : r.allocator.Ok) (h : mmu'.Coherent live)
    (hr : SameRouting (mmu.withRouting r) mmu') (hepoch : mmu'.epoch = mmu.epoch)
    (hb : ∀ q, live q → mmu'.block q = mmu.block q) (hlive : ∀ q, live q ↔ (mmu.withRouting r).Live q) :
    Forgot mmu mmu' r := by
  refine ⟨⟨?_, ?_⟩, ⟨hr.config, hr.limit, hr.replies⟩, hr.routing_eq, hepoch, ?_⟩
  · rw [hr.allocator]
    exact hok
  · exact h.congr (fun q => (hlive q).trans (hr.live q).symm)
  · intro q hq
    exact hb q ((hlive q).mpr ((hr.live q).mp hq))

/-- The scan after references were dropped. -/
theorem reclaim_forgot (h : mmu.Settled) {r : Routing} (hok : r.allocator.Ok)
    (hsize : r.allocator.refCounts.size = mmu.l1Allocator.refCounts.size)
    (hsub : ∀ q, 0 < r.allocator.refCounts.entry q → mmu.Live q) :
    Forgot mmu (reclaimUnusedResidentBlocks (mmu.withRouting r)) r := by
  have hc := h.coherent.withRouting hsize
  obtain ⟨hc', hr, hepoch, hb⟩ := reclaimAll_coherent (scanIds (mmu.withRouting r)) hok hc
    (fun q hq => mem_scanIds.mp hq)
  have hlive : ∀ q, mmu.Live q ∧ (q ∈ scanIds (mmu.withRouting r) → (mmu.withRouting r).Live q) ↔
      (mmu.withRouting r).Live q := by
    intro q
    constructor
    · intro hboth
      obtain ⟨hq, himp⟩ := hboth
      exact himp (mem_scanIds.mpr (h.valid hq))
    · intro hq
      exact ⟨hsub q hq, fun _ => hq⟩
  exact Coherent.forgot hok hc' hr hepoch hb hlive

/-- Only one block can have lost its last reference. -/
theorem reclaimBlock_forgot (h : mmu.Settled) {r : Routing} (hok : r.allocator.Ok)
    (hsize : r.allocator.refCounts.size = mmu.l1Allocator.refCounts.size)
    (hsub : ∀ q, 0 < r.allocator.refCounts.entry q → mmu.Live q) (hp : mmu.Live p)
    (hother : ∀ q ≠ p, mmu.Live q → 0 < r.allocator.refCounts.entry q) :
    Forgot mmu (reclaimBlock (mmu.withRouting r) p) r := by
  have hc := h.coherent.withRouting hsize
  obtain ⟨hc', hr, hepoch, hb⟩ := reclaimBlock_coherent hok hc (h.valid hp)
  have hlive : ∀ q, mmu.Live q ∧ (q = p → (mmu.withRouting r).Live q) ↔ (mmu.withRouting r).Live q := by
    intro q
    constructor
    · intro hboth
      obtain ⟨hq, himp⟩ := hboth
      by_cases hqp : q = p
      · exact himp hqp
      · exact hother q hqp hq
    · intro hq
      exact ⟨hsub q hq, fun _ => hq⟩
  exact Coherent.forgot hok hc' hr hepoch hb hlive

theorem mmuDestroyContext_forgot (h : mmu.Settled) {ctx : CtxHandle} {c : Context}
    (hc : findContext mmu ctx = some c) :
    Forgot mmu (mmuDestroyContext mmu ctx)
      ⟨mmu.l1Allocator.releaseAll (namedBlocks c.pageTable), mmu.contexts.erase ctx⟩ := by
  have heq : mmuDestroyContext mmu ctx = reclaimUnusedResidentBlocks (mmu.withRouting
      ⟨mmu.l1Allocator.releaseAll (namedBlocks c.pageTable), mmu.contexts.erase ctx⟩) := by
    unfold mmuDestroyContext
    rw [hc]
    rfl
  rw [heq]
  apply reclaim_forgot h (h.allocator.releaseAll _) (releaseAll_size _ _)
  intro q hq
  have hq' : 0 < (mmu.l1Allocator.releaseAll (namedBlocks c.pageTable)).refCounts.entry q := hq
  rw [h.allocator.releaseAll_entry] at hq'
  show 0 < mmu.l1Allocator.refCounts.entry q
  omega

theorem destroy_entry (h : mmu.Settled) {ctx : CtxHandle} {c : Context} (hc : findContext mmu ctx = some c)
    (hp : p ≠ kUnallocatedBlock) : (mmuDestroyContext mmu ctx).l1Allocator.refCounts.entry p =
      max 0 (mmu.l1Allocator.refCounts.entry p - c.pageTable.names p) := by
  have halloc : (mmuDestroyContext mmu ctx).l1Allocator = mmu.l1Allocator.releaseAll (namedBlocks c.pageTable) :=
    congrArg Routing.allocator (mmuDestroyContext_forgot h hc).routing
  rw [halloc, h.allocator.releaseAll_entry, namedBlocks_count _ hp]

theorem destroy_find (h : mmu.Settled) {ctx : CtxHandle} {c : Context} (hc : findContext mmu ctx = some c)
    (k : CtxHandle) :
    (mmuDestroyContext mmu ctx).contexts.find? k = if k = ctx then none else mmu.contexts.find? k := by
  have hcontexts : (mmuDestroyContext mmu ctx).contexts = mmu.contexts.erase ctx :=
    congrArg Routing.contexts (mmuDestroyContext_forgot h hc).routing
  rw [hcontexts, KeyedMap.find?_erase]

theorem mmuDestroyContext_none {ctx : CtxHandle} (hc : findContext mmu ctx = none) :
    mmuDestroyContext mmu ctx = mmu := by
  unfold mmuDestroyContext
  rw [hc]

theorem mmuReleaseLogicalBlock_cases {mmu' : MmuRuntime} (h : mmu.Settled) {ctx : CtxHandle} {lb : UInt32}
    {r : Except MmuError Unit} (hr : mmuReleaseLogicalBlock mmu ctx lb = (r, mmu')) :
    ((∃ e, r = .error e) ∧ mmu' = mmu) ∨
    ∃ c lvid b, findContext mmu ctx = some c ∧ u32ToInt lb = some lvid ∧
      c.Names mmu.l1Allocator lvid b ∧ r = .ok () ∧
      Forgot mmu mmu' ⟨(mmu.l1Allocator.release b).2,
        mmu.contexts.insert ctx (c.remapped lvid kUnallocatedBlock)⟩ := by
  unfold mmuReleaseLogicalBlock at hr
  split at hr
  next => cases hr; exact .inl ⟨⟨_, rfl⟩, rfl⟩
  next c hc =>
    split at hr
    next => cases hr; exact .inl ⟨⟨_, rfl⟩, rfl⟩
    next lvid hlvid =>
      split at hr
      next => cases hr; exact .inl ⟨⟨_, rfl⟩, rfl⟩
      next route hroute =>
        obtain ⟨hnames, -⟩ := resolveRouting_ok h c hroute
        rcases releaseLogicalBlock_cases h.allocator c lvid with ⟨e, _, hno⟩ | ⟨b, hb, heq⟩
        · exact absurd hnames (hno _)
        · rw [heq] at hr
          obtain ⟨rfl, rfl⟩ := Prod.mk.inj hr
          have hsame : route.physicalBlockId = b :=
            Option.some.inj (hnames.entry.symm.trans hb.entry)
          rw [hsame, setContext_eq]
          refine .inr ⟨c, lvid, b, hc, hlvid, hb, rfl, ?_⟩
          apply reclaimBlock_forgot h (h.allocator.release b) (release_size _ _) _ hb.live
          · intro q hqb hq
            show 0 < (mmu.l1Allocator.release b).2.refCounts.entry q
            rw [h.allocator.release_entry, if_neg (fun hc => hqb hc.1)]
            exact hq
          · intro q hq
            have hq' : 0 < (mmu.l1Allocator.release b).2.refCounts.entry q := hq
            rw [h.allocator.release_entry] at hq'
            show 0 < mmu.l1Allocator.refCounts.entry q
            split at hq'
            next hc => exact hc.2
            next => exact hq'

theorem Settled.forgot_refl (h : mmu.Settled) : Forgot mmu mmu mmu.routing :=
  ⟨h, .refl mmu, rfl, rfl, fun _ _ => rfl⟩

/-- Whatever they drop, the two calls leave the blocks still in use alone. -/
theorem mmuDestroyContext_forgets (h : mmu.Settled) (ctx : CtxHandle) :
    ∃ r, Forgot mmu (mmuDestroyContext mmu ctx) r := by
  cases hc : findContext mmu ctx with
  | none =>
    rw [mmuDestroyContext_none hc]
    exact ⟨_, Settled.forgot_refl h⟩
  | some c => exact ⟨_, mmuDestroyContext_forgot h hc⟩

theorem mmuReleaseLogicalBlock_forgets (h : mmu.Settled) (ctx : CtxHandle) (lb : UInt32) :
    ∃ r, Forgot mmu (mmuReleaseLogicalBlock mmu ctx lb).2 r := by
  obtain ⟨r, mmu', hr⟩ : ∃ r m, mmuReleaseLogicalBlock mmu ctx lb = (r, m) := ⟨_, _, rfl⟩
  rw [hr]
  rcases mmuReleaseLogicalBlock_cases h hr with ⟨_, rfl⟩ | ⟨_, _, _, _, _, _, _, hf⟩
  · exact ⟨_, Settled.forgot_refl h⟩
  · exact ⟨_, hf⟩

end Forget

end DsfMmu
