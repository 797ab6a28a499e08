import DsfMmu.Admission
import DsfMmu.EagerRefinement
import DsfMmu.ReferenceCounting

namespace DsfMmu

open MmuRuntime BlockManager Context

/-- The entries of a batch whose blocks others refer to as well: each needs a block of its own. -/
def sharedEntries (mmu : MmuRuntime) (ctx : CtxHandle) (lbs : List UInt32) : Finset UInt32 :=
  lbs.toFinset.filter fun lb => ∃ b ∈ routedBlock mmu ctx lb, 1 < mmuGetRefCount mmu b

/-- The blocks of a batch that the context has to itself. -/
def privateBlocks (mmu : MmuRuntime) (ctx : CtxHandle) (lbs : List UInt32) : Finset Int :=
  (requestedBlocks mmu ctx lbs).filter fun b => mmuGetRefCount mmu b = 1

/-- What must fit in L1 at once for a WRITE batch to go through: a clone counts where its block is shared. -/
def writingSet (mmu : MmuRuntime) (ctx : CtxHandle) (lbs : List UInt32) : Nat :=
  (mmu.pinnedBlocks ∪ privateBlocks mmu ctx lbs).card + (sharedEntries mmu ctx lbs).card

section Private

variable {mmu mmu' : MmuRuntime} {ctx : CtxHandle} {lb flags : UInt32} {p : Int} {c : Context} {lvid : Int}

/-- A write preparation leaves alone what the context has to itself. -/
theorem mmuPrepareBlockForWrite_private (h : mmu.Settled) (hc : findContext mmu ctx = some c)
    (hlvid : u32ToInt lb = some lvid) (hn : c.Names mmu.l1Allocator lvid p)
    (hone : mmu.l1Allocator.refCounts.entry p = 1) : mmuPrepareBlockForWrite mmu ctx lb = (.ok p, mmu) := by
  have hsame : ∀ b, c.Names mmu.l1Allocator lvid b → b = p :=
    fun b hb => Option.some.inj (hb.entry.symm.trans hn.entry)
  obtain ⟨r, mid, hr⟩ : ∃ r mid, mmuPrepareBlockForWrite mmu ctx lb = (r, mid) := ⟨_, _, rfl⟩
  rcases mmuPrepareBlockForWrite_cases h hr with
    ⟨_, _, hno⟩ | ⟨c', lvid', b, hc', hl', hn', _, rfl, rfl⟩ | ⟨c', lvid', b, _, _, _, hc', hl', hn', hshared, _⟩
  · have hshared := (hno c lvid p hc hlvid hn).1
    omega
  · cases Option.some.inj (hc.symm.trans hc')
    cases Option.some.inj (hlvid.symm.trans hl')
    rw [hr, hsame b hn']
  · cases Option.some.inj (hc.symm.trans hc')
    cases Option.some.inj (hlvid.symm.trans hl')
    rw [hsame b hn'] at hshared
    omega

theorem mmuMapLogicalBlock_private (h : mmu.Settled) (hflags : validateMapFlags flags = true)
    (hc : findContext mmu ctx = some c) (hlvid : u32ToInt lb = some lvid) (hn : c.Names mmu.l1Allocator lvid p)
    (hone : hasWrite flags = true → mmu.l1Allocator.refCounts.entry p = 1) :
    mmuMapLogicalBlock mmu ctx lb flags = mapResolved mmu c lvid lb flags := by
  cases hw : hasWrite flags with
  | false => exact mmuMapLogicalBlock_unwritten hflags hw hc hlvid
  | true =>
    rw [mmuMapLogicalBlock_write hflags hw hc hlvid, mmuPrepareBlockForWrite_private h hc hlvid hn (hone hw)]
    dsimp only
    rw [hc]

/-- Once the block is routed a map fails exactly where the block is starved, and for want of memory. -/
theorem mapResolved_outcome (h : mmu.Settled) (hg : ∀ n, mmu.host.reply n = .granted)
    (hn : c.Names mmu.l1Allocator lvid p) (lb flags : UInt32) :
    (Starved mmu p ∧ ∃ mmu', mapResolved mmu c lvid lb flags = (.error .outOfMemory, mmu')) ∨
      (¬Starved mmu p ∧ ∃ d mmu', mapResolved mmu c lvid lb flags = (.ok d, mmu')) := by
  cases hr : (mmu.block p).info.residentInL1 with
  | true =>
    have hsup : mmu.supply mmu.stock .l1 ≠ none := by
      intro hnone
      cases ((supply_granted hg _ _).mp hnone).1
    refine .inr ⟨?_, mapResolved_inside h hn hr hsup lb flags⟩
    intro hst
    have hout := hst.1
    rw [hr] at hout
    cases hout
  | false =>
    have hstock := mapResolved_stock h hn hr lb flags
    by_cases hst : Starved mmu p
    · rw [(promotionSupply_granted h hg hr).mpr hst] at hstock
      obtain ⟨e, m, heq⟩ := hstock
      cases mapResolved_status h hn heq
      exact .inl ⟨hst, m, heq⟩
    · obtain ⟨s, hs⟩ := Option.ne_none_iff_exists'.mp (mt (promotionSupply_granted h hg hr).mp hst)
      rw [hs] at hstock
      exact .inr ⟨hst, hstock⟩

theorem mapPrivate_outcome (h : mmu.Settled) (hg : ∀ n, mmu.host.reply n = .granted)
    (hflags : validateMapFlags flags = true) (hroute : routedBlock mmu ctx lb = some p)
    (hone : hasWrite flags = true → mmu.l1Allocator.refCounts.entry p = 1) :
    (Starved mmu p ∧ ∃ mmu', mmuMapLogicalBlock mmu ctx lb flags = (.error .outOfMemory, mmu')) ∨
      (¬Starved mmu p ∧ ∃ d mmu', mmuMapLogicalBlock mmu ctx lb flags = (.ok d, mmu')) := by
  obtain ⟨c, lvid, hc, hlvid, hn⟩ := (routedBlock_eq_some h).mp hroute
  rw [mmuMapLogicalBlock_private h hflags hc hlvid hn hone]
  exact mapResolved_outcome h hg hn lb flags

/-- What a map that goes through and needs no clone means for the rest of its batch. -/
structure Entered (mmu mmu' : MmuRuntime) (p : Int) : Prop where
  settled : mmu'.Settled
  routing : SameRouting mmu mmu'
  pinned : mmu'.pinnedBlocks = insert p mmu.pinnedBlocks

theorem pinned_insert (h : mmu.Settled) (h' : mmu'.Settled)
    (hpins : ∀ q, (mmu'.block q).info.pinCount =
      if q = p then nextPinCount (mmu.block p).info.pinCount else (mmu.block q).info.pinCount)
    (hroom : (mmu.block p).info.pinCount + 1 < 2 ^ 32) : mmu'.pinnedBlocks = insert p mmu.pinnedBlocks := by
  ext q
  have hq := hpins q
  rw [mem_pinnedBlocks h', Finset.mem_insert, mem_pinnedBlocks h]
  by_cases heq : q = p
  · rw [if_pos heq, nextPinCount_lt hroom] at hq
    simp only [heq, true_or, iff_true]
    rw [← heq]
    omega
  · rw [if_neg heq] at hq
    simp only [heq, false_or, hq]

theorem mapPrivate_entered (h : mmu.Settled) (hflags : validateMapFlags flags = true)
    (hroute : routedBlock mmu ctx lb = some p)
    (hone : hasWrite flags = true → mmu.l1Allocator.refCounts.entry p = 1)
    (hroom : (mmu.block p).info.pinCount + 1 < 2 ^ 32) {d : MappedBlock}
    (hm : mmuMapLogicalBlock mmu ctx lb flags = (.ok d, mmu')) :
    Entered mmu mmu' p ∧ Mapped mmu mmu' p d ∧ d.logicalBlockId = lb ∧ d.mapFlags = flags := by
  obtain ⟨c, lvid, hc, hlvid, hn⟩ := (routedBlock_eq_some h).mp hroute
  rw [mmuMapLogicalBlock_private h hflags hc hlvid hn hone] at hm
  obtain ⟨hn', hmapped, hlb, hmf⟩ := mapResolved_ok h hm
  have hd : d.physicalBlockId = p := Option.some.inj (hn'.entry.symm.trans hn.entry)
  rw [hd] at hmapped
  exact ⟨⟨hmapped.settled, hmapped.routing, pinned_insert h hmapped.settled hmapped.pins hroom⟩, hmapped, hlb, hmf⟩

end Private

section Clone

variable {mmu mmu' : MmuRuntime} {ctx : CtxHandle} {lb flags : UInt32} {b new : Int}

/-- No entry of a table is forgotten by the counts and none is met twice. -/
structure Counted (mmu : MmuRuntime) : Prop where
  covered : mmu.Covered
  once : mmu.routing.Once

theorem Counted.run {allowed : Event → Prop} (h : Counted mmu) (hk : Kept allowed mmu mmu')
    (hallowed : ∀ n, ¬allowed (.blocksExhausted n)) : Counted mmu' := by
  have hrun : mmu'.routing.Ok ∧ mmu'.routing.Covered ∧ mmu'.routing.Once := by
    refine hk.routing.invariant (I := fun r => r.Ok ∧ r.Covered ∧ r.Once)
      ⟨h.covered.routing, h.covered.covered, h.once⟩ ?_
    intro a m r hi hm hstep
    have hplain : ∀ n, m ≠ .blocksExhausted n := fun n he => hallowed n (he ▸ hm)
    exact ⟨hi.1.step hstep, hi.2.1.step hi.1 hstep (fun n he => absurd he (hplain n)),
      Routing.Once.step hi.2.1 hi.2.2 hstep hplain⟩
  exact ⟨⟨hk.settled, hrun.1, hrun.2.1⟩, hrun.2.2⟩

theorem Counted.same (h : Counted mmu) (hs : mmu'.Settled) (hr : SameRouting mmu mmu') : Counted mmu' := by
  have heq := hr.routing_eq
  refine ⟨⟨hs, ?_, ?_⟩, ?_⟩
  · rw [heq]
    exact h.covered.routing
  · rw [heq]
    exact h.covered.covered
  · rw [heq]
    exact h.once

/-- Two entries of one context lead to two blocks. -/
theorem Counted.routed_ne (h : Counted mmu) {l m : UInt32} {p q : Int} (hl : routedBlock mmu ctx l = some p)
    (hm : routedBlock mmu ctx m = some q) (hne : l ≠ m) : p ≠ q := by
  intro heq
  subst heq
  have hs := h.covered.settled
  obtain ⟨hi, hun⟩ := routed_entry hs hl
  obtain ⟨c, hc, hi⟩ := entryAt_eq_some.mp hi
  obtain ⟨c', hc', hj⟩ := entryAt_eq_some.mp (routed_entry hs hm).1
  cases Option.some.inj (hc.symm.trans hc')
  have hidx : l.toNat ≠ m.toNat := fun he => hne (UInt32.toNat_inj.mp he)
  have htwo := two_le_names hi hj hidx
  have hone := h.once ctx c hc p hun
  omega

/-- What a preparation that clones leaves behind. -/
structure Cloned (mmu mid : MmuRuntime) (ctx : CtxHandle) (lb : UInt32) (b new : Int) : Prop where
  counted : Counted mid
  setup : SameSetup mmu mid
  fresh : ¬mmu.Live new
  route : routedBlock mid ctx lb = some new
  alone : mid.l1Allocator.refCounts.entry new = 1
  others : ∀ l ≠ lb, ∀ q, routedBlock mmu ctx l = some q →
    routedBlock mid ctx l = some q ∧ mid.l1Allocator.refCounts.entry q = mmu.l1Allocator.refCounts.entry q
  free : mmuGetFreeBlockCount mid + 1 = mmuGetFreeBlockCount mmu
  pinned : mid.pinnedBlocks = mmu.pinnedBlocks
  residents : ∀ q, (mid.block q).info.residentInL1 = true → mid.block q = mmu.block q
  empty : (mid.block new).info.pinCount = 0

theorem prepare_clones (h : Counted mmu) (hroute : routedBlock mmu ctx lb = some b)
    (hshared : 1 < mmu.l1Allocator.refCounts.entry b) {p : Int}
    (hprep : mmuPrepareBlockForWrite mmu ctx lb = (.ok p, mmu')) : Cloned mmu mmu' ctx lb b p := by
  have hs := h.covered.settled
  obtain ⟨c, lvid, hc, hlvid, hn⟩ := (routedBlock_eq_some hs).mp hroute
  have hcounted : Counted mmu' := by
    have hkept := @perform_kept mmu (fun m => m = .plain) hs (.prepareBlockForWrite ctx lb)
      trivial rfl trivial
    simp only [perform, hprep] at hkept
    exact h.run hkept (fun n he => by cases he)
  obtain ⟨hun, hpins⟩ := prepare_undisplaced hs hprep
  have hpinned : mmu'.pinnedBlocks = mmu.pinnedBlocks := by
    ext q
    rw [mem_pinnedBlocks hun.settled, mem_pinnedBlocks hs, hpins]
  obtain ⟨_, c', lvid', hc', hlvid', hn', hone⟩ := mmuPrepareBlockForWrite_ok hs hprep
  have hself : routedBlock mmu' ctx lb = some p := (routedBlock_eq_some hun.settled).mpr ⟨c', lvid', hc', hlvid', hn'⟩
  rcases mmuPrepareBlockForWrite_cases hs hprep with
    ⟨⟨_, he⟩, _⟩ | ⟨c₁, l₁, b₁, hc₁, hl₁, hn₁, hone₁, _⟩ |
    ⟨c₁, l₁, b₁, new, bm, v, hc₁, hl₁, hn₁, hshared₁, ht, hm, hres⟩
  · cases he
  · cases Option.some.inj (hc.symm.trans hc₁)
    cases Option.some.inj (hlvid.symm.trans hl₁)
    rw [Option.some.inj (hn₁.entry.symm.trans hn.entry)] at hone₁
    omega
  · cases Option.some.inj (hc.symm.trans hc₁)
    cases Option.some.inj (hlvid.symm.trans hl₁)
    cases Option.some.inj (hn₁.entry.symm.trans hn.entry)
    rcases hres with ⟨⟨ptr, rfl⟩, hp⟩ | ⟨_, _, he⟩
    · cases Except.ok.inj hp
      have hdead : mmu.l1Allocator.refCounts.entry p = 0 := (ht.free p (by simp)).2
      have halloc : mmu'.l1Allocator = (bm.release b).2 := congrArg Routing.allocator hm.routing
      have hentry := remap_entry ht hshared
      refine ⟨hcounted, hm.setup, ?_, hself, hone, ?_, ?_, hpinned, ?_, ?_⟩
      · intro hlive
        have hpos : 0 < mmu.l1Allocator.refCounts.entry p := hlive
        omega
      · intro l hl q hq
        refine ⟨hun.routes ctx l q hq (fun _ _ he => hl he.2), ?_⟩
        have hqb : q ≠ b := h.routed_ne hq hroute hl
        have hqp : q ≠ p := ht.ne_new (routed_live hs hq)
        rw [halloc, hentry, if_neg hqp, if_neg hqb]
      · have hbm : bm.refCounts.entry b = mmu.l1Allocator.refCounts.entry b := by
          rw [ht.entry, if_neg (ht.not_mem (routed_live hs hroute))]
        have hlist : (bm.release b).2.freeList = bm.freeList := by
          rw [ht.ok.release_eq, hbm, if_pos (by omega)]
          dsimp only
          rw [if_neg (by omega)]
        have hlen := ht.length
        show mmu'.l1Allocator.freeList.length + 1 = mmu.l1Allocator.freeList.length
        rw [halloc, hlist]
        exact hlen
      · intro q hq
        by_cases hqp : q = p
        · rw [hqp, hm.blocks, Function.update_self] at hq
          cases hq
        · rw [hm.blocks, Function.update_of_ne hqp]
      · rw [hm.blocks, Function.update_self]
        rfl
    · cases he

/-- With provisions for it, a preparation fails only where no block is left to clone into. -/
theorem prepare_shared (hs : mmu.Settled) (hl2 : mmu.config.l2BlockCount = mmu.config.l1BlockCount)
    (hg : ∀ n, mmu.host.reply n = .granted) (hroute : routedBlock mmu ctx lb = some b)
    (hshared : 1 < mmu.l1Allocator.refCounts.entry b) :
    (mmuGetFreeBlockCount mmu = 0 ∧ ∃ mid, mmuPrepareBlockForWrite mmu ctx lb = (.error .outOfMemory, mid)) ∨
      (0 < mmuGetFreeBlockCount mmu ∧ ∃ new mid, mmuPrepareBlockForWrite mmu ctx lb = (.ok new, mid)) := by
  obtain ⟨c, lvid, hc, hlvid, hn⟩ := (routedBlock_eq_some hs).mp hroute
  by_cases hfree : mmu.l1Allocator.freeList = []
  · refine .inl ⟨congrArg List.length hfree, mmu, ?_⟩
    have hcount := hs.allocator.refCount_pos.mpr hn.live
    have hentry : mmu.l1Allocator.refCount b = mmu.l1Allocator.refCounts.entry b :=
      refCount_valid (hs.allocator.valid_of_pos hn.live)
    have hprep : c.prepareBlockForWrite mmu.l1Allocator lvid = (.error .outOfMemory, mmu.l1Allocator, c) := by
      unfold prepareBlockForWrite
      rw [hn.entry]
      dsimp only
      rw [if_neg hn.block, if_neg (by omega), if_neg (by omega), allocate_none.mpr hfree]
    unfold mmuPrepareBlockForWrite
    rw [hc]
    dsimp only
    rw [hlvid]
    dsimp only
    rw [resolveRouting_names hs hn]
    dsimp only
    rw [hprep]
    dsimp only
    rw [setContext_same (findContext_find? hc).2]
  · refine .inr ⟨List.length_pos_of_ne_nil hfree, ?_⟩
    have hstock := mmuPrepareBlockForWrite_stock hs hc hlvid hn hshared hfree
    cases hsup : mmu.supply mmu.stock .l2 with
    | none =>
      have hcap := ((supply_granted hg _ _).mp hsup).2
      have hlt := committed_l2_lt hs hfree
      have hcommitted : mmu.stock.committed = (mmu.pool .l2).committedPages := rfl
      omega
    | some s =>
      rw [hsup] at hstock
      obtain ⟨new, mid, hprep, _⟩ := hstock
      exact ⟨new, mid, hprep⟩

/-- A WRITE map of a shared block is the map of its clone. -/
theorem mmuMapLogicalBlock_cloned (h : Counted mmu) (hflags : validateMapFlags flags = true)
    (hw : hasWrite flags = true) (hroute : routedBlock mmu ctx lb = some b) (hcl : Cloned mmu mmu' ctx lb b new)
    (hprep : mmuPrepareBlockForWrite mmu ctx lb = (.ok new, mmu')) :
    mmuMapLogicalBlock mmu ctx lb flags = mmuMapLogicalBlock mmu' ctx lb flags := by
  have hs' := hcl.counted.covered.settled
  obtain ⟨c, lvid, hc, hlvid, _⟩ := (routedBlock_eq_some h.covered.settled).mp hroute
  obtain ⟨c', lvid', hc', hlvid', hn'⟩ := (routedBlock_eq_some hs').mp hcl.route
  cases Option.some.inj (hlvid.symm.trans hlvid')
  rw [mmuMapLogicalBlock_write hflags hw hc hlvid, hprep,
    mmuMapLogicalBlock_private hs' hflags hc' hlvid hn' (fun _ => hcl.alone)]
  dsimp only
  rw [hc']

end Clone

/-- A WRITE batch has a block for every clone and room for all it maps. -/
def WriteFits (mmu : MmuRuntime) (ctx : CtxHandle) (lbs : List UInt32) : Prop :=
  (sharedEntries mmu ctx lbs).card ≤ mmuGetFreeBlockCount mmu ∧
    writingSet mmu ctx lbs ≤ mmu.config.l1ResidentBlockLimit

instance (mmu : MmuRuntime) (ctx : CtxHandle) (lbs : List UInt32) : Decidable (WriteFits mmu ctx lbs) :=
  inferInstanceAs (Decidable ((sharedEntries mmu ctx lbs).card ≤ mmuGetFreeBlockCount mmu ∧
    writingSet mmu ctx lbs ≤ mmu.config.l1ResidentBlockLimit))

section Batch

variable {mmu mmu' : MmuRuntime} {ctx : CtxHandle} {lb flags : UInt32} {b : Int} {rest : List UInt32}

theorem mem_privateBlocks {lbs : List UInt32} {q : Int} : q ∈ privateBlocks mmu ctx lbs ↔
    (∃ l ∈ lbs, routedBlock mmu ctx l = some q) ∧ mmuGetRefCount mmu q = 1 := by
  unfold privateBlocks requestedBlocks
  rw [Finset.mem_filter, List.mem_toFinset, List.mem_filterMap]

theorem mem_sharedEntries {lbs : List UInt32} {l : UInt32} : l ∈ sharedEntries mmu ctx lbs ↔
    l ∈ lbs ∧ ∃ q ∈ routedBlock mmu ctx l, 1 < mmuGetRefCount mmu q := by
  unfold sharedEntries
  rw [Finset.mem_filter, List.mem_toFinset]

/-- The rest of the batch is decided by what the first map leaves. -/
structure Leaves (mmu mmu' : MmuRuntime) (ctx : CtxHandle) (lb : UInt32) (rest : List UInt32) : Prop where
  counted : Counted mmu'
  setup : SameSetup mmu mmu'
  routes : ∀ l ∈ rest, ∃ q, routedBlock mmu' ctx l = some q
  fits : WriteFits mmu' ctx rest ↔ WriteFits mmu ctx (lb :: rest)

theorem privateTurn_leaves (h : Counted mmu) (hroute : routedBlock mmu ctx lb = some b)
    (hone : mmu.l1Allocator.refCounts.entry b = 1) (hent : Entered mmu mmu' b)
    (hrest : ∀ l ∈ rest, ∃ q, routedBlock mmu ctx l = some q) : Leaves mmu mmu' ctx lb rest := by
  have hs := h.covered.settled
  have hsame : ∀ l, routedBlock mmu' ctx l = routedBlock mmu ctx l :=
    fun l => routedBlock_congr hs hent.settled hent.routing ctx l
  have hcount : ∀ q, mmuGetRefCount mmu' q = mmuGetRefCount mmu q := by
    intro q
    show mmu'.l1Allocator.refCount q = mmu.l1Allocator.refCount q
    rw [hent.routing.allocator]
  have hget : mmuGetRefCount mmu b = 1 := (refCount_live hs (routed_live hs hroute)).trans hone
  have hshared : sharedEntries mmu' ctx rest = sharedEntries mmu ctx (lb :: rest) := by
    ext l
    rw [mem_sharedEntries, mem_sharedEntries, List.mem_cons, hsame]
    simp only [hcount]
    constructor
    · intro hl
      exact ⟨.inr hl.1, hl.2⟩
    · intro hl
      obtain ⟨hmem, q, hq, hmany⟩ := hl
      refine ⟨?_, q, hq, hmany⟩
      rcases hmem with rfl | hmem
      · cases Option.some.inj (hroute.symm.trans hq)
        omega
      · exact hmem
  have hset : mmu'.pinnedBlocks ∪ privateBlocks mmu' ctx rest =
      mmu.pinnedBlocks ∪ privateBlocks mmu ctx (lb :: rest) := by
    ext q
    rw [hent.pinned, Finset.mem_union, Finset.mem_insert, Finset.mem_union, mem_privateBlocks, mem_privateBlocks,
      List.exists_mem_cons_iff, hcount]
    simp only [hsame]
    constructor
    · rintro ((rfl | hpin) | ⟨hl, hq⟩)
      · exact .inr ⟨.inl hroute, hget⟩
      · exact .inl hpin
      · exact .inr ⟨.inr hl, hq⟩
    · rintro (hpin | ⟨hhead | hl, hq⟩)
      · exact .inl (.inr hpin)
      · exact .inl (.inl (Option.some.inj (hroute.symm.trans hhead)).symm)
      · exact .inr ⟨hl, hq⟩
  have hfree : mmuGetFreeBlockCount mmu' = mmuGetFreeBlockCount mmu := by
    show mmu'.l1Allocator.freeBlocks = mmu.l1Allocator.freeBlocks
    rw [hent.routing.allocator]
  refine ⟨h.same hent.settled hent.routing, hent.routing.setup, ?_, ?_⟩
  · intro l hl
    obtain ⟨q, hq⟩ := hrest l hl
    exact ⟨q, (hsame l).trans hq⟩
  · unfold WriteFits writingSet
    rw [hset, hshared, hfree, hent.routing.config]

theorem sharedTurn_leaves {mid : MmuRuntime} {new : Int} (h : Counted mmu) (hroute : routedBlock mmu ctx lb = some b)
    (hmany : 1 < mmu.l1Allocator.refCounts.entry b) (hcl : Cloned mmu mid ctx lb b new) (hent : Entered mid mmu' new)
    (hrest : ∀ l ∈ rest, ∃ q, routedBlock mmu ctx l = some q) : Leaves mmu mmu' ctx lb rest := by
  have hs := h.covered.settled
  have hmid := hcl.counted.covered.settled
  have hsame : ∀ l, routedBlock mmu' ctx l = routedBlock mid ctx l :=
    fun l => routedBlock_congr hmid hent.settled hent.routing ctx l
  have hself : routedBlock mmu' ctx lb = some new := (hsame lb).trans hcl.route
  have hcount : ∀ q, mmuGetRefCount mmu' q = mmuGetRefCount mid q := by
    intro q
    show mmu'.l1Allocator.refCount q = mid.l1Allocator.refCount q
    rw [hent.routing.allocator]
  have hnew : mmuGetRefCount mmu' new = 1 :=
    (hcount new).trans ((refCount_live hmid (routed_live hmid hcl.route)).trans hcl.alone)
  have hget : 1 < mmuGetRefCount mmu b := by
    rw [refCount_live hs (routed_live hs hroute)]
    exact hmany
  have hothers : ∀ l ≠ lb, ∀ q, routedBlock mmu ctx l = some q →
      routedBlock mmu' ctx l = some q ∧ mmuGetRefCount mmu' q = mmuGetRefCount mmu q := by
    intro l hl q hq
    obtain ⟨hr, hc⟩ := hcl.others l hl q hq
    refine ⟨(hsame l).trans hr, ?_⟩
    rw [hcount, refCount_live hmid (routed_live hmid hr), hc, refCount_live hs (routed_live hs hq)]
  have hshared : insert lb (sharedEntries mmu' ctx rest) = sharedEntries mmu ctx (lb :: rest) ∧
      lb ∉ sharedEntries mmu' ctx rest := by
    refine ⟨?_, ?_⟩
    · ext l
      rw [Finset.mem_insert, mem_sharedEntries, mem_sharedEntries, List.mem_cons]
      by_cases hl : l = lb
      · subst hl
        exact iff_of_true (.inl rfl) ⟨.inl rfl, b, hroute, hget⟩
      · simp only [hl, false_or]
        refine and_congr_right fun hmem => ?_
        obtain ⟨q, hq⟩ := hrest l hmem
        obtain ⟨hr, hc⟩ := hothers l hl q hq
        rw [hr, hq]
        simp [hc]
    · intro hin
      obtain ⟨_, q, hq, hgt⟩ := mem_sharedEntries.mp hin
      cases Option.some.inj (hself.symm.trans hq)
      omega
  have hset : mmu'.pinnedBlocks ∪ privateBlocks mmu' ctx rest =
      insert new (mmu.pinnedBlocks ∪ privateBlocks mmu ctx (lb :: rest)) := by
    ext q
    rw [hent.pinned, hcl.pinned, Finset.insert_union, Finset.mem_insert, Finset.mem_insert, Finset.mem_union,
      Finset.mem_union, mem_privateBlocks, mem_privateBlocks]
    by_cases hq : q = new
    · simp [hq]
    · simp only [hq, false_or]
      refine or_congr_right ?_
      constructor
      · rintro ⟨⟨l, hl, hr⟩, hc⟩
        have hne : l ≠ lb := by
          intro he
          subst he
          exact hq (Option.some.inj (hself.symm.trans hr)).symm
        obtain ⟨q', hq'⟩ := hrest l hl
        obtain ⟨hr', hc'⟩ := hothers l hne q' hq'
        cases Option.some.inj (hr.symm.trans hr')
        exact ⟨⟨l, List.mem_cons_of_mem _ hl, hq'⟩, hc' ▸ hc⟩
      · rintro ⟨⟨l, hl, hr⟩, hc⟩
        have hne : l ≠ lb := by
          intro he
          subst he
          cases Option.some.inj (hroute.symm.trans hr)
          omega
        obtain ⟨hr', hc'⟩ := hothers l hne q hr
        exact ⟨⟨l, (List.mem_cons.mp hl).resolve_left hne, hr'⟩, hc'.trans hc⟩
  have hout : new ∉ mmu.pinnedBlocks ∪ privateBlocks mmu ctx (lb :: rest) := by
    intro hin
    rcases Finset.mem_union.mp hin with hpin | hpriv
    · exact hcl.fresh (hs.live_of_pinned ((mem_pinnedBlocks hs).mp hpin))
    · obtain ⟨⟨l, _, hr⟩, _⟩ := mem_privateBlocks.mp hpriv
      exact hcl.fresh (routed_live hs hr)
  have hfree : mmuGetFreeBlockCount mmu' = mmuGetFreeBlockCount mid := by
    show mmu'.l1Allocator.freeBlocks = mid.l1Allocator.freeBlocks
    rw [hent.routing.allocator]
  have hclone := hcl.free
  have hsetup := hcl.setup.trans hent.routing.setup
  refine ⟨hcl.counted.same hent.settled hent.routing, hsetup, ?_, ?_⟩
  · intro l hl
    by_cases he : l = lb
    · exact ⟨new, he ▸ hself⟩
    · obtain ⟨q, hq⟩ := hrest l hl
      exact ⟨q, (hothers l he q hq).1⟩
  · unfold WriteFits writingSet
    rw [hset, ← hshared.1, Finset.card_insert_of_notMem hout, Finset.card_insert_of_notMem hshared.2, hfree,
      hsetup.config]
    omega

/-- The first map of a WRITE batch goes through and leaves the rest as it should, or the batch does not fit. -/
theorem writeTurn (h : Counted mmu) (hl2 : mmu.config.l2BlockCount = mmu.config.l1BlockCount)
    (hg : ∀ n, mmu.host.reply n = .granted) (hflags : validateMapFlags flags = true) (hw : hasWrite flags = true)
    (hids : ∀ l ∈ lb :: rest, ∃ q, routedBlock mmu ctx l = some q) (hno : ¬CounterFull mmu ctx lb) :
    (¬WriteFits mmu ctx (lb :: rest) ∧ ∃ m, mmuMapLogicalBlock mmu ctx lb flags = (.error .outOfMemory, m)) ∨
      ∃ d m, mmuMapLogicalBlock mmu ctx lb flags = (.ok d, m) ∧ Leaves mmu m ctx lb rest := by
  have hs := h.covered.settled
  obtain ⟨b, hroute⟩ := hids lb (by simp)
  have hrest : ∀ l ∈ rest, ∃ q, routedBlock mmu ctx l = some q := fun l hl => hids l (List.mem_cons_of_mem _ hl)
  have hlive := routed_live hs hroute
  have hget := refCount_live hs hlive
  have hclock : ∀ q ∈ mmu.residents, ¬maxEpoch ≤ (mmu.block q).info.lastAccessEpoch :=
    fun q hq hmax => hno (.inr ⟨q, hq, hmax⟩)
  by_cases hone : mmu.l1Allocator.refCounts.entry b = 1
  · rcases mapPrivate_outcome hs hg hflags hroute (fun _ => hone) with ⟨hst, m, hm⟩ | ⟨_, d, m, hm⟩
    · refine .inl ⟨?_, m, hm⟩
      have hover := (starved_iff hs hl2 hclock).mp hst
      have hin : insert b mmu.pinnedBlocks ⊆ mmu.pinnedBlocks ∪ privateBlocks mmu ctx (lb :: rest) := by
        apply Finset.insert_subset
        · refine Finset.mem_union_right _ (mem_privateBlocks.mpr ⟨⟨lb, by simp, hroute⟩, ?_⟩)
          omega
        · exact Finset.subset_union_left
      have hcard := Finset.card_le_card hin
      intro hfits
      have hroom := hfits.2
      unfold writingSet at hroom
      omega
    · have hroom : (mmu.block b).info.pinCount + 1 < 2 ^ 32 := by
        by_contra hfull
        exact hno (.inl ⟨b, hroute, by omega⟩)
      have hent := (mapPrivate_entered hs hflags hroute (fun _ => hone) hroom hm).1
      exact .inr ⟨d, m, hm, privateTurn_leaves h hroute hone hent hrest⟩
  · have hpos : 0 < mmu.l1Allocator.refCounts.entry b := hlive
    have hmany : 1 < mmu.l1Allocator.refCounts.entry b := by omega
    have hin : lb ∈ sharedEntries mmu ctx (lb :: rest) :=
      mem_sharedEntries.mpr ⟨by simp, b, hroute, by omega⟩
    have hcard := Finset.card_pos.mpr ⟨lb, hin⟩
    obtain ⟨c, lvid, hc, hlvid, _⟩ := (routedBlock_eq_some hs).mp hroute
    rcases prepare_shared h.covered.settled hl2 hg hroute hmany with ⟨hnone, mid, hprep⟩ | ⟨_, new, mid, hprep⟩
    · refine .inl ⟨?_, mid, ?_⟩
      · intro hfits
        have hblocks := hfits.1
        omega
      · rw [mmuMapLogicalBlock_write hflags hw hc hlvid, hprep]
    · have hcl := prepare_clones h hroute hmany hprep
      have hmid := hcl.counted.covered.settled
      have heq := mmuMapLogicalBlock_cloned h hflags hw hroute hcl hprep
      have hclock' : ∀ q ∈ mid.residents, ¬maxEpoch ≤ (mid.block q).info.lastAccessEpoch := by
        intro q hq
        have hr := hmid.coherent.mem_residents.mp hq
        have hsame := hcl.residents q hr
        rw [hsame] at hr ⊢
        exact hclock q (hs.coherent.mem_residents.mpr hr)
      have hl2' : mid.config.l2BlockCount = mid.config.l1BlockCount := by
        rw [hcl.setup.config]
        exact hl2
      have hg' : ∀ n, mid.host.reply n = .granted := by
        rw [hcl.setup.replies]
        exact hg
      rcases mapPrivate_outcome hmid hg' hflags hcl.route (fun _ => hcl.alone) with ⟨hst, m, hm⟩ | ⟨_, d, m, hm⟩
      · refine .inl ⟨?_, m, heq.trans hm⟩
        have hover := (starved_iff hmid hl2' hclock').mp hst
        have hout : new ∉ mid.pinnedBlocks := by
          rw [hcl.pinned]
          exact fun hp => hcl.fresh (hs.live_of_pinned ((mem_pinnedBlocks hs).mp hp))
        rw [Finset.card_insert_of_notMem hout, hcl.pinned, hcl.setup.config] at hover
        have hsub : mmu.pinnedBlocks.card ≤ (mmu.pinnedBlocks ∪ privateBlocks mmu ctx (lb :: rest)).card :=
          Finset.card_le_card Finset.subset_union_left
        intro hfits
        have hroom := hfits.2
        unfold writingSet at hroom
        omega
      · have hroom : (mid.block new).info.pinCount + 1 < 2 ^ 32 := by
          rw [hcl.empty]
          omega
        have hent := (mapPrivate_entered hmid hflags hcl.route (fun _ => hcl.alone) hroom hm).1
        exact .inr ⟨d, m, heq.trans hm, sharedTurn_leaves h hroute hmany hcl hent hrest⟩

theorem mapBlocksLoop_writeAdmission (lbs : List UInt32) {done : List MappedBlock} (h : Counted mmu)
    (hl2 : mmu.config.l2BlockCount = mmu.config.l1BlockCount) (hg : ∀ n, mmu.host.reply n = .granted)
    (hflags : validateMapFlags flags = true) (hw : hasWrite flags = true)
    (hids : ∀ l ∈ lbs, ∃ q, routedBlock mmu ctx l = some q)
    (hno : ¬AtSomeTurn (CounterFull · ctx ·) ctx flags lbs mmu) {r : Except MmuError (List MappedBlock)}
    (hm : mapBlocksLoop ctx flags lbs done mmu = (r, mmu')) :
    (WriteFits mmu ctx lbs ∧ ∃ ds, r = .ok ds) ∨ (¬WriteFits mmu ctx lbs ∧ r = .error .outOfMemory) := by
  induction lbs generalizing mmu done with
  | nil =>
    obtain ⟨rfl, _⟩ := Prod.mk.inj hm
    have hs := h.covered.settled
    have hcard := Finset.card_le_card (pinned_subset hs)
    have hcount := hs.coherent.count
    have hlimit := hs.coherent.limit
    have hconfig := hs.coherent.sound.limit
    refine .inl ⟨⟨Nat.zero_le _, ?_⟩, done, rfl⟩
    show (mmu.pinnedBlocks ∪ ∅).card + 0 ≤ mmu.config.l1ResidentBlockLimit
    rw [Finset.union_empty]
    omega
  | cons lb rest ih =>
    unfold mapBlocksLoop at hm
    rcases writeTurn h hl2 hg hflags hw hids (AtSomeTurn.not_here hno) with ⟨hover, m, hone⟩ | ⟨d, m, hone, hleaves⟩
    · rw [hone] at hm
      obtain ⟨rfl, _⟩ := Prod.mk.inj hm
      exact .inr ⟨hover, rfl⟩
    · rw [hone] at hm
      rw [← hleaves.fits]
      refine ih hleaves.counted ?_ ?_ hleaves.routes (AtSomeTurn.not_later hno hone) hm
      · rw [hleaves.setup.config]
        exact hl2
      · rw [hleaves.setup.replies]
        exact hg

theorem reachable_counted (h : ReachableBy NoExhaustion mmu) : Counted mmu := by
  refine h.invariant (I := Counted) ?_ ?_
  · intro s hs
    obtain ⟨config, env, rfl⟩ := initial_new hs
    refine ⟨covered_new config env, ?_⟩
    intro ctx c hc
    rw [show (MmuRuntime.new config env).routing.contexts = .empty noContext from rfl, KeyedMap.find?_empty] at hc
    cases hc
  · intro s call hs hp hc
    have hkept : Kept (fun m => ∀ n, m ≠ .blocksExhausted n) s (perform s call).2 := by
      refine perform_kept hs.covered.settled hp (fun n he => by cases he) ?_
      cases call with
      | allocateBlocks ctx n =>
        refine ⟨fun he => absurd he hc, ?_⟩
        intro _ _ _ he
        cases he
      | forkContext src grows handle =>
        intro _ n he
        cases he
      | _ => trivial
    exact hs.run hkept (fun n hn => hn n rfl)

/-- The exact admission condition of a WRITE batch: a free block for each distinct entry that is shared, and
room in L1 for what is pinned, for the blocks the context has to itself and for the clones. Order, repetition,
history and residency play no part. -/
theorem write_batch_admission (h : ReachableBy NoExhaustion mmu)
    (hl2 : mmu.config.l2BlockCount = mmu.config.l1BlockCount) (hhost : ∀ n, mmu.host.reply n = .granted)
    (hflags : validateMapFlags flags = true) (hw : hasWrite flags = true) {lbs : List UInt32}
    (hids : ∀ l ∈ lbs, ∃ b, routedBlock mmu ctx l = some b)
    (hcounters : ¬AtSomeTurn (CounterFull · ctx ·) ctx flags lbs mmu) :
    ((∃ ds, (mmuMapLogicalBlocks mmu ctx lbs flags).1 = .ok ds) ↔ WriteFits mmu ctx lbs) ∧
      (¬WriteFits mmu ctx lbs → (mmuMapLogicalBlocks mmu ctx lbs flags).1 = .error .outOfMemory) := by
  obtain ⟨r, mmu', hm⟩ : ∃ r mmu', mmuMapLogicalBlocks mmu ctx lbs flags = (r, mmu') := ⟨_, _, rfl⟩
  have hcases := mapBlocksLoop_writeAdmission lbs (reachable_counted h) hl2 hhost hflags hw hids hcounters hm
  rw [hm]
  rcases hcases with ⟨hfits, ds, rfl⟩ | ⟨hover, rfl⟩
  · exact ⟨iff_of_true ⟨ds, rfl⟩ hfits, fun hover => absurd hfits hover⟩
  · refine ⟨iff_of_false ?_ hover, fun _ => rfl⟩
    rintro ⟨ds, hds⟩
    cases hds

end Batch

def forkThenPin : List Call :=
  [.createContext (some 1), .allocateBlocks 1 2, .forkContext 1 (fun _ => true) (some 2), .mapLogicalBlock 1 0 mapRead]

/-- Two blocks that two contexts share, one of them pinned, and room for three in L1. -/
@[irreducible] def sharedPinned : MmuRuntime := machine.replay (smallInstance 3 0) forkThenPin

theorem sharedPinned_reachable : ReachableBy NoExhaustion sharedPinned := by
  unfold sharedPinned
  refine ⟨_, smallInstance_initial 3 0, Machine.Reach.replay .start ?_⟩
  refine ⟨by decide +kernel, trivial, trivial, ?_, by decide +kernel, trivial, trivial, trivial, trivial⟩
  show NoExhaustion _ (.allocateBlocks 1 2) _
  decide +kernel

theorem sharedPinned_setup : sharedPinned.config.l2BlockCount = sharedPinned.config.l1BlockCount ∧
    ∀ n, sharedPinned.host.reply n = .granted := by
  unfold sharedPinned
  have hsetup := @replay_setup _ forkThenPin (smallInstance_reachable 3 0).settled (by decide +kernel)
  rw [hsetup.config, hsetup.replies]
  exact ⟨rfl, fun _ => rfl⟩

/-- Both blocks may be cloned beside the pinned one. -/
theorem write_batch_admission_shared :
    ∃ ds, (mmuMapLogicalBlocks sharedPinned 2 [1, 0, 1] mapWrite).1 = .ok ds := by
  obtain ⟨hl2, hhost⟩ := sharedPinned_setup
  have hroutes : ([1, 0, 1] : List UInt32).all (fun lb => (routedBlock sharedPinned 2 lb).isSome) = true := by
    decide +kernel
  have hids : ∀ lb ∈ ([1, 0, 1] : List UInt32), ∃ b, routedBlock sharedPinned 2 lb = some b :=
    fun lb hlb => Option.isSome_iff_exists.mp (List.all_eq_true.mp hroutes lb hlb)
  exact (write_batch_admission sharedPinned_reachable hl2 hhost (by decide) (by decide) hids
    (by decide +kernel)).1.mpr (by decide +kernel)

end DsfMmu
