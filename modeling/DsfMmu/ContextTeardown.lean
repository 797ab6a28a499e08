import DsfMmu.MapPins
import DsfMmu.RefCounts

namespace DsfMmu

open MmuRuntime BlockManager Context

namespace ChunkPool

/-- The pages of the blocks in `gone` are free again, in whatever order; nothing else has changed. -/
structure Freed (gone : Int → Prop) (pool pool' : ChunkPool) : Prop where
  chunks : pool'.chunks = pool.chunks
  bytes : pool'.bytes = pool.bytes
  size : pool'.ownerPages.size = pool.ownerPages.size
  kept : ∀ q, ¬gone q → pool'.ownerPages.entry q = pool.ownerPages.entry q
  left : ∀ q, gone q → pool'.ownerPages.entry q = none
  free : ∀ s, s ∈ pool'.freeBlocks ↔ s ∈ pool.freeBlocks ∨ ∃ q, gone q ∧ pool.ownerPages.entry q = some s

/-- Two pools that differ in the order of their free lists at most. -/
structure UpToOrder (a b : ChunkPool) : Prop where
  chunks : a.chunks = b.chunks
  owners : a.ownerPages = b.ownerPages
  committed : a.committedPages = b.committedPages
  bytes : a.bytes = b.bytes
  free : a.freeBlocks.Perm b.freeBlocks

section Freed

variable {gone gone' : Int → Prop} {a b c : ChunkPool}

theorem Freed.refl (pool : ChunkPool) : Freed (fun _ => False) pool pool := by
  refine ⟨rfl, rfl, rfl, fun _ _ => rfl, fun _ hq => absurd hq id, ?_⟩
  intro s
  refine ⟨Or.inl, ?_⟩
  rintro (hs | ⟨_, hq, _⟩)
  · exact hs
  · exact absurd hq id

theorem Freed.trans (h : Freed gone a b) (h' : Freed gone' b c) : Freed (fun q => gone q ∨ gone' q) a c := by
  refine ⟨h'.chunks.trans h.chunks, h'.bytes.trans h.bytes, h'.size.trans h.size, ?_, ?_, ?_⟩
  · intro q hq
    obtain ⟨hno, hno'⟩ := not_or.mp hq
    exact (h'.kept q hno').trans (h.kept q hno)
  · intro q hq
    by_cases hlater : gone' q
    · exact h'.left q hlater
    · have hfirst := hq.resolve_right hlater
      rw [h'.kept q hlater]
      exact h.left q hfirst
  · intro s
    rw [h'.free, h.free]
    constructor
    · rintro ((hs | ⟨q, hq, hown⟩) | ⟨q, hq, hown⟩)
      · exact .inl hs
      · exact .inr ⟨q, .inl hq, hown⟩
      · refine .inr ⟨q, .inr hq, ?_⟩
        by_cases hfirst : gone q
        · rw [h.left q hfirst] at hown
          cases hown
        · rw [← h.kept q hfirst]
          exact hown
    · rintro (hs | ⟨q, hq, hown⟩)
      · exact .inl (.inl hs)
      · by_cases hfirst : gone q
        · exact .inl (.inr ⟨q, hfirst, hown⟩)
        · refine .inr ⟨q, hq.resolve_left hfirst, ?_⟩
          rw [h.kept q hfirst]
          exact hown

theorem Freed.unowned (h : Freed gone a b) {q : Int} (hq : a.ownerPages.entry q = none) :
    b.ownerPages.entry q = none := by
  by_cases hgone : gone q
  · exact h.left q hgone
  · exact (h.kept q hgone).trans hq

/-- Only the blocks that own a page matter. -/
theorem Freed.congr (h : Freed gone a b) (hiff : ∀ q, a.ownerPages.entry q ≠ none → (gone q ↔ gone' q)) :
    Freed gone' a b := by
  refine ⟨h.chunks, h.bytes, h.size, ?_, ?_, ?_⟩
  · intro q hq
    by_cases hown : a.ownerPages.entry q = none
    · exact (h.unowned hown).trans hown.symm
    · exact h.kept q (fun hgone => hq ((hiff q hown).mp hgone))
  · intro q hq
    by_cases hown : a.ownerPages.entry q = none
    · exact h.unowned hown
    · exact h.left q ((hiff q hown).mpr hq)
  · intro s
    rw [h.free]
    refine or_congr_right (exists_congr fun q => and_congr_left fun hown => hiff q ?_)
    rw [hown]
    exact Option.some_ne_none s

theorem releasePage_freed (hok : a.Ok) (p : Int) : Freed (· = p) a (a.releasePage p) := by
  cases he : a.ownerPages.entry p with
  | none =>
    rw [releasePage_of_none he]
    refine (Freed.refl a).congr ?_
    intro q hq
    refine iff_of_false id ?_
    intro heq
    rw [heq] at hq
    exact hq he
  | some slot =>
    rw [(releasePage_of_some hok he).1]
    refine ⟨rfl, rfl, rfl, ?_, ?_, ?_⟩
    · intro q hq
      exact IntTable.set_entry_ne _ _ hq
    · intro q hq
      rw [hq]
      exact IntTable.set_entry_self _ _ _
    · intro s
      show s ∈ a.freeBlocks ++ [slot] ↔ _
      rw [List.mem_append, List.mem_singleton]
      constructor
      · rintro (hs | rfl)
        · exact .inl hs
        · exact .inr ⟨p, rfl, he⟩
      · rintro (hs | ⟨q, rfl, hown⟩)
        · exact .inl hs
        · exact .inr (Option.some.inj (hown.symm.trans he))

/-- However the same pages came back, the pools are alike. -/
theorem Freed.upToOrder (h : Freed gone a b) (h' : Freed gone a c) (hb : b.Ok) (hc : c.Ok) : UpToOrder b c := by
  have howners : b.ownerPages = c.ownerPages := by
    refine IntTable.eq_of_entries (h.size.trans h'.size.symm) ?_
    intro q
    by_cases hq : gone q
    · rw [h.left q hq, h'.left q hq]
    · rw [h.kept q hq, h'.kept q hq]
  refine ⟨h.chunks.trans h'.chunks.symm, howners, ?_, h.bytes.trans h'.bytes.symm, ?_⟩
  · rw [hb.committed, hc.committed, howners]
  · refine (List.perm_ext_iff_of_nodup hb.free_nodup hc.free_nodup).mpr ?_
    intro s
    rw [h.free, h'.free]

end Freed

end ChunkPool

/-! A call that drops references: the blocks left without any are forgotten, all others stay as they are. -/

section Forget

variable {mmu mmu' : MmuRuntime} {p : Int}

theorem forgetBlock_pool (mmu : MmuRuntime) (p : Int) (id : PoolId) :
    (forgetBlock mmu p).pool id = (mmu.pool id).releasePage p := by
  have hreset : ∀ m : MmuRuntime, (∀ id, m.pool id = mmu.pool id) →
      ((resetBlockData m p).setDirectory ((resetBlockData m p).blockDirectory.reset p)).pool id =
        (mmu.pool id).releasePage p := by
    intro m hm
    rw [← hm id]
    cases id <;> rfl
  unfold forgetBlock
  cases mmu.blockDirectory.get p with
  | none => exact hreset mmu fun _ => rfl
  | some blockMeta =>
    dsimp only
    split
    · exact hreset (dropResident mmu) fun id => by cases id <;> rfl
    · exact hreset mmu fun _ => rfl

theorem forgetBlock_host (mmu : MmuRuntime) (p : Int) : (forgetBlock mmu p).host = mmu.host := by
  unfold forgetBlock
  cases mmu.blockDirectory.get p with
  | none => rfl
  | some blockMeta =>
    dsimp only
    split <;> rfl

theorem forgetBlock_allocator (mmu : MmuRuntime) (p : Int) : (forgetBlock mmu p).l1Allocator = mmu.l1Allocator := by
  unfold forgetBlock
  cases mmu.blockDirectory.get p with
  | none => rfl
  | some blockMeta =>
    dsimp only
    split <;> rfl

/-- Any part of the scan frees the pages of the listed blocks without references. -/
theorem reclaimAll_freed (ids : List Int) (hok : ∀ id, (mmu.pool id).Ok) :
    (ids.foldl reclaimBlock mmu).host = mmu.host ∧
      (ids.foldl reclaimBlock mmu).l1Allocator = mmu.l1Allocator ∧
      ∀ id, (mmu.pool id).Freed (fun q => q ∈ ids ∧ mmu.l1Allocator.refCount q = 0)
        ((ids.foldl reclaimBlock mmu).pool id) := by
  induction ids generalizing mmu with
  | nil =>
    refine ⟨rfl, rfl, fun id => (ChunkPool.Freed.refl _).congr ?_⟩
    intro q _
    exact iff_of_false not_false (fun hq => List.not_mem_nil hq.1)
  | cons p rest ih =>
    rw [List.foldl_cons]
    by_cases hz : mmu.l1Allocator.refCount p = 0
    · have hone : reclaimBlock mmu p = forgetBlock mmu p := if_pos hz
      rw [hone]
      have hpool := forgetBlock_pool mmu p
      obtain ⟨hhost, halloc, hfreed⟩ := @ih (forgetBlock mmu p) fun id => by
        rw [hpool]
        exact ChunkPool.releasePage_ok (hok id) p
      refine ⟨hhost.trans (forgetBlock_host mmu p), halloc.trans (forgetBlock_allocator mmu p), ?_⟩
      intro id
      have hfirst := ChunkPool.releasePage_freed (hok id) p
      rw [← hpool id] at hfirst
      refine (hfirst.trans (hfreed id)).congr ?_
      intro q _
      rw [forgetBlock_allocator, List.mem_cons]
      constructor
      · rintro (rfl | ⟨hq, hzero⟩)
        · exact ⟨.inl rfl, hz⟩
        · exact ⟨.inr hq, hzero⟩
      · rintro ⟨hq | hq, hzero⟩
        · exact .inl hq
        · exact .inr ⟨hq, hzero⟩
    · have hone : reclaimBlock mmu p = mmu := if_neg hz
      rw [hone]
      obtain ⟨hhost, halloc, hfreed⟩ := ih hok
      refine ⟨hhost, halloc, fun id => (hfreed id).congr ?_⟩
      intro q _
      rw [List.mem_cons]
      constructor
      · rintro ⟨hq, hzero⟩
        exact ⟨.inr hq, hzero⟩
      · rintro ⟨rfl | hq, hzero⟩
        · exact absurd hzero hz
        · exact ⟨hq, hzero⟩

/-- New counts and contexts, then a scan of some blocks. -/
def Scanned (mmu mmu' : MmuRuntime) : Prop :=
  ∃ (r : Routing) (ids : List Int), mmu' = ids.foldl reclaimBlock (mmu.withRouting r)

theorem release_scanned (mmu : MmuRuntime) (ctx : CtxHandle) (lb : UInt32) :
    Scanned mmu (mmuReleaseLogicalBlock mmu ctx lb).2 := by
  unfold mmuReleaseLogicalBlock
  split
  next => exact ⟨mmu.routing, [], rfl⟩
  next c _ =>
    split
    next => exact ⟨mmu.routing, [], rfl⟩
    next =>
      split
      next => exact ⟨mmu.routing, [], rfl⟩
      next route _ =>
        split
        next bm c' _ => exact ⟨⟨bm, mmu.contexts.insert ctx c'⟩, [], rfl⟩
        next bm c' _ => exact ⟨⟨bm, mmu.contexts.insert ctx c'⟩, [route.physicalBlockId], rfl⟩

theorem destroy_scanned (mmu : MmuRuntime) (ctx : CtxHandle) : Scanned mmu (mmuDestroyContext mmu ctx) := by
  unfold mmuDestroyContext
  split
  next => exact ⟨mmu.routing, [], rfl⟩
  next c _ =>
    exact ⟨⟨releaseAllBlocks c.pageTable mmu.l1Allocator, mmu.contexts.erase ctx⟩, scanIds mmu, rfl⟩

/-- References were dropped, and the blocks left without any are forgotten. -/
structure Dropped (mmu mmu' : MmuRuntime) : Prop where
  settled : mmu'.Settled
  setup : SameSetup mmu mmu'
  host : mmu'.host = mmu.host
  epoch : mmu'.epoch = mmu.epoch
  live : ∀ q, mmu'.Live q → mmu.Live q
  blocks : ∀ q, mmu'.Live q → mmu'.block q = mmu.block q
  pools : ∀ id, (mmu.pool id).Freed (fun q => ¬mmu'.Live q) (mmu'.pool id)

theorem Settled.unowned (h : mmu.Settled) (hp : ¬mmu.Live p) (id : PoolId) :
    (mmu.pool id).ownerPages.entry p = none := by
  have hunused := h.coherent.unused hp
  cases id with
  | l1 => exact page_eq_none.mp (congrArg BlockView.l1 hunused)
  | l2 => exact page_eq_none.mp (congrArg BlockView.l2 hunused)

theorem Dropped.refl (h : mmu.Settled) : Dropped mmu mmu := by
  refine ⟨h, .refl mmu, rfl, rfl, fun _ hq => hq, fun _ _ => rfl, ?_⟩
  intro id
  refine (ChunkPool.Freed.refl _).congr ?_
  intro q hown
  refine iff_of_false not_false ?_
  intro hdead
  exact hown (Settled.unowned h hdead id)

theorem Dropped.trans {a b c : MmuRuntime} (h : Dropped a b) (h' : Dropped b c) : Dropped a c := by
  refine ⟨h'.settled, h.setup.trans h'.setup, h'.host.trans h.host, h'.epoch.trans h.epoch, ?_, ?_, ?_⟩
  · intro q hq
    exact h.live q (h'.live q hq)
  · intro q hq
    exact (h'.blocks q hq).trans (h.blocks q (h'.live q hq))
  · intro id
    refine ((h.pools id).trans (h'.pools id)).congr ?_
    intro q _
    refine ⟨?_, Or.inr⟩
    rintro (hdead | hdead)
    · exact fun hq => hdead (h'.live q hq)
    · exact hdead

theorem Forgot.dropped {r : Routing} (h : mmu.Settled) (hf : Forgot mmu mmu' r)
    (hscan : Scanned mmu mmu') (hlive : ∀ q, mmu'.Live q → mmu.Live q) :
    Dropped mmu mmu' := by
  obtain ⟨r', ids, heq⟩ := hscan
  have hpool : ∀ id, (mmu.withRouting r').pool id = mmu.pool id := fun id => by cases id <;> rfl
  obtain ⟨hhost, halloc, hfreed⟩ := @reclaimAll_freed (mmu.withRouting r') ids fun id => by
    rw [hpool]
    exact h.coherent.sound.pool_ok id
  rw [← heq] at hhost halloc hfreed
  refine ⟨hf.settled, hf.setup, hhost, hf.epoch, hlive, hf.blocks, ?_⟩
  intro id
  have hpages := hfreed id
  rw [hpool, ← halloc] at hpages
  refine hpages.congr ?_
  intro q hown
  constructor
  · rintro ⟨_, hzero⟩ hq
    have hpos := hf.settled.allocator.refCount_pos.mpr hq
    omega
  · intro hdead
    by_contra hno
    refine hown ?_
    rw [← hpages.kept q hno]
    exact Settled.unowned hf.settled hdead id

theorem release_dropped (h : mmu.Settled) (ctx : CtxHandle) (lb : UInt32) :
    Dropped mmu (mmuReleaseLogicalBlock mmu ctx lb).2 := by
  have hscan := release_scanned mmu ctx lb
  obtain ⟨r, m, hr⟩ : ∃ r m, mmuReleaseLogicalBlock mmu ctx lb = (r, m) := ⟨_, _, rfl⟩
  rw [hr] at hscan ⊢
  rcases mmuReleaseLogicalBlock_cases h hr with ⟨_, rfl⟩ | ⟨c, lvid, b, _, _, _, _, hf⟩
  · exact .refl h
  · refine Forgot.dropped h hf hscan ?_
    intro q hq
    have halloc : m.l1Allocator = (mmu.l1Allocator.release b).2 := congrArg Routing.allocator hf.routing
    have hpos : 0 < m.l1Allocator.refCounts.entry q := hq
    rw [halloc, h.allocator.release_entry] at hpos
    show 0 < mmu.l1Allocator.refCounts.entry q
    split at hpos <;> omega

theorem destroy_dropped (h : mmu.Settled) (ctx : CtxHandle) : Dropped mmu (mmuDestroyContext mmu ctx) := by
  have hscan := destroy_scanned mmu ctx
  cases hc : findContext mmu ctx with
  | none =>
    rw [mmuDestroyContext_none hc]
    exact .refl h
  | some c =>
    have hf := mmuDestroyContext_forgot h hc
    refine Forgot.dropped h hf hscan ?_
    intro q hq
    have hpos : 0 < (mmuDestroyContext mmu ctx).l1Allocator.refCounts.entry q := hq
    rw [destroy_entry h hc (hf.settled.live_ne_unallocated hq)] at hpos
    show 0 < mmu.l1Allocator.refCounts.entry q
    omega

end Forget

/-- Two runtimes that differ in the order of their free lists at most. -/
structure UpToOrder (a b : MmuRuntime) : Prop where
  config : a.config = b.config
  limit : a.residentLimit = b.residentLimit
  host : a.host = b.host
  epoch : a.epoch = b.epoch
  counts : a.l1Allocator.refCounts = b.l1Allocator.refCounts
  free : a.l1Allocator.freeList.Perm b.l1Allocator.freeList
  metas : a.blockDirectory = b.blockDirectory
  residents : a.residentCount = b.residentCount
  contexts : ∀ k, a.contexts.find? k = b.contexts.find? k
  pools : ∀ id, (a.pool id).UpToOrder (b.pool id)

section UpToOrder

variable {mmu a b : MmuRuntime}

theorem UpToOrder.refl (mmu : MmuRuntime) : UpToOrder mmu mmu :=
  ⟨rfl, rfl, rfl, rfl, rfl, .refl _, rfl, rfl, fun _ => rfl, fun _ => ⟨rfl, rfl, rfl, rfl, .refl _⟩⟩

/-- What is left is settled by the counts. -/
theorem Dropped.upToOrder (h : Dropped mmu a) (h' : Dropped mmu b)
    (hcounts : ∀ q, a.l1Allocator.refCounts.entry q = b.l1Allocator.refCounts.entry q)
    (hcontexts : ∀ k, a.contexts.find? k = b.contexts.find? k) : UpToOrder a b := by
  have hconfig : a.config = b.config := h.setup.config.trans h'.setup.config.symm
  have hsound := h.settled.coherent.sound
  have hsound' := h'.settled.coherent.sound
  have hrefs : a.l1Allocator.refCounts = b.l1Allocator.refCounts := by
    refine IntTable.eq_of_entries ?_ hcounts
    rw [hsound.refs_size, hsound'.refs_size, hconfig]
  have hlive : ∀ q, a.Live q ↔ b.Live q := by
    intro q
    unfold Live
    rw [hcounts]
  have hblocks : ∀ q, a.block q = b.block q := by
    intro q
    by_cases hq : a.Live q
    · rw [h.blocks q hq, h'.blocks q ((hlive q).mp hq)]
    · rw [h.settled.coherent.unused hq, h'.settled.coherent.unused (fun hb => hq ((hlive q).mpr hb))]
  have hmetas : a.blockDirectory = b.blockDirectory := by
    have htable : a.blockDirectory.metas = b.blockDirectory.metas := by
      refine IntTable.eq_of_entries ?_ fun q => congrArg BlockView.info (hblocks q)
      rw [hsound.metas_size, hsound'.metas_size, hconfig]
    exact congrArg BlockDirectory.mk htable
  refine ⟨hconfig, h.setup.limit.trans h'.setup.limit.symm, h.host.trans h'.host.symm, h.epoch.trans h'.epoch.symm,
    hrefs, ?_, hmetas, ?_, hcontexts, ?_⟩
  · refine (List.perm_ext_iff_of_nodup h.settled.allocator.nodup h'.settled.allocator.nodup).mpr ?_
    intro q
    rw [h.settled.allocator.free_iff, h'.settled.allocator.free_iff]
    unfold isValid
    rw [hrefs]
  · rw [h.settled.coherent.count, h'.settled.coherent.count]
    unfold residents
    rw [hconfig, hmetas]
  · intro id
    have hpages : (mmu.pool id).Freed (fun q => ¬a.Live q) (b.pool id) :=
      (h'.pools id).congr fun q _ => not_congr (hlive q).symm
    exact (h.pools id).upToOrder hpages (hsound.pool_ok id) (hsound'.pool_ok id)

/-- Such runtimes hold the same bytes. -/
theorem UpToOrder.bytes (h : UpToOrder a b) (q : Int) : a.logicalBytes q = b.logicalBytes q := by
  have hpage : ∀ id, a.page id q = b.page id q := by
    intro id
    unfold page ChunkPool.rawPage
    rw [(h.pools id).owners, (h.pools id).bytes]
  have hblock : a.block q = b.block q := by
    unfold block
    rw [h.metas, hpage .l1, hpage .l2]
  unfold logicalBytes zeroPage
  rw [hblock, h.config]

end UpToOrder

/-- `mmu_release_logical_block` on one id after the other; the statuses are dropped. -/
def releaseEach (ctx : CtxHandle) (logicalBlocks : List UInt32) (mmu : MmuRuntime) : MmuRuntime :=
  logicalBlocks.foldl (fun mmu lb => (mmuReleaseLogicalBlock mmu ctx lb).2) mmu

/-- References have gone together with the entries of one context that named the blocks. -/
structure Drained (ctx : CtxHandle) (mmu mmu' : MmuRuntime) (c c' : Context) : Prop where
  dropped : Dropped mmu mmu'
  table : findContext mmu' ctx = some c'
  counts : ∀ p ≠ kUnallocatedBlock, Routing.Balanced mmu.l1Allocator mmu'.l1Allocator c c' p
  others : ∀ k ≠ ctx, mmu'.contexts.find? k = mmu.contexts.find? k

section Drained

variable {mmu : MmuRuntime} {ctx : CtxHandle} {c : Context}

theorem Drained.trans {a b d : MmuRuntime} {c' c'' : Context} (h : Drained ctx a b c c')
    (h' : Drained ctx b d c' c'') : Drained ctx a d c c'' := by
  refine ⟨h.dropped.trans h'.dropped, h'.table, ?_, ?_⟩
  · intro p hp
    exact (h'.counts p hp).trans (h.counts p hp)
  · intro k hk
    exact (h'.others k hk).trans (h.others k hk)

theorem release_drained (h : mmu.Settled) (hc : findContext mmu ctx = some c) (lb : UInt32) :
    ∃ c', Drained ctx mmu (mmuReleaseLogicalBlock mmu ctx lb).2 c c' := by
  have hdropped := release_dropped h ctx lb
  obtain ⟨r, m, hr⟩ : ∃ r m, mmuReleaseLogicalBlock mmu ctx lb = (r, m) := ⟨_, _, rfl⟩
  rw [hr] at hdropped ⊢
  rcases mmuReleaseLogicalBlock_cases h hr with ⟨_, rfl⟩ | ⟨c₀, lvid, b, hc₀, _, hn, _, hf⟩
  · exact ⟨c, hdropped, hc, fun _ _ => rfl, fun _ _ => rfl⟩
  · cases Option.some.inj (hc.symm.trans hc₀)
    have halloc : m.l1Allocator = (mmu.l1Allocator.release b).2 := congrArg Routing.allocator hf.routing
    have hcontexts : m.contexts = mmu.contexts.insert ctx (c.remapped lvid kUnallocatedBlock) :=
      congrArg Routing.contexts hf.routing
    refine ⟨c.remapped lvid kUnallocatedBlock, hdropped, ?_, ?_, ?_⟩
    · exact findContext_inserted (findContext_find? hc).1 hcontexts
    · intro p hp
      rw [halloc]
      exact Routing.released_balanced h.allocator hn hp
    · intro k hk
      rw [hcontexts, KeyedMap.find?_insert, if_neg hk]

theorem releaseEach_drained (lbs : List UInt32) (h : mmu.Settled) (hc : findContext mmu ctx = some c) :
    ∃ c', Drained ctx mmu (releaseEach ctx lbs mmu) c c' := by
  induction lbs generalizing mmu c with
  | nil => exact ⟨c, .refl h, hc, fun _ _ => rfl, fun _ _ => rfl⟩
  | cons lb rest ih =>
    obtain ⟨c₁, hfirst⟩ := release_drained h hc lb
    obtain ⟨c₂, hlater⟩ := ih hfirst.dropped.settled hfirst.table
    exact ⟨c₂, hfirst.trans hlater⟩

theorem releaseEach_none (lbs : List UInt32) (hc : findContext mmu ctx = none) : releaseEach ctx lbs mmu = mmu := by
  induction lbs with
  | nil => rfl
  | cons lb rest ih =>
    have hone : (mmuReleaseLogicalBlock mmu ctx lb).2 = mmu := by
      unfold mmuReleaseLogicalBlock
      rw [hc]
    show releaseEach ctx rest (mmuReleaseLogicalBlock mmu ctx lb).2 = mmu
    rw [hone]
    exact ih

end Drained

/-- Whichever ids are released first, and in whichever order, the end of the context leaves the same runtime. -/
theorem destroy_agrees_with_releases {mmu : MmuRuntime} (h : Reachable mmu) (ctx : CtxHandle) (lbs : List UInt32) :
    UpToOrder (mmuDestroyContext (releaseEach ctx lbs mmu) ctx) (mmuDestroyContext mmu ctx) ∧
      ∀ q, (mmuDestroyContext (releaseEach ctx lbs mmu) ctx).logicalBytes q =
        (mmuDestroyContext mmu ctx).logicalBytes q := by
  have hs := h.settled
  have halike : UpToOrder (mmuDestroyContext (releaseEach ctx lbs mmu) ctx) (mmuDestroyContext mmu ctx) := by
    cases hc : findContext mmu ctx with
    | none =>
      rw [releaseEach_none lbs hc]
      exact .refl _
    | some c =>
      obtain ⟨c', hdrained⟩ := releaseEach_drained lbs hs hc
      have hmid := hdrained.dropped.settled
      have hlate := hdrained.dropped.trans (destroy_dropped hmid ctx)
      have hdirect := destroy_dropped hs ctx
      refine hlate.upToOrder hdirect ?_ ?_
      · intro q
        by_cases hq : q = kUnallocatedBlock
        · rw [hq, Routing.unallocated_zero hlate.settled.allocator, Routing.unallocated_zero hdirect.settled.allocator]
        · have hbal := hdrained.counts q hq
          unfold Routing.Balanced at hbal
          rw [destroy_entry hmid hdrained.table hq, destroy_entry hs hc hq, hbal]
      · intro k
        rw [destroy_find hmid hdrained.table, destroy_find hs hc]
        by_cases hk : k = ctx
        · rw [if_pos hk, if_pos hk]
        · rw [if_neg hk, if_neg hk, hdrained.others k hk]
  exact ⟨halike, halike.bytes⟩

/-- Context 1 shares two blocks with its fork, has released the first of them, and has two blocks of its own, one
of them mapped. -/
@[irreducible] def sharedAndHeld : MmuRuntime :=
  machine.replay (smallInstance 1 0)
    [.createContext (some 1), .allocateBlocks 1 2, .forkContext 1 (fun _ => true) (some 2), .allocateBlocks 1 2,
      .mapLogicalBlock 1 2 mapWrite, .releaseLogicalBlock 1 0]

theorem sharedAndHeld_reachable : Reachable sharedAndHeld := by
  unfold sharedAndHeld
  exact (smallInstance_reachable 1 0).replay (by decide +kernel)

/-- There the free lists do differ. -/
theorem destroy_agrees_with_releases_reversed :
    UpToOrder (mmuDestroyContext (releaseEach 1 [3, 2, 1, 0] sharedAndHeld) 1) (mmuDestroyContext sharedAndHeld 1) ∧
      (sharedAndHeld.block 2).info.pinCount = 1 ∧
      (mmuDestroyContext (releaseEach 1 [3, 2, 1, 0] sharedAndHeld) 1).l1Allocator.freeList = [3, 2] ∧
      (mmuDestroyContext sharedAndHeld 1).l1Allocator.freeList = [2, 3] := by
  refine ⟨(destroy_agrees_with_releases sharedAndHeld_reachable 1 [3, 2, 1, 0]).1, ?_, ?_, ?_⟩
  · decide +kernel
  · decide +kernel
  · decide +kernel

end DsfMmu
