import DsfMmu.BatchRollback

namespace DsfMmu

open MmuRuntime BlockManager Context

/-- Block `p` has lost no pin, is resident, and its L1 page is the one it had: neither free nor
owned by any other block. -/
structure Protected (mmu mmu' : MmuRuntime) (p : Int) : Prop where
  pins : (mmu.block p).info.pinCount ≤ (mmu'.block p).info.pinCount
  resident : (mmu'.block p).info.residentInL1 = true
  page : ∃ ptr, mmu.l1Pool.rawPage p = some ptr ∧ mmu'.l1Pool.rawPage p = some ptr ∧
    ptr ∉ mmu'.l1Pool.freeBlocks ∧ ∀ q, mmu'.l1Pool.rawPage q = some ptr → q = p

/-- The call unmaps the block, alone or in a batch. -/
def UnmapsBlock (call : Call) (p : Int) : Prop :=
  match call with
  | .unmapLogicalBlock _ d => d.physicalBlockId = p
  | .unmapLogicalBlocks _ ds => ∃ d ∈ ds, d.physicalBlockId = p
  | _ => False

/-- The length of a batch is a `uint32_t`. -/
def BatchFits (call : Call) : Prop :=
  match call with
  | .mapLogicalBlocks _ lbs _ => lbs.length < 2 ^ 32
  | _ => True

/-- What takes a pinned block from its holders: releasing its last reference, destroying the context
that has all of them, or a map that its full pin counter does not survive. -/
def Unprotects (mmu : MmuRuntime) (call : Call) (p : Int) : Prop :=
  match call with
  | .releaseLogicalBlock ctx lb => routedBlock mmu ctx lb = some p ∧ mmuGetRefCount mmu p = 1
  | .destroyContext ctx => ∃ c ∈ findContext mmu ctx, mmuGetRefCount mmu p ≤ c.pageTable.names p
  | .mapLogicalBlock ctx lb flags => MapWraps mmu ctx lb flags p
  | .mapLogicalBlocks ctx lbs flags => BatchWraps mmu ctx lbs flags p
  | _ => False

section Protection

variable {mmu mmu' : MmuRuntime} {ctx : CtxHandle} {lb flags : UInt32} {p : Int}

/-- A pinned block that keeps its pins and its page is protected. -/
theorem protected_of_page (h : mmu.Settled) (h' : mmu'.Settled) (hpin : 0 < (mmu.block p).info.pinCount)
    (hpins : (mmu.block p).info.pinCount ≤ (mmu'.block p).info.pinCount)
    (hpage : mmu'.l1Pool.rawPage p = mmu.l1Pool.rawPage p) : Protected mmu mmu' p := by
  have hpin' : 0 < (mmu'.block p).info.pinCount := by omega
  have hok' := h'.coherent.ok (h'.live_of_pinned hpin')
  obtain ⟨pg, hpg⟩ := Option.isSome_iff_exists.mp ((h.coherent.ok (h.live_of_pinned hpin)).pinned hpin)
  have hraw : mmu.l1Pool.rawPage p = some pg.ptr := by
    rw [rawPage_block, hpg]
    rfl
  have hraw' : mmu'.l1Pool.rawPage p = some pg.ptr := hpage.trans hraw
  have hpool := h'.coherent.sound.pool_ok .l1
  refine ⟨hpins, hok'.pinned_resident hpin', pg.ptr, hraw, hraw', ?_, ?_⟩
  · exact hpool.owned_not_free p pg.ptr hraw'
  · intro q hq
    exact hpool.owner_inj q p pg.ptr hq hraw'

theorem protected_of_block (h : mmu.Settled) (h' : mmu'.Settled) (hpin : 0 < (mmu.block p).info.pinCount)
    (hb : mmu'.block p = mmu.block p) : Protected mmu mmu' p :=
  protected_of_page h h' hpin (by rw [hb]) (rawPage_congr (by rw [hb]))

/-- A block that nobody refers to is protected no more. -/
theorem not_protected_of_dead (h' : mmu'.Settled) (hdead : ¬mmu'.Live p) : ¬Protected mmu mmu' p := by
  intro hprot
  have hres := hprot.resident
  rw [h'.coherent.unused hdead] at hres
  cases hres

/-- A map that the full counter of a pinned block does not survive hands the block out all the same. -/
theorem MapWraps.maps (h : mmu.Settled) (hw : MapWraps mmu ctx lb flags p) :
    ∃ d mmu', mmuMapLogicalBlock mmu ctx lb flags = (.ok d, mmu') ∧ d.physicalBlockId = p := by
  obtain ⟨hvalid, hroute, hfull, hrefs⟩ := hw
  obtain ⟨c, lvid, hc, hlvid, hn⟩ := (routedBlock_eq_some h).mp hroute
  have hpin : 0 < (mmu.block p).info.pinCount := by omega
  obtain ⟨pg, hpg⟩ := Option.isSome_iff_exists.mp ((h.coherent.ok hn.live).pinned hpin)
  have hres := mapResolved_resident h hn (show mmu.page .l1 p = some pg from hpg) lb flags
  cases hwrite : hasWrite flags with
  | false =>
    rw [mmuMapLogicalBlock_unwritten hvalid hwrite hc hlvid, hres]
    exact ⟨_, _, rfl, rfl⟩
  | true =>
    have hone := hrefs hwrite
    rw [refCount_live h hn.live] at hone
    have hsame : ∀ b, c.Names mmu.l1Allocator lvid b → b = p :=
      fun b hb => Option.some.inj (hb.entry.symm.trans hn.entry)
    have hprep : mmuPrepareBlockForWrite mmu ctx lb = (.ok p, mmu) := by
      obtain ⟨r, mid, hr⟩ : ∃ r mid, mmuPrepareBlockForWrite mmu ctx lb = (r, mid) := ⟨_, _, rfl⟩
      rcases mmuPrepareBlockForWrite_cases h hr with
        ⟨_, _, hno⟩ | ⟨c', lvid', b, hc', hl', hn', _, rfl, rfl⟩ | ⟨c', lvid', b, _, _, _, hc', hl', hn', hshared, _⟩
      · have := (hno c lvid p hc hlvid hn).1
        omega
      · cases Option.some.inj (hc.symm.trans hc')
        cases Option.some.inj (hlvid.symm.trans hl')
        rw [hr, hsame b hn']
      · cases Option.some.inj (hc.symm.trans hc')
        cases Option.some.inj (hlvid.symm.trans hl')
        rw [hsame b hn'] at hshared
        omega
    rw [mmuMapLogicalBlock_write hvalid hwrite hc hlvid, hprep]
    dsimp only
    rw [hc]
    dsimp only
    rw [hres]
    exact ⟨_, _, rfl, rfl⟩

theorem nextPinCount_le (n : Nat) : nextPinCount n ≤ n + 1 := Nat.mod_le _ _

/-- A counter that wraps loses all it had. -/
theorem nextPinCount_full {n : Nat} (h : 2 ^ 32 ≤ n + 1) : nextPinCount n + 2 ^ 32 ≤ n + 1 := by
  unfold nextPinCount
  omega

theorem map_pin_le (h : mmu.Settled) {r : Except MmuError MappedBlock}
    (hm : mmuMapLogicalBlock mmu ctx lb flags = (r, mmu')) (q : Int) :
    (mmu'.block q).info.pinCount ≤ (mmu.block q).info.pinCount + 1 := by
  rw [(map_step h hm).pins]
  split
  next => exact nextPinCount_le _
  next => omega

theorem unmap_pin_le (h : mmu.Settled) {d : MappedBlock} {r : Except MmuError Unit}
    (hu : mmuUnmapLogicalBlock mmu ctx d = (r, mmu')) (q : Int) :
    (mmu'.block q).info.pinCount ≤ (mmu.block q).info.pinCount := by
  rcases mmuUnmapLogicalBlock_cases h hu with ⟨_, rfl⟩ | ⟨_, _, _, _, _, hun⟩
  · exact le_rfl
  · rw [hun.pins]
    split
    next he =>
      rw [he]
      omega
    next => exact le_rfl

theorem unmap_pin_other (h : mmu.Settled) {d : MappedBlock} {r : Except MmuError Unit}
    (hu : mmuUnmapLogicalBlock mmu ctx d = (r, mmu')) {q : Int} (hne : d.physicalBlockId ≠ q) :
    (mmu'.block q).info.pinCount = (mmu.block q).info.pinCount := by
  rcases mmuUnmapLogicalBlock_cases h hu with ⟨_, rfl⟩ | ⟨_, _, _, _, _, hun⟩
  · rfl
  · rw [hun.pins, if_neg (fun he => hne he.symm)]

theorem unmap_page (h : mmu.Settled) {d : MappedBlock} {r : Except MmuError Unit}
    (hu : mmuUnmapLogicalBlock mmu ctx d = (r, mmu')) (q : Int) : (mmu'.block q).l1 = (mmu.block q).l1 := by
  rcases mmuUnmapLogicalBlock_cases h hu with ⟨_, rfl⟩ | ⟨_, _, _, _, _, hun⟩
  · rfl
  · exact hun.pages q

theorem unmapAll_pin_le (h : mmu.Settled) (done : List MappedBlock) (q : Int) :
    ((unmapAll ctx done mmu).block q).info.pinCount ≤ (mmu.block q).info.pinCount :=
  (unmapAll_rel (R := fun a b => (b.block q).info.pinCount ≤ (a.block q).info.pinCount) (fun _ => le_rfl)
    (fun _ _ _ hab hbc => hbc.trans hab) (fun _ _ _ _ hs hu => unmap_pin_le hs hu q) done h).1

/-- A batch adds no more pins than it has items. -/
theorem mapBlocksLoop_pin_le (lbs : List UInt32) (done : List MappedBlock) (h : mmu.Settled)
    {r : Except MmuError (List MappedBlock)} (hm : mapBlocksLoop ctx flags lbs done mmu = (r, mmu')) (q : Int) :
    (mmu'.block q).info.pinCount ≤ (mmu.block q).info.pinCount + lbs.length := by
  induction lbs generalizing mmu done with
  | nil =>
    obtain ⟨_, rfl⟩ := Prod.mk.inj hm
    omega
  | cons lb rest ih =>
    unfold mapBlocksLoop at hm
    rw [List.length_cons]
    split at hm
    next e mid hone =>
      obtain ⟨_, rfl⟩ := Prod.mk.inj hm
      have hle := map_pin_le h hone q
      have hback := @unmapAll_pin_le mid ctx (map_clean h hone).settled done q
      omega
    next d mid hone =>
      have hle := map_pin_le h hone q
      have hrest := ih (done ++ [d]) (map_clean h hone).settled hm
      omega

/-- Once the counter has wrapped the rest of the batch cannot make up for it. -/
theorem mapBlocksLoop_wraps (lbs : List UInt32) (done : List MappedBlock) (h : mmu.Settled)
    (hw : BatchWraps mmu ctx lbs flags p) {r : Except MmuError (List MappedBlock)}
    (hm : mapBlocksLoop ctx flags lbs done mmu = (r, mmu')) :
    (mmu'.block p).info.pinCount + 2 ^ 32 ≤ (mmu.block p).info.pinCount + lbs.length := by
  induction lbs generalizing mmu done with
  | nil => exact absurd hw id
  | cons lb rest ih =>
    unfold mapBlocksLoop at hm
    rw [List.length_cons]
    rcases hw with hhere | ⟨mid', hnext, hlater⟩
    · obtain ⟨d, mid, hone, hp⟩ := hhere.maps h
      rw [hone] at hm
      have hpins := (map_step h hone).pins p
      have hmaps : MapsBlock (.ok d) p := hp
      rw [if_pos hmaps] at hpins
      have hlow := nextPinCount_full hhere.2.2.1
      have hrest := mapBlocksLoop_pin_le rest (done ++ [d]) (map_clean h hone).settled hm p
      omega
    · unfold nextTurn at hnext
      split at hnext
      next d mid hone =>
        cases Option.some.inj hnext
        rw [hone] at hm
        have hle := map_pin_le h hone p
        have hrest := ih (done ++ [d]) (map_clean h hone).settled hlater hm
        omega
      next => cases hnext

/-- Without a wrap a batch leaves the page of a pinned block where it is. -/
theorem mapBlocksLoop_page (lbs : List UInt32) {done : List MappedBlock} {base : Nat}
    (hb : Batched mmu ctx flags p base done) (hpos : 0 < base) (hno : ¬BatchWraps mmu ctx lbs flags p)
    {r : Except MmuError (List MappedBlock)} (hm : mapBlocksLoop ctx flags lbs done mmu = (r, mmu')) :
    (mmu'.block p).l1 = (mmu.block p).l1 := by
  induction lbs generalizing mmu done with
  | nil =>
    obtain ⟨_, rfl⟩ := Prod.mk.inj hm
    rfl
  | cons lb rest ih =>
    have hpin : 0 < (mmu.block p).info.pinCount := by
      rw [hb.pin]
      omega
    unfold mapBlocksLoop at hm
    split at hm
    next e mid hone =>
      obtain ⟨_, rfl⟩ := Prod.mk.inj hm
      have hstep := map_step hb.settled hone
      have hback : ((unmapAll ctx done mid).block p).l1 = (mid.block p).l1 :=
        (unmapAll_rel (R := fun a b => (b.block p).l1 = (a.block p).l1) (fun _ => rfl)
          (fun _ _ _ hab hbc => hbc.trans hab) (fun _ _ _ _ hs hu => unmap_page hs hu p) done
          hstep.undisplaced.settled).1
      exact hback.trans (hstep.undisplaced.kept p hpin)
    next d mid hone =>
      have hrest := ih (hb.step (AtSomeTurn.not_here hno) hone) (AtSomeTurn.not_later hno hone) hm
      exact hrest.trans ((map_step hb.settled hone).undisplaced.kept p hpin)

/-- The batch that unmaps other blocks. -/
theorem unmapAll_other (ds : List MappedBlock) (h : mmu.Settled) (hother : ∀ d ∈ ds, d.physicalBlockId ≠ p) :
    ((unmapAll ctx ds mmu).block p).info.pinCount = (mmu.block p).info.pinCount ∧
      ((unmapAll ctx ds mmu).block p).l1 = (mmu.block p).l1 := by
  induction ds generalizing mmu with
  | nil => exact ⟨rfl, rfl⟩
  | cons d rest ih =>
    have hne := hother d (by simp)
    have hrest : ∀ e ∈ rest, e.physicalBlockId ≠ p := fun e he => hother e (List.mem_cons_of_mem _ he)
    obtain ⟨r, mid, hone⟩ : ∃ r m, mmuUnmapLogicalBlock mmu ctx d = (r, m) := ⟨_, _, rfl⟩
    obtain ⟨hpins, hl1⟩ := ih (unmap_clean h hone).settled hrest
    rw [unmapAll_cons hone rest]
    exact ⟨hpins.trans (unmap_pin_other h hone hne), hl1.trans (unmap_page h hone p)⟩

/-- A single map protects the pinned blocks, but for the one whose counter it overflows. -/
theorem map_protected (h : mmu.Settled) (hpin : 0 < (mmu.block p).info.pinCount) {r : Except MmuError MappedBlock}
    (hm : mmuMapLogicalBlock mmu ctx lb flags = (r, mmu')) :
    Protected mmu mmu' p ↔ ¬MapWraps mmu ctx lb flags p := by
  have hstep := map_step h hm
  have hpins := hstep.pins p
  constructor
  · intro hprot hw
    obtain ⟨d, mid, hone, hp⟩ := hw.maps h
    obtain ⟨rfl, rfl⟩ := Prod.mk.inj (hone.symm.trans hm)
    have hmaps : MapsBlock (.ok d) p := hp
    rw [if_pos hmaps] at hpins
    have hlow := nextPinCount_full hw.2.2.1
    have hle := hprot.pins
    omega
  · intro hno
    refine protected_of_page h hstep.undisplaced.settled hpin ?_ (rawPage_congr (hstep.undisplaced.kept p hpin))
    cases r with
    | error e =>
      rw [if_neg (show ¬MapsBlock (.error e) p from id)] at hpins
      omega
    | ok d =>
      by_cases hp : d.physicalBlockId = p
      · have hmaps : MapsBlock (.ok d) p := hp
        have hroom := hstep.room d rfl (by rw [hp]; exact hno)
        rw [hp] at hroom
        rw [if_pos hmaps, nextPinCount_lt hroom] at hpins
        omega
      · have hmaps : ¬MapsBlock (.ok d) p := hp
        rw [if_neg hmaps] at hpins
        omega

/-- So does a batch, whether it goes through or is rolled back. -/
theorem mapBlocks_protected (h : mmu.Settled) (hpin : 0 < (mmu.block p).info.pinCount) {lbs : List UInt32}
    (hfits : lbs.length < 2 ^ 32) {r : Except MmuError (List MappedBlock)}
    (hm : mmuMapLogicalBlocks mmu ctx lbs flags = (r, mmu')) :
    Protected mmu mmu' p ↔ ¬BatchWraps mmu ctx lbs flags p := by
  constructor
  · intro hprot hw
    have hlow := mapBlocksLoop_wraps lbs [] h hw hm
    have hle := hprot.pins
    omega
  · intro hno
    have hb := h.batched ctx flags p
    have hleaves := mapBlocksLoop_pin lbs hb hno hm
    have hpage := mapBlocksLoop_page lbs hb hpin hno hm
    have hs' : mmu'.Settled := (mapBlocksLoop_rel (R := fun _ _ => True) (fun _ => trivial)
      (fun _ _ _ _ _ => trivial) (fun _ _ _ _ _ _ => trivial) (fun _ _ _ _ _ _ => trivial) lbs [] h hm).2
    refine protected_of_page h hs' hpin ?_ (rawPage_congr hpage)
    cases r with
    | error e => exact le_of_eq hleaves.symm
    | ok ds =>
      have hpins : (mmu'.block p).info.pinCount = (mmu.block p).info.pinCount + pinsTaken ds p := hleaves.pin
      omega

/-- An entry that resolves can be released. -/
theorem mmuReleaseLogicalBlock_routed (h : mmu.Settled) {b : Int} (hroute : routedBlock mmu ctx lb = some b) :
    ∃ mmu', mmuReleaseLogicalBlock mmu ctx lb = (.ok (), mmu') := by
  obtain ⟨c, lvid, hc, hlvid, hn⟩ := (routedBlock_eq_some h).mp hroute
  unfold mmuReleaseLogicalBlock
  rw [hc]
  dsimp only
  rw [hlvid]
  dsimp only
  rw [resolveRouting_names h hn]
  dsimp only
  rcases releaseLogicalBlock_cases h.allocator c lvid with ⟨e, _, hno⟩ | ⟨b', _, heq⟩
  · exact absurd hn (hno b)
  · rw [heq]
    exact ⟨_, rfl⟩

theorem release_protected (h : mmu.Settled) (hpin : 0 < (mmu.block p).info.pinCount) {r : Except MmuError Unit}
    (hr : mmuReleaseLogicalBlock mmu ctx lb = (r, mmu')) :
    Protected mmu mmu' p ↔ ¬(routedBlock mmu ctx lb = some p ∧ mmuGetRefCount mmu p = 1) := by
  have hlive := h.live_of_pinned hpin
  rw [refCount_live h hlive]
  rcases mmuReleaseLogicalBlock_cases h hr with ⟨⟨e, rfl⟩, rfl⟩ | ⟨c, lvid, b, hc, hlvid, hn, _, hf⟩
  · refine iff_of_true (protected_of_block h h hpin rfl) ?_
    intro hboth
    obtain ⟨hroute, -⟩ := hboth
    obtain ⟨_, hok⟩ := mmuReleaseLogicalBlock_routed h hroute
    rw [hr] at hok
    cases hok
  · have hroute : routedBlock mmu ctx lb = some b := (routedBlock_eq_some h).mpr ⟨c, lvid, hc, hlvid, hn⟩
    have halloc : mmu'.l1Allocator = (mmu.l1Allocator.release b).2 := congrArg Routing.allocator hf.routing
    have hrefs : mmu'.l1Allocator.refCounts.entry p = if p = b then mmu.l1Allocator.refCounts.entry b - 1
        else mmu.l1Allocator.refCounts.entry p := by
      rw [halloc, h.allocator.release_entry]
      by_cases hp : p = b
      · rw [if_pos hp, hp, if_pos ⟨rfl, hn.live⟩]
      · rw [if_neg hp, if_neg (fun he => hp he.1)]
    have hpos : 0 < mmu.l1Allocator.refCounts.entry p := hlive
    rw [hroute]
    by_cases hlast : b = p ∧ mmu.l1Allocator.refCounts.entry p = 1
    · obtain ⟨rfl, hone⟩ := hlast
      refine iff_of_false (not_protected_of_dead hf.settled ?_) (not_not.mpr ⟨rfl, hone⟩)
      intro hl
      have hl' : 0 < mmu'.l1Allocator.refCounts.entry b := hl
      rw [hrefs, if_pos rfl] at hl'
      omega
    · have hlive' : mmu'.Live p := by
        show 0 < mmu'.l1Allocator.refCounts.entry p
        rw [hrefs]
        split
        next hp =>
          have hne : mmu.l1Allocator.refCounts.entry p ≠ 1 := fun hone => hlast ⟨hp.symm, hone⟩
          rw [hp] at hpos hne
          omega
        next => exact hpos
      refine iff_of_true (protected_of_block h hf.settled hpin (hf.blocks p hlive')) ?_
      intro hboth
      obtain ⟨hb, hone⟩ := hboth
      exact hlast ⟨Option.some.inj hb, hone⟩

theorem destroy_protected (h : mmu.Settled) (hpin : 0 < (mmu.block p).info.pinCount) :
    Protected mmu (mmuDestroyContext mmu ctx) p ↔
      ¬∃ c ∈ findContext mmu ctx, mmuGetRefCount mmu p ≤ c.pageTable.names p := by
  have hlive := h.live_of_pinned hpin
  have hpos : 0 < mmu.l1Allocator.refCounts.entry p := hlive
  rw [refCount_live h hlive]
  obtain hnone | ⟨c, hc⟩ := Option.eq_none_or_eq_some (findContext mmu ctx)
  · have hsame := mmuDestroyContext_none hnone
    rw [hsame, hnone]
    exact iff_of_true (protected_of_block h h hpin rfl) (fun ⟨_, hc, _⟩ => by cases hc)
  · have hf := mmuDestroyContext_forgot h hc
    have hrefs := destroy_entry h hc (h.live_ne_unallocated hlive)
    rw [hc]
    by_cases hall : mmu.l1Allocator.refCounts.entry p ≤ c.pageTable.names p
    · refine iff_of_false (not_protected_of_dead hf.settled ?_) (not_not.mpr ⟨c, rfl, hall⟩)
      intro hl
      have hl' : 0 < (mmuDestroyContext mmu ctx).l1Allocator.refCounts.entry p := hl
      omega
    · have hlive' : (mmuDestroyContext mmu ctx).Live p := by
        show 0 < (mmuDestroyContext mmu ctx).l1Allocator.refCounts.entry p
        omega
      refine iff_of_true (protected_of_block h hf.settled hpin (hf.blocks p hlive')) ?_
      intro hex
      obtain ⟨c', hc', hle⟩ := hex
      cases Option.some.inj hc'
      exact hall hle

/-- Every call but an unmap of the block itself protects a pinned block, unless the block loses its last
reference or its pin counter overflows. -/
theorem pinned_page_protected (h : Reachable mmu) {call : Call} (hp : Permitted mmu call) (hfits : BatchFits call)
    (hpin : 0 < (mmu.block p).info.pinCount) (hother : ¬UnmapsBlock call p) :
    Protected mmu (perform mmu call).2 p ↔ ¬Unprotects mmu call p := by
  have hs := h.settled
  have hs' : (perform mmu call).2.Settled := (h.step hp).settled
  cases call with
  | createContext handle =>
    obtain ⟨r, hr⟩ := mmuCreateContext_routes mmu handle
    have hblock : (mmuCreateContext mmu handle).2.block = mmu.block := by
      rw [hr, withRouting_block]
    exact iff_of_true (protected_of_block hs hs' hpin (congrFun hblock p)) id
  | destroyContext ctx => exact destroy_protected hs hpin
  | forkContext src grows handle =>
    obtain ⟨r, hr⟩ := mmuForkContext_routes hs src grows handle
    have hblock : (mmuForkContext mmu src grows handle).2.block = mmu.block := by
      rw [hr, withRouting_block]
    exact iff_of_true (protected_of_block hs hs' hpin (congrFun hblock p)) id
  | allocateBlocks ctx n =>
    obtain ⟨r, m, hr⟩ : ∃ r m, mmuAllocateBlocks mmu ctx n = (r, m) := ⟨_, _, rfl⟩
    simp only [perform, hr] at hs' ⊢
    refine iff_of_true (protected_of_block hs hs' hpin ?_) id
    rcases mmuAllocateBlocks_cases hs hr with
      ⟨_, _, rfl⟩ | ⟨_, _, _, _, _, _, _, _, _, _, rfl⟩ | ⟨c, count, ids, bm, _, _, ht, _, _, hreg⟩
    · rfl
    · rfl
    · apply hreg.blocks
      exact ht.not_mem (hs.live_of_pinned hpin)
  | releaseLogicalBlock ctx lb =>
    obtain ⟨r, m, hr⟩ : ∃ r m, mmuReleaseLogicalBlock mmu ctx lb = (r, m) := ⟨_, _, rfl⟩
    simp only [perform, hr]
    exact release_protected hs hpin hr
  | prepareBlockForWrite ctx lb =>
    obtain ⟨r, m, hr⟩ : ∃ r m, mmuPrepareBlockForWrite mmu ctx lb = (r, m) := ⟨_, _, rfl⟩
    simp only [perform, hr] at hs' ⊢
    obtain ⟨hund, hpins⟩ := prepare_undisplaced hs hr
    exact iff_of_true (protected_of_page hs hs' hpin (hpins p).ge (rawPage_congr (hund.kept p hpin))) id
  | mapLogicalBlock ctx lb flags =>
    obtain ⟨r, m, hr⟩ : ∃ r m, mmuMapLogicalBlock mmu ctx lb flags = (r, m) := ⟨_, _, rfl⟩
    simp only [perform, hr]
    exact map_protected hs hpin hr
  | mapLogicalBlocks ctx lbs flags =>
    obtain ⟨r, m, hr⟩ : ∃ r m, mmuMapLogicalBlocks mmu ctx lbs flags = (r, m) := ⟨_, _, rfl⟩
    simp only [perform, hr]
    exact mapBlocks_protected hs hpin hfits hr
  | unmapLogicalBlock ctx d =>
    obtain ⟨r, m, hr⟩ : ∃ r m, mmuUnmapLogicalBlock mmu ctx d = (r, m) := ⟨_, _, rfl⟩
    simp only [perform, hr] at hs' ⊢
    have hpins := unmap_pin_other hs hr hother
    exact iff_of_true (protected_of_page hs hs' hpin hpins.ge (rawPage_congr (unmap_page hs hr p))) id
  | unmapLogicalBlocks ctx ds =>
    rw [perform_unmaps] at hs' ⊢
    have hne : ∀ d ∈ ds, d.physicalBlockId ≠ p := fun d hd he => hother ⟨d, hd, he⟩
    obtain ⟨hpins, hl1⟩ := @unmapAll_other mmu ctx p ds hs hne
    exact iff_of_true (protected_of_page hs hs' hpin hpins.ge (rawPage_congr hl1)) id
  | hostWrite ctx d offset byte =>
    refine iff_of_true (protected_of_page hs hs' hpin ?_ rfl) id
    show _ ≤ ((hostWrite mmu d offset byte).block p).info.pinCount
    rw [hostWrite_block]
    exact le_rfl

end Protection

/-- A block of context 1 that is mapped and shared with its fork, context 2, and one block more. -/
@[irreducible] def mappedAndShared : MmuRuntime :=
  machine.replay (smallInstance 1 0)
    [.createContext (some 1), .allocateBlocks 1 2, .forkContext 1 (fun _ => true) (some 2),
      .mapLogicalBlock 1 0 mapRead]

theorem mappedAndShared_reachable : Reachable mappedAndShared := by
  unfold mappedAndShared
  exact (smallInstance_reachable 1 0).replay (by decide +kernel)

/-- The mapper may release the block while its fork still refers to it. -/
theorem pinned_page_protected_shared :
    Protected mappedAndShared (perform mappedAndShared (.releaseLogicalBlock 1 0)).2 0 := by
  have hpin : 0 < (mappedAndShared.block 0).info.pinCount := by decide +kernel
  have hrefs : mmuGetRefCount mappedAndShared 0 ≠ 1 := by decide +kernel
  exact (@pinned_page_protected _ 0 mappedAndShared_reachable (.releaseLogicalBlock 1 0) trivial trivial hpin id).mpr
    fun hlast => hrefs hlast.2

/-- A mapping of context 1 is out when its block loses its last reference, the one of context 2; the other
block is then mapped at the same address. -/
theorem released_pin_frees_page :
    let once := (perform mappedAndShared (.releaseLogicalBlock 1 0)).2
    let twice := (perform once (.releaseLogicalBlock 2 0)).2
    Reachable once ∧
      (once.block 0).info.pinCount = 1 ∧ once.l1Pool.rawPage 0 = some ⟨0, 3⟩ ∧
      (twice.block 0).info.pinCount = 0 ∧ twice.l1Pool.rawPage 0 = none ∧
      (mmuMapLogicalBlock twice 2 1 mapRead).1 = .ok ⟨⟨0, 3⟩, 4, 1, 1, mapRead⟩ ∧
      ¬Protected once twice 0 := by
  have hstep := @Reachable.step _ (.releaseLogicalBlock 1 0) mappedAndShared_reachable trivial
  refine ⟨hstep, by decide +kernel, by decide +kernel, by decide +kernel, by decide +kernel, by decide +kernel, ?_⟩
  have hpins : ¬((perform mappedAndShared (.releaseLogicalBlock 1 0)).2.block 0).info.pinCount ≤
      ((perform (perform mappedAndShared (.releaseLogicalBlock 1 0)).2 (.releaseLogicalBlock 2 0)).2.block
        0).info.pinCount := by decide +kernel
  exact fun hprot => hpins hprot.pins

end DsfMmu
