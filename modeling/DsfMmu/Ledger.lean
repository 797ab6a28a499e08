import DsfMmu.CapacityRange
import DsfMmu.FlatRuntime
import DsfMmu.PinProtection

namespace DsfMmu

open MmuRuntime BlockManager Context

/-- The books such a client can keep without asking: its slots, what it has mapped, the free blocks, and how many
touches there may have been. -/
structure Ledger where
  config : ResolvedConfig
  world : EagerWorld CtxHandle Bytes
  maps : List Holding
  free : Nat
  touches : Nat

namespace Ledger

def zeroPage (a : Ledger) : Bytes := List.replicate a.config.blockSizeBytes 0

def session (a : Ledger) : Session := ⟨a.world, a.maps⟩

/-- The entries mapped at least once. -/
def held (a : Ledger) : Finset (CtxHandle × UInt32) := (a.maps.map fun x => (x.1, x.2.logicalBlockId)).toFinset

/-- One more entry fits in L1 beside all that are held. -/
def Admits (a : Ledger) (ctx : CtxHandle) (lb : UInt32) : Prop :=
  (insert (ctx, lb) a.held).card ≤ a.config.l1ResidentBlockLimit

instance (a : Ledger) (ctx : CtxHandle) (lb : UInt32) : Decidable (a.Admits ctx lb) :=
  inferInstanceAs (Decidable ((insert (ctx, lb) a.held).card ≤ a.config.l1ResidentBlockLimit))

def create (a : Ledger) (ctx : CtxHandle) : Ledger := { a with world := a.world.create ctx }

def allocate (a : Ledger) (ctx : CtxHandle) (n : Nat) : Ledger :=
  { a with world := a.world.allocate ctx n a.zeroPage, free := a.free - n, touches := a.touches + n }

def release (a : Ledger) (ctx : CtxHandle) (i : Nat) : Ledger :=
  { a with world := a.world.release ctx i, free := a.free + 1 }

def tick (a : Ledger) (n : Nat) : Ledger := { a with touches := a.touches + n }

def map (a : Ledger) (ctx : CtxHandle) (d : MappedBlock) : Ledger := { a.tick 2 with maps := (ctx, d) :: a.maps }

def unmap (a : Ledger) (ctx : CtxHandle) (d : MappedBlock) : Ledger :=
  { a.tick 1 with maps := a.maps.erase (ctx, d) }

def store (a : Ledger) (ctx : CtxHandle) (d : MappedBlock) (offset : Nat) (byte : UInt8) : Ledger :=
  { a with world := a.world.write ctx d.logicalBlockId.toNat (·.set offset byte) }

end Ledger

theorem short_update {w : EagerWorld CtxHandle Bytes} {ctx : CtxHandle} {slots : Option (List (Option Bytes))}
    (h : ∀ k l, w k = some l → l.length < 2 ^ 31) (hslots : ∀ l, slots = some l → l.length < 2 ^ 31)
    (k : CtxHandle) (l : List (Option Bytes)) (hl : Function.update w ctx slots k = some l) : l.length < 2 ^ 31 := by
  by_cases hk : k = ctx
  · subst hk
    rw [Function.update_self] at hl
    exact hslots l hl
  · rw [Function.update_of_ne hk] at hl
    exact h k l hl

/-- The runtime keeps up with the ledger. -/
structure Serves (mmu : MmuRuntime) (a : Ledger) : Prop where
  config : mmu.config = a.config
  simulates : Simulates mmu a.session
  pins : ∀ b, (mmu.block b).info.pinCount = holders a.maps b
  single : ∀ b, mmu.l1Allocator.refCounts.entry b ≤ 1
  short : ∀ ctx l, a.world ctx = some l → l.length < 2 ^ 31
  free : mmuGetFreeBlockCount mmu = a.free
  clock : ∃ touches, touches.length ≤ a.touches ∧ Clocked mmu touches

section Serves

variable {mmu mmu' : MmuRuntime} {a : Ledger} {ctx : CtxHandle} {lb flags : UInt32} {b : Int} {bytes : Bytes}

theorem Serves.covered (h : Serves mmu a) : mmu.Covered := h.simulates.provisioned.covered

theorem Serves.settled (h : Serves mmu a) : mmu.Settled := h.covered.settled

theorem Serves.world (h : Serves mmu a) : mmu.view = a.world := h.simulates.world

theorem Serves.zeroPage (h : Serves mmu a) : mmu.zeroPage = a.zeroPage := by
  unfold MmuRuntime.zeroPage Ledger.zeroPage
  rw [h.config]

theorem Serves.roomy (h : Serves mmu a) : ∃ touches, touches.length ≤ a.touches ∧ Roomy mmu touches := by
  obtain ⟨touches, hlen, hclocked⟩ := h.clock
  exact ⟨touches, hlen, h.settled, h.simulates.provisioned.l2, h.simulates.provisioned.grants, hclocked⟩

/-- A slot is an entry that resolves, to a block of its own. -/
theorem Serves.slot (h : Serves mmu a) (hslot : a.world.slot ctx lb.toNat = some bytes) :
    ∃ b, routedBlock mmu ctx lb = some b ∧ entryAt mmu ctx lb.toNat = some b ∧ b ≠ kUnallocatedBlock ∧
      mmu.l1Allocator.refCounts.entry b = 1 := by
  obtain ⟨l, hl, _⟩ := EagerWorld.slot_some hslot
  rw [← h.world] at hslot
  obtain ⟨b, hentry, hun, _⟩ := slot_eq_some.mp hslot
  have hlive : 0 < mmu.l1Allocator.refCounts.entry b := h.covered.entry_live hentry hun
  have hle := h.single b
  have hview : mmu.view ctx = some l := by
    rw [h.world]
    exact hl
  exact ⟨b, routed_of_entry h.covered hview (h.short ctx l hl) hentry hun, hentry, hun, by omega⟩

theorem Serves.sole (h : Serves mmu a) {i : Nat} (hentry : entryAt mmu ctx i = some b) (hun : b ≠ kUnallocatedBlock) :
    SoleEntry mmu b ctx i := by
  have hlive : 0 < mmu.l1Allocator.refCounts.entry b := h.covered.entry_live hentry hun
  have hle := h.single b
  exact h.covered.sole hun (by omega) hentry

theorem holders_le (maps : List Holding) (b : Int) : holders maps b ≤ maps.length := List.countP_le_length

/-- The pinned blocks are the blocks of the entries held. -/
theorem Serves.mem_pinned (h : Serves mmu a) : b ∈ mmu.pinnedBlocks ↔ ∃ x ∈ a.maps, x.2.physicalBlockId = b := by
  rw [mem_pinnedBlocks h.settled, h.pins]
  constructor
  · intro hpos
    exact exists_holder (by omega)
  · intro hex
    obtain ⟨x, hx, hb⟩ := hex
    rw [← hb]
    exact holders_pos hx

/-- No block is shared, so pinned blocks are counted by the entries that hold them. -/
theorem Serves.pinned_card (h : Serves mmu a) (hentry : entryAt mmu ctx lb.toNat = some b) (hun : b ≠ kUnallocatedBlock) :
    (insert b mmu.pinnedBlocks).card = (insert (ctx, lb) a.held).card := by
  have hnames : ∀ e ∈ insert (ctx, lb) a.held, ∃ q, entryAt mmu e.1 e.2.toNat = some q ∧ q ≠ kUnallocatedBlock := by
    intro e he
    rcases Finset.mem_insert.mp he with rfl | he
    · exact ⟨b, hentry, hun⟩
    · obtain ⟨x, hx, rfl⟩ := List.mem_map.mp (List.mem_toFinset.mp he)
      exact ⟨_, h.simulates.maps.entry x hx, h.simulates.maps.block x hx⟩
  have himage : insert b mmu.pinnedBlocks =
      (insert (ctx, lb) a.held).image fun e => (entryAt mmu e.1 e.2.toNat).getD b := by
    ext q
    rw [Finset.mem_insert, h.mem_pinned, Finset.mem_image]
    constructor
    · intro hq
      rcases hq with rfl | ⟨x, hx, rfl⟩
      · exact ⟨(ctx, lb), Finset.mem_insert_self .., by rw [hentry]; rfl⟩
      · refine ⟨(x.1, x.2.logicalBlockId), ?_, by rw [h.simulates.maps.entry x hx]; rfl⟩
        exact Finset.mem_insert_of_mem (List.mem_toFinset.mpr (List.mem_map.mpr ⟨x, hx, rfl⟩))
    · intro hq
      obtain ⟨e, he, rfl⟩ := hq
      rcases Finset.mem_insert.mp he with rfl | he
      · left
        rw [hentry]
        rfl
      · obtain ⟨x, hx, rfl⟩ := List.mem_map.mp (List.mem_toFinset.mp he)
        right
        exact ⟨x, hx, by rw [h.simulates.maps.entry x hx]; rfl⟩
  rw [himage, Finset.card_image_of_injOn]
  intro e he e' he' heq
  obtain ⟨q, hq, hqun⟩ := hnames e he
  obtain ⟨q', hq', _⟩ := hnames e' he'
  dsimp only at heq
  rw [hq, hq', Option.getD_some, Option.getD_some] at heq
  subst heq
  obtain ⟨hctx, hidx⟩ := h.sole hq hqun e'.1 e'.2.toNat hq'
  exact Prod.ext hctx.symm (UInt32.toNat_inj.mp hidx.symm)

/-- Nothing the client sees depends on the order of its mappings. -/
theorem Serves.perm (h : Serves mmu a) {maps : List Holding} (hp : a.maps.Perm maps) :
    Serves mmu { a with maps := maps } :=
  ⟨h.config, ⟨h.simulates.provisioned, h.simulates.world, h.simulates.maps.perm hp⟩,
    fun b => (h.pins b).trans (hp.countP_eq _), h.single, h.short, h.free, h.clock⟩

/-- A held page shows the bytes of its slot. -/
theorem Serves.read (h : Serves mmu a) {d : MappedBlock} (hd : (ctx, d) ∈ a.maps) :
    a.world.slot ctx d.logicalBlockId.toNat = some (hostRead mmu d) :=
  h.simulates.refines.held (ctx, d) hd

end Serves

section Calls

variable {mmu mmu' : MmuRuntime} {a : Ledger} {ctx : CtxHandle} {lb flags : UInt32} {bytes : Bytes} {d : MappedBlock}

theorem ensured_length (mmu : MmuRuntime) (ctx : CtxHandle) (lb flags : UInt32) : (ensured mmu ctx lb flags).length ≤ 1 := by
  have htouched : ∀ r p, (touchedBy r p).length ≤ 1 := by
    intro r p
    cases r <;> simp [touchedBy]
  unfold ensured
  split
  next => simp
  next =>
    split
    next => simp
    next => exact htouched _ _

theorem mapTouches_length (mmu : MmuRuntime) (ctx : CtxHandle) (lb flags : UInt32) :
    (mapTouches mmu ctx lb flags).length ≤ 2 := by
  have hensured := ensured_length mmu ctx lb flags
  unfold mapTouches
  rw [List.length_append]
  cases (mmuMapLogicalBlock mmu ctx lb flags).1 with
  | ok d =>
    rw [show (handedOutBlock (.ok d)).length = 1 from rfl]
    omega
  | error e =>
    rw [show (handedOutBlock (.error e)).length = 0 from rfl]
    omega

/-- What the client is told of a mapping. -/
structure Granted (a : Ledger) (lb flags : UInt32) (d : MappedBlock) : Prop where
  entry : d.logicalBlockId = lb
  flags : d.mapFlags = flags
  size : d.sizeBytes = a.config.blockSizeBytes

/-- A slot can be mapped exactly where it fits beside what is held. -/
theorem Serves.map (h : Serves mmu a) (hflags : validateMapFlags flags = true)
    (hslot : a.world.slot ctx lb.toNat = some bytes) (hfree : hasWrite flags = true → NotHeld a.maps ctx lb)
    (hpins : a.maps.length + 1 < 2 ^ 32) (hclock : a.touches < maxEpoch) :
    (a.Admits ctx lb ∧ ∃ d mmu', mmuMapLogicalBlock mmu ctx lb flags = (.ok d, mmu') ∧ Granted a lb flags d ∧
        Serves mmu' (a.map ctx d)) ∨
      (¬a.Admits ctx lb ∧ ∃ mmu', mmuMapLogicalBlock mmu ctx lb flags = (.error .outOfMemory, mmu') ∧
        Serves mmu' (a.tick 2)) := by
  have hs := h.settled
  obtain ⟨b, hroute, hentry, hun, hone⟩ := h.slot hslot
  obtain ⟨touches, hlen, hroomy⟩ := h.roomy
  have hlt : touches.length < maxEpoch := hlen.trans_lt hclock
  have hroom : (mmu.block b).info.pinCount + 1 < 2 ^ 32 := by
    rw [h.pins]
    have hle := holders_le a.maps b
    omega
  have hadmits : Starved mmu b ↔ ¬a.Admits ctx lb := by
    rw [starved_iff hs hroomy.l2 (hroomy.behind hlt), h.pinned_card hentry hun, h.config]
    exact Nat.not_le.symm
  obtain ⟨r, mmu', hm⟩ : ∃ r mmu', mmuMapLogicalBlock mmu ctx lb flags = (r, mmu') := ⟨_, _, rfl⟩
  have hstep := map_step hs hm
  have hbracket : MapBracketed a.maps mmu ctx lb flags := by
    refine ⟨hfree, ?_⟩
    rw [hm]
    cases r with
    | error e => trivial
    | ok d =>
      obtain ⟨_, hmapped, _⟩ := mapPrivate_entered hs hflags hroute (fun _ => hone) hroom hm
      show (mmu.block d.physicalBlockId).info.pinCount + 1 < 2 ^ 32
      rw [hmapped.physical]
      exact hroom
  have hsim : Simulates (perform mmu (.mapLogicalBlock ctx lb flags)).2 _ := h.simulates.step trivial hbracket
  have hclocked := map_clocked hs hroomy.clocked hm
  have htouches : (mapTouches mmu ctx lb flags ++ touches).length ≤ a.touches + 2 := by
    have hle := mapTouches_length mmu ctx lb flags
    rw [List.length_append]
    omega
  simp only [perform, hm] at hsim
  rcases mapPrivate_outcome hs hroomy.grants hflags hroute (fun _ => hone) with ⟨hst, m, heq⟩ | ⟨hst, d, m, heq⟩
  · cases hm.symm.trans heq
    refine .inr ⟨hadmits.mp hst, mmu', hm, ?_⟩
    have hquiet : SameRouting mmu mmu' := by
      obtain ⟨c, lvid, hc, hlvid, hn⟩ := (routedBlock_eq_some hs).mp hroute
      rw [mmuMapLogicalBlock_private hs hflags hc hlvid hn (fun _ => hone)] at hm
      exact (mapResolved_error hs hm).1.routing
    refine ⟨hquiet.config.trans h.config, hsim, ?_, ?_, h.short, ?_, ⟨_, htouches, hclocked⟩⟩
    · intro q
      exact (hstep.pins q).trans (h.pins q)
    · intro q
      rw [hquiet.allocator]
      exact h.single q
    · show mmu'.l1Allocator.freeList.length = a.free
      rw [hquiet.allocator]
      exact h.free
  · cases hm.symm.trans heq
    have hfits : a.Admits ctx lb := not_not.mp (mt hadmits.mpr hst)
    obtain ⟨hent, hmapped, hlb, hmf⟩ := mapPrivate_entered hs hflags hroute (fun _ => hone) hroom hm
    have hsize : d.sizeBytes = a.config.blockSizeBytes := by
      obtain ⟨c, lvid, hc, hlvid, hn⟩ := (routedBlock_eq_some hs).mp hroute
      rw [mmuMapLogicalBlock_private hs hflags hc hlvid hn (fun _ => hone)] at hm
      rw [mapResolved_size hs hm, h.config]
    refine .inl ⟨hfits, d, mmu', hm, ⟨hlb, hmf, hsize⟩, hent.routing.config.trans h.config, hsim, ?_, ?_, h.short, ?_,
      ⟨_, htouches, hclocked⟩⟩
    · intro q
      rw [hmapped.pins, h.pins, h.pins, nextPinCount_lt (by rw [← h.pins]; exact hroom)]
      show _ = holders ((ctx, d) :: a.maps) q
      rw [holders_cons, hmapped.physical]
      by_cases hq : q = b
      · rw [if_pos hq, if_pos hq.symm, hq]
      · rw [if_neg hq, if_neg (fun he => hq he.symm)]
        rfl
    · intro q
      rw [hent.routing.allocator]
      exact h.single q
    · show mmu'.l1Allocator.freeList.length = a.free
      rw [hent.routing.allocator]
      exact h.free

/-- Nothing is out and nothing allocated on a fresh instance. -/
theorem Serves.fresh (h : Initial mmu) (hl2 : mmu.config.l2BlockCount = mmu.config.l1BlockCount)
    (hhost : ∀ n, mmu.host.reply n = .granted) (hint : mmu.config.l1BlockCount < 2 ^ 31) :
    Serves mmu ⟨mmu.config, EagerWorld.none, [], mmu.config.l1BlockCount, 0⟩ := by
  have hsim := Simulates.start h hl2 hhost
  have hclocked := new_clocked h
  obtain ⟨config, env, rfl⟩ := initial_new h
  refine ⟨rfl, hsim, fun b => rfl, fun b => zero_le_one, ?_, ?_, [], le_rfl, hclocked⟩
  · intro ctx l hl
    cases hl
  · have hcast : staticCastInt config.l1BlockCount = (config.l1BlockCount : Int) := staticCastInt_of_lt hint
    show (countDown (staticCastInt config.l1BlockCount).toNat).length = config.l1BlockCount
    rw [length_countDown, hcast, Int.toNat_natCast]

theorem Serves.create (h : Serves mmu a) (hctx : ctx ≠ nullHandle) (hnew : a.world ctx = none) :
    ∃ mmu', mmuCreateContext mmu (some ctx) = (.ok ctx, mmu') ∧ Serves mmu' (a.create ctx) := by
  have hfresh : FreshHandle mmu (some ctx) := by
    refine ⟨hctx, ?_⟩
    have hview : mmu.view ctx = none := by rw [h.world, hnew]
    exact Option.map_eq_none_iff.mp hview
  have hsim : Simulates (perform mmu (.createContext (some ctx))).2 _ := h.simulates.step hfresh trivial
  obtain ⟨touches, hlen, hclocked⟩ := h.clock
  refine ⟨_, rfl, h.config, hsim, h.pins, h.single, ?_, h.free, touches, hlen, hclocked.same rfl rfl⟩
  apply short_update h.short
  intro l hl
  cases Option.some.inj hl
  exact Nat.two_pow_pos 31

/-- An allocation is granted exactly where enough blocks are free. -/
theorem Serves.allocate (h : Serves mmu a) {l : List (Option Bytes)} (hl : a.world ctx = some l) {n : UInt32}
    (hshort : l.length + n.toNat < 2 ^ 31) :
    (n.toNat ≤ a.free ∧ ∃ mmu', mmuAllocateBlocks mmu ctx n = (.ok (), mmu') ∧ Serves mmu' (a.allocate ctx n.toNat)) ∨
      (a.free < n.toNat ∧ ∃ mmu', mmuAllocateBlocks mmu ctx n = (.error .outOfMemory, mmu')) := by
  obtain ⟨r, mmu', hr⟩ : ∃ r mmu', mmuAllocateBlocks mmu ctx n = (r, mmu') := ⟨_, _, rfl⟩
  have hfree : mmu.l1Allocator.freeList.length = a.free := h.free
  obtain ⟨hfound, hn⟩ : findContext mmu ctx ≠ none ∧ u32ToInt n ≠ none := by
    have hview : mmu.view ctx = some l := by rw [h.world, hl]
    obtain ⟨c, hc, _⟩ := Option.map_eq_some_iff.mp hview
    refine ⟨?_, ?_⟩
    · rw [(Settled.findContext h.covered.routing.handles).mpr hc]
      exact Option.some_ne_none c
    · unfold u32ToInt
      rw [if_neg (by omega)]
      exact Option.some_ne_none _
  rcases mmuAllocateBlocks_cases h.settled hr with
    ⟨hmiss, _⟩ | ⟨c, count, ids, bm, hc, hcount, ht, hlen, hempty, rfl, _⟩ |
    ⟨c, count, ids, bm, hc, hcount, ht, hlen, rfl, hreg⟩
  · rcases hmiss with hmiss | hmiss
    · exact absurd hmiss hfound
    · exact absurd hmiss hn
  · right
    have hall := ht.all hempty
    have hle := (u32ToInt_eq_some hcount).1
    exact ⟨by omega, mmu', hr⟩
  · left
    have hle := (u32ToInt_eq_some hcount).1
    have htaken := ht.length
    have hok : (perform mmu (.allocateBlocks ctx n)).1 = .status (.ok ()) := by simp only [perform, hr]
    have hbracket : Bracketed (mmu, a.session) (.allocateBlocks ctx n) (perform mmu (.allocateBlocks ctx n)).1 := by
      rw [hok]
      intro hcontra
      cases hcontra
    have hsim : Simulates (perform mmu (.allocateBlocks ctx n)).2 _ := h.simulates.step trivial hbracket
    rw [hok] at hsim
    simp only [perform, hr] at hsim
    have hallocator : mmu'.l1Allocator = bm := congrArg Routing.allocator hreg.routing
    have hcontexts : mmu'.contexts = mmu.contexts.insert ctx (c.grown ids) := congrArg Routing.contexts hreg.routing
    refine ⟨by omega, mmu', hr, hreg.setup.config.trans h.config, ?_, ?_, ?_, ?_, ?_, ?_⟩
    · rw [Session.step, h.zeroPage] at hsim
      exact hsim
    · intro b
      show (mmu'.block b).info.pinCount = holders a.maps b
      by_cases hb : b ∈ ids
      · -- a block just taken from the free list cannot have been held
        have hnone : holders a.maps b = 0 := by
          by_contra hne
          obtain ⟨x, hx, rfl⟩ := exists_holder hne
          have hlive : 0 < mmu.l1Allocator.refCounts.entry x.2.physicalBlockId := h.simulates.maps.live h.covered hx
          have hzero := (ht.free _ hb).2
          omega
        rw [hnone, IsFresh.unpinned (hreg.fresh b hb)]
      · rw [hreg.blocks b hb, h.pins]
    · intro b
      rw [hallocator, ht.entry]
      split
      next => exact le_rfl
      next => exact h.single b
    · apply short_update h.short
      intro l' hl'
      rw [hl] at hl'
      cases Option.some.inj hl'
      rw [List.length_append, List.length_replicate]
      exact hshort
    · show mmu'.l1Allocator.freeList.length = a.free - n.toNat
      rw [hallocator]
      omega
    · obtain ⟨touches, hlen', hclocked⟩ := h.clock
      refine ⟨_, ?_, allocate_clocked h.settled hclocked hr⟩
      have hnew : (residentNew mmu mmu' ctx).length ≤ ids.length := by
        unfold residentNew
        rw [newBlocks_grown hc hcontexts, List.length_reverse]
        exact List.length_filter_le _ _
      show (residentNew mmu mmu' ctx ++ touches).length ≤ a.touches + n.toNat
      rw [List.length_append]
      omega

/-- A slot that nobody holds can be given up, and its block is free again. -/
theorem Serves.release (h : Serves mmu a) (hslot : a.world.slot ctx lb.toNat = some bytes) (hfree : NotHeld a.maps ctx lb) :
    ∃ mmu', mmuReleaseLogicalBlock mmu ctx lb = (.ok (), mmu') ∧ Serves mmu' (a.release ctx lb.toNat) := by
  have hs := h.settled
  obtain ⟨b, hroute, hentry, hun, hone⟩ := h.slot hslot
  obtain ⟨r, mmu', hr⟩ : ∃ r mmu', mmuReleaseLogicalBlock mmu ctx lb = (r, mmu') := ⟨_, _, rfl⟩
  have hsim : Simulates (perform mmu (.releaseLogicalBlock ctx lb)).2 _ := h.simulates.step trivial hfree
  simp only [perform, hr] at hsim
  obtain ⟨c, lvid, hc, hlvid, hn⟩ := (routedBlock_eq_some hs).mp hroute
  have hflat := flat_release hs ctx lb
  have hnone := h.sole hentry hun
  rcases mmuReleaseLogicalBlock_cases hs hr with ⟨⟨e, rfl⟩, _⟩ | ⟨c', lvid', b', hc', hlvid', hn', rfl, hforgot⟩
  · obtain ⟨_, hok⟩ := mmuReleaseLogicalBlock_routed hs hroute
    cases hr.symm.trans hok
  · cases hc.symm.trans hc'
    cases hlvid.symm.trans hlvid'
    obtain rfl : b = b' := Option.some.inj (hn.entry.symm.trans hn'.entry)
    have hallocator : mmu'.l1Allocator = (mmu.l1Allocator.release b).2 := congrArg Routing.allocator hforgot.routing
    have hcount : ∀ q, mmu'.l1Allocator.refCounts.entry q = if q = b then 0 else mmu.l1Allocator.refCounts.entry q := by
      intro q
      rw [hallocator, hs.allocator.release_entry]
      by_cases hq : q = b
      · subst hq
        rw [if_pos ⟨rfl, by omega⟩, if_pos rfl, hone]
        rfl
      · rw [if_neg (fun hand => hq hand.1), if_neg hq]
    refine ⟨mmu', hr, hforgot.setup.config.trans h.config, hsim, ?_, ?_, ?_, ?_, ?_⟩
    · intro q
      have hpins : (mmu'.block q).info.pinCount = mmu'.flat.pins q := rfl
      rw [hpins, hforgot.flat]
      show (if 0 < (mmu.l1Allocator.release b).2.refCounts.entry q then (mmu.block q).info.pinCount else 0) = holders a.maps q
      rw [← hallocator, hcount]
      by_cases hq : q = b
      · -- the entry given up was the only one to name the block, and it is not held
        subst hq
        rw [if_pos rfl, if_neg (lt_irrefl 0)]
        by_contra hne
        obtain ⟨x, hx, hxb⟩ := exists_holder (Ne.symm hne)
        have hxe := h.simulates.maps.entry x hx
        rw [hxb] at hxe
        obtain ⟨hctx, hidx⟩ := hnone x.1 _ hxe
        exact hfree x hx ⟨hctx, UInt32.toNat_inj.mp hidx⟩
      · rw [if_neg hq, ← h.pins]
        split
        next => rfl
        next hdead => rw [hs.coherent.unused hdead]; rfl
    · intro q
      rw [hcount]
      split
      next => exact zero_le_one
      next => exact h.single q
    · apply short_update h.short
      intro l hl
      obtain ⟨l', hl', rfl⟩ := Option.map_eq_some_iff.mp hl
      rw [List.length_set]
      exact h.short ctx l' hl'
    · show mmu'.l1Allocator.freeList.length = a.free + 1
      rw [hallocator, hs.allocator.release_eq, if_pos (by omega), if_pos hone, List.length_append, ← h.free]
      rfl
    · obtain ⟨touches, hlen, hclocked⟩ := h.clock
      exact ⟨touches, hlen, hforgot.clocked hclocked⟩

/-- Every mapping can be given back. -/
theorem Serves.unmap (h : Serves mmu a) (hd : (ctx, d) ∈ a.maps) :
    ∃ mmu', mmuUnmapLogicalBlock mmu ctx d = (.ok (), mmu') ∧ Serves mmu' (a.unmap ctx d) := by
  have hs := h.settled
  have hentry := h.simulates.maps.entry _ hd
  have hun := h.simulates.maps.block _ hd
  have hlive := h.simulates.maps.live h.covered hd
  obtain ⟨touches, hlen, hroomy⟩ := h.roomy
  obtain ⟨l, hl, _⟩ := EagerWorld.slot_some (h.read hd)
  have hview : mmu.view ctx = some l := by rw [h.world, hl]
  have hroute : routedBlock mmu ctx d.logicalBlockId = some d.physicalBlockId :=
    routed_of_entry h.covered hview (h.short ctx l hl) hentry hun
  obtain ⟨mmu', hu⟩ := (unmapPinned_outcome hs hlive).1 (hroomy.writes_back hlive)
  rw [← mmuUnmapLogicalBlock_routed hs hroute] at hu
  have hsim : Simulates (perform mmu (.unmapLogicalBlock ctx d)).2 _ := h.simulates.step trivial hd
  simp only [perform, hu] at hsim
  have hunpinned := (mmuUnmapLogicalBlock_accepted hs hroute hu).2
  refine ⟨mmu', hu, hunpinned.routing.config.trans h.config, hsim, ?_, ?_, h.short, ?_, ?_⟩
  · intro q
    have hcount := holders_erase hd q
    show (mmu'.block q).info.pinCount = holders (a.maps.erase (ctx, d)) q
    rw [hunpinned.pins]
    by_cases hq : q = d.physicalBlockId
    · rw [if_pos hq, h.pins, ← hq]
      rw [if_pos hq.symm] at hcount
      omega
    · rw [if_neg hq, h.pins]
      rw [if_neg (fun he => hq he.symm)] at hcount
      omega
  · intro q
    rw [hunpinned.routing.allocator]
    exact h.single q
  · show mmu'.l1Allocator.freeList.length = a.free
    rw [hunpinned.routing.allocator]
    exact h.free
  · refine ⟨_, ?_, unmap_clocked hs hroomy.clocked hu⟩
    show (unmapTouches mmu ctx d ++ touches).length ≤ a.touches + 1
    unfold unmapTouches
    rw [hu, List.length_append]
    show 1 + touches.length ≤ a.touches + 1
    omega

/-- A store through a WRITE mapping goes to its slot. -/
theorem Serves.store (h : Serves mmu a) (hd : (ctx, d) ∈ a.maps) (hw : hasWrite d.mapFlags = true) {offset : Nat}
    (hoff : offset < d.sizeBytes) (byte : UInt8) :
    Serves (hostWrite mmu d offset byte) (a.store ctx d offset byte) := by
  have hsim : Simulates (perform mmu (.hostWrite ctx d offset byte)).2 _ := h.simulates.step trivial ⟨hd, hw, hoff⟩
  obtain ⟨touches, hlen, hclocked⟩ := h.clock
  refine ⟨h.config, hsim, ?_, h.single, ?_, h.free, touches, hlen, hclocked.untouched rfl (fun q hq => ⟨hq, rfl⟩)⟩
  · exact h.pins
  · apply short_update h.short
    intro l hl
    obtain ⟨l', hl', rfl⟩ := Option.map_eq_some_iff.mp hl
    rw [List.length_modify]
    exact h.short ctx l' hl'

end Calls

section Batches

variable {mmu mmu' : MmuRuntime} {a : Ledger} {ctx : CtxHandle} {flags : UInt32}

/-- The books after a batch of mappings of one context. -/
def Ledger.mapAll (a : Ledger) (ctx : CtxHandle) (ds : List MappedBlock) : Ledger :=
  { a.tick (2 * ds.length) with maps := ds.map (Prod.mk ctx) ++ a.maps }

theorem Ledger.held_insert (a : Ledger) (ctx : CtxHandle) (d : MappedBlock) :
    (a.map ctx d).held = insert (ctx, d.logicalBlockId) a.held := by
  unfold Ledger.held
  exact List.toFinset_cons

theorem NotHeld.notMem_held {lb : UInt32} (hfree : NotHeld a.maps ctx lb) : (ctx, lb) ∉ a.held := by
  intro hmem
  obtain ⟨x, hx, heq⟩ := List.mem_map.mp (List.mem_toFinset.mp hmem)
  obtain ⟨hctx, hlb⟩ := Prod.mk.inj heq
  exact hfree x hx ⟨hctx, hlb⟩

/-- What is not held comes on top of what is. -/
theorem Ledger.admits_iff {lb : UInt32} (hfree : NotHeld a.maps ctx lb) :
    a.Admits ctx lb ↔ a.held.card + 1 ≤ a.config.l1ResidentBlockLimit := by
  unfold Ledger.Admits
  rw [Finset.card_insert_of_notMem hfree.notMem_held]

/-- Entries not held can be mapped together exactly where they all fit beside what is held. -/
theorem Serves.mapsLoop (lbs : List UInt32) {done : List MappedBlock} (h : Serves mmu a)
    (hflags : validateMapFlags flags = true) (hslots : ∀ lb ∈ lbs, ∃ bytes, a.world.slot ctx lb.toNat = some bytes)
    (hfree : ∀ lb ∈ lbs, NotHeld a.maps ctx lb) (hnodup : lbs.Nodup)
    (hheld : a.held.card ≤ a.config.l1ResidentBlockLimit) (hpins : a.maps.length + lbs.length < 2 ^ 32)
    (hclock : a.touches + 2 * lbs.length < maxEpoch + 2) {r : Except MmuError (List MappedBlock)}
    (hm : mapBlocksLoop ctx flags lbs done mmu = (r, mmu')) :
    (a.held.card + lbs.length ≤ a.config.l1ResidentBlockLimit ∧ ∃ ds, r = .ok (done ++ ds) ∧
        List.Forall₂ (Granted a · flags ·) lbs ds ∧ Serves mmu' (a.mapAll ctx ds)) ∨
      (a.config.l1ResidentBlockLimit < a.held.card + lbs.length ∧ r = .error .outOfMemory) := by
  induction lbs generalizing mmu a done with
  | nil =>
    cases hm
    refine .inl ⟨hheld, [], ?_, .nil, h⟩
    rw [List.append_nil]
  | cons lb rest ih =>
    rw [List.length_cons] at hpins hclock
    obtain ⟨hlb, hrest⟩ := List.nodup_cons.mp hnodup
    obtain ⟨bytes, hslot⟩ := hslots lb List.mem_cons_self
    have hnot := hfree lb List.mem_cons_self
    have hfits := Ledger.admits_iff hnot
    rcases h.map hflags hslot (fun _ => hnot) (by omega) (by omega) with
      ⟨hadmits, d, mid, hmap, hgranted, hserves⟩ | ⟨hfull, mid, hmap, hserves⟩
    · have hcard : (a.map ctx d).held.card = a.held.card + 1 := by
        rw [Ledger.held_insert, hgranted.entry]
        exact Finset.card_insert_of_notMem hnot.notMem_held
      have hfree' : ∀ l ∈ rest, NotHeld (a.map ctx d).maps ctx l := by
        intro l hl x hx
        rcases List.mem_cons.mp hx with rfl | hx
        · rintro ⟨_, hxl⟩
          rw [hgranted.entry] at hxl
          exact hlb (hxl ▸ hl)
        · exact hfree l (List.mem_cons_of_mem _ hl) x hx
      unfold mapBlocksLoop at hm
      rw [hmap] at hm
      have hstep := ih hserves (fun l hl => hslots l (List.mem_cons_of_mem _ hl)) hfree' hrest
        (by rw [hcard]; exact hfits.mp hadmits) (by show a.maps.length + 1 + rest.length < 2 ^ 32; omega)
        (by show a.touches + 2 + 2 * rest.length < maxEpoch + 2; omega) hm
      rw [hcard] at hstep
      rcases hstep with ⟨hroom, ds, rfl, hall, hserved⟩ | ⟨hroom, rfl⟩
      · have hall' : List.Forall₂ (Granted a · flags ·) rest ds := hall.imp fun _ _ hg => ⟨hg.entry, hg.flags, hg.size⟩
        refine .inl ⟨?_, d :: ds, ?_, .cons hgranted hall', ?_⟩
        · rw [List.length_cons]
          have hlim : (a.map ctx d).config.l1ResidentBlockLimit = a.config.l1ResidentBlockLimit := rfl
          omega
        · rw [List.append_assoc]
          rfl
        · have hswap : ((a.map ctx d).mapAll ctx ds).maps.Perm (a.mapAll ctx (d :: ds)).maps := List.perm_middle
          have hticks : (a.map ctx d).touches + 2 * ds.length = a.touches + 2 * (d :: ds).length := by
            show a.touches + 2 + 2 * ds.length = _
            rw [List.length_cons]
            omega
          have hserved' := hserved.perm hswap
          unfold Ledger.mapAll Ledger.tick at hserved' ⊢
          rw [← hticks]
          exact hserved'
      · refine .inr ⟨?_, rfl⟩
        rw [List.length_cons]
        have hlim : (a.map ctx d).config.l1ResidentBlockLimit = a.config.l1ResidentBlockLimit := rfl
        omega
    · unfold mapBlocksLoop at hm
      rw [hmap] at hm
      cases hm
      refine .inr ⟨?_, rfl⟩
      have hless := mt hfits.mpr hfull
      rw [List.length_cons]
      omega

theorem Serves.maps (h : Serves mmu a) {lbs : List UInt32} (hflags : validateMapFlags flags = true)
    (hslots : ∀ lb ∈ lbs, ∃ bytes, a.world.slot ctx lb.toNat = some bytes)
    (hfree : ∀ lb ∈ lbs, NotHeld a.maps ctx lb) (hnodup : lbs.Nodup)
    (hheld : a.held.card ≤ a.config.l1ResidentBlockLimit) (hpins : a.maps.length + lbs.length < 2 ^ 32)
    (hclock : a.touches + 2 * lbs.length < maxEpoch + 2) :
    (a.held.card + lbs.length ≤ a.config.l1ResidentBlockLimit ∧
        ∃ ds mmu', mmuMapLogicalBlocks mmu ctx lbs flags = (.ok ds, mmu') ∧
          List.Forall₂ (Granted a · flags ·) lbs ds ∧ Serves mmu' (a.mapAll ctx ds)) ∨
      (a.config.l1ResidentBlockLimit < a.held.card + lbs.length ∧
        ∃ mmu', mmuMapLogicalBlocks mmu ctx lbs flags = (.error .outOfMemory, mmu')) := by
  obtain ⟨r, mmu', hm⟩ : ∃ r mmu', mmuMapLogicalBlocks mmu ctx lbs flags = (r, mmu') := ⟨_, _, rfl⟩
  rcases h.mapsLoop lbs hflags hslots hfree hnodup hheld hpins hclock hm with ⟨hroom, ds, rfl, hall, hserves⟩ | ⟨hfull, rfl⟩
  · exact .inl ⟨hroom, ds, mmu', hm, hall, hserves⟩
  · exact .inr ⟨hfull, mmu', hm⟩

/-- All of a batch can be given back, in any order. -/
theorem Serves.unmaps (h : Serves mmu a) (ds : List MappedBlock) {maps : List Holding}
    (hds : a.maps.Perm (ds.map (Prod.mk ctx) ++ maps)) :
    ∃ mmu', mmuUnmapLogicalBlocks mmu ctx ds = (.ok (), mmu') ∧
      Serves mmu' { a.tick ds.length with maps := maps } := by
  unfold mmuUnmapLogicalBlocks
  induction ds generalizing mmu a with
  | nil => exact ⟨mmu, rfl, h.perm hds⟩
  | cons d rest ih =>
    obtain ⟨mid, hunmap, hserves⟩ := h.unmap (hds.mem_iff.mpr (List.mem_append_left _ List.mem_cons_self))
    have hrest : (a.unmap ctx d).maps.Perm (rest.map (Prod.mk ctx) ++ maps) := by
      have herase := hds.erase (ctx, d)
      rw [List.map_cons, List.cons_append, List.erase_cons_head] at herase
      exact herase
    obtain ⟨mmu', hunmaps, hserved⟩ := ih hserves hrest
    refine ⟨mmu', ?_, ?_⟩
    · unfold unmapBlocksLoop
      rw [hunmap]
      exact hunmaps
    · have hticks : a.touches + (d :: rest).length = a.touches + 1 + rest.length := by
        rw [List.length_cons]
        omega
      unfold Ledger.tick
      rw [hticks]
      exact hserved

end Batches

end DsfMmu
