import DsfMmu.EscapingRuns
import DsfMmu.ReferenceCounting

namespace DsfMmu

namespace Escaping

open MmuRuntime Throwing BlockManager Context

variable {mmu : MmuRuntime}

/-- The free list is the set of blocks that have no reference. -/
theorem free_count (ha : mmu.l1Allocator.Ok) (ht : mmu.Tables) :
    mmuGetFreeBlockCount mmu = ((IntTable.indices mmu.config.l1BlockCount).filter
      (fun p => mmu.l1Allocator.refCounts.entry p = 0)).card := by
  have hset : mmu.l1Allocator.freeList.toFinset = (IntTable.indices mmu.config.l1BlockCount).filter
      (fun p => mmu.l1Allocator.refCounts.entry p = 0) := by
    ext p
    rw [List.mem_toFinset, ha.free_iff, Finset.mem_filter, ht.refs_inRange]
    rfl
  rw [← hset, List.toFinset_card_of_nodup ha.nodup]
  rfl

/-- What exact counting means for the callers of the API. -/
structure ExactlyCounted (mmu : MmuRuntime) : Prop where
  counts : ∀ p : Nat, p < mmu.config.l1BlockCount → mmuGetRefCount mmu p = mmu.routing.names p
  once : ∀ ctx c, findContext mmu ctx = some c → ∀ p : Nat, c.pageTable.names p ≤ 1
  resolves : ∀ ctx c i b, findContext mmu ctx = some c → c.pageTable.entries[i]? = some b →
    b ≠ kUnallocatedBlock →
      ∃ route, mmuResolveRouting mmu ctx (UInt32.ofNat i) = .ok route ∧ route.physicalBlockId = b
  free : mmuGetFreeBlockCount mmu + mmu.routing.named.card = mmu.config.l1BlockCount
  allocated_new : ∀ g ctx n mmu' c c', mmuAllocateBlocks g mmu ctx n = (.ok (.ok ()), mmu') →
    findContext mmu ctx = some c → findContext mmu' ctx = some c' →
      ∀ b ∈ c'.pageTable.entries.drop c.pageTable.entries.length, mmu.routing.names b = 0
  cow_new : ∀ room ctx lb before p mmu', mmuResolveRouting mmu ctx lb = .ok before →
    mmuPrepareBlockForWrite room mmu ctx lb = (.ok (.ok p), mmu') → p ≠ before.physicalBlockId →
      mmu.routing.names p = 0

section Exact

theorem names_of_live (ha : mmu.l1Allocator.Ok) (he : mmu.routing.Exact) {c : Context} {ctx : CtxHandle} {b : Int}
    (hc : findContext mmu ctx = some c) (hb : b ∈ c.pageTable.entries) (hun : b ≠ kUnallocatedBlock) :
    mmu.Live b := by
  have hpos : 0 < c.pageTable.names b := PageTable.names_pos.mpr hb
  have hle := Routing.names_le mmu.routing (findContext_find? hc).2 b
  have hcount := he.counts b hun
  have hn := ha.nonneg b
  show 0 < mmu.l1Allocator.refCounts.entry b
  have : mmu.routing.allocator.refCounts.entry b = mmu.l1Allocator.refCounts.entry b := rfl
  omega

/-- An entry of an addressable table leads to its block. -/
theorem entry_resolves (ha : mmu.l1Allocator.Ok) (ht : mmu.Tables)
    (hreg : ∀ p, mmu.Live p → (mmu.blockDirectory.metas.entry p).allocated = true) (he : mmu.routing.Exact)
    (hshort : mmu.routing.Short) {ctx : CtxHandle} {c : Context} {i : Nat} {b : Int}
    (hc : findContext mmu ctx = some c) (hi : c.pageTable.entries[i]? = some b) (hb : b ≠ kUnallocatedBlock) :
    ∃ route, mmuResolveRouting mmu ctx (UInt32.ofNat i) = .ok route ∧ route.physicalBlockId = b := by
  have hlen := hshort ctx c (findContext_find? hc).2
  have hilt := (List.getElem?_eq_some_iff.mp hi).1
  have hget : c.pageTable.get i = some b := by
    apply PageTable.get_eq_some.mpr
    refine ⟨⟨Int.natCast_nonneg i, ?_⟩, ?_⟩
    · rw [staticCastInt_of_lt hlen]
      omega
    · rw [Int.toNat_natCast]
      exact hi
  have hlive := names_of_live ha he hc (List.mem_of_getElem? hi) hb
  have hvalid : mmu.blockDirectory.isValid b :=
    ht.meta_inRange.mpr (ht.refs_inRange.mp (ha.valid_of_pos hlive))
  refine ⟨⟨(mmu.blockDirectory.metas.entry b).tier, b, b.toNat * c.blockSizeBytes % 2 ^ 64⟩, ?_, rfl⟩
  unfold mmuResolveRouting
  rw [hc]
  dsimp only
  rw [u32ToInt_ofNat (by omega)]
  dsimp only
  unfold Context.resolveRouting
  rw [hget]
  dsimp only
  rw [if_neg hb]
  unfold BlockDirectory.get
  rw [if_pos hvalid]
  dsimp only
  rw [if_neg (by simp [hreg b hlive])]

/-- The blocks that entries name are the blocks with a reference. -/
theorem named_eq_counted (ha : mmu.l1Allocator.Ok) (ht : mmu.Tables) (he : mmu.routing.Exact) :
    mmu.routing.named = (IntTable.indices mmu.config.l1BlockCount).filter
      (fun p => ¬mmu.l1Allocator.refCounts.entry p = 0) := by
  ext p
  rw [Routing.mem_named, Finset.mem_filter]
  have hn := ha.nonneg p
  have hsame : mmu.routing.allocator.refCounts.entry p = mmu.l1Allocator.refCounts.entry p := rfl
  constructor
  · intro hboth
    obtain ⟨hp, hpos⟩ := hboth
    have hcount := he.counts p hp
    have hlive : 0 < mmu.l1Allocator.refCounts.entry p := by omega
    exact ⟨ht.refs_inRange.mp (ha.valid_of_pos hlive), by omega⟩
  · intro hboth
    obtain ⟨hv, hne⟩ := hboth
    have hp : p ≠ kUnallocatedBlock := by
      intro heq
      subst heq
      exact hne (Routing.unallocated_zero ha)
    have hcount := he.counts p hp
    exact ⟨hp, by omega⟩

/-- No entry named a block that an allocation hands out. -/
theorem allocated_unnamed (ha : mmu.l1Allocator.Ok) (ht : mmu.Tables) (he : mmu.routing.Exact) {g : Grants}
    {ctx : CtxHandle} {n : UInt32} {mmu' : MmuRuntime} {c c' : Context}
    (hall : mmuAllocateBlocks g mmu ctx n = (.ok (.ok ()), mmu')) (hc : findContext mmu ctx = some c)
    (hc' : findContext mmu' ctx = some c') {b : Int}
    (hb : b ∈ c'.pageTable.entries.drop c.pageTable.entries.length) : mmu.routing.names b = 0 := by
  rcases mmuAllocateBlocks_outcomes ha ht g ctx n with
    ⟨e, -, heq⟩ | ⟨s, heq, -⟩ | ⟨c1, count, mid, hc1, -, -, hswept, hout⟩
  · rw [hall] at heq
    cases heq
  · rw [hall] at heq
    cases heq
  · cases Option.some.inj (hc.symm.trans hc1)
    rw [hall] at hout
    cases hout with
    | @registered ids bm s taken all fresh =>
      have hcontexts : mmu'.contexts = mmu.contexts.insert ctx (c.grown ids) := fresh.routing.contexts
      have hfind := (findContext_find? hc').2
      rw [hcontexts, KeyedMap.find?_insert, if_pos rfl] at hfind
      have heq : c' = c.grown ids := (Option.some.inj hfind).symm
      have hids : b ∈ ids := by
        rw [heq, grown, List.drop_left] at hb
        exact hb
      exact he.names_zero (taken.ne_unallocated hids) (taken.free b hids).2

/-- Nor the block that a write preparation moves an entry to. -/
theorem prepared_unnamed (ha : mmu.l1Allocator.Ok) (ht : mmu.Tables) (he : mmu.routing.Exact) {room : Room}
    {ctx : CtxHandle} {lb : UInt32} {before : PhysicalRoute} {p : Int} {mmu' : MmuRuntime}
    (hroute : mmuResolveRouting mmu ctx lb = .ok before)
    (hprep : mmuPrepareBlockForWrite room mmu ctx lb = (.ok (.ok p), mmu')) (hne : p ≠ before.physicalBlockId) :
    mmu.routing.names p = 0 := by
  rcases (mmuPrepareBlockForWrite_lands room ha ht).returned hprep with ⟨-, hsame⟩ | ⟨new, hs, hp⟩
  · exact absurd (hsame p before rfl hroute) hne
  · rw [hp p rfl]
    refine he.names_zero ?_ hs.unused
    intro hun
    have hvalid := ht.refs_inRange.mpr hs.valid
    rw [hun] at hvalid
    exact absurd hvalid.1 (by decide)

theorem exactlyCounted_of_exact (ha : mmu.l1Allocator.Ok) (ht : mmu.Tables)
    (hreg : ∀ p, mmu.Live p → (mmu.blockDirectory.metas.entry p).allocated = true) (he : mmu.routing.Exact)
    (hshort : mmu.routing.Short) (hsmall : mmu.config.l1BlockCount < 2 ^ 31) : ExactlyCounted mmu := by
  have hun : ∀ p : Nat, (p : Int) ≠ kUnallocatedBlock := by
    intro p
    have : kUnallocatedBlock < 0 := by decide
    omega
  refine ⟨?_, ?_, ?_, ?_, ?_, ?_⟩
  · intro p hp
    have hv := ht.refs_inRange.mpr ((valid_iff_lt hsmall p).mpr hp)
    exact (refCount_valid hv).trans (he.counts p (hun p))
  · intro ctx c hc p
    exact he.once ctx c (findContext_find? hc).2 p (hun p)
  · intro ctx c i b hc hi hb
    exact entry_resolves ha ht hreg he hshort hc hi hb
  · rw [free_count ha ht, named_eq_counted ha ht he, Finset.card_filter_add_card_filter_not, card_valid hsmall]
  · intro g ctx n mmu' c c' hall hc hc' b hb
    exact allocated_unnamed ha ht he hall hc hc' hb
  · intro room ctx lb before p mmu' hroute hprep hne
    exact prepared_unnamed ha ht he hroute hprep hne

end Exact

section Runs

/-- No allocation runs out of blocks. -/
def NoExhaustion : StepCondition := fun _ step outcome =>
  match step.1 with
  | .allocateBlocks _ _ => outcome ≠ .ok (.status (.error .outOfMemory))
  | _ => True

instance (mmu : MmuRuntime) (step : Call × Grants) (outcome : Except BadAlloc Reply) :
    Decidable (NoExhaustion mmu step outcome) := by
  unfold NoExhaustion
  cases step.1 <;> infer_instance

/-- An allocation that appends its blocks leaves the table addressable. -/
def StaysShort (mmu : MmuRuntime) (ctx : CtxHandle) (n : UInt32) (g : Grants) : Prop :=
  (∀ site, ¬Refused site mmu (.allocateBlocks ctx n, g)) → n.toNat < 2 ^ 31 → n.toNat ≤ mmuGetFreeBlockCount mmu →
    ∀ c, findContext mmu ctx = some c → c.pageTable.entries.length + n.toNat < 2 ^ 31

/-- No allocation is left by a `bad_alloc` after it has taken a block, no fork leaks a reference, and no table
outgrows an `int`. -/
def KeepsCounts : StepCondition := fun mmu step _ =>
  ¬Refused .append mmu step ∧ ¬Refused .insert mmu step ∧
    match step.1 with
    | .allocateBlocks ctx n => StaysShort mmu ctx n step.2
    | .forkContext src grows _ => ¬LeakyFork mmu src grows
    | _ => True

/-- The two conditions together. -/
def CountingCondition : StepCondition := fun mmu step outcome =>
  NoExhaustion mmu step outcome ∧ KeepsCounts mmu step outcome

theorem allocation_refused {g : Grants} {ctx : CtxHandle} {n : UInt32} {site : BadAlloc}
    (h : (mmuAllocateBlocks g mmu ctx n).1 = .error site) : Refused site mmu (.allocateBlocks ctx n, g) := by
  show (andThen (mmuAllocateBlocks g mmu ctx n) _).1 = .error site
  obtain ⟨r, s, hx⟩ : ∃ r s, mmuAllocateBlocks g mmu ctx n = (r, s) := ⟨_, _, rfl⟩
  rw [hx] at h ⊢
  have hr : r = .error site := h
  rw [hr]
  rfl

theorem allocation_returned {g : Grants} {ctx : CtxHandle} {n : UInt32} {r : Except MmuError Unit}
    (h : (mmuAllocateBlocks g mmu ctx n).1 = .ok r) :
    (perform g mmu (.allocateBlocks ctx n)).1 = .ok (.status r) := by
  show (andThen (mmuAllocateBlocks g mmu ctx n) _).1 = _
  obtain ⟨r', s, hx⟩ : ∃ r s, mmuAllocateBlocks g mmu ctx n = (r, s) := ⟨_, _, rfl⟩
  rw [hx] at h ⊢
  have hr : r' = .ok r := h
  rw [hr]
  rfl

/-- A step that meets the condition makes steps of the routing that keep counting exact. -/
theorem counting_events {step : Call × Grants} (h : CountingCondition mmu step (perform step.2 mmu step.1).1) :
    StepEvents (fun m => (∀ n, m ≠ .blocksExhausted n) ∧ m ≠ .appendRefused ∧ ∀ n, m = .tableGrown n → n < 2 ^ 31)
      mmu step := by
  obtain ⟨call, g⟩ := step
  obtain ⟨hno, -, hinsert, hkeep⟩ := h
  cases call with
  | allocateBlocks ctx n =>
    refine ⟨fun hdry => absurd (allocation_returned hdry) hno, ?_⟩
    intro hout hlt hfree c hc
    have hshort : StaysShort mmu ctx n g := hkeep
    refine ⟨fun _ => nofun, nofun, ?_⟩
    rintro _ ⟨⟩
    rcases hout with hok | hthrown
    · refine hshort ?_ hlt hfree c hc
      intro site href
      have hret := allocation_returned hok
      unfold Refused at href
      dsimp only at href
      rw [hret] at href
      cases href
    · exact absurd (allocation_refused hthrown) hinsert
  | forkContext src grows handle =>
    have hsound : ¬LeakyFork mmu src grows := hkeep
    exact fun hl => absurd hl hsound
  | _ => trivial

/-- The sites from which a `bad_alloc` does no harm to the counts. -/
def Harmless (site : BadAlloc) : Prop := site ≠ .append ∧ site ≠ .insert

theorem reachable_exact (h : ReachableBy CountingCondition mmu) :
    Standing Harmless mmu ∧ mmu.routing.Exact ∧ mmu.routing.Short := by
  refine h.invariant (I := fun mmu => Standing Harmless mmu ∧ mmu.routing.Exact ∧ mmu.routing.Short) ?_ ?_
  · intro s hs
    obtain ⟨config, env, rfl⟩ := initial_new hs
    have hempty : ∀ ctx, (MmuRuntime.new config env).routing.contexts.find? ctx = none :=
      fun ctx => KeyedMap.find?_empty _ ctx
    refine ⟨initial_standing _ hs, ⟨fun _ _ => rfl, ?_⟩, ?_⟩
    · intro ctx c hc
      rw [hempty] at hc
      cases hc
    · intro ctx c hc
      rw [hempty] at hc
      cases hc
  · intro s step hboth hp hmeets
    obtain ⟨hs, hexact, hshort⟩ := hboth
    have hseen : ∀ site, Refused site s step → Harmless site := by
      intro site href
      refine ⟨?_, ?_⟩
      · rintro rfl
        exact hmeets.2.1 href
      · rintro rfl
        exact hmeets.2.2.1 href
    obtain ⟨hs', -, hrun⟩ := perform_standing hs hp ⟨fun _ => nofun, nofun, fun _ => nofun⟩ (counting_events hmeets) hseen
    obtain ⟨-, hexact', hshort'⟩ := (hrun hmeets.2.1).invariant (I := fun r => r.Ok ∧ r.Exact ∧ r.Short)
      ⟨hs.routing, hexact, hshort⟩
      (fun a m b hi hm hstep => ⟨hi.1.step hstep, hi.2.1.step hi.1 hstep hm.1 hm.2.1,
        hi.2.2.step hstep hm.1 hm.2.2⟩)
    exact ⟨hs', hexact', hshort'⟩

/-- Exact reference counting along every run that meets the condition, whatever else fails or throws in it. -/
theorem reference_counts_exact (h : ReachableBy CountingCondition mmu)
    (hsmall : mmu.config.l1BlockCount < 2 ^ 31) : ExactlyCounted mmu := by
  obtain ⟨hs, hexact, hshort⟩ := reachable_exact h
  exact exactlyCounted_of_exact hs.allocator hs.tables
    (hs.registered (fun hseen => hseen.1 rfl) (fun hseen => hseen.2 rfl)) hexact hshort hsmall

/-- Two contexts over two blocks, one of them shared, and a refused reserve on the way. -/
def sharingSteps : List (Call × Grants) :=
  [(.createContext (some 1), allGranted), (.allocateBlocks 1 2, allGranted),
    (.allocateBlocks 1 1, { allGranted with reserve := false }),
    (.forkContext 1 (fun _ => true) (some 2), allGranted), (.prepareBlockForWrite 2 0, allGranted)]

theorem not_leaky (mmu : MmuRuntime) (src : CtxHandle) : ¬LeakyFork mmu src (fun _ => true) := by
  intro hex
  obtain ⟨c, b, _, i, _, hfail, _⟩ := hex
  cases hfail

theorem sharing_meets : machine.Meets CountingCondition (smallInstance 1 0) sharingSteps := by
  have hctx : findContext (machine.replay (smallInstance 1 0) (sharingSteps.take 1)) 1 = some ⟨.empty, 4⟩ := by
    decide +kernel
  have hshort : StaysShort (machine.replay (smallInstance 1 0) (sharingSteps.take 1)) 1 2 allGranted := by
    intro _ _ _ c hc
    cases Option.some.inj (hctx.symm.trans hc)
    decide
  have hrefused : StaysShort (machine.replay (smallInstance 1 0) (sharingSteps.take 2)) 1 1
      { allGranted with reserve := false } := by
    intro hno
    exact absurd (by decide +kernel) (hno .reserve)
  exact ⟨by decide +kernel, ⟨trivial, by decide +kernel, by decide +kernel, trivial⟩,
    by decide +kernel, ⟨by decide +kernel, by decide +kernel, by decide +kernel, hshort⟩,
    by decide +kernel, ⟨by decide +kernel, by decide +kernel, by decide +kernel, hrefused⟩,
    by decide +kernel, ⟨trivial, by decide +kernel, by decide +kernel, not_leaky _ _⟩,
    by decide +kernel, ⟨trivial, by decide +kernel, by decide +kernel, trivial⟩, trivial⟩

theorem reference_counts_exact_sharing :
    ExactlyCounted (machine.replay (smallInstance 1 0) sharingSteps) :=
  reference_counts_exact ⟨_, smallInstance_initial 1 0, Machine.Reach.start.replay sharing_meets⟩
    (by decide +kernel)

/-- A fork whose table finds no room for its only entry. -/
def leakingSteps : List (Call × Grants) :=
  [(.createContext (some 1), allGranted), (.allocateBlocks 1 1, allGranted),
    (.forkContext 1 (fun _ => false) (some 2), allGranted)]

theorem leaking_meets : machine.Meets NoExhaustion (smallInstance 1 0) leakingSteps := by
  exact ⟨by decide +kernel, trivial, by decide +kernel, by decide +kernel, by decide +kernel, trivial, trivial⟩

/-- After the leak the block has two references and one entry. -/
theorem leaky_fork_miscounts :
    ReachableBy NoExhaustion (machine.replay (smallInstance 1 0) leakingSteps) ∧
      (machine.replay (smallInstance 1 0) leakingSteps).config.l1BlockCount < 2 ^ 31 ∧
      ¬ExactlyCounted (machine.replay (smallInstance 1 0) leakingSteps) := by
  refine ⟨⟨_, smallInstance_initial 1 0, Machine.Reach.start.replay leaking_meets⟩, by decide +kernel, ?_⟩
  intro h
  have hrefs : mmuGetRefCount (machine.replay (smallInstance 1 0) leakingSteps) (0 : Nat) ≠
      (machine.replay (smallInstance 1 0) leakingSteps).routing.names (0 : Nat) := by decide +kernel
  exact hrefs (h.counts 0 (by decide +kernel))

end Runs

end Escaping

end DsfMmu
