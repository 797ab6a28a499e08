import DsfMmu.BoundaryInvariants
import DsfMmu.Migration

namespace DsfMmu

open MmuRuntime BlockManager Context

section Switch

variable {mmu mmu' : MmuRuntime} {ctx : CtxHandle} {lb : UInt32} {c : Context} {bm : BlockManager} {lvid b new : Int}

theorem Routing.Ok.moved {r : Routing} (h : r.Ok) (found : r.contexts.find? ctx = some c)
    (taken : Taken r.allocator [new] bm) :
    Routing.Ok ⟨(bm.release b).2, r.contexts.insert ctx (c.remapped lvid new)⟩ :=
  ⟨taken.ok.release _, Routing.find?_insert_null h.handles (h.ne_null found)⟩

theorem Routing.Covered.moved {r : Routing} (h : r.Covered) (found : r.contexts.find? ctx = some c)
    (hn : c.Names r.allocator lvid b) (taken : Taken r.allocator [new] bm) :
    Routing.Covered ⟨(bm.release b).2, r.contexts.insert ctx (c.remapped lvid new)⟩ := by
  intro p hun
  have hp := h p hun
  have hbal := (Routing.remapped_balanced (p := p) hn taken).names found
  show _ ≤ (bm.release b).2.refCounts.entry p
  omega

/-- Where every entry has its reference an entry resolves when it names a block. -/
theorem routedBlock_covered (h : mmu.Covered) {k : CtxHandle} {l : UInt32} {q : Int} : routedBlock mmu k l = some q ↔
    ∃ a i, findContext mmu k = some a ∧ u32ToInt l = some i ∧ a.pageTable.get i = some q ∧ q ≠ kUnallocatedBlock := by
  rw [routedBlock_eq_some h.settled]
  constructor
  · intro hex
    obtain ⟨a, i, ha, hi, hn⟩ := hex
    exact ⟨a, i, ha, hi, hn.entry, hn.block⟩
  · intro hex
    obtain ⟨a, i, ha, hi, hget, hun⟩ := hex
    exact ⟨a, i, ha, hi, hget, hun, h.live (findContext_find? ha).2 (PageTable.get_mem hget) hun⟩

/-- What a move does to the entry, and that it does nothing else: the new block reads as zeros. -/
structure Switched (mmu mmu' : MmuRuntime) (ctx : CtxHandle) (lb : UInt32) (b new : Int) : Prop where
  route : routedBlock mmu' ctx lb = some new
  others : ∀ k l, ¬(k = ctx ∧ l = lb) → routedBlock mmu' k l = routedBlock mmu k l
  view : mmu'.view = mmu.view.write ctx lb.toNat fun _ => mmu.zeroPage
  refs : ∀ q, mmuGetRefCount mmu' q =
    if q = new then 1 else if q = b then mmuGetRefCount mmu b - 1 else mmuGetRefCount mmu q

theorem switched_others (h : mmu.Covered) (h' : mmu'.Covered) (hc : findContext mmu ctx = some c)
    (hlvid : u32ToInt lb = some lvid) (hn : c.Names mmu.l1Allocator lvid b)
    (hcontexts : mmu'.contexts = mmu.contexts.insert ctx (c.remapped lvid new)) {k : CtxHandle} {l : UInt32}
    (hother : ¬(k = ctx ∧ l = lb)) : routedBlock mmu' k l = routedBlock mmu k l := by
  apply Option.ext
  intro q
  rw [routedBlock_covered h, routedBlock_covered h']
  by_cases hk : k = ctx
  · subst k
    have hfind : findContext mmu' ctx = some (c.remapped lvid new) :=
      findContext_inserted (findContext_find? hc).1 hcontexts
    have hget : ∀ i, u32ToInt l = some i → (c.remapped lvid new).pageTable.get i = c.pageTable.get i := by
      intro i hi
      have hne : i ≠ lvid := by
        intro heq
        subst heq
        exact hother ⟨rfl, u32ToInt_inj hi hlvid⟩
      show (c.pageTable.set lvid new).get i = _
      rw [PageTable.get_set (PageTable.get_eq_some.mp hn.entry).1, if_neg hne]
    constructor
    · intro hex
      obtain ⟨a, i, ha, hi, hq, hun⟩ := hex
      cases Option.some.inj (hfind.symm.trans ha)
      exact ⟨c, i, hc, hi, (hget i hi).symm.trans hq, hun⟩
    · intro hex
      obtain ⟨a, i, ha, hi, hq, hun⟩ := hex
      cases Option.some.inj (hc.symm.trans ha)
      exact ⟨_, i, hfind, hi, (hget i hi).trans hq, hun⟩
  · have hsame : findContext mmu' k = findContext mmu k := by
      unfold findContext
      rw [hcontexts, KeyedMap.find?_insert, if_neg hk]
    rw [hsame]

/-- Any settled runtime with the new routing, the new block cleared and the rest as it was. -/
theorem switched_of (h : mmu.Covered) (hc : findContext mmu ctx = some c) (hlvid : u32ToInt lb = some lvid)
    (hn : c.Names mmu.l1Allocator lvid b) (ht : Taken mmu.l1Allocator [new] bm) (hs : mmu'.Settled)
    (hr : SameRouting (mmu.withRouting ⟨(bm.release b).2, mmu.contexts.insert ctx (c.remapped lvid new)⟩) mmu')
    (hbytes : ∀ q, mmu'.Live q → mmu'.logicalBytes q = if q = new then mmu.zeroPage else mmu.logicalBytes q) :
    mmu'.Covered ∧ Switched mmu mmu' ctx lb b new := by
  have hfind := (findContext_find? hc).2
  have hrouting : mmu'.routing = ⟨(bm.release b).2, mmu.contexts.insert ctx (c.remapped lvid new)⟩ := hr.routing_eq
  have hcovered : mmu'.Covered := by
    refine ⟨hs, ?_, ?_⟩
    · rw [hrouting]
      exact h.routing.moved hfind ht
    · rw [hrouting]
      exact h.covered.moved hfind hn ht
  have hcontexts : mmu'.contexts = mmu.contexts.insert ctx (c.remapped lvid new) := hr.contexts
  have halloc : mmu'.l1Allocator = (bm.release b).2 := hr.allocator
  have hun : new ≠ kUnallocatedBlock := ht.ne_unallocated (List.mem_singleton_self new)
  have hentry := moved_entry ht hn.live
  have hnew : mmu'.Live new := by
    show 0 < mmu'.l1Allocator.refCounts.entry new
    rw [halloc, hentry, if_pos rfl]
    exact Int.one_pos
  refine ⟨hcovered, ?_, fun k l hother => switched_others h hcovered hc hlvid hn hcontexts hother, ?_, ?_⟩
  · refine (routedBlock_covered hcovered).mpr
      ⟨_, lvid, findContext_inserted (findContext_find? hc).1 hcontexts, hlvid, ?_, hun⟩
    show (c.pageTable.set lvid new).get lvid = some new
    rw [PageTable.get_set (PageTable.get_eq_some.mp hn.entry).1, if_pos rfl]
  · refine view_moved h hcovered hc hlvid hn hun hcontexts ?_ ?_
    · intro q hq hq'
      rw [hbytes q hq', if_neg (ht.ne_new hq)]
    · rw [hbytes new hnew, if_pos rfl]
  · intro q
    have hsize : (bm.release b).2.refCounts.size = mmu.l1Allocator.refCounts.size := (release_size _ _).trans ht.size
    have hvalid : (bm.release b).2.isValid q ↔ mmu.l1Allocator.isValid q := by
      show (bm.release b).2.refCounts.InRange q ↔ mmu.l1Allocator.refCounts.InRange q
      rw [IntTable.inRange_iff_mem, IntTable.inRange_iff_mem, hsize]
    have hv := (ht.free new (List.mem_singleton_self new)).1
    have hb : mmu.l1Allocator.isValid b := h.settled.coherent.sound.refs_inRange.mpr (h.settled.valid hn.live)
    unfold mmuGetRefCount refCount
    rw [halloc]
    by_cases hq : mmu.l1Allocator.isValid q
    · rw [if_pos (hvalid.mpr hq), hentry, if_pos hq, if_pos hb]
    · have hqn : q ≠ new := fun he => hq (he ▸ hv)
      have hqb : q ≠ b := fun he => hq (he ▸ hb)
      rw [if_neg (fun hv' => hq (hvalid.mp hv')), if_neg hqn, if_neg hqb, if_neg hq]

end Switch

section Outcome

variable {mmu mmu' : MmuRuntime} {ctx : CtxHandle} {lb : UInt32} {new p : Int} {tier : MmuTier}

theorem resolveRouting_tiered (hv : mmu.blockDirectory.isValid p) (c : Context) (lvid : Int) :
    (c.resolveRouting (tiered p mmu).blockDirectory lvid).toOption.map (·.physicalBlockId) =
      (c.resolveRouting mmu.blockDirectory lvid).toOption.map (·.physicalBlockId) := by
  unfold Context.resolveRouting
  cases c.pageTable.get lvid with
  | none => rfl
  | some q =>
    dsimp only
    by_cases hun : q = kUnallocatedBlock
    · rw [if_pos hun, if_pos hun]
    · rw [if_neg hun, if_neg hun]
      by_cases hq : mmu.blockDirectory.isValid q
      · have hq' : (tiered p mmu).blockDirectory.isValid q := (BlockDirectory.mutate_isValid _ p q _).mpr hq
        rw [BlockDirectory.get_eq_some hq, BlockDirectory.get_eq_some hq']
        have hentry : (tiered p mmu).blockDirectory.metas.entry q =
            if q = p then { mmu.blockDirectory.metas.entry p with tier := .l2 } else mmu.blockDirectory.metas.entry q :=
          BlockDirectory.mutate_entry hv _ q
        have halloc : ((tiered p mmu).blockDirectory.metas.entry q).allocated =
            (mmu.blockDirectory.metas.entry q).allocated := by
          rw [hentry]
          split
          next heq => rw [heq]
          next => rfl
        dsimp only
        rw [halloc]
        split
        next => rfl
        next => rfl
      · have hq' : ¬(tiered p mmu).blockDirectory.isValid q :=
          fun hc => hq ((BlockDirectory.mutate_isValid _ p q _).mp hc)
        have hnone : mmu.blockDirectory.get q = none := if_neg hq
        have hnone' : (tiered p mmu).blockDirectory.get q = none := if_neg hq'
        rw [hnone, hnone']

theorem routedBlock_tiered (hv : mmu.blockDirectory.isValid p) (k : CtxHandle) (l : UInt32) :
    routedBlock (tiered p mmu) k l = routedBlock mmu k l := by
  have hoption : ∀ m : MmuRuntime, routedBlock m k l = (mmuResolveRouting m k l).toOption.map (·.physicalBlockId) := by
    intro m
    unfold routedBlock
    cases mmuResolveRouting m k l <;> rfl
  have hfind : findContext (tiered p mmu) k = findContext mmu k := rfl
  rw [hoption, hoption]
  unfold mmuResolveRouting
  rw [hfind]
  cases findContext mmu k with
  | none => rfl
  | some c =>
    cases u32ToInt l with
    | none => rfl
    | some i => exact resolveRouting_tiered hv c i

theorem view_tiered (hs : mmu.Sound) (hv : mmu.Valid p) : (tiered p mmu).view = mmu.view := by
  refine view_same (mutate_effect hs hv _).routing fun q => ?_
  unfold logicalBytes
  rw [tiered_block hs hv]
  by_cases hq : q = p
  · rw [hq, Function.update_self]
    rfl
  · rw [Function.update_of_ne hq]
    rfl

/-- The tier of the new block shows in nothing that a move is judged by. -/
theorem Switched.of_tiered {b : Int} (hs : mmu'.Sound) (hv : mmu'.Valid p)
    (h : Switched mmu (tiered p mmu') ctx lb b new) : Switched mmu mmu' ctx lb b new := by
  have hdir := hs.meta_inRange.mpr hv
  refine ⟨?_, fun k l hother => ?_, ?_, h.refs⟩
  · rw [← routedBlock_tiered hdir]
    exact h.route
  · rw [← routedBlock_tiered hdir]
    exact h.others k l hother
  · rw [← view_tiered hs hv]
    exact h.view

/-- The entry names the block it is to move to, or that block is free. -/
def Movable (mmu : MmuRuntime) (ctx : CtxHandle) (lb : UInt32) (new : Int) : Prop :=
  ∃ b, routedBlock mmu ctx lb = some b ∧ (b = new ∨ mmuGetRefCount mmu new = 0)

/-- A block is not sent to L2 under its mappings. -/
def ForcesNone (mmu : MmuRuntime) (ctx : CtxHandle) (lb : UInt32) (new : Int) (tier : MmuTier) : Prop :=
  tier = .l2 → routedBlock mmu ctx lb = some new → (mmu.block new).info.pinCount = 0

/-- All that can come of a move. The switch is not undone when the block cannot be placed. -/
structure UpdateOutcome (mmu mmu' : MmuRuntime) (ctx : CtxHandle) (lb : UInt32) (new : Int) (tier : MmuTier)
    (r : Except MmuError Unit) : Prop where
  refused : ¬Movable mmu ctx lb new → (∃ e, r = .error e) ∧ mmu' = mmu
  placed : Movable mmu ctx lb new → (r = .ok () ∧ OnTier mmu' new tier) ∨ r = .error (placeFault tier)
  kept : routedBlock mmu ctx lb = some new → SameRouting mmu mmu' ∧ mmu'.view = mmu.view
  switched : ∀ b, routedBlock mmu ctx lb = some b → b ≠ new → mmuGetRefCount mmu new = 0 →
    Switched mmu mmu' ctx lb b new
  covered : (Movable mmu ctx lb new → r = .ok ()) → mmu'.Covered

theorem free_refCount (h : mmu.Settled) : mmuGetRefCount mmu new = 0 ↔ new ∈ mmu.l1Allocator.freeList := by
  rw [h.allocator.free_iff]
  unfold mmuGetRefCount refCount
  split
  next hv => simp [hv]
  next hv => simp [hv]

theorem Covered.quiet (h : mmu.Covered) (hq : Quiet mmu.Live mmu mmu') : mmu'.Covered := by
  have hrouting := hq.routing.routing_eq
  refine ⟨hq.settled h.settled, ?_, ?_⟩
  · rw [hrouting]
    exact h.routing
  · rw [hrouting]
    exact h.covered

/-- Whatever comes of the placing, the entry has moved. -/
theorem switched_quiet {c : Context} {bm : BlockManager} {lvid b : Int} {fin : MmuRuntime} (h : mmu.Covered)
    (hc : findContext mmu ctx = some c) (hlvid : u32ToInt lb = some lvid) (hn : c.Names mmu.l1Allocator lvid b)
    (ht : Taken mmu.l1Allocator [new] bm)
    (hq : Quiet (relocated mmu ⟨(bm.release b).2, mmu.contexts.insert ctx (c.remapped lvid new)⟩ new b).Live
      (tiered new (relocated mmu ⟨(bm.release b).2, mmu.contexts.insert ctx (c.remapped lvid new)⟩ new b)) fin) :
    fin.Covered ∧ Switched mmu fin ctx lb b new := by
  obtain ⟨hts, htr, htb⟩ := @relocated_settled _ _ _ _ h.settled
    (mmu.contexts.insert ctx (c.remapped lvid new)) ht hn.live
  refine switched_of h hc hlvid hn ht (hq.settled hts) (htr.trans hq.routing) ?_
  intro q hlive
  have hlive' := (hq.routing.live q).mp hlive
  rw [hq.bytes q, logicalBytes, htb q hlive', htr.zeroPage]
  by_cases hqn : q = new
  · rw [if_pos hqn, hqn, Function.update_self]
    rfl
  · rw [if_neg hqn, Function.update_of_ne hqn]
    rfl

theorem updateMapping_outcome (h : mmu.Covered) (hforce : ForcesNone mmu ctx lb new tier) {r : Except MmuError Unit}
    (hu : mmuTestUpdateMapping mmu ctx lb new tier = (r, mmu')) : UpdateOutcome mmu mmu' ctx lb new tier r := by
  have hs := h.settled
  rcases mmuTestUpdateMapping_cases hs hu with
    ⟨⟨he, rfl⟩, hno⟩ | ⟨hroute, hplace⟩ | ⟨c, lvid, b, bm, hc, hlvid, hn, ht, hplace⟩
  · have hstuck : ¬Movable mmu' ctx lb new := by
      intro hmov
      obtain ⟨b, hb, hcase⟩ := hmov
      obtain ⟨hne, hfree⟩ := hno b hb
      rcases hcase with heq | hzero
      · exact hne heq
      · exact hfree ((free_refCount hs).mp hzero)
    refine ⟨fun _ => ⟨he, rfl⟩, fun hmov => absurd hmov hstuck, fun hroute => ?_, fun b hb hne hzero => ?_, fun _ => h⟩
    · exact absurd ⟨new, hroute, .inl rfl⟩ hstuck
    · exact absurd ⟨b, hb, .inr hzero⟩ hstuck
  · have hlive := routed_live hs hroute
    have hmov : Movable mmu ctx lb new := ⟨new, hroute, .inl rfl⟩
    obtain ⟨hq, hreply⟩ := placeBlock_settled hs hlive (fun ht => hforce ht hroute) hplace
    refine ⟨fun hno => absurd hmov hno, fun _ => hreply, fun _ => ⟨hq.routing, view_same hq.routing hq.bytes⟩, ?_,
      fun _ => Covered.quiet h hq⟩
    intro b hb hne
    exact absurd (Option.some.inj (hb.symm.trans hroute)) hne
  · obtain ⟨hts, htr, htb⟩ := @relocated_settled _ _ _ _ hs (mmu.contexts.insert ctx (c.remapped lvid new)) ht hn.live
    have hroute := (routedBlock_eq_some hs).mpr ⟨c, lvid, hc, hlvid, hn⟩
    have hne : b ≠ new := ht.ne_new hn.live
    have hzero : mmuGetRefCount mmu new = 0 := by
      obtain ⟨hv, hcount⟩ := ht.free new (List.mem_singleton_self new)
      exact (if_pos hv).trans hcount
    have hmov : Movable mmu ctx lb new := ⟨b, hroute, .inr hzero⟩
    have hnew : (relocated mmu ⟨(bm.release b).2, mmu.contexts.insert ctx (c.remapped lvid new)⟩ new b).Live new := by
      apply (htr.live new).mpr
      show 0 < (bm.release b).2.refCounts.entry new
      rw [moved_entry ht hn.live, if_pos rfl]
      exact Int.one_pos
    have hblock := htb new hnew
    rw [tiered_block (sound_of_tiered hts.coherent.sound) (hts.valid hnew), Function.update_self,
      Function.update_self] at hblock
    have hout := congrArg (fun v => v.info.residentInL1) hblock
    have hcase := placeBlock_fresh hts hnew hout hplace
    have hsame : ∀ q, routedBlock mmu ctx lb = some q → q = b :=
      fun q hq => Option.some.inj (hq.symm.trans hroute)
    refine ⟨fun hno => absurd hmov hno, fun _ => ?_, fun hself => absurd (hsame new hself).symm hne, ?_, ?_⟩
    · rcases hcase with ⟨rfl, _, hon⟩ | ⟨rfl, _⟩
      · exact .inl ⟨rfl, hon⟩
      · exact .inr rfl
    · intro q hq _ _
      rw [hsame q hq]
      rcases hcase with ⟨_, hquiet, _⟩ | ⟨_, hquiet⟩
      · exact (switched_quiet h hc hlvid hn ht hquiet).2
      · have hs' := hquiet.coherent.sound
        have hv' : mmu'.Valid new := (hquiet.routing.valid new).mpr (hts.valid hnew)
        exact (switched_quiet h hc hlvid hn ht hquiet).2.of_tiered (sound_of_tiered hs') hv'
    · intro hok
      rcases hcase with ⟨_, hquiet, _⟩ | ⟨rfl, _⟩
      · exact (switched_quiet h hc hlvid hn ht hquiet).1
      · cases hok hmov

end Outcome

/-! Runs that mix the calls of the API with moves. -/

/-- A call of the API, or one of the test hook that moves an entry. -/
inductive TestCall
  | api (call : Call)
  | updateMapping (ctx : CtxHandle) (logicalBlock : UInt32) (newPhysicalBlock : Int) (newTier : MmuTier)

def performTest (mmu : MmuRuntime) : TestCall → Reply × MmuRuntime
  | .api call => perform mmu call
  | .updateMapping ctx lb p tier =>
    match mmuTestUpdateMapping mmu ctx lb p tier with | (r, mmu) => (.status r, mmu)

def TestCall.Permitted (mmu : MmuRuntime) : TestCall → Prop
  | .api call => DsfMmu.Permitted mmu call
  | .updateMapping .. => True

def testMachine : Machine MmuRuntime TestCall Reply := ⟨TestCall.Permitted, performTest⟩

/-- No allocation runs dry, a block that has been moved can be placed, and none is sent to L2 under its mappings. -/
def Orderly (mmu : MmuRuntime) : TestCall → Reply → Prop
  | .api call, reply => NoDryAllocation mmu call reply
  | .updateMapping ctx lb p tier, reply =>
    (Movable mmu ctx lb p → reply = .status (.ok ())) ∧ ForcesNone mmu ctx lb p tier

section Runs

variable {start mmu mmu' : MmuRuntime} {ctx : CtxHandle} {lb : UInt32} {p : Int} {tier : MmuTier}

theorem Orderly.covered (h : mmu.Covered) {call : TestCall} (hp : call.Permitted mmu)
    (ho : Orderly mmu call (performTest mmu call).1) : (performTest mmu call).2.Covered := by
  cases call with
  | api call =>
    have hdry : NoDryAllocation mmu call (perform mmu call).1 := ho
    exact perform_covered h hp hdry
  | updateMapping ctx lb p tier =>
    obtain ⟨r, mid, hu⟩ : ∃ r mid, mmuTestUpdateMapping mmu ctx lb p tier = (r, mid) := ⟨_, _, rfl⟩
    obtain ⟨hreply, hforce⟩ : (Movable mmu ctx lb p → (performTest mmu (.updateMapping ctx lb p tier)).1 =
      .status (.ok ())) ∧ ForcesNone mmu ctx lb p tier := ho
    simp only [performTest, hu, Reply.status.injEq] at hreply ⊢
    exact (updateMapping_outcome h hforce hu).covered hreply

theorem mixed_covered (hstart : Initial start) (hrun : testMachine.Reach Orderly start mmu) : mmu.Covered := by
  refine hrun.invariant (I := MmuRuntime.Covered) ?_ fun s call h hp ho => Orderly.covered h hp ho
  obtain ⟨config, env, rfl⟩ := initial_new hstart
  exact covered_new config env

/-- What directory, pools, counter and counts of references agree on between two calls. -/
structure BoundarySound (mmu : MmuRuntime) : Prop where
  directory : ∀ p : Nat, DirectoryCoherent mmu p
  idle : reclaimUnusedResidentBlocks mmu = mmu
  count : CountExact mmu
  references : mmu.routing.Covered

/-- Moves among the calls of the API break nothing that these keep. -/
theorem mixed_runs_sound (hstart : Initial start) (hrun : testMachine.Reach Orderly start mmu) : BoundarySound mmu := by
  have h := mixed_covered hstart hrun
  have hs := h.settled
  exact ⟨fun p => hs.directoryCoherent (Int.natCast_nonneg p), reclaimUnusedResidentBlocks_self hs,
    hs.coherent.countExact, h.covered⟩

/-- Two blocks in use, one of them mapped; then moves to L2 and into L1, with evictions. -/
def movingCalls : List TestCall :=
  [.api (.createContext (some 1)), .api (.allocateBlocks 1 2), .api (.mapLogicalBlock 1 0 mapWrite),
    .updateMapping 1 1 3 .l2, .api (.unmapLogicalBlock 1 firstMapping), .updateMapping 1 0 2 .l1,
    .updateMapping 1 1 3 .l1]

def movedInstance : MmuRuntime := testMachine.replay (smallInstance 2 0) movingCalls

theorem movingCalls_orderly : testMachine.Meets Orderly (smallInstance 2 0) movingCalls := by
  have hfresh : FreshHandle (smallInstance 2 0) (some 1) := by decide +kernel
  have hdry : ¬RunsDry (machine.replay (smallInstance 2 0) [.createContext (some 1)]) 1 2 := by decide +kernel
  have hother : routedBlock (testMachine.replay (smallInstance 2 0) (movingCalls.take 3)) 1 1 ≠ some 3 := by
    decide +kernel
  refine ⟨hfresh, trivial, trivial, hdry, trivial, trivial, trivial, ⟨?_, fun _ hroute => absurd hroute hother⟩,
    trivial, trivial, trivial, ⟨?_, nofun⟩, trivial, ⟨?_, nofun⟩, trivial⟩ <;>
  · intro _
    decide +kernel

theorem mixed_runs_sound_moved : BoundarySound movedInstance :=
  mixed_runs_sound (smallInstance_initial 2 0) (Machine.Reach.start.replay movingCalls_orderly)

/-- A move to a free block loses the entry's data and shows nowhere else. -/
theorem move_outcome (hstart : Initial start) (hrun : testMachine.Reach Orderly start mmu)
    (hforce : ForcesNone mmu ctx lb p tier) {r : Except MmuError Unit}
    (hu : mmuTestUpdateMapping mmu ctx lb p tier = (r, mmu')) : UpdateOutcome mmu mmu' ctx lb p tier r :=
  updateMapping_outcome (mixed_covered hstart hrun) hforce hu

theorem move_outcome_moved : UpdateOutcome movedInstance (mmuTestUpdateMapping movedInstance 1 0 1 .l1).2 1 0 1 .l1
    (mmuTestUpdateMapping movedInstance 1 0 1 .l1).1 :=
  move_outcome (smallInstance_initial 2 0) (Machine.Reach.start.replay movingCalls_orderly)
    (fun htier => by cases htier) Prod.mk.eta.symm

end Runs

end DsfMmu
