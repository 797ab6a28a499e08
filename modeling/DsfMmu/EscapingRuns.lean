import DsfMmu.EscapingCalls
import DsfMmu.Invariants

namespace DsfMmu

namespace Escaping

open MmuRuntime Throwing BlockManager Context

variable {seen : BadAlloc → Prop} {events : Event → Prop} {mmu mmu' : MmuRuntime} {room : Room} {p : Int}
  {g : Grants} {ctx : CtxHandle} {lb flags : UInt32}

section Maps

theorem ensureResidentInL1_carried (h : Standing seen mmu) (p : Int) :
    Lands (ensureResidentInL1 room mmu p) (fun _ s => Carried seen events mmu s) (Thrown seen events mmu) := by
  have hup := ensureResidentInL1_upkeep room h.allocator h.tables p
  by_cases hseen : seen .resetBlockData
  · refine hup.mono ?_ ?_
    · intro _ s hs
      exact h.storage hs (fun hno => absurd hseen hno)
    · intro e s hs
      refine ⟨?_, fun _ => h.storage hs.2 (fun hno => absurd hseen hno)⟩
      rcases hs.1 with rfl | rfl
      · exact .inl rfl
      · exact .inr (.inl rfl)
  · refine (hup.and (ensureResidentInL1_tallied room h.allocator h.tables (h.tallied hseen) p)).mono ?_ ?_
    · intro _ s hs
      exact h.storage hs.1 (fun _ => hs.2)
    · intro e s hs
      exact ⟨.inr (.inl hs.2.1), fun _ => h.storage hs.1.2 (fun _ => hs.2.2)⟩

/-- One part of a call after another. -/
theorem Carried.lands {α : Type} {mid : MmuRuntime} {x : Throwing BadAlloc MmuRuntime α}
    (h : Carried seen events mmu mid)
    (hx : Lands x (fun _ s => Carried seen events mid s) (Thrown seen events mid)) :
    Lands x (fun _ s => Carried seen events mmu s) (Thrown seen events mmu) :=
  hx.mono (fun _ _ hs => h.trans hs) (fun _ _ hs => h.thrown hs)

theorem minor_incrementPinCount {d : BlockDirectory} (hpin : mmu.blockDirectory.incrementPinCount p = (true, d)) :
    Minor p mmu (mmu.setDirectory d) := by
  unfold BlockDirectory.incrementPinCount at hpin
  split at hpin
  next =>
    obtain ⟨-, rfl⟩ := Prod.mk.inj hpin
    exact minor_mutate mmu p (fun _ => ⟨rfl, rfl⟩)
  next => cases hpin

theorem mapResolved_carried (h : Standing seen mmu) (c : Context) (lvid : Int) :
    Lands (mapResolved room mmu c lvid lb flags) (fun _ s => Carried seen events mmu s) (Thrown seen events mmu) := by
  unfold mapResolved
  split
  next => exact h.carried
  next route hroute =>
    have hlive := h.routed hroute
    dsimp only
    refine ((ensureResidentInL1_carried h route.physicalBlockId).and
      (ensureResidentInL1_upkeep room h.allocator h.tables route.physicalBlockId)).andThen (fun _ _ hs => hs.1) ?_
    intro resident mid hmid
    obtain ⟨hcarried, hup⟩ := hmid
    have hlive' : ∀ s, SameRouting mid s → ¬seen .resetBlockData → s.Live route.physicalBlockId :=
      fun s hs hno => ((hup.routing.trans hs).live _).mpr (hlive hno)
    cases resident with
    | error status => exact hcarried
    | ok u =>
      have hacq := minor_acquirePage mid .l1 route.physicalBlockId
      dsimp only
      split
      next heq =>
        rw [heq] at hacq
        exact hcarried.trans (hcarried.standing.minor hacq (hlive' mid (.refl mid)))
      next slot s heq =>
        rw [heq] at hacq
        have hpaged : Carried seen events mmu s :=
          hcarried.trans (hcarried.standing.minor hacq (hlive' mid (.refl mid)))
        split
        next => exact hpaged
        next d hpin =>
          have hpinned := (minor_incrementPinCount hpin).trans (minor_touchBlock _ _)
          exact hpaged.trans (hpaged.standing.minor hpinned (hlive' s hacq.routing))

theorem mmuMapLogicalBlock_carried (h : Standing seen mmu) (hplain : events .plain) :
    Lands (mmuMapLogicalBlock room mmu ctx lb flags) (fun _ s => Carried seen events mmu s)
      (Thrown seen events mmu) := by
  unfold mmuMapLogicalBlock
  split
  next => exact h.carried
  next =>
    split
    next => exact h.carried
    next c hc =>
      split
      next => exact h.carried
      next lvid hlvid =>
        split
        next =>
          refine (mmuPrepareBlockForWrite_carried h hplain).andThen (fun _ _ hs => hs) ?_
          intro prepared mid hmid
          cases prepared with
          | error status => exact hmid
          | ok b =>
            dsimp only
            split
            next => exact hmid
            next c' hc' =>
              exact hmid.lands (mapResolved_carried hmid.standing c' lvid)
        next => exact mapResolved_carried h c lvid

theorem mmuUnmapLogicalBlock_carried (h : Standing seen mmu) (ctx : CtxHandle) (d : MappedBlock) :
    Carried seen events mmu (mmuUnmapLogicalBlock mmu ctx d).2 := by
  unfold mmuUnmapLogicalBlock
  split
  next => exact h.carried
  next c hc =>
    dsimp only
    split
    next => exact h.carried
    next =>
      split
      next => exact h.carried
      next lvid hlvid =>
        split
        next => exact h.carried
        next route hroute =>
          split
          next => exact h.carried
          next hsame =>
            have hlive := h.routed hroute
            rw [not_not.mp hsame] at hlive
            split
            next => exact h.carried
            next =>
              split
              next => exact h.carried
              next => exact h.minor (minor_unmapPinned _ _ _ _) hlive

theorem unmapAll_carried (h : Standing seen mmu) (ctx : CtxHandle) (ds : List MappedBlock) :
    Carried seen events mmu (unmapAll ctx ds mmu) := by
  induction ds generalizing mmu with
  | nil => exact h.carried
  | cons d rest ih =>
    have hone : Carried seen events mmu (mmuUnmapLogicalBlock mmu ctx d).2 := mmuUnmapLogicalBlock_carried h ctx d
    exact hone.trans (ih hone.standing)

theorem mapBlocksLoop_carried (h : Standing seen mmu) (hplain : events .plain) (i : Nat) (lbs : List UInt32)
    (done : List MappedBlock) :
    Lands (mapBlocksLoop g ctx flags i lbs done mmu) (fun _ s => Carried seen events mmu s)
      (Thrown seen events mmu) := by
  induction lbs generalizing mmu i done with
  | nil => exact h.carried
  | cons lb rest ih =>
    unfold mapBlocksLoop
    refine (mmuMapLogicalBlock_carried h hplain).andThen (fun _ _ hs => hs) ?_
    intro r mid hmid
    cases r with
    | error status => exact hmid.trans (unmapAll_carried hmid.standing ctx done)
    | ok d => exact hmid.lands (ih hmid.standing (i + 1) (done ++ [d]))

theorem hostWrite_carried (h : Standing seen mmu) (d : MappedBlock) (offset : Nat) (byte : UInt8) :
    Carried seen events mmu (hostWrite mmu d offset byte) := by
  have hm : ∀ q, Minor q mmu (hostWrite mmu d offset byte) := minor_hostWrite mmu d offset byte
  refine h.storage (upkeep_minor h.tables (hm 0)) ?_
  intro hno
  have ht := h.tallied hno
  refine ⟨?_, ?_, ht.limit⟩
  · intro q hq
    exact (ht.bare q hq).same ((hm (q + 1)).others (by omega))
  · exact ht.count.trans (congrArg Finset.card (residents_minor (hm 0)).symm)

end Maps

section Allocate

/-- What a call may leave behind when a `bad_alloc` leaves it: the routing makes its steps unless an append was
refused, and a refused reserve comes right after the scan. -/
structure Escaped (seen : BadAlloc → Prop) (events : Event → Prop) (g : Grants) (mmu : MmuRuntime) (site : BadAlloc)
    (mmu' : MmuRuntime) : Prop where
  carried : seen site → Standing seen mmu' ∧ SameSetup mmu mmu' ∧
    (site ≠ .append → Routing.Run events mmu.routing mmu'.routing)
  reserve : site = .reserve → reclaimUnusedResidentBlocks (g.push 0) mmu = (.ok (), mmu')

theorem Thrown.escaped {site : BadAlloc} (h : Thrown seen events mmu site mmu') : Escaped seen events g mmu site mmu' := by
  refine ⟨?_, ?_⟩
  · intro hseen
    have hc := h.2 hseen
    exact ⟨hc.standing, hc.setup, fun _ => hc.routing⟩
  · intro he
    rcases h.1 with hs | hs | hs <;> rw [hs] at he <;> cases he

/-- The table bound and the exhaustion that the events of an allocation tell of. -/
structure AllocationEvents (events : Event → Prop) (mmu : MmuRuntime) (ctx : CtxHandle) (n : UInt32)
    (result : Except BadAlloc (Except MmuError Unit)) : Prop where
  exhausted : result = .ok (.error .outOfMemory) → events (.blocksExhausted (mmuGetFreeBlockCount mmu))
  grown : result = .ok (.ok ()) ∨ result = .error .insert → n.toNat < 2 ^ 31 → n.toNat ≤ mmuGetFreeBlockCount mmu →
    ∀ c, findContext mmu ctx = some c → events (.tableGrown (c.pageTable.entries.length + n.toNat))

/-- Blocks were taken and named, and nothing else has happened yet. -/
theorem Standing.taken {ids named : List Int} {bm : BlockManager} {c : Context} (h : Standing seen mmu)
    (hc : findContext mmu ctx = some c) (ht : Taken mmu.l1Allocator ids bm) (hseen : seen .append ∨ seen .insert) :
    Standing seen (mmu.withRouting ⟨bm, mmu.contexts.insert ctx (c.grown named)⟩) := by
  refine ⟨h.tables.withRouting ht.size, ⟨ht.ok, ?_⟩, ?_, ?_⟩
  · exact Routing.find?_insert_null h.routing.handles (findContext_find? hc).1
  · intro happend hinsert
    rcases hseen with hs | hs
    · exact absurd hs happend
    · exact absurd hs hinsert
  · intro hno
    refine ((h.tallied hno).withRouting _).mono ?_
    intro q hq
    show 0 < bm.refCounts.entry q
    rw [ht.entry, if_neg (ht.not_mem hq)]
    exact hq

/-- Blocks were taken, named and registered. -/
theorem Standing.registeredAll {ids : List Int} {bm : BlockManager} {c : Context} (h : Standing seen mmu)
    (hc : findContext mmu ctx = some c) (ht : Taken mmu.l1Allocator ids bm)
    (hrun : Routing.Run events mmu.routing ⟨bm, mmu.contexts.insert ctx (c.grown ids)⟩)
    (hf : FreshAll ids (mmu.withRouting ⟨bm, mmu.contexts.insert ctx (c.grown ids)⟩) mmu') :
    Carried seen events mmu mmu' := by
  have hroute : mmu'.routing = ⟨bm, mmu.contexts.insert ctx (c.grown ids)⟩ := hf.routing.routing_eq
  have hentry : ∀ q, mmu'.l1Allocator.refCounts.entry q = if q ∈ ids then 1 else mmu.l1Allocator.refCounts.entry q := by
    intro q
    rw [hf.routing.allocator]
    exact ht.entry q
  refine ⟨⟨hf.tables, ?_, ?_, ?_⟩, ⟨hf.routing.config, hf.routing.limit, hf.routing.replies⟩, ?_⟩
  · rw [hroute]
    exact ⟨ht.ok, Routing.find?_insert_null h.routing.handles (findContext_find? hc).1⟩
  · intro happend hinsert q hq
    by_cases hmem : q ∈ ids
    · exact hf.allocated q hmem
    · have hlive : mmu.Live q := by
        have hpos : 0 < mmu'.l1Allocator.refCounts.entry q := hq
        rw [hentry, if_neg hmem] at hpos
        exact hpos
      rw [(hf.others q hmem).info]
      exact h.registered happend hinsert q hlive
  · intro hno
    have hnew : ∀ q ∈ ids, ¬mmu.Live q := fun q hq hl => ht.not_mem hl hq
    refine (hf.tallied _ ((h.tallied hno).withRouting _) hnew).mono ?_
    intro q hq
    show 0 < mmu'.l1Allocator.refCounts.entry q
    rw [hentry]
    split
    next => decide
    next hmem => exact hq.resolve_right hmem
  · rw [hroute]
    exact hrun

/-- What an allocation does once its scan is over. -/
inductive Allocated (mmu mid : MmuRuntime) (ctx : CtxHandle) (c : Context) (count : Int) :
    Throwing BadAlloc MmuRuntime (Except MmuError Unit) → Prop
  | unreserved : Allocated mmu mid ctx c count (.error .reserve, mid)
  | exhausted {ids : List Int} {bm : BlockManager} (taken : Taken mmu.l1Allocator ids bm)
      (short : (ids.length : Int) < count) (dry : bm.freeList = []) :
      Allocated mmu mid ctx c count (.ok (.error .outOfMemory),
        mid.withRouting ⟨bm.releaseAll ids, mmu.contexts.insert ctx (c.grown ids)⟩)
  | stranded {ids : List Int} {b : Int} {bm : BlockManager} (taken : Taken mmu.l1Allocator (ids ++ [b]) bm) :
      Allocated mmu mid ctx c count (.error .append, mid.withRouting ⟨bm, mmu.contexts.insert ctx (c.grown ids)⟩)
  | unregistered {ids : List Int} {bm : BlockManager} (taken : Taken mmu.l1Allocator ids bm)
      (all : (ids.length : Int) = count) :
      Allocated mmu mid ctx c count (.error .insert, mid.withRouting ⟨bm, mmu.contexts.insert ctx (c.grown ids)⟩)
  | registered {ids : List Int} {bm : BlockManager} {s : MmuRuntime} (taken : Taken mmu.l1Allocator ids bm)
      (all : (ids.length : Int) = count)
      (fresh : FreshAll ids (mid.withRouting ⟨bm, mmu.contexts.insert ctx (c.grown ids)⟩) s) :
      Allocated mmu mid ctx c count (.ok (.ok ()), s)

/-- The blocks an allocation takes were swept, so nothing is asked of the host for registering them. -/
theorem mmuAllocateBlocks_outcomes (ha : mmu.l1Allocator.Ok) (ht : mmu.Tables) (g : Grants) (ctx : CtxHandle)
    (n : UInt32) :
    (∃ e, e ≠ .outOfMemory ∧ mmuAllocateBlocks g mmu ctx n = (.ok (.error e), mmu)) ∨
    (∃ s, mmuAllocateBlocks g mmu ctx n = (.error .resetBlockData, s) ∧ Upkeep mmu s) ∨
    ∃ c count mid, findContext mmu ctx = some c ∧ u32ToInt n = some count ∧
      reclaimUnusedResidentBlocks (g.push 0) mmu = (.ok (), mid) ∧ Swept (scanIds mmu) mmu mid ∧
      Allocated mmu mid ctx c count (mmuAllocateBlocks g mmu ctx n) := by
  unfold mmuAllocateBlocks
  split
  next => exact .inl ⟨.badHandle, by decide, rfl⟩
  next c hc =>
    split
    next => exact .inl ⟨.invalidArgument, by decide, rfl⟩
    next count hcount =>
      right
      have hscan := reclaimUnusedResidentBlocks_lands (g.push 0) ha ht
      obtain ⟨r, mid, hr⟩ : ∃ r mid, reclaimUnusedResidentBlocks (g.push 0) mmu = (r, mid) := ⟨_, _, rfl⟩
      rw [hr]
      cases r with
      | error e =>
        obtain ⟨rfl, hup⟩ := hscan.threw hr
        exact .inl ⟨mid, rfl, hup⟩
      | ok u =>
        have hswept := hscan.returned hr
        have halloc : mid.l1Allocator = mmu.l1Allocator := hswept.routing.allocator
        have hcontexts : mid.contexts = mmu.contexts := hswept.routing.contexts
        have hnonneg : 0 ≤ count := by
          rw [(u32ToInt_eq_some hcount).1]
          exact Int.natCast_nonneg _
        refine .inr ⟨c, count, mid, hc, hcount, rfl, hswept, ?_⟩
        rw [andThen_ok]
        have hset : ∀ bm context, mid.setContext bm ctx context =
            mid.withRouting ⟨bm, mmu.contexts.insert ctx context⟩ := by
          intro bm context
          rw [setContext_eq, hcontexts]
        rw [halloc]
        rcases allocateBlocks_cases g ha c hnonneg with
          heq | ⟨ids, bm, htaken, hall, heq | heq⟩ | ⟨ids, bm, htaken, hshort, hdry, heq⟩ | ⟨ids, b, bm, htaken, heq⟩
        · rw [heq]
          dsimp only
          rw [← halloc, setContext_same ((congrArg (fun m => m.find? ctx) hcontexts).trans (findContext_find? hc).2)]
          exact .unreserved
        · rw [heq]
          dsimp only
          rw [hset]
          have hids : ∀ q ∈ ids, (mid.withRouting ⟨bm, mmu.contexts.insert ctx (c.grown ids)⟩).Valid q ∧
              Ownerless (mid.withRouting ⟨bm, mmu.contexts.insert ctx (c.grown ids)⟩) q := by
            intro q hq
            obtain ⟨hvalid, hzero⟩ := htaken.free q hq
            have hv : mmu.Valid q := ht.refs_inRange.mp hvalid
            have hbare := (hswept.bare q (mem_scanIds.mpr hv) (not_live_of_zero hzero)).withRouting
              ⟨bm, mmu.contexts.insert ctx (c.grown ids)⟩
            exact ⟨(hswept.routing.valid q).mpr hv, hbare.2⟩
          have hsize : bm.refCounts.size = mid.l1Allocator.refCounts.size := by
            rw [halloc]
            exact htaken.size
          obtain ⟨s, hreg, hfresh⟩ :=
            registerAll_ownerless (g.push 0) ids htaken.nodup (hswept.tables.withRouting hsize) hids
          rw [hreg]
          exact .registered htaken hall hfresh
        · rw [heq]
          dsimp only
          rw [hset]
          exact .unregistered htaken hall
        · rw [heq]
          dsimp only
          rw [hset]
          exact .exhausted htaken hshort hdry
        · rw [heq]
          dsimp only
          rw [hset]
          exact .stranded htaken

/-- The scan alone, where it is followed by other things. -/
theorem Standing.scanned {mid : MmuRuntime} (h : Standing seen mmu) (hs : Swept (scanIds mmu) mmu mid) :
    Carried seen events mmu mid := by
  refine h.storage hs.upkeep ?_
  intro hno
  refine (hs.tallied _ (h.tallied hno)).mono ?_
  intro q hq
  exact hq.1

theorem mmuAllocateBlocks_carried (h : Standing seen mmu) {n : UInt32}
    (hev : AllocationEvents events mmu ctx n (mmuAllocateBlocks g mmu ctx n).1) :
    Lands (mmuAllocateBlocks g mmu ctx n) (fun _ s => Carried seen events mmu s) (Escaped seen events g mmu) := by
  rcases mmuAllocateBlocks_outcomes h.allocator h.tables g ctx n with
    ⟨e, -, heq⟩ | ⟨s, heq, hup⟩ | ⟨c, count, mid, hc, hcount, hreclaim, hswept, hout⟩
  · rw [heq]
    exact h.carried
  · rw [heq]
    refine ⟨?_, nofun⟩
    intro hseen
    have hcarried : Carried seen events mmu s := h.storage hup (fun hno => absurd hseen hno)
    exact ⟨hcarried.standing, hcarried.setup, fun _ => hcarried.routing⟩
  · have hmid : Carried seen events mmu mid := h.scanned hswept
    have halloc : mid.l1Allocator = mmu.l1Allocator := hswept.routing.allocator
    have hcontexts : mid.contexts = mmu.contexts := hswept.routing.contexts
    have hroute : mid.routing = mmu.routing := hswept.routing.routing_eq
    have hfind := (findContext_find? hc).2
    have hc' : findContext mid ctx = some c := by
      unfold findContext at hc ⊢
      rw [hcontexts]
      exact hc
    generalize mmuAllocateBlocks g mmu ctx n = x at hout hev
    have hgrown : ∀ {ids : List Int} {bm : BlockManager}, x.1 = .ok (.ok ()) ∨ x.1 = .error .insert →
        Taken mmu.l1Allocator ids bm → (ids.length : Int) = count →
          Routing.Run events mmu.routing ⟨bm, mmu.contexts.insert ctx (c.grown ids)⟩ := by
      intro ids bm hx ht hall
      obtain ⟨hval, hlt⟩ := u32ToInt_eq_some hcount
      have hlen : ids.length = n.toNat := by omega
      have hfree := ht.length
      have hle : n.toNat ≤ mmuGetFreeBlockCount mmu := by
        show n.toNat ≤ mmu.l1Allocator.freeList.length
        omega
      have hallowed := hev.grown hx hlt hle c hc
      rw [← hlen] at hallowed
      exact .single hallowed (.allocated (r := mmu.routing) hfind ht)
    cases hout with
    | unreserved =>
      refine ⟨?_, fun _ => hreclaim⟩
      intro _
      exact ⟨hmid.standing, hmid.setup, fun _ => hmid.routing⟩
    | @exhausted ids bm ht hshort hdry =>
      have hstep : mmu.routing.Step (.blocksExhausted ids.length)
          ⟨bm.releaseAll ids, mmu.contexts.insert ctx (c.grown ids)⟩ :=
        .exhausted (r := mmu.routing) hfind ht
      have hallowed := hev.exhausted rfl
      have hlen : ids.length = mmuGetFreeBlockCount mmu := ht.all hdry
      rw [← hlen] at hallowed
      have hrun : Routing.Run events mid.routing ⟨bm.releaseAll ids, mmu.contexts.insert ctx (c.grown ids)⟩ := by
        rw [hroute]
        exact .single hallowed hstep
      refine hmid.trans (hmid.standing.rerouted (h.routing.step hstep) ?_ ?_ hrun)
      · rw [halloc]
        exact (releaseAll_size _ _).trans ht.size
      · intro q
        rw [exhausted_live ht q]
        exact (hswept.routing.live q).symm
    | @stranded ids b bm ht =>
      refine ⟨?_, nofun⟩
      intro hseen
      rw [← halloc] at ht
      rw [← hcontexts]
      exact ⟨hmid.standing.taken hc' ht (.inl hseen), hmid.setup.trans (withRouting_setup _ _),
        fun hne => absurd rfl hne⟩
    | @unregistered ids bm ht hall =>
      refine ⟨?_, nofun⟩
      intro hseen
      refine ⟨?_, hmid.setup.trans (withRouting_setup _ _), fun _ => hgrown (.inr rfl) ht hall⟩
      rw [← halloc] at ht
      rw [← hcontexts]
      exact hmid.standing.taken hc' ht (.inr hseen)
    | @registered ids bm s ht hall hfresh =>
      have hrun := hgrown (.inl rfl) ht hall
      rw [← hroute] at hrun
      rw [← halloc] at ht
      rw [← hcontexts] at hrun hfresh
      exact hmid.trans (hmid.standing.registeredAll hc' ht hrun hfresh)

end Allocate

section Runs

theorem mmuForkContext_carried (h : Standing seen mmu) (hplain : events .plain) {src : CtxHandle} {grows : Nat → Bool}
    {handle : Option CtxHandle} (hp : FreshHandle mmu handle)
    (hleaky : LeakyFork mmu src grows → events .appendRefused) :
    Carried seen events mmu (mmuForkContext mmu src grows handle).2 := by
  obtain ⟨r, s, hr⟩ : ∃ r s, mmuForkContext mmu src grows handle = (r, s) := ⟨_, _, rfl⟩
  rw [hr]
  rcases mmuForkContext_cases h.allocator hr with
    ⟨_, rfl, _⟩ | ⟨c, ctx, hc, rfl, _, rfl⟩ | ⟨c, b, hc, hleak, _, rfl⟩
  · exact h.carried
  · have hstep : mmu.routing.Step .plain
        ⟨mmu.l1Allocator.retainAll (namedBlocks c.pageTable), mmu.contexts.insert ctx c⟩ :=
      .forked (r := mmu.routing) (findContext_find? hc).2 hp
    exact h.rerouted (h.routing.step hstep) (retainAll_size _ _) (retainAll_live h.allocator _) (.single hplain hstep)
  · have hallowed : events .appendRefused := hleaky ⟨c, b, hc, hleak⟩
    obtain ⟨i, hi, _, _, hun, hpos⟩ := hleak
    have hmem : b ∈ namedBlocks c.pageTable := mem_namedBlocks.mpr ⟨List.mem_of_getElem? hi, hun⟩
    have hstep : mmu.routing.Step .appendRefused ⟨(mmu.l1Allocator.retain b).2, mmu.contexts⟩ :=
      .leaked (r := mmu.routing) (findContext_find? hc).2 hmem hpos
    exact h.rerouted (h.routing.step hstep) (retain_size _ _) (retain_live h.allocator b) (.single hallowed hstep)

theorem mmuCreateContext_carried (h : Standing seen mmu) (hplain : events .plain) {handle : Option CtxHandle}
    (hp : FreshHandle mmu handle) : Carried seen events mmu (mmuCreateContext mmu handle).2 := by
  obtain ⟨r, s, hr⟩ : ∃ r s, mmuCreateContext mmu handle = (r, s) := ⟨_, _, rfl⟩
  rw [hr]
  rcases mmuCreateContext_cases hr with ⟨_, _, rfl⟩ | ⟨ctx, rfl, _, rfl⟩
  · exact h.carried
  · have hstep : mmu.routing.Step .plain
        ⟨mmu.l1Allocator, mmu.contexts.insert ctx ⟨.empty, mmu.config.blockSizeBytes⟩⟩ :=
      .created (r := mmu.routing) hp rfl
    exact h.rerouted (h.routing.step hstep) rfl (fun _ => Iff.rfl) (.single hplain hstep)

/-- The events of a step are allowed. -/
def StepEvents (events : Event → Prop) (mmu : MmuRuntime) (step : Call × Grants) : Prop :=
  match step.1 with
  | .allocateBlocks ctx n => AllocationEvents events mmu ctx n (mmuAllocateBlocks step.2 mmu ctx n).1
  | .forkContext src grows _ => LeakyFork mmu src grows → events .appendRefused
  | _ => True

theorem stepEvents_any (mmu : MmuRuntime) (step : Call × Grants) : StepEvents (fun _ => True) mmu step := by
  obtain ⟨call, g⟩ := step
  cases call with
  | allocateBlocks => exact ⟨fun _ => trivial, fun _ _ _ _ _ => trivial⟩
  | forkContext => exact fun _ => trivial
  | _ => trivial

/-- One case per call: what stands before it stands when it returns, and when a `bad_alloc` of `seen` leaves it. -/
theorem perform_carried (h : Standing seen mmu) {call : Call} (hp : Permitted mmu call) (hplain : events .plain)
    (hev : StepEvents events mmu (call, g)) :
    Lands (perform g mmu call) (fun _ s => Carried seen events mmu s) (Escaped seen events g mmu) := by
  cases call with
  | createContext handle => exact mmuCreateContext_carried h hplain hp
  | destroyContext ctx =>
    exact (mmuDestroyContext_carried h hplain).andThen (fun _ _ ht => ht.escaped) (fun _ _ hs => hs)
  | forkContext src grows handle => exact mmuForkContext_carried h hplain hp hev
  | allocateBlocks ctx n => exact (mmuAllocateBlocks_carried h hev).andThen (fun _ _ ht => ht) (fun _ _ hs => hs)
  | releaseLogicalBlock ctx lb =>
    exact (mmuReleaseLogicalBlock_carried h hplain).andThen (fun _ _ ht => ht.escaped) (fun _ _ hs => hs)
  | prepareBlockForWrite ctx lb =>
    exact (mmuPrepareBlockForWrite_carried h hplain).andThen (fun _ _ ht => ht.escaped) (fun _ _ hs => hs)
  | mapLogicalBlock ctx lb flags =>
    exact (mmuMapLogicalBlock_carried h hplain).andThen (fun _ _ ht => ht.escaped) (fun _ _ hs => hs)
  | mapLogicalBlocks ctx lbs flags =>
    exact (mapBlocksLoop_carried h hplain 0 lbs []).andThen (fun _ _ ht => ht.escaped) (fun _ _ hs => hs)
  | unmapLogicalBlock ctx d => exact mmuUnmapLogicalBlock_carried h ctx d
  | unmapLogicalBlocks ctx ds =>
    show Carried seen events mmu (DsfMmu.perform mmu (.unmapLogicalBlocks ctx ds)).2
    rw [perform_unmaps]
    exact unmapAll_carried h ctx ds
  | hostWrite ctx d offset byte => exact hostWrite_carried h d offset byte

/-- So a step of the machine keeps what stands, and the routing makes its steps unless an append is refused. -/
theorem perform_standing (h : Standing seen mmu) {call : Call} (hp : Permitted mmu call) (hplain : events .plain)
    (hev : StepEvents events mmu (call, g)) (hseen : ∀ site, Refused site mmu (call, g) → seen site) :
    Standing seen (perform g mmu call).2 ∧ SameSetup mmu (perform g mmu call).2 ∧
      (¬Refused .append mmu (call, g) → Routing.Run events mmu.routing (perform g mmu call).2.routing) := by
  have hlands := perform_carried h hp hplain hev
  unfold Refused at hseen ⊢
  dsimp only at hseen ⊢
  obtain ⟨r, s, hx⟩ : ∃ r s, perform g mmu call = (r, s) := ⟨_, _, rfl⟩
  rw [hx] at hlands hseen ⊢
  cases r with
  | ok reply =>
    have hc : Carried seen events mmu s := hlands
    exact ⟨hc.standing, hc.setup, fun _ => hc.routing⟩
  | error site =>
    have ht : Escaped seen events g mmu site s := hlands
    obtain ⟨hstanding, hsetup, hrun⟩ := ht.carried (hseen site rfl)
    exact ⟨hstanding, hsetup, fun hne => hrun (fun he => hne (congrArg Except.error he))⟩

theorem initial_standing (seen : BadAlloc → Prop) (h : Initial mmu) : Standing seen mmu := by
  obtain ⟨config, env, rfl⟩ := initial_new h
  have hs := new_settled config env
  have hlive : ∀ p, ¬(MmuRuntime.new config env).Live p := fun p => not_live_of_zero rfl
  refine ⟨hs.coherent.sound.tables, ⟨hs.allocator, KeyedMap.find?_empty _ _⟩, ?_, ?_⟩
  · intro _ _ p hp
    exact absurd hp (hlive p)
  · intro _
    refine ⟨?_, hs.coherent.count, hs.coherent.limit⟩
    intro p _
    exact ⟨rfl, fun id => by cases id <;> rfl⟩

/-- An invariant of fresh instances that every step keeps. -/
theorem ReachableBy.invariant {C : StepCondition} {I : MmuRuntime → Prop} (h : ReachableBy C mmu)
    (start : ∀ s, Initial s → I s)
    (keeps : ∀ s (step : Call × Grants), I s → Permitted s step.1 → C s step (perform step.2 s step.1).1 →
      I (perform step.2 s step.1).2) : I mmu := by
  obtain ⟨s, hi, hr⟩ := h
  exact hr.invariant (start s hi) keeps

end Runs

end Escaping

end DsfMmu
