import DsfMmu.OutstandingMappings

namespace DsfMmu

open MmuRuntime BlockManager Context

/-- What the runs of the refinement start from and keep. -/
structure Provisioned (mmu : MmuRuntime) : Prop where
  covered : mmu.Covered
  l2 : mmu.config.l2BlockCount = mmu.config.l1BlockCount
  grants : ∀ n, mmu.host.reply n = .granted

section Provisioned

variable {mmu mmu' : MmuRuntime} {ctx : CtxHandle} {lb flags : UInt32}

theorem Provisioned.same (h : Provisioned mmu) (hc : mmu'.Covered) (hs : SameSetup mmu mmu') :
    Provisioned mmu' := by
  refine ⟨hc, ?_, ?_⟩
  · rw [hs.config]
    exact h.l2
  · rw [hs.replies]
    exact h.grants

/-- A free block owns no page, so that fewer than all blocks own one of L2. -/
theorem committed_l2_lt (h : mmu.Settled) (hfree : mmu.l1Allocator.freeList ≠ []) :
    (mmu.pool .l2).committedPages < mmu.config.l1BlockCount := by
  obtain ⟨f, hf⟩ := List.exists_mem_of_ne_nil _ hfree
  obtain ⟨hvalid, hzero⟩ := (h.allocator.free_iff f).mp hf
  have hv : mmu.Valid f := h.coherent.sound.refs_inRange.mp hvalid
  have hdead : ¬mmu.Live f := not_live_of_zero hzero
  exact committedPages_lt h.coherent.sound hv (congrArg BlockView.l2 (h.coherent.unused hdead))

theorem Provisioned.keeps_block (h : Provisioned mmu) : ¬PrepareLosesBlock mmu ctx lb := by
  intro hboth
  obtain ⟨hsw, hsup⟩ := hboth
  obtain ⟨_, _, _, _, _, _, _, hfree⟩ := (switches_iff h.covered.settled).mp hsw
  have hlt := committed_l2_lt h.covered.settled hfree
  have hcap := ((supply_granted h.grants _ _).mp hsup).2
  have hcommitted : mmu.stock.committed = (mmu.pool .l2).committedPages := rfl
  have hl2 := h.l2
  omega

theorem Provisioned.prepare_view (h : Provisioned mmu) {r : Except MmuError Int}
    (hr : mmuPrepareBlockForWrite mmu ctx lb = (r, mmu')) : mmu'.view = mmu.view := by
  rcases DsfMmu.prepare_view h.covered hr with hsame | ⟨_, hlost, _⟩
  · exact hsame
  · exact absurd hlost h.keeps_block

theorem Provisioned.map_view (h : Provisioned mmu) {r : Except MmuError MappedBlock}
    (hm : mmuMapLogicalBlock mmu ctx lb flags = (r, mmu')) : mmu'.view = mmu.view := by
  rcases DsfMmu.map_view h.covered hm with hsame | ⟨_, _, hlost, _⟩
  · exact hsame
  · exact absurd hlost h.keeps_block

/-- A step that shows in no view and keeps the provisions. -/
def Unseen (mmu mmu' : MmuRuntime) : Prop := Provisioned mmu → Provisioned mmu' ∧ mmu'.view = mmu.view

theorem Unseen.refl (mmu : MmuRuntime) : Unseen mmu mmu := fun h => ⟨h, rfl⟩

theorem Unseen.trans {a b c : MmuRuntime} (h : Unseen a b) (h' : Unseen b c) : Unseen a c := by
  intro ha
  obtain ⟨hb, hv⟩ := h ha
  obtain ⟨hc, hv'⟩ := h' hb
  exact ⟨hc, hv'.trans hv⟩

theorem prepare_unseen {r : Except MmuError Int} (hr : mmuPrepareBlockForWrite mmu ctx lb = (r, mmu')) :
    Unseen mmu mmu' := by
  intro h
  have hs := h.covered.settled
  exact ⟨h.same (prepare_covered h.covered hr) (prepare_clean hs hr).setup, h.prepare_view hr⟩

theorem map_unseen {r : Except MmuError MappedBlock} (hm : mmuMapLogicalBlock mmu ctx lb flags = (r, mmu')) :
    Unseen mmu mmu' := by
  intro h
  have hs := h.covered.settled
  exact ⟨h.same (map_covered h.covered hm) (map_clean hs hm).setup, h.map_view hm⟩

theorem unmap_unseen {d : MappedBlock} {r : Except MmuError Unit}
    (hu : mmuUnmapLogicalBlock mmu ctx d = (r, mmu')) : Unseen mmu mmu' := by
  intro h
  have hs := h.covered.settled
  exact ⟨h.same (unmap_covered h.covered hu) (unmap_clean hs hu).setup, unmap_view hs hu⟩

theorem maps_unseen {lbs : List UInt32} {r : Except MmuError (List MappedBlock)} (hs : mmu.Settled)
    (hm : mmuMapLogicalBlocks mmu ctx lbs flags = (r, mmu')) : Unseen mmu mmu' :=
  (mapBlocksLoop_rel Unseen.refl (fun _ _ _ => Unseen.trans) (fun _ _ _ _ _ => map_unseen)
    (fun _ _ _ _ _ => unmap_unseen) lbs [] hs hm).1

theorem unmaps_unseen {ds : List MappedBlock} (hs : mmu.Settled) : Unseen mmu (unmapAll ctx ds mmu) :=
  (unmapAll_rel Unseen.refl (fun _ _ _ => Unseen.trans) (fun _ _ _ _ _ => unmap_unseen) ds hs).1

end Provisioned

/-! A store through a WRITE mapping changes the slot of its own entry and no other. -/

section Store

variable {mmu mmu' : MmuRuntime} {ctx : CtxHandle} {d : MappedBlock} {maps : List Holding}

/-- One slot of one context changes. -/
theorem view_eq_write {i : Nat} {f : Bytes → Bytes} (hcontexts : mmu'.contexts = mmu.contexts)
    (hself : ∀ b, entryAt mmu ctx i = some b → mmu'.slotBytes b = (mmu.slotBytes b).map f)
    (hother : ∀ k j b, entryAt mmu k j = some b → ¬(k = ctx ∧ j = i) → mmu'.slotBytes b = mmu.slotBytes b) :
    mmu'.view = mmu.view.write ctx i f := by
  funext k
  obtain hnone | ⟨c, hc⟩ := Option.eq_none_or_eq_some (mmu.contexts.find? k)
  · unfold EagerWorld.write view
    rw [hcontexts]
    by_cases hk : k = ctx
    · subst k
      rw [Function.update_self, hnone]
      rfl
    · rw [Function.update_of_ne hk]
      simp [hnone]
  · have hview' : mmu'.view k = some (c.pageTable.entries.map mmu'.slotBytes) := view_find (hcontexts ▸ hc)
    rw [hview']
    unfold EagerWorld.write
    by_cases hk : k = ctx
    · subst k
      rw [Function.update_self, view_find hc, Option.map_some]
      congr 1
      apply List.ext_getElem?
      intro j
      rw [List.getElem?_modify, List.getElem?_map, List.getElem?_map]
      cases hentry : c.pageTable.entries[j]? with
      | none => simp
      | some b =>
        have hat : entryAt mmu ctx j = some b := entryAt_eq_some.mpr ⟨c, hc, hentry⟩
        by_cases hij : i = j
        · subst j
          simp [hself b hat]
        · simp [hij, hother ctx j b hat (fun he => hij he.2.symm)]
    · rw [Function.update_of_ne hk, view_find hc]
      congr 1
      apply List.map_congr_left
      intro b hb
      obtain ⟨j, hj⟩ := List.getElem?_of_mem hb
      exact hother k j b (entryAt_eq_some.mpr ⟨c, hc, hj⟩) (fun he => hk he.1)

theorem hostWrite_view (hc : mmu.Covered) (h : Outstanding mmu maps) (hx : (ctx, d) ∈ maps)
    (hw : hasWrite d.mapFlags = true) (offset : Nat) (byte : UInt8) :
    (hostWrite mmu d offset byte).view = mmu.view.write ctx d.logicalBlockId.toNat (·.set offset byte) := by
  have hentry := h.entry _ hx
  have hpage := h.page _ hx
  have hcontexts : (hostWrite mmu d offset byte).contexts = mmu.contexts := rfl
  refine view_eq_write hcontexts ?_ ?_
  · intro b hb
    rw [hentry] at hb
    cases Option.some.inj hb
    have hbytes := hostWrite_bytes_hit hc.settled hpage offset byte
    have hun : d.physicalBlockId ≠ kUnallocatedBlock := h.block _ hx
    unfold slotBytes
    rw [if_neg hun, if_neg hun, hbytes]
    rfl
  · intro k j b hb hne
    have hmiss : mmu.l1Pool.rawPage b ≠ some d.hostPtr := by
      intro hraw
      have hsame := (hc.settled.coherent.sound.pool_ok .l1).owner_inj b d.physicalBlockId d.hostPtr hraw hpage
      rw [hsame] at hb
      exact hne (h.sole _ hx hw k j hb)
    unfold slotBytes
    rw [hostWrite_bytes_missed hmiss]

end Store

/-! The refinement: a run beside the world of private lists. -/

/-- The abstract world and the mappings the contexts hold. -/
structure Session where
  world : EagerWorld CtxHandle Bytes
  maps : List Holding

/-- What the call means for private lists: only successful calls count, and reads, maps and write
preparations mean nothing. -/
def eagerStep (zero : Bytes) (w : EagerWorld CtxHandle Bytes) (call : Call) (reply : Reply) :
    EagerWorld CtxHandle Bytes :=
  match call, reply with
  | .createContext _, .handle (.ok ctx) => w.create ctx
  | .destroyContext ctx, _ => w.destroy ctx
  | .forkContext src _ _, .handle (.ok ctx) => w.fork src ctx
  | .allocateBlocks ctx n, .status (.ok _) => w.allocate ctx n.toNat zero
  | .releaseLogicalBlock ctx lb, .status (.ok _) => w.release ctx lb.toNat
  | .hostWrite ctx d offset byte, _ => w.write ctx d.logicalBlockId.toNat (·.set offset byte)
  | _, _ => w

def Session.step (mmu : MmuRuntime) (call : Call) (reply : Reply) (s : Session) : Session :=
  ⟨eagerStep mmu.zeroPage s.world call reply, holdingStep s.maps call reply⟩

/-- Bracketed use: stores go through WRITE mappings that are out; a mapping is given back once; a context
does not release, prepare or WRITE-map what it holds, is not destroyed while it holds anything, nor
forked while it holds a WRITE mapping. No pin counter is full and no allocation returns out of memory. -/
def Bracketed (s : MmuRuntime × Session) (call : Call) (reply : Reply) : Prop :=
  match call with
  | .createContext _ => True
  | .destroyContext ctx => ∀ x ∈ s.2.maps, x.1 ≠ ctx
  | .forkContext src _ _ => ∀ x ∈ s.2.maps, x.1 = src → hasWrite x.2.mapFlags = false
  | .allocateBlocks _ _ => reply ≠ .status (.error .outOfMemory)
  | .releaseLogicalBlock ctx lb => NotHeld s.2.maps ctx lb
  | .prepareBlockForWrite ctx lb => NotHeld s.2.maps ctx lb
  | .mapLogicalBlock ctx lb flags => MapBracketed s.2.maps s.1 ctx lb flags
  | .mapLogicalBlocks ctx lbs flags => MapsBracketed ctx flags lbs s.2.maps s.1
  | .unmapLogicalBlock ctx d => (ctx, d) ∈ s.2.maps
  | .unmapLogicalBlocks ctx ds => UnmapsHeld ctx ds s.2.maps
  | .hostWrite ctx d offset _ => (ctx, d) ∈ s.2.maps ∧ hasWrite d.mapFlags = true ∧ offset < d.sizeBytes

/-- The simulation relation. -/
structure Simulates (mmu : MmuRuntime) (s : Session) : Prop where
  provisioned : Provisioned mmu
  world : mmu.view = s.world
  maps : Outstanding mmu s.maps

section Simulation

variable {mmu mmu' : MmuRuntime} {s : Session}

theorem Simulates.start {start : MmuRuntime} (h : Initial start)
    (hl2 : start.config.l2BlockCount = start.config.l1BlockCount)
    (hhost : ∀ n, start.host.reply n = .granted) : Simulates start ⟨EagerWorld.none, []⟩ := by
  obtain ⟨config, env, rfl⟩ := initial_new h
  refine ⟨⟨covered_new config env, hl2, hhost⟩, ?_, .nil _⟩
  funext k
  unfold view
  rw [show (MmuRuntime.new config env).contexts = .empty noContext from rfl, KeyedMap.find?_empty]
  rfl

theorem Bracketed.noDry {call : Call} (h : mmu.Settled)
    (hb : Bracketed (mmu, s) call (perform mmu call).1) : NoDryAllocation mmu call (perform mmu call).1 := by
  cases call with
  | allocateBlocks ctx n =>
    intro hdry
    exact hb (hdry.exhausts h)
  | _ => trivial

theorem Provisioned.step (h : Provisioned mmu) {call : Call} (hp : Permitted mmu call)
    (hd : NoDryAllocation mmu call (perform mmu call).1) : Provisioned (perform mmu call).2 :=
  h.same (perform_covered h.covered hp hd)
    (perform_kept h.covered.settled hp trivial (eventsOf_any mmu call)).setup

/-- What the step does to the views is what it means for the private lists. -/
theorem Simulates.world_step (h : Simulates mmu s) {call : Call} (hp : Permitted mmu call)
    (hb : Bracketed (mmu, s) call (perform mmu call).1) :
    (perform mmu call).2.view = eagerStep mmu.zeroPage s.world call (perform mmu call).1 := by
  have hc := h.provisioned.covered
  rw [← h.world]
  cases call with
  | createContext handle =>
    obtain ⟨r, m, hr⟩ : ∃ r m, mmuCreateContext mmu handle = (r, m) := ⟨_, _, rfl⟩
    simp only [perform, hr, create_view hc hp hr]
    cases r <;> rfl
  | destroyContext ctx => exact destroy_view hc ctx
  | forkContext src grows handle =>
    obtain ⟨r, m, hr⟩ : ∃ r m, mmuForkContext mmu src grows handle = (r, m) := ⟨_, _, rfl⟩
    simp only [perform, hr, fork_view hc hp hr]
    cases r <;> rfl
  | allocateBlocks ctx n =>
    have hdry : ¬RunsDry mmu ctx n := hb.noDry h.provisioned.covered.settled
    obtain ⟨r, m, hr⟩ : ∃ r m, mmuAllocateBlocks mmu ctx n = (r, m) := ⟨_, _, rfl⟩
    simp only [perform, hr, allocate_view hc hdry hr]
    cases r <;> rfl
  | releaseLogicalBlock ctx lb =>
    obtain ⟨r, m, hr⟩ : ∃ r m, mmuReleaseLogicalBlock mmu ctx lb = (r, m) := ⟨_, _, rfl⟩
    simp only [perform, hr, release_view hc hr]
    cases r <;> rfl
  | prepareBlockForWrite ctx lb =>
    obtain ⟨r, m, hr⟩ : ∃ r m, mmuPrepareBlockForWrite mmu ctx lb = (r, m) := ⟨_, _, rfl⟩
    simp only [perform, hr, eagerStep]
    exact (prepare_unseen hr h.provisioned).2
  | mapLogicalBlock ctx lb flags =>
    obtain ⟨r, m, hr⟩ : ∃ r m, mmuMapLogicalBlock mmu ctx lb flags = (r, m) := ⟨_, _, rfl⟩
    simp only [perform, hr, eagerStep]
    exact (map_unseen hr h.provisioned).2
  | mapLogicalBlocks ctx lbs flags =>
    obtain ⟨r, m, hr⟩ : ∃ r m, mmuMapLogicalBlocks mmu ctx lbs flags = (r, m) := ⟨_, _, rfl⟩
    simp only [perform, hr, eagerStep]
    exact (maps_unseen hc.settled hr h.provisioned).2
  | unmapLogicalBlock ctx d =>
    obtain ⟨r, m, hr⟩ : ∃ r m, mmuUnmapLogicalBlock mmu ctx d = (r, m) := ⟨_, _, rfl⟩
    simp only [perform, hr, eagerStep]
    exact (unmap_unseen hr h.provisioned).2
  | unmapLogicalBlocks ctx ds =>
    rw [perform_unmaps]
    exact (unmaps_unseen hc.settled h.provisioned).2
  | hostWrite ctx d offset byte => exact hostWrite_view hc h.maps hb.1 hb.2.1 offset byte

/-- What is out after the step is out as it should be. -/
theorem Outstanding.step (hc : mmu.Covered) (h : Outstanding mmu s.maps) {call : Call} (hp : Permitted mmu call)
    (hb : Bracketed (mmu, s) call (perform mmu call).1) :
    Outstanding (perform mmu call).2 (holdingStep s.maps call (perform mmu call).1) := by
  have hs := hc.settled
  cases call with
  | createContext handle =>
    obtain ⟨r, m, hr⟩ : ∃ r m, mmuCreateContext mmu handle = (r, m) := ⟨_, _, rfl⟩
    simp only [perform, hr, holdingStep]
    exact create_outstanding h hp hr
  | destroyContext ctx => exact destroy_outstanding hc h hb
  | forkContext src grows handle =>
    obtain ⟨r, m, hr⟩ : ∃ r m, mmuForkContext mmu src grows handle = (r, m) := ⟨_, _, rfl⟩
    simp only [perform, hr, holdingStep]
    exact fork_outstanding hs h hp hb hr
  | allocateBlocks ctx n =>
    obtain ⟨r, m, hr⟩ : ∃ r m, mmuAllocateBlocks mmu ctx n = (r, m) := ⟨_, _, rfl⟩
    have hno : (perform mmu (.allocateBlocks ctx n)).1 ≠ .status (.error .outOfMemory) := hb
    simp only [perform, hr, holdingStep] at hno ⊢
    refine allocate_outstanding hc h ?_ hr
    intro heq
    subst heq
    exact hno rfl
  | releaseLogicalBlock ctx lb =>
    obtain ⟨r, m, hr⟩ : ∃ r m, mmuReleaseLogicalBlock mmu ctx lb = (r, m) := ⟨_, _, rfl⟩
    simp only [perform, hr, holdingStep]
    exact release_outstanding hc h hb hr
  | prepareBlockForWrite ctx lb =>
    obtain ⟨r, m, hr⟩ : ∃ r m, mmuPrepareBlockForWrite mmu ctx lb = (r, m) := ⟨_, _, rfl⟩
    simp only [perform, hr, holdingStep]
    exact (prepare_outstanding hc h hb hr).1
  | mapLogicalBlock ctx lb flags =>
    obtain ⟨hno, hroom⟩ : MapBracketed s.maps mmu ctx lb flags := hb
    obtain ⟨r, m, hr⟩ : ∃ r m, mmuMapLogicalBlock mmu ctx lb flags = (r, m) := ⟨_, _, rfl⟩
    rw [hr] at hroom
    simp only [perform, hr, holdingStep]
    exact map_outstanding hc h hno hroom hr
  | mapLogicalBlocks ctx lbs flags =>
    obtain ⟨r, m, hr⟩ : ∃ r m, mmuMapLogicalBlocks mmu ctx lbs flags = (r, m) := ⟨_, _, rfl⟩
    simp only [perform, hr, holdingStep]
    exact mapBlocksLoop_outstanding lbs [] hc h (.refl _) hb hr
  | unmapLogicalBlock ctx d =>
    obtain ⟨r, m, hr⟩ : ∃ r m, mmuUnmapLogicalBlock mmu ctx d = (r, m) := ⟨_, _, rfl⟩
    simp only [perform, hr, holdingStep]
    exact unmap_outstanding hs h hb hr
  | unmapLogicalBlocks ctx ds =>
    rw [perform_unmaps]
    exact unmapAll_outstanding ds hs h hb
  | hostWrite ctx d offset byte => exact hostWrite_outstanding h d offset byte

theorem Simulates.step (h : Simulates mmu s) {call : Call} (hp : Permitted mmu call)
    (hb : Bracketed (mmu, s) call (perform mmu call).1) :
    Simulates (perform mmu call).2 (s.step mmu call (perform mmu call).1) :=
  ⟨h.provisioned.step hp (hb.noDry h.provisioned.covered.settled), h.world_step hp hb,
    h.maps.step h.provisioned.covered hp hb⟩

end Simulation

/-- What the contexts see of the runtime is what they would see of their private lists. -/
structure Refines (mmu : MmuRuntime) (s : Session) : Prop where
  world : mmu.view = s.world
  routes : ∀ ctx l (lb : UInt32), s.world ctx = some l → l.length < 2 ^ 31 →
    ((∃ route, mmuResolveRouting mmu ctx lb = .ok route) ↔ ∃ bytes, s.world.slot ctx lb.toNat = some bytes)
  held : ∀ x ∈ s.maps, s.world.slot x.1 x.2.logicalBlockId.toNat = some (hostRead mmu x.2)
  map : ∀ ctx lb flags d mmu', mmuMapLogicalBlock mmu ctx lb flags = (.ok d, mmu') →
    s.world.slot ctx lb.toNat = some (hostRead mmu' d)

section Refinement

variable {mmu mmu' : MmuRuntime} {s : Session} {ctx : CtxHandle} {lb flags : UInt32}

/-- A page in use holds the bytes of its block. -/
theorem hostRead_eq_logicalBytes (h : mmu.Settled) {d : MappedBlock}
    (hpage : mmu.l1Pool.rawPage d.physicalBlockId = some d.hostPtr) :
    hostRead mmu d = mmu.logicalBytes d.physicalBlockId := by
  have hl1 : (mmu.block d.physicalBlockId).l1 = some ⟨d.hostPtr, hostRead mmu d⟩ := page_eq_some.mpr ⟨hpage, rfl⟩
  have hr : (mmu.block d.physicalBlockId).info.residentInL1 = true :=
    (h.coherent.blocks _).l1_resident (by rw [hl1]; rfl)
  unfold logicalBytes BlockView.bytes
  rw [hr, if_pos rfl, hl1]
  rfl

/-- In a table of legal size an entry resolves when it names a block. -/
theorem routed_of_entry (hc : mmu.Covered) {l : List (Option Bytes)} {b : Int} (hl : mmu.view ctx = some l)
    (hlen : l.length < 2 ^ 31) (hentry : entryAt mmu ctx lb.toNat = some b) (hun : b ≠ kUnallocatedBlock) :
    routedBlock mmu ctx lb = some b := by
  obtain ⟨c, hfind, hb⟩ := entryAt_eq_some.mp hentry
  rw [view_find hfind] at hl
  have hshort : c.pageTable.entries.length < 2 ^ 31 := by
    rw [← Option.some.inj hl, List.length_map] at hlen
    exact hlen
  have hlt := (List.getElem?_eq_some_iff.mp hb).1
  refine hc.routed ((Settled.findContext hc.routing.handles).mpr hfind) ⟨by omega, ?_⟩ hentry hun
  rw [staticCastInt_of_lt hshort]
  omega

/-- A successful map hands out the page of its slot. -/
theorem Simulates.map (h : Simulates mmu s) {d : MappedBlock}
    (hm : mmuMapLogicalBlock mmu ctx lb flags = (.ok d, mmu')) :
    s.world.slot ctx lb.toNat = some (hostRead mmu' d) := by
  have hc := h.provisioned.covered
  have hview := (map_unseen hm h.provisioned).2
  rw [← h.world, ← hview]
  rcases mmuMapLogicalBlock_cases hc.settled hm with
    ⟨⟨_, he⟩, _⟩ | ⟨_, _, he, _⟩ | ⟨mid, c, lvid, hctx, hlvid, hcase, hres⟩
  · cases he
  · cases he
  · have hmid : mid.Settled := by
      rcases hcase with ⟨_, rfl⟩ | ⟨_, p, hprep⟩
      · exact hc.settled
      · exact (prepare_covered hc hprep).settled
    obtain ⟨hn, hmapped, _⟩ := mapResolved_ok hmid hres
    have hentry := entryAt_names hctx hlvid hn
    rw [← entryAt_congr hmapped.routing.contexts] at hentry
    have hpage : mmu'.l1Pool.rawPage d.physicalBlockId = some d.hostPtr := by
      rw [rawPage_block, hmapped.page]
      rfl
    exact slot_eq_some.mpr ⟨_, hentry, hn.block, (hostRead_eq_logicalBytes hmapped.settled hpage).symm⟩

theorem Simulates.refines (h : Simulates mmu s) : Refines mmu s := by
  have hc := h.provisioned.covered
  refine ⟨h.world, ?_, ?_, fun _ _ _ _ _ => h.map⟩
  · intro ctx l lb hl hlen
    rw [← h.world] at hl ⊢
    have hroute : (∃ route, mmuResolveRouting mmu ctx lb = .ok route) ↔ ∃ b, routedBlock mmu ctx lb = some b := by
      unfold routedBlock
      constructor
      · intro hex
        obtain ⟨route, hr⟩ := hex
        exact ⟨route.physicalBlockId, by rw [hr]⟩
      · intro hex
        obtain ⟨b, hb⟩ := hex
        split at hb
        next route hr => exact ⟨route, hr⟩
        next => cases hb
    rw [hroute]
    constructor
    · intro hex
      obtain ⟨b, hb⟩ := hex
      obtain ⟨hentry, hun⟩ := routed_entry hc.settled hb
      exact ⟨_, slot_eq_some.mpr ⟨b, hentry, hun, rfl⟩⟩
    · intro hex
      obtain ⟨bytes, hslot⟩ := hex
      obtain ⟨b, hentry, hun, _⟩ := slot_eq_some.mp hslot
      exact ⟨b, routed_of_entry hc hl hlen hentry hun⟩
  · intro x hx
    rw [← h.world]
    apply slot_eq_some.mpr
    exact ⟨_, h.maps.entry x hx, h.maps.block x hx,
      (hostRead_eq_logicalBytes hc.settled (h.maps.page x hx)).symm⟩

end Refinement

/-- Beside every run of bracketed use the runtime shows what private lists copied at every fork would. -/
theorem tiered_runtime_refines_eager_copy {start : MmuRuntime} {t : MmuRuntime × Session} (h : Initial start)
    (hl2 : start.config.l2BlockCount = start.config.l1BlockCount)
    (hhost : ∀ n, start.host.reply n = .granted)
    (hrun : (machine.withGhost Session.step).Reach Bracketed (start, ⟨EagerWorld.none, []⟩) t) :
    Refines t.1 t.2 := by
  have hsim : Simulates t.1 t.2 := by
    refine hrun.invariant (I := fun t => Simulates t.1 t.2) (.start h hl2 hhost) ?_
    intro hex call hs hp hb
    obtain ⟨mmu, s⟩ := hex
    exact hs.step hp hb
  exact hsim.refines

/-- Two contexts share a block until one of them writes; a single page of L1 serves both. -/
def sharedThenWritten : List Call :=
  [.createContext (some 1), .allocateBlocks 1 2, .mapLogicalBlock 1 0 mapWrite, .hostWrite 1 firstMapping 0 7,
    .unmapLogicalBlock 1 firstMapping, .forkContext 1 (fun _ => true) (some 2), .mapLogicalBlock 2 0 mapWrite,
    .hostWrite 2 ⟨⟨0, 3⟩, 4, 2, 0, mapWrite⟩ 0 9]

def afterSharing : MmuRuntime × Session :=
  (machine.withGhost Session.step).replay (smallInstance 1 0, ⟨EagerWorld.none, []⟩) sharedThenWritten

theorem tiered_runtime_refines_eager_copy_shared :
    Refines afterSharing.1 afterSharing.2 ∧
      afterSharing.2.world.slot 1 0 = some [7, 0, 0, 0] ∧ afterSharing.2.world.slot 2 0 = some [9, 0, 0, 0] := by
  have hmeets : (machine.withGhost Session.step).Meets Bracketed
      (smallInstance 1 0, ⟨EagerWorld.none, []⟩) sharedThenWritten := by
    refine ⟨by decide +kernel, trivial, trivial, ?_, trivial, ?_, trivial, ?_, trivial, ?_, by decide +kernel, ?_,
      trivial, ?_, trivial, ?_, trivial⟩
    · show _ ≠ Reply.status (.error .outOfMemory)
      decide +kernel
    · show MapBracketed _ _ 1 0 mapWrite
      decide +kernel
    · show _ ∈ _ ∧ hasWrite firstMapping.mapFlags = true ∧ 0 < firstMapping.sizeBytes
      decide +kernel
    · show _ ∈ _
      decide +kernel
    · show ∀ x : Holding, x ∈ _ → x.1 = 1 → hasWrite x.2.mapFlags = false
      decide +kernel
    · show MapBracketed _ _ 2 0 mapWrite
      decide +kernel
    · show _ ∈ _ ∧ hasWrite _ = true ∧ 0 < 4
      decide +kernel
  have hrun := Machine.Reach.start.replay hmeets
  refine ⟨tiered_runtime_refines_eager_copy (smallInstance_initial 1 0) rfl (fun _ => rfl) hrun, ?_, ?_⟩
  · decide +kernel
  · decide +kernel

end DsfMmu
