import DsfMmu.BlockMoves
import DsfMmu.ClosedMappings
import DsfMmu.EagerRefinement
import DsfMmu.LogicalIds

namespace DsfMmu

open MmuRuntime BlockManager Context

namespace BlockView

/-- A resident block that is clean and has a copy in L2 owns an L1 page with the bytes of the copy. -/
def Synced (v : BlockView) : Prop :=
  v.info.residentInL1 = true → v.info.dirty = false → ∀ copy, v.l2 = some copy →
    ∃ page, v.l1 = some page ∧ page.bytes = copy.bytes

section Synced

variable {zero : Bytes} {q : Int} {leaves : Prop} {v w : BlockView}

theorem Blank.synced (h : v.Blank) : v.Synced := by
  intro hr _ copy hcopy
  rw [h.uncopied hr] at hcopy
  cases hcopy

/-- A map compares the two copies only when it fills one from the other. -/
theorem Move.synced (h : Move zero q leaves v w) (hv : v.Synced) : w.Synced := by
  cases h with
  | demoted ptr _ => exact fun hr => absurd hr Bool.false_ne_true
  | promoted ptr epoch =>
    intro _ _ copy hcopy
    have hl2 : v.l2 = some copy := hcopy
    refine ⟨⟨ptr, pageBytes zero v.l2⟩, rfl, ?_⟩
    rw [hl2]
    rfl
  | materialised ptr =>
    intro hr hclean copy hcopy
    obtain ⟨page, hpage, hsame⟩ := hv hr hclean copy hcopy
    refine ⟨⟨ptr, pageBytes zero v.l1⟩, rfl, ?_⟩
    rw [hpage]
    exact hsame
  | pinned pins epoch => exact hv
  | touched epoch => exact hv

theorem Moves.synced (h : Moves zero q leaves v w) (hv : v.Synced) : w.Synced := by
  induction h with
  | refl => exact hv
  | tail _ hstep ih => exact hstep.synced ih

theorem dirty_synced (h : v.info.dirty = true) : v.Synced := by
  intro _ hclean
  rw [h] at hclean
  cases hclean

end Synced

end BlockView

/-- The block is mapped for writing. -/
def Written (maps : List Holding) (p : Int) : Prop :=
  ∃ x ∈ maps, x.2.physicalBlockId = p ∧ hasWrite x.2.mapFlags = true

/-- Every block that is not mapped for writing is synced. -/
def AllSynced (mmu : MmuRuntime) (maps : List Holding) : Prop :=
  ∀ p, ¬Written maps p → (mmu.block p).Synced

/-- The narrowed size of the context's table covers the entry of a WRITE mapping. -/
def Addressed (mmu : MmuRuntime) (ctx : CtxHandle) (d : MappedBlock) : Prop :=
  hasWrite d.mapFlags = true → ∃ c ∈ findContext mmu ctx, c.pageTable.inBounds d.logicalBlockId.toNat

section Steps

variable {mmu mmu' : MmuRuntime} {maps : List Holding} {ctx : CtxHandle} {lb flags : UInt32}

theorem Written.mono {maps' : List Holding} {p : Int} (h : Written maps p) (hsub : ∀ x ∈ maps, x ∈ maps') :
    Written maps' p := by
  obtain ⟨x, hx, hboth⟩ := h
  exact ⟨x, hsub x hx, hboth⟩

theorem Renewed.allSynced (h : Renewed mmu mmu') (hs : AllSynced mmu maps) : AllSynced mmu' maps := by
  intro p hno
  rcases h p with hsame | hblank
  · rw [hsame]
    exact hs p hno
  · exact hblank.synced

theorem map_allSynced (h : mmu.Settled) (hs : AllSynced mmu maps) {r : Except MmuError MappedBlock}
    (hm : mmuMapLogicalBlock mmu ctx lb flags = (r, mmu')) : AllSynced mmu' (handedOut ctx r maps) := by
  obtain ⟨mid, hrenewed, _, hmoved⟩ := map_moved h hm
  intro p hno
  refine (hmoved p).synced (hrenewed.allSynced hs p ?_)
  intro hwritten
  refine hno (hwritten.mono ?_)
  intro x hx
  cases r with
  | error e => exact hx
  | ok d => exact List.mem_cons_of_mem _ hx

/-- An unmap of a WRITE mapping writes back what the mapping may have stored, or marks the block dirty. -/
theorem unmap_allSynced (h : mmu.Settled) (hout : Outstanding mmu maps) {d : MappedBlock} (hx : (ctx, d) ∈ maps)
    (hroute : hasWrite d.mapFlags = true → routedBlock mmu ctx d.logicalBlockId = some d.physicalBlockId)
    (hs : AllSynced mmu maps) {r : Except MmuError Unit} (hu : mmuUnmapLogicalBlock mmu ctx d = (r, mmu')) :
    AllSynced mmu' (maps.erase (ctx, d)) := by
  have hread : hasWrite d.mapFlags = false → ∀ p, Written maps p → Written (maps.erase (ctx, d)) p := by
    intro hr p hwritten
    obtain ⟨x, hmem, hp, hw⟩ := hwritten
    refine ⟨x, (List.mem_erase_of_ne ?_).mpr hmem, hp, hw⟩
    intro heq
    subst heq
    rw [hr] at hw
    cases hw
  by_cases hrouted : routedBlock mmu ctx d.logicalBlockId = some d.physicalBlockId
  swap
  · obtain ⟨e, herr⟩ := mmuUnmapLogicalBlock_refused h hrouted
    rw [herr] at hu
    obtain ⟨_, rfl⟩ := Prod.mk.inj hu
    have hr : hasWrite d.mapFlags = false := by
      by_contra hw
      exact hrouted (hroute (by simpa using hw))
    exact fun p hno => hs p (fun hwritten => hno (hread hr p hwritten))
  have hother : ∀ p ≠ d.physicalBlockId, Written maps p → Written (maps.erase (ctx, d)) p := by
    intro p hp hwritten
    obtain ⟨x, hmem, hxp, hw⟩ := hwritten
    refine ⟨x, (List.mem_erase_of_ne ?_).mpr hmem, hxp, hw⟩
    intro heq
    subst heq
    exact hp hxp.symm
  have hupdate : ∀ {v : BlockView}, mmu'.block = Function.update mmu.block d.physicalBlockId v →
      (¬Written (maps.erase (ctx, d)) d.physicalBlockId → v.Synced) → AllSynced mmu' (maps.erase (ctx, d)) := by
    intro v hblock hv p hno
    rw [hblock]
    by_cases hp : p = d.physicalBlockId
    · rw [hp] at hno ⊢
      rw [Function.update_self]
      exact hv hno
    · rw [Function.update_of_ne hp]
      exact hs p (fun hwritten => hno (hother p hp hwritten))
  have hlive := routed_live h hrouted
  obtain ⟨page, hpage⟩ := Option.isSome_iff_exists.mp ((h.coherent.ok hlive).pinned (hout.pinned hx))
  rw [mmuUnmapLogicalBlock_routed h hrouted] at hu
  rcases unmapPinned_effect h hlive hu with
    ⟨_, _, _, he⟩ | ⟨_, v, ⟨hr, rfl⟩ | ⟨_, _, rfl⟩ | ⟨_, _, ptr, rfl⟩, he⟩
  · exact hupdate he.blocks (fun _ => BlockView.dirty_synced rfl)
  · exact hupdate he.blocks (fun hno => hs d.physicalBlockId (fun hwritten => hno (hread hr _ hwritten)))
  · exact hupdate he.blocks (fun _ => BlockView.dirty_synced rfl)
  · refine hupdate he.blocks (fun _ => ?_)
    intro _ _ copy hcopy
    have hl2 : some (⟨ptr, BlockView.pageBytes mmu.zeroPage (mmu.block d.physicalBlockId).l1⟩ : Page) = some copy :=
      hcopy
    cases Option.some.inj hl2
    refine ⟨page, hpage, ?_⟩
    rw [hpage]
    rfl

/-- A store through a WRITE mapping hits the page of no other block. -/
theorem hostWrite_allSynced (h : mmu.Settled) (hout : Outstanding mmu maps) {d : MappedBlock}
    (hx : (ctx, d) ∈ maps) (hw : hasWrite d.mapFlags = true) (hs : AllSynced mmu maps) (offset : Nat)
    (byte : UInt8) : AllSynced (hostWrite mmu d offset byte) maps := by
  intro p hno
  have hmiss : mmu.l1Pool.rawPage p ≠ some d.hostPtr := by
    intro hraw
    have hsame := (h.coherent.sound.pool_ok .l1).owner_inj p d.physicalBlockId d.hostPtr hraw (hout.page _ hx)
    exact hno ⟨_, hx, hsame.symm, hw⟩
  have hblock : (hostWrite mmu d offset byte).block p = mmu.block p := by
    rw [rawPage_block] at hmiss
    rw [hostWrite_block]
    apply BlockView.ext
    · rfl
    · show (mmu.block p).l1.map _ = (mmu.block p).l1
      cases hl1 : (mmu.block p).l1 with
      | none => rfl
      | some page =>
        rw [hl1] at hmiss
        have hne : page.ptr ≠ d.hostPtr := fun heq => hmiss (congrArg some heq)
        rw [Option.map_some, if_neg hne]
    · rfl
  rw [hblock]
  exact hs p hno

theorem AllSynced.perm {maps' : List Holding} (h : AllSynced mmu maps) (hp : maps.Perm maps') :
    AllSynced mmu maps' :=
  fun p hno => h p (fun hwritten => hno (hwritten.mono fun _ hx => hp.mem_iff.mp hx))

/-- Unmaps one after the other, each of a mapping that is out. -/
theorem unmapAll_allSynced (ds : List MappedBlock) (h : mmu.Settled) (hout : Outstanding mmu maps)
    (hheld : UnmapsHeld ctx ds maps)
    (hroutes : ∀ d ∈ ds, hasWrite d.mapFlags = true → routedBlock mmu ctx d.logicalBlockId = some d.physicalBlockId)
    (hs : AllSynced mmu maps) : AllSynced (unmapAll ctx ds mmu) (givenBack ctx ds maps) := by
  induction ds generalizing mmu maps with
  | nil => exact hs
  | cons d rest ih =>
    obtain ⟨hx, hrest⟩ := hheld
    obtain ⟨r, mid, hu⟩ : ∃ r mid, mmuUnmapLogicalBlock mmu ctx d = (r, mid) := ⟨_, _, rfl⟩
    rw [unmapAll_cons hu rest]
    refine ih (unmap_clean h hu).settled (unmap_outstanding h hout hx hu) hrest ?_
      (unmap_allSynced h hout hx (hroutes d List.mem_cons_self) hs hu)
    intro e he hw
    exact unmap_routes h hu (hroutes e (List.mem_cons_of_mem _ he) hw)

theorem mapBlocksLoop_allSynced (lbs : List UInt32) (done : List MappedBlock) {now : List Holding}
    (hc : mmu.Covered) (hout : Outstanding mmu now) (hnow : now.Perm (done.map (Prod.mk ctx) ++ maps))
    (hroutes : ∀ d ∈ done, routedBlock mmu ctx d.logicalBlockId = some d.physicalBlockId)
    (hb : MapsBracketed ctx flags lbs now mmu) (hs : AllSynced mmu now) {r : Except MmuError (List MappedBlock)}
    (hm : mapBlocksLoop ctx flags lbs done mmu = (r, mmu')) : AllSynced mmu' (allHandedOut ctx r maps) := by
  induction lbs generalizing mmu done now with
  | nil =>
    obtain ⟨rfl, rfl⟩ := Prod.mk.inj hm
    exact hs.perm hnow
  | cons lb rest ih =>
    obtain ⟨⟨hno, hroom⟩, hlater⟩ := hb
    have hkept : ∀ r m, mmuMapLogicalBlock mmu ctx lb flags = (r, m) →
        Outstanding m (handedOut ctx r now) ∧
          ∀ d ∈ done, routedBlock m ctx d.logicalBlockId = some d.physicalBlockId := by
      intro r m hone
      rw [hone] at hroom
      refine ⟨map_outstanding hc hout hno hroom hone, ?_⟩
      intro d hd
      refine (map_step hc.settled hone).undisplaced.routes ctx _ _ (hroutes d hd) ?_
      intro hw _
      have hin : (ctx, d) ∈ now := hnow.mem_iff.mpr (List.mem_append_left _ (List.mem_map_of_mem hd))
      exact hno hw _ hin
    unfold mapBlocksLoop at hm
    split at hm
    next e m hone =>
      obtain ⟨rfl, rfl⟩ := Prod.mk.inj hm
      obtain ⟨hout', hroutes'⟩ := hkept _ _ hone
      obtain ⟨hheld, hback⟩ := @rollback_held ctx done maps
      have hend := unmapAll_allSynced done (map_clean hc.settled hone).settled (hout'.perm hnow) hheld
        (fun d hd _ => hroutes' d hd) ((map_allSynced hc.settled hs hone).perm hnow)
      rw [hback] at hend
      exact hend
    next d m hone =>
      obtain ⟨hout', hroutes'⟩ := hkept _ _ hone
      refine ih (done ++ [d]) (map_covered hc hone) hout' ?_ ?_ (hlater d m hone)
        (map_allSynced hc.settled hs hone) hm
      · rw [List.map_append, List.append_assoc]
        exact (hnow.cons (ctx, d)).trans List.perm_middle.symm
      · intro e he
        rcases List.mem_append.mp he with he | he
        · exact hroutes' e he
        · obtain ⟨hlb, hroute, _⟩ := (map_step hc.settled hone).routed d rfl
          cases List.mem_singleton.mp he
          rw [hlb]
          exact hroute

/-- Every WRITE mapping that the call unmaps is addressed. -/
def UnmapsAddressed (mmu : MmuRuntime) (call : Call) : Prop :=
  match call with
  | .unmapLogicalBlock ctx d => Addressed mmu ctx d
  | .unmapLogicalBlocks ctx ds => ∀ d ∈ ds, Addressed mmu ctx d
  | _ => True

/-- What is out of the context of an addressed entry is routed. -/
theorem Addressed.routed (hc : mmu.Covered) (hout : Outstanding mmu maps) {d : MappedBlock} (hx : (ctx, d) ∈ maps)
    (ha : Addressed mmu ctx d) (hw : hasWrite d.mapFlags = true) :
    routedBlock mmu ctx d.logicalBlockId = some d.physicalBlockId := by
  obtain ⟨c, hctx, hin⟩ := ha hw
  exact hc.routed hctx hin (hout.entry _ hx) (hout.block _ hx)

theorem AllSynced.step (hc : mmu.Covered) (hout : Outstanding mmu maps) (hs : AllSynced mmu maps) {call : Call}
    {w : EagerWorld CtxHandle Bytes} (hb : Bracketed (mmu, ⟨w, maps⟩) call (perform mmu call).1)
    (ha : UnmapsAddressed mmu call) :
    AllSynced (perform mmu call).2 (holdingStep maps call (perform mmu call).1) := by
  have h := hc.settled
  cases call with
  | mapLogicalBlock ctx lb flags => exact map_allSynced h hs rfl
  | mapLogicalBlocks ctx lbs flags =>
    exact mapBlocksLoop_allSynced lbs [] hc hout (.refl _) (fun _ hd => absurd hd List.not_mem_nil) hb hs rfl
  | unmapLogicalBlock ctx d => exact unmap_allSynced h hout hb (Addressed.routed hc hout hb ha) hs rfl
  | unmapLogicalBlocks ctx ds =>
    have hheld : UnmapsHeld ctx ds maps := hb
    rw [perform_unmaps]
    exact unmapAll_allSynced ds h hout hheld (fun d hd => Addressed.routed hc hout (hheld.mem d hd) (ha d hd)) hs
  | hostWrite ctx d offset byte => exact hostWrite_allSynced h hout hb.1 hb.2.1 hs offset byte
  | _ =>
    refine (perform_renewed h ?_).allSynced hs
    exact trivial

end Steps

/-! An eviction that skips the copy. -/

/-- `MoveBlockToL2` of a resident block without its `SyncL1ToL2`. -/
def moveBlockToL2Clean (mmu : MmuRuntime) (physicalBlockId : Int) : MmuRuntime :=
  let mmu := mmu.mutateMeta physicalBlockId fun m => { m with residentInL1 := false, l1FrameId := kInvalidFrameId }
  (releasePage (dropResident mmu) .l1 physicalBlockId).mutateMeta physicalBlockId fun m => { m with tier := .l2 }

section Skip

variable {mmu : MmuRuntime} {p : Int} {page copy : Page}

/-- A copy of what is there already changes nothing. -/
theorem syncL1ToL2_same (h : mmu.Settled) (hp : mmu.Live p) (hl1 : (mmu.block p).l1 = some page)
    (hl2 : (mmu.block p).l2 = some copy) (hbytes : page.bytes = copy.bytes) : syncL1ToL2 mmu p = (.ok (), mmu) := by
  have hok := h.coherent.ok hp
  have hpage : mmu.page .l1 p = some page := hl1
  have hcopy : mmu.page .l2 p = some copy := hl2
  have hbacking : (mmu.blockDirectory.metas.entry p).hasL2Backing = true := by
    have hb := hok.backing
    rw [hl2] at hb
    exact hb
  have hslot : (mmu.blockDirectory.metas.entry p).l2SlotId = p := by
    have hb := hok.slot
    rw [hl2] at hb
    exact hb
  have hwrite : (mmu.pool .l2).write copy.ptr page.bytes = mmu.pool .l2 := by
    have hold := (page_eq_some.mp hcopy).2
    unfold ChunkPool.write
    rw [hbytes, hold, Function.update_eq_self]
  have hsame : ∀ m : BlockMeta, m.hasL2Backing = true → m.l2SlotId = p →
      { m with hasL2Backing := true } = m ∧ { m with l2SlotId := p } = m := by
    intro m hm hm'
    rw [← hm, ← hm']
    exact ⟨rfl, rfl⟩
  obtain ⟨hsame1, hsame2⟩ := hsame _ hbacking hslot
  unfold syncL1ToL2
  rw [acquirePage_owned h.coherent.sound (h.valid hp) hcopy]
  dsimp only
  rw [copyOrZero_rawPage, hpage, BlockView.pageBytes_some, hwrite, setPool_self]
  have hset1 : mmu.setDirectory (mmu.blockDirectory.setHasL2Backing p true) = mmu :=
    @mutate_self mmu p (fun m => { m with hasL2Backing := true }) hsame1
  have hset2 : mmu.setDirectory (mmu.blockDirectory.setL2SlotId p p) = mmu :=
    @mutate_self mmu p (fun m => { m with l2SlotId := p }) hsame2
  rw [hset1, hset2]

theorem moveBlockToL2_clean (h : mmu.Settled) (hr : (mmu.block p).info.residentInL1 = true)
    (hl1 : (mmu.block p).l1 = some page) (hl2 : (mmu.block p).l2 = some copy) (hbytes : page.bytes = copy.bytes) :
    moveBlockToL2 mmu p = (.ok (), moveBlockToL2Clean mmu p) := by
  have hp := h.coherent.live_of_resident hr
  unfold moveBlockToL2
  rw [if_neg (not_not.mpr (h.coherent.sound.refs_inRange.mpr (h.valid hp))), h.get_meta hp]
  dsimp only
  rw [h.allocated hp, if_neg (by simp), hr, if_pos rfl, syncL1ToL2_same h hp hl1 hl2 hbytes]
  rfl

/-- What an eviction would copy of such a block is in L2 already. -/
structure CleanSynced (mmu : MmuRuntime) (p : Int) : Prop where
  bytes : ∃ page copy, (mmu.block p).l1 = some page ∧ (mmu.block p).l2 = some copy ∧ page.bytes = copy.bytes
  skip : moveBlockToL2 mmu p = (.ok (), moveBlockToL2Clean mmu p)

theorem BlockView.Synced.cleanSynced (hs : (mmu.block p).Synced) (h : mmu.Settled) (hr : (mmu.block p).info.residentInL1 = true)
    (hbacked : (mmu.block p).info.hasL2Backing = true) (hclean : (mmu.block p).info.dirty = false) :
    CleanSynced mmu p := by
  have hsome : (mmu.block p).l2.isSome := by
    rw [(h.coherent.ok (h.coherent.live_of_resident hr)).backing] at hbacked
    exact hbacked
  obtain ⟨copy, hcopy⟩ := Option.isSome_iff_exists.mp hsome
  obtain ⟨page, hpage, hbytes⟩ := hs hr hclean copy hcopy
  exact ⟨⟨page, copy, hpage, hcopy, hbytes⟩, moveBlockToL2_clean h hr hpage hcopy hbytes⟩

end Skip

/-- The ghost that keeps the mappings that are out. -/
def heldStep (_ : MmuRuntime) (call : Call) (reply : Reply) (maps : List Holding) : List Holding :=
  holdingStep maps call reply

def HeldBracketed (s : MmuRuntime × List Holding) (call : Call) (reply : Reply) : Prop :=
  Bracketed (s.1, ⟨EagerWorld.none, s.2⟩) call reply

/-- Bracketed use that unmaps no WRITE mapping of an entry beyond the narrowed size of its table. -/
def HeldAddressed (s : MmuRuntime × List Holding) (call : Call) (reply : Reply) : Prop :=
  HeldBracketed s call reply ∧ UnmapsAddressed s.1 call

theorem clean_blocks_synced {start : MmuRuntime} {t : MmuRuntime × List Holding} (h : Initial start)
    (hrun : (machine.withGhost heldStep).Reach HeldAddressed (start, []) t) (p : Int)
    (hr : (t.1.block p).info.residentInL1 = true) (hbacked : (t.1.block p).info.hasL2Backing = true)
    (hclean : (t.1.block p).info.dirty = false) (hno : ¬Written t.2 p) : CleanSynced t.1 p := by
  have hinv : t.1.Covered ∧ Outstanding t.1 t.2 ∧ AllSynced t.1 t.2 := by
    refine hrun.invariant (I := fun t => t.1.Covered ∧ Outstanding t.1 t.2 ∧ AllSynced t.1 t.2) ?_ ?_
    · obtain ⟨config, env, rfl⟩ := initial_new h
      refine ⟨covered_new config env, .nil _, ?_⟩
      intro q _ hq
      exact absurd hq Bool.false_ne_true
    · intro s call hs hp hb
      obtain ⟨hc, hout, hsync⟩ := hs
      exact ⟨perform_covered hc hp (Bracketed.noDry hc.settled hb.1), hout.step hc hp hb.1,
        hsync.step hc hout hb.1 hb.2⟩
  obtain ⟨hc, _, hsync⟩ := hinv
  exact (hsync p hno).cleanSynced hc.settled hr hbacked hclean

/-- A block whose write-back went through. -/
def writtenBack : MmuRuntime × List Holding :=
  (machine.withGhost heldStep).replay (smallInstance 2 0, [])
    [.createContext (some 1), .allocateBlocks 1 1, .mapLogicalBlock 1 0 mapWrite, .hostWrite 1 firstMapping 0 7,
      .unmapLogicalBlock 1 firstMapping]

theorem clean_blocks_synced_written : CleanSynced writtenBack.1 0 := by
  have hrun : (machine.withGhost heldStep).Reach HeldAddressed (smallInstance 2 0, []) writtenBack := by
    refine Machine.Reach.start.replay ?_
    refine ⟨by decide +kernel, ⟨trivial, trivial⟩, trivial, ⟨?_, trivial⟩, trivial, ⟨?_, trivial⟩, by decide +kernel,
      ⟨?_, trivial⟩, trivial, ⟨?_, ?_⟩, trivial⟩
    · show _ ≠ Reply.status (.error .outOfMemory)
      decide +kernel
    · show MapBracketed _ _ 1 0 mapWrite
      decide +kernel
    · show _ ∈ _ ∧ hasWrite firstMapping.mapFlags = true ∧ 0 < firstMapping.sizeBytes
      decide +kernel
    · show _ ∈ _
      decide +kernel
    · show Addressed _ 1 firstMapping
      intro _
      exact ⟨⟨⟨[0]⟩, 4⟩, by decide +kernel, by decide +kernel⟩
  refine clean_blocks_synced (smallInstance_initial 2 0) hrun 0 (by decide +kernel) (by decide +kernel)
    (by decide +kernel) ?_
  intro hwritten
  obtain ⟨x, hx, _⟩ := hwritten
  have hnil : writtenBack.2 = [] := by decide +kernel
  rw [hnil] at hx
  cases hx

/-! A table of `2 ^ 31` entries, in which a WRITE mapping cannot be unmapped. -/

/-- The block is mapped once more and written to. -/
@[irreducible] def writtenAgain : MmuRuntime × List Holding :=
  (machine.withGhost heldStep).replay (smallInstance 2 0, [])
    [.createContext (some 1), .allocateBlocks 1 1, .mapLogicalBlock 1 0 mapWrite, .unmapLogicalBlock 1 firstMapping,
      .mapLogicalBlock 1 0 mapWrite, .hostWrite 1 firstMapping 0 7]

def HeldReach (s : MmuRuntime × List Holding) : Prop :=
  (machine.withGhost heldStep).Reach HeldBracketed (smallInstance 2 0, []) s

/-- The same mapping of the same block, next to entries that have been released. -/
structure Padded (s : MmuRuntime × List Holding) (n : Nat) : Prop where
  reach : HeldReach s
  count : s.1.config.l1BlockCount = 4
  live : ∀ q, s.1.Live q ↔ q = 0
  table : ∃ c, findContext s.1 1 = some c ∧ c.pageTable.entries.length = n
  block : s.1.block 0 = writtenAgain.1.block 0
  maps : s.2 = [(1, firstMapping)]

section Padded

variable {s : MmuRuntime × List Holding} {n : Nat}

theorem HeldReach.settled (h : HeldReach s) : s.1.Settled :=
  Reachable.settled ⟨_, smallInstance_initial 2 0, Machine.Reach.forget h fun _ _ _ _ => trivial⟩

theorem HeldReach.release {mmu mmu' : MmuRuntime} {maps : List Holding} {ctx : CtxHandle} {lb : UInt32}
    (h : HeldReach (mmu, maps)) (hno : NotHeld maps ctx lb) {r : Except MmuError Unit}
    (hr : mmuReleaseLogicalBlock mmu ctx lb = (r, mmu')) : HeldReach (mmu', maps) := by
  have hstep := Machine.Reach.next (i := Call.releaseLogicalBlock ctx lb) h trivial hno
  have hstate : (mmuReleaseLogicalBlock mmu ctx lb).2 = mmu' := by rw [hr]
  rw [← hstate]
  exact hstep

theorem HeldReach.unmap {mmu mmu' : MmuRuntime} {maps : List Holding} {ctx : CtxHandle} {d : MappedBlock}
    (h : HeldReach (mmu, maps)) (hx : (ctx, d) ∈ maps) {r : Except MmuError Unit}
    (hu : mmuUnmapLogicalBlock mmu ctx d = (r, mmu')) : HeldReach (mmu', maps.erase (ctx, d)) := by
  have hstep := Machine.Reach.next (i := Call.unmapLogicalBlock ctx d) h trivial hx
  have hstate : (mmuUnmapLogicalBlock mmu ctx d).2 = mmu' := by rw [hu]
  rw [← hstate]
  exact hstep

theorem writtenAgain_padded : Padded writtenAgain 1 := by
  have hreach : HeldReach writtenAgain := by
    unfold writtenAgain
    refine Machine.Reach.start.replay ?_
    refine ⟨by decide +kernel, trivial, trivial, ?_, trivial, ?_, trivial, ?_, trivial, ?_, trivial, ?_, trivial⟩
    · show _ ≠ Reply.status (.error .outOfMemory)
      decide +kernel
    · show MapBracketed _ _ 1 0 mapWrite
      decide +kernel
    · show _ ∈ _
      decide +kernel
    · show MapBracketed _ _ 1 0 mapWrite
      decide +kernel
    · show _ ∈ _ ∧ hasWrite firstMapping.mapFlags = true ∧ 0 < firstMapping.sizeBytes
      decide +kernel
  have hcount : writtenAgain.1.config.l1BlockCount = 4 := by
    unfold writtenAgain
    decide +kernel
  refine ⟨hreach, hcount, ?_, ?_, rfl, ?_⟩
  · have hall : ∀ q ∈ IntTable.indices 4, 0 < writtenAgain.1.l1Allocator.refCounts.entry q ↔ q = 0 := by
      unfold writtenAgain
      decide +kernel
    intro q
    constructor
    · intro hq
      have hv : q ∈ IntTable.indices writtenAgain.1.config.l1BlockCount := hreach.settled.valid hq
      rw [hcount] at hv
      exact (hall q hv).mp hq
    · intro hq
      exact (hall q (by rw [hq]; decide)).mpr hq
  · refine ⟨⟨⟨[0]⟩, 4⟩, ?_, rfl⟩
    unfold writtenAgain
    decide +kernel
  · unfold writtenAgain
    decide +kernel

theorem writtenAgain_unsynced :
    (writtenAgain.1.block 0).info.residentInL1 = true ∧ (writtenAgain.1.block 0).info.hasL2Backing = true ∧
      (writtenAgain.1.block 0).info.dirty = false ∧
      (writtenAgain.1.block 0).l1.map Page.bytes = some [7, 0, 0, 0] ∧
      (writtenAgain.1.block 0).l2.map Page.bytes = some [0, 0, 0, 0] := by
  unfold writtenAgain
  decide +kernel

/-- There is a free block, so that one more entry can be had. -/
theorem Padded.allocates (h : Padded s n) : ∃ c b bm, findContext s.1 1 = some c ∧ c.pageTable.entries.length = n ∧
    Taken s.1.l1Allocator [b] bm ∧
    Registered s.1 (mmuAllocateBlocks s.1 1 1).2 [b] ⟨bm, s.1.contexts.insert 1 (c.grown [b])⟩ ∧
    HeldReach ((mmuAllocateBlocks s.1 1 1).2, s.2) := by
  have hs := h.reach.settled
  obtain ⟨c, hc, hn⟩ := h.table
  have hone : u32ToInt 1 = some 1 := by decide
  obtain ⟨r, m, hr⟩ : ∃ r m, mmuAllocateBlocks s.1 1 1 = (r, m) := ⟨_, _, rfl⟩
  have hfree : 1 ∈ s.1.l1Allocator.freeList := by
    refine (hs.allocator.free_iff 1).mpr ⟨hs.coherent.sound.refs_inRange.mpr ?_, ?_⟩
    · show (1 : Int) ∈ IntTable.indices s.1.config.l1BlockCount
      rw [h.count]
      decide
    · have hdead : ¬0 < s.1.l1Allocator.refCounts.entry 1 := fun hl => absurd ((h.live 1).mp hl) (by decide)
      have hnonneg := hs.allocator.nonneg 1
      omega
  rcases mmuAllocateBlocks_cases hs hr with
    ⟨hno | hno, _⟩ | ⟨_, count, ids, bm, _, hcount, ht, hlen, hempty, _⟩ |
      ⟨c', count, ids, bm, hc', hcount, ht, hlen, rfl, hreg⟩
  · rw [hc] at hno
    cases hno
  · rw [hone] at hno
    cases hno
  · cases Option.some.inj (hone.symm.trans hcount)
    have hall := ht.all hempty
    have hpos := List.length_pos_of_mem hfree
    omega
  · cases Option.some.inj (hc.symm.trans hc')
    cases Option.some.inj (hone.symm.trans hcount)
    obtain ⟨b, rfl⟩ := List.length_eq_one_iff.mp (by omega : ids.length = 1)
    have hok : HeldBracketed s (.allocateBlocks 1 1) ((machine.withGhost heldStep).step s (.allocateBlocks 1 1)).1 := by
      show Reply.status (mmuAllocateBlocks s.1 1 1).1 ≠ .status (.error .outOfMemory)
      rw [hr]
      exact fun he => by cases he
    refine ⟨c, b, bm, hc, hn, ht, ?_, Machine.Reach.next (i := Call.allocateBlocks 1 1) h.reach trivial hok⟩
    rw [hr]
    exact hreg

/-- Its block is released, the entry stays. -/
theorem Padded.grows (h : Padded s n) (hpos : 0 < n) (hroom : n + 1 < 2 ^ 31) : ∃ t, Padded t (n + 1) := by
  have hs := h.reach.settled
  obtain ⟨c, b, bm, hc, hn, ht, hreg, hreach⟩ := h.allocates
  have happ := hreg.appended hs hc ht (by rw [hn]; exact hroom)
  obtain ⟨tier, hresolve⟩ := happ.resolves 0 b rfl
  rw [Nat.add_zero, hn] at hresolve
  have hroute := routedBlock_of_resolve hresolve
  obtain ⟨m, hm⟩ := mmuReleaseLogicalBlock_routed hreg.settled hroute
  have hzero : s.1.Live 0 := (h.live 0).mpr rfl
  have hb : (0 : Int) ≠ b := ht.ne_new hzero
  rcases mmuReleaseLogicalBlock_cases hreg.settled hm with ⟨⟨_, he⟩, _⟩ | ⟨c', lvid, b', hc', hlvid, hnames, _, hf⟩
  · cases he
  · have hsame : b' = b := by
      have hroute' := (routedBlock_eq_some hreg.settled).mpr ⟨c', lvid, hc', hlvid, hnames⟩
      exact Option.some.inj (hroute'.symm.trans hroute)
    subst hsame
    cases Option.some.inj (happ.table.symm.trans hc')
    have halloc : (mmuAllocateBlocks s.1 1 1).2.l1Allocator = bm := congrArg Routing.allocator hreg.routing
    have hlive : ∀ q, m.Live q ↔ q = 0 := by
      intro q
      have hent : m.l1Allocator = ((mmuAllocateBlocks s.1 1 1).2.l1Allocator.release b').2 :=
        congrArg Routing.allocator hf.routing
      rw [← h.live q]
      unfold Live
      rw [hent, halloc]
      exact ht.released_live q
    have hfree : NotHeld s.2 1 (UInt32.ofNat n) := by
      rw [h.maps]
      intro x hx
      rw [List.mem_singleton] at hx
      subst hx
      intro hboth
      have hval : (0 : Nat) = n % 2 ^ 32 := congrArg UInt32.toNat hboth.2
      omega
    refine ⟨(m, s.2), hreach.release hfree hm, ?_, hlive, ?_, ?_, h.maps⟩
    · show m.config.l1BlockCount = 4
      rw [hf.setup.config, hreg.setup.config, h.count]
    · refine ⟨(c.grown [b']).remapped lvid kUnallocatedBlock, ?_, ?_⟩
      · have hcontexts : m.contexts = _ := congrArg Routing.contexts hf.routing
        exact findContext_inserted (findContext_find? hc).1 hcontexts
      · show ((c.grown [b']).pageTable.set lvid kUnallocatedBlock).entries.length = n + 1
        rw [PageTable.set_length]
        show (c.pageTable.entries ++ [b']).length = n + 1
        rw [List.length_append, hn, List.length_singleton]
    · show m.block 0 = _
      rw [hf.blocks 0 ((hlive 0).mpr rfl), hreg.blocks 0 (fun hmem => hb (List.mem_singleton.mp hmem)), h.block]

theorem padded_upto (k : Nat) (hk : k + 1 < 2 ^ 31) : ∃ t, Padded t (k + 1) := by
  induction k with
  | zero => exact ⟨_, writtenAgain_padded⟩
  | succ k ih =>
    obtain ⟨t, ht⟩ := ih (by omega)
    exact ht.grows (by omega) hk

end Padded

/-- The entry that takes the table to `2 ^ 31` keeps every id from resolving: the unmap is refused, the mapping is
over, and the clean block has a byte that its copy in L2 has not. -/
theorem wide_table_keeps_unsynced : ∃ t : MmuRuntime × List Holding,
    (machine.withGhost heldStep).Reach HeldBracketed (smallInstance 2 0, []) t ∧
      (t.1.block 0).info.residentInL1 = true ∧ (t.1.block 0).info.hasL2Backing = true ∧
      (t.1.block 0).info.dirty = false ∧ ¬Written t.2 0 ∧ ¬CleanSynced t.1 0 := by
  obtain ⟨s, hs⟩ := padded_upto (2 ^ 31 - 2) (by omega)
  obtain ⟨c, b, bm, hc, hn, ht, hreg, hreach⟩ := hs.allocates
  have hcontexts : (mmuAllocateBlocks s.1 1 1).2.contexts = _ := congrArg Routing.contexts hreg.routing
  have hctx : findContext (mmuAllocateBlocks s.1 1 1).2 1 = some (c.grown [b]) :=
    findContext_inserted (findContext_find? hc).1 hcontexts
  have hunrouted : routedBlock (mmuAllocateBlocks s.1 1 1).2 1 firstMapping.logicalBlockId ≠
      some firstMapping.physicalBlockId := by
    intro hroute
    obtain ⟨c', lvid, hc', _, hnames⟩ := (routedBlock_eq_some hreg.settled).mp hroute
    cases Option.some.inj (hctx.symm.trans hc')
    obtain ⟨hlow, hhigh⟩ := (PageTable.get_eq_some.mp hnames.entry).1
    have hlen : (c.grown [b]).pageTable.entries.length = 2 ^ 31 := by
      show (c.pageTable.entries ++ [b]).length = 2 ^ 31
      rw [List.length_append, hn, List.length_singleton]
      omega
    rw [hlen, staticCastInt_neg le_rfl (by omega)] at hhigh
    omega
  obtain ⟨e, hrefused⟩ := mmuUnmapLogicalBlock_refused hreg.settled hunrouted
  have hb : (0 : Int) ≠ b := ht.ne_new ((hs.live 0).mpr rfl)
  have hblock : (mmuAllocateBlocks s.1 1 1).2.block 0 = writtenAgain.1.block 0 := by
    rw [hreg.blocks 0 (fun hmem => hb (List.mem_singleton.mp hmem)), hs.block]
  have hend : HeldReach ((mmuAllocateBlocks s.1 1 1).2, []) := by
    rw [hs.maps] at hreach
    exact hreach.unmap (List.mem_singleton_self _) hrefused
  obtain ⟨hr, hbacked, hclean, hl1, hl2⟩ := writtenAgain_unsynced
  rw [← hblock] at hr hbacked hclean hl1 hl2
  refine ⟨_, hend, hr, hbacked, hclean, ?_, ?_⟩
  · intro hwritten
    obtain ⟨x, hx, _⟩ := hwritten
    cases hx
  · intro hsynced
    obtain ⟨page, copy, hpage, hcopy, hbytes⟩ := hsynced.bytes
    rw [hpage] at hl1
    rw [hcopy] at hl2
    have hseven : page.bytes = [7, 0, 0, 0] := Option.some.inj hl1
    have hzero : copy.bytes = [0, 0, 0, 0] := Option.some.inj hl2
    rw [hseven, hzero] at hbytes
    cases hbytes

end DsfMmu
