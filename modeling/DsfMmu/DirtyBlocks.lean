import DsfMmu.BlockMoves
import DsfMmu.ClosedMappings

namespace DsfMmu

open MmuRuntime

/-- The life cycle has no state for a dirty block outside L1. -/
def DirtyInside (mmu : MmuRuntime) : Prop :=
  ∀ p, (mmu.block p).info.dirty = true → (mmu.block p).info.residentInL1 = true

/-- The map evicts a block whose last write-back failed. -/
def EvictsDirty (mmu : MmuRuntime) (ctx : CtxHandle) (lb flags : UInt32) : Prop :=
  ∃ v ∈ mapEvicts mmu ctx lb flags, (mmu.block v).info.dirty = true

instance (mmu : MmuRuntime) (ctx : CtxHandle) (lb flags : UInt32) : Decidable (EvictsDirty mmu ctx lb flags) :=
  inferInstanceAs (Decidable (∃ v ∈ mapEvicts mmu ctx lb flags, (mmu.block v).info.dirty = true))

/-- The unmap of a WRITE mapping finds its block outside L1. -/
def DirtiesOutside (mmu : MmuRuntime) (ctx : CtxHandle) (d : MappedBlock) : Prop :=
  hasWrite d.mapFlags = true ∧ routedBlock mmu ctx d.logicalBlockId = some d.physicalBlockId ∧
    (mmu.block d.physicalBlockId).info.residentInL1 = false

instance (mmu : MmuRuntime) (ctx : CtxHandle) (d : MappedBlock) : Decidable (DirtiesOutside mmu ctx d) :=
  inferInstanceAs (Decidable (hasWrite d.mapFlags = true ∧
    routedBlock mmu ctx d.logicalBlockId = some d.physicalBlockId ∧
    (mmu.block d.physicalBlockId).info.residentInL1 = false))

/-- Some unmap of a list does when its turn comes. -/
def UnmapsOutside (ctx : CtxHandle) : List MappedBlock → MmuRuntime → Prop
  | [], _ => False
  | d :: rest, mmu => DirtiesOutside mmu ctx d ∨ UnmapsOutside ctx rest (mmuUnmapLogicalBlock mmu ctx d).2

instance UnmapsOutside.decidable (ctx : CtxHandle) : ∀ ds mmu, Decidable (UnmapsOutside ctx ds mmu)
  | [], _ => isFalse id
  | d :: rest, mmu =>
    have := UnmapsOutside.decidable ctx rest (mmuUnmapLogicalBlock mmu ctx d).2
    inferInstanceAs (Decidable (DirtiesOutside mmu ctx d ∨
      UnmapsOutside ctx rest (mmuUnmapLogicalBlock mmu ctx d).2))

/-- Some map of a batch evicts a dirty block, or some unmap of its rollback finds its block outside L1. -/
def BatchStrands (ctx : CtxHandle) (flags : UInt32) : List UInt32 → List MappedBlock → MmuRuntime → Prop
  | [], _, _ => False
  | lb :: rest, done, mmu =>
    EvictsDirty mmu ctx lb flags ∨
      match mmuMapLogicalBlock mmu ctx lb flags with
      | (.error _, mmu') => UnmapsOutside ctx done mmu'
      | (.ok d, mmu') => BatchStrands ctx flags rest (done ++ [d]) mmu'

/-- The calls that leave no block dirty outside L1. -/
def StrandsNone : StepCondition := fun mmu call _ =>
  match call with
  | .mapLogicalBlock ctx lb flags => ¬EvictsDirty mmu ctx lb flags
  | .mapLogicalBlocks ctx lbs flags => ¬BatchStrands ctx flags lbs [] mmu
  | .unmapLogicalBlock ctx d => ¬DirtiesOutside mmu ctx d
  | .unmapLogicalBlocks ctx ds => ¬UnmapsOutside ctx ds mmu
  | _ => True

section Steps

variable {mmu mmu' : MmuRuntime} {ctx : CtxHandle} {lb flags : UInt32}

theorem Renewed.dirtyInside (h : Renewed mmu mmu') (hin : DirtyInside mmu) : DirtyInside mmu' := by
  intro q hdirty
  rcases h q with hsame | hblank
  · rw [hsame] at hdirty ⊢
    exact hin q hdirty
  · rw [hblank.clean] at hdirty
    cases hdirty

theorem map_dirtyInside (h : mmu.Settled) (hin : DirtyInside mmu) (hno : ¬EvictsDirty mmu ctx lb flags)
    {r : Except MmuError MappedBlock} (hm : mmuMapLogicalBlock mmu ctx lb flags = (r, mmu')) :
    DirtyInside mmu' := by
  obtain ⟨mid, hrenewed, _, hmoved⟩ := map_moved h hm
  intro q hdirty
  have hmid : (mid.block q).info.dirty = true := (hmoved q).dirty.symm.trans hdirty
  refine (hmoved q).inside (hrenewed.dirtyInside hin q hmid) ?_
  intro hleaves
  rcases hrenewed q with hsame | hblank
  · rw [hsame] at hmid
    exact hno ⟨q, hleaves, hmid⟩
  · rw [hblank.clean] at hmid
    cases hmid

/-- A WRITE unmap of a resident block leaves it resident, dirty or not. -/
theorem unmap_dirtyInside (h : mmu.Settled) (hin : DirtyInside mmu) {d : MappedBlock}
    (hno : ¬DirtiesOutside mmu ctx d) {r : Except MmuError Unit} (hu : mmuUnmapLogicalBlock mmu ctx d = (r, mmu')) :
    DirtyInside mmu' := by
  by_cases hroute : routedBlock mmu ctx d.logicalBlockId = some d.physicalBlockId
  swap
  · obtain ⟨e, herr⟩ := mmuUnmapLogicalBlock_refused h hroute
    rw [herr] at hu
    obtain ⟨_, rfl⟩ := Prod.mk.inj hu
    exact hin
  have hupdate : ∀ {v : BlockView}, mmu'.block = Function.update mmu.block d.physicalBlockId v →
      (v.info.dirty = true → v.info.residentInL1 = true) → DirtyInside mmu' := by
    intro v hblock hv q hdirty
    rw [hblock] at hdirty ⊢
    by_cases hq : q = d.physicalBlockId
    · rw [hq, Function.update_self] at hdirty ⊢
      exact hv hdirty
    · rw [Function.update_of_ne hq] at hdirty ⊢
      exact hin q hdirty
  rw [mmuUnmapLogicalBlock_routed h hroute] at hu
  rcases unmapPinned_effect h (routed_live h hroute) hu with
    ⟨_, _, hr, he⟩ | ⟨_, v, ⟨_, rfl⟩ | ⟨hw, hr, rfl⟩ | ⟨_, _, ptr, rfl⟩, he⟩
  · exact hupdate he.blocks (fun _ => hr)
  · exact hupdate he.blocks (hin d.physicalBlockId)
  · exact absurd ⟨hw, hroute, hr⟩ hno
  · exact hupdate he.blocks (fun hdirty => absurd hdirty Bool.false_ne_true)

theorem unmapAll_dirtyInside (ds : List MappedBlock) (h : mmu.Settled) (hin : DirtyInside mmu)
    (hno : ¬UnmapsOutside ctx ds mmu) : DirtyInside (unmapAll ctx ds mmu) := by
  induction ds generalizing mmu with
  | nil => exact hin
  | cons d rest ih =>
    obtain ⟨r, m, hu⟩ : ∃ r m, mmuUnmapLogicalBlock mmu ctx d = (r, m) := ⟨_, _, rfl⟩
    have hlater : ¬UnmapsOutside ctx rest m := by
      intro hc
      refine hno (.inr ?_)
      rw [hu]
      exact hc
    rw [unmapAll_cons hu rest]
    exact ih (unmap_clean h hu).settled (unmap_dirtyInside h hin (fun hc => hno (.inl hc)) hu) hlater

theorem mapBlocksLoop_dirtyInside (lbs : List UInt32) (done : List MappedBlock) (h : mmu.Settled)
    (hin : DirtyInside mmu) (hno : ¬BatchStrands ctx flags lbs done mmu) {r : Except MmuError (List MappedBlock)}
    (hm : mapBlocksLoop ctx flags lbs done mmu = (r, mmu')) : DirtyInside mmu' := by
  induction lbs generalizing mmu done with
  | nil =>
    obtain ⟨_, rfl⟩ := Prod.mk.inj hm
    exact hin
  | cons lb rest ih =>
    obtain ⟨hhere, hlater⟩ := not_or.mp hno
    unfold mapBlocksLoop at hm
    split at hm
    next e m hone =>
      obtain ⟨_, rfl⟩ := Prod.mk.inj hm
      rw [hone] at hlater
      exact unmapAll_dirtyInside done (map_clean h hone).settled (map_dirtyInside h hin hhere hone) hlater
    next d m hone =>
      rw [hone] at hlater
      exact ih (done ++ [d]) (map_clean h hone).settled (map_dirtyInside h hin hhere hone) hlater hm

theorem perform_dirtyInside (h : mmu.Settled) (hin : DirtyInside mmu) {call : Call}
    (hno : StrandsNone mmu call (perform mmu call).1) : DirtyInside (perform mmu call).2 := by
  cases call with
  | mapLogicalBlock ctx lb flags => exact map_dirtyInside h hin hno rfl
  | mapLogicalBlocks ctx lbs flags => exact mapBlocksLoop_dirtyInside lbs [] h hin hno rfl
  | unmapLogicalBlock ctx d => exact unmap_dirtyInside h hin hno rfl
  | unmapLogicalBlocks ctx ds =>
    rw [perform_unmaps]
    exact unmapAll_dirtyInside ds h hin hno
  | hostWrite ctx d offset byte =>
    intro q hdirty
    have hblock := hostWrite_block mmu d offset byte q
    simp only [perform, hblock] at hdirty ⊢
    exact hin q hdirty
  | _ =>
    refine (perform_renewed h ?_).dirtyInside hin
    exact trivial

end Steps

/-- As long as no call strands one, only resident blocks are dirty. -/
theorem dirty_blocks_resident {mmu : MmuRuntime} (h : ReachableBy StrandsNone mmu) : DirtyInside mmu := by
  have hinv : mmu.Settled ∧ DirtyInside mmu := by
    refine h.invariant (I := fun mmu => mmu.Settled ∧ DirtyInside mmu) ?_ ?_
    · intro start hstart
      have hsettled := Reachable.settled ⟨start, hstart, .start⟩
      obtain ⟨config, env, rfl⟩ := initial_new hstart
      exact ⟨hsettled, fun _ hdirty => absurd hdirty Bool.false_ne_true⟩
    · intro mmu call hs hp hno
      have hkept := perform_kept hs.1 hp trivial (eventsOf_any mmu call)
      exact ⟨hkept.settled, perform_dirtyInside hs.1 hs.2 hno⟩
  exact hinv.2

/-- Two resident blocks; the second one's unmap finds L2 full of the first one's copy. -/
def secondUnsynced : List Call :=
  [.createContext (some 1), .allocateBlocks 1 2, .mapLogicalBlock 1 0 mapWrite, .unmapLogicalBlock 1 firstMapping,
    .mapLogicalBlock 1 1 mapWrite, .unmapLogicalBlock 1 secondMapping]

@[irreducible] def unsynced : MmuRuntime := machine.replay (smallInstance 2 1) secondUnsynced

theorem dirty_blocks_resident_unsynced : DirtyInside unsynced ∧ (unsynced.block 1).info.dirty = true := by
  have hmeets : machine.Meets StrandsNone (smallInstance 2 1) secondUnsynced := by
    refine ⟨by decide +kernel, trivial, trivial, trivial, trivial, ?_, trivial, ?_, trivial, ?_, trivial, ?_, trivial⟩
    · show ¬EvictsDirty _ 1 0 mapWrite
      decide +kernel
    · show ¬DirtiesOutside _ 1 firstMapping
      decide +kernel
    · show ¬EvictsDirty _ 1 1 mapWrite
      decide +kernel
    · show ¬DirtiesOutside _ 1 secondMapping
      decide +kernel
  have hrun : ReachableBy StrandsNone unsynced := by
    unfold unsynced
    exact ⟨_, smallInstance_initial 2 1, Machine.Reach.start.replay hmeets⟩
  refine ⟨dirty_blocks_resident hrun, ?_⟩
  unfold unsynced
  decide +kernel

/-- Every unmap is given a mapping that is out. -/
def UnmapsOutstanding (s : MmuRuntime × List Holding) (call : Call) (_ : Reply) : Prop :=
  match call with
  | .unmapLogicalBlock ctx d => (ctx, d) ∈ s.2
  | .unmapLogicalBlocks ctx ds => UnmapsHeld ctx ds s.2
  | _ => True

/-- The first block is released, which frees L2, and its place in L1 and then that of the dirty one are taken. -/
def evictedUnclean : MmuRuntime × List Holding :=
  (machine.withGhost openStep).replay (smallInstance 2 1, [])
    (secondUnsynced ++ [.releaseLogicalBlock 1 0, .allocateBlocks 1 2, .mapLogicalBlock 1 3 mapRead])

/-- A mapped block is left to a fork, dies with it, and is the next block that its old entry is moved to. -/
def recycled : MmuRuntime × List Holding :=
  (machine.withGhost openStep).replay (smallInstance 2 0, [])
    [.createContext (some 1), .allocateBlocks 1 1, .mapLogicalBlock 1 0 mapWrite,
      .forkContext 1 (fun _ => true) (some 2), .prepareBlockForWrite 1 0, .releaseLogicalBlock 2 0,
      .forkContext 1 (fun _ => true) (some 3), .prepareBlockForWrite 1 0, .unmapLogicalBlock 1 firstMapping]

/-- The eviction copies the dirty block's bytes and leaves the flag; the unmap sets the flag of a clone that has
never been in L1. -/
theorem evicted_block_stays_dirty :
    ((machine.withGhost openStep).Reach UnmapsOutstanding (smallInstance 2 1, []) evictedUnclean ∧
      (evictedUnclean.1.block 1).l2.isSome ∧ ¬DirtyInside evictedUnclean.1) ∧
    ((machine.withGhost openStep).Reach UnmapsOutstanding (smallInstance 2 0, []) recycled ∧
      ¬DirtyInside recycled.1) := by
  refine ⟨⟨Machine.Reach.start.replay ?_, by decide +kernel, ?_⟩, Machine.Reach.start.replay ?_, ?_⟩
  · refine ⟨by decide +kernel, trivial, trivial, trivial, trivial, trivial, trivial, ?_, trivial, trivial, trivial,
      ?_, trivial, trivial, trivial, trivial, trivial, trivial, trivial⟩
    · show _ ∈ _
      decide +kernel
    · show _ ∈ _
      decide +kernel
  · intro hin
    have hdirty := hin 1 (by decide +kernel)
    have hout : (evictedUnclean.1.block 1).info.residentInL1 = false := by decide +kernel
    rw [hout] at hdirty
    cases hdirty
  · refine ⟨by decide +kernel, trivial, trivial, trivial, trivial, trivial, by decide +kernel, trivial, trivial,
      trivial, trivial, trivial, by decide +kernel, trivial, trivial, trivial, trivial, ?_, trivial⟩
    show _ ∈ _
    decide +kernel
  · intro hin
    have hdirty := hin 0 (by decide +kernel)
    have hout : (recycled.1.block 0).info.residentInL1 = false := by decide +kernel
    rw [hout] at hdirty
    cases hdirty

end DsfMmu
