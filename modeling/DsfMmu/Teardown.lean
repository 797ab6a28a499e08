import DsfMmu.ExactCounts

namespace DsfMmu

namespace Escaping

open MmuRuntime Throwing BlockManager Context

variable {mmu : MmuRuntime}

/-- Nothing is left in use. -/
structure TornDown (mmu : MmuRuntime) : Prop where
  free : mmuGetFreeBlockCount mmu = mmu.config.l1BlockCount
  refs : ∀ p : Nat, p < mmu.config.l1BlockCount → mmuGetRefCount mmu p = 0
  metas : ∀ p : Nat, mmu.blockDirectory.metas.entry p = makeDefaultMeta
  residents : mmu.residentCount = 0
  committed : ∀ id, (mmu.pool id).committedPages = 0

/-- No reference and no page is left behind: no fork leaks, no append of an allocation is refused, and the free lists
take every page of a block that is given up. -/
def LeavesNothing : StepCondition := fun mmu step _ =>
  ¬Refused .append mmu step ∧ ¬Refused .resetBlockData mmu step ∧
    match step.1 with
    | .forkContext src grows _ => ¬LeakyFork mmu src grows
    | _ => True

/-- The sites from which a `bad_alloc` leaves nothing behind. -/
def Leakless (site : BadAlloc) : Prop := site ≠ .append ∧ site ≠ .resetBlockData

theorem reachable_bounded (h : ReachableBy LeavesNothing mmu) : Standing Leakless mmu ∧ mmu.routing.Bounded := by
  refine h.invariant (I := fun mmu => Standing Leakless mmu ∧ mmu.routing.Bounded) ?_ ?_
  · intro s hs
    obtain ⟨config, env, rfl⟩ := initial_new hs
    exact ⟨initial_standing _ hs, fun p => Int.natCast_nonneg _⟩
  · intro s step hboth hp hmeets
    obtain ⟨hs, hbounded⟩ := hboth
    obtain ⟨happend, hreset, hkeep⟩ := hmeets
    have hev : StepEvents (fun m => m ≠ .appendRefused) s step := by
      obtain ⟨call, g⟩ := step
      cases call with
      | allocateBlocks ctx n => exact ⟨fun _ => nofun, fun _ _ _ _ _ => nofun⟩
      | forkContext src grows handle =>
        have hsound : ¬LeakyFork s src grows := hkeep
        exact fun hl => absurd hl hsound
      | _ => trivial
    have hseen : ∀ site, Refused site s step → Leakless site := by
      intro site href
      refine ⟨?_, ?_⟩
      · rintro rfl
        exact happend href
      · rintro rfl
        exact hreset href
    obtain ⟨hs', -, hrun⟩ := perform_standing hs hp nofun hev hseen
    obtain ⟨-, hbounded'⟩ := (hrun happend).invariant (I := fun r => r.Ok ∧ r.Bounded) ⟨hs.routing, hbounded⟩
      (fun a m b hi hm hstep => ⟨hi.1.step hstep, hi.2.step hi.1 hstep hm⟩)
    exact ⟨hs', hbounded'⟩

theorem no_contexts (hok : mmu.routing.Ok) (hgone : ∀ ctx, findContext mmu ctx = none) : mmu.contexts.keys = ∅ := by
  apply Finset.eq_empty_of_forall_notMem
  intro k hk
  have hfind : mmu.contexts.find? k = some (mmu.contexts.value k) := KeyedMap.find?_eq_some.mpr ⟨hk, rfl⟩
  have hne := hok.ne_null hfind
  have hnone := hgone k
  rw [findContext, if_neg hne, hfind] at hnone
  cases hnone

/-- A block that no entry names has no reference. -/
theorem no_references (hok : mmu.routing.Ok) (hbounded : mmu.routing.Bounded) (hkeys : mmu.contexts.keys = ∅) (p : Int) :
    mmu.l1Allocator.refCounts.entry p = 0 := by
  have hle := hbounded p
  have hnames : mmu.routing.names p = 0 := KeyedMap.total_of_keys_empty _ hkeys
  have hn := hok.allocator.nonneg p
  have : mmu.routing.allocator.refCounts.entry p = mmu.l1Allocator.refCounts.entry p := rfl
  omega

/-- Without blocks in use the directory, the counter and the pools are as they were in the beginning. -/
theorem tallied_emptied {live : Int → Prop} (h : mmu.Tallied live) (ht : mmu.Tables) (hnone : ∀ p, ¬live p) :
    (∀ p, mmu.blockDirectory.metas.entry p = makeDefaultMeta) ∧ mmu.residentCount = 0 ∧
      ∀ id, (mmu.pool id).committedPages = 0 := by
  refine ⟨fun p => (h.bare p (hnone p)).1, ?_, ?_⟩
  · rw [h.count, Finset.card_eq_zero]
    apply Finset.eq_empty_of_forall_notMem
    intro p hp
    exact hnone p (h.live_of_resident (mem_residents_iff.mp hp).2)
  · intro id
    rw [(ht.pool_ok id).committed, Finset.card_eq_zero]
    apply Finset.eq_empty_of_forall_notMem
    intro p hp
    have hentry := (h.bare p (hnone p)).2 id
    exact (Finset.mem_filter.mp hp).2 hentry

/-- Once every context is gone nothing is in use, whatever failed or threw on the way, in every run that meets the
condition. -/
theorem teardown_leaves_nothing (h : ReachableBy LeavesNothing mmu) (hsmall : mmu.config.l1BlockCount < 2 ^ 31)
    (hgone : ∀ ctx, findContext mmu ctx = none) : TornDown mmu := by
  obtain ⟨hs, hbounded⟩ := reachable_bounded h
  have hzero := no_references hs.routing hbounded (no_contexts hs.routing hgone)
  have hnone : ∀ p, ¬mmu.Live p := fun p => not_live_of_zero (hzero p)
  obtain ⟨hmetas, hcount, hcommitted⟩ := tallied_emptied (hs.tallied (fun hseen => hseen.2 rfl)) hs.tables hnone
  refine ⟨?_, ?_, fun p => hmetas p, hcount, hcommitted⟩
  · rw [free_count hs.allocator hs.tables, Finset.filter_true_of_mem (fun p _ => hzero p), card_valid hsmall]
  · intro p hp
    have hv := hs.tables.refs_inRange.mpr ((valid_iff_lt hsmall p).mpr hp)
    exact (refCount_valid hv).trans (hzero p)

/-- A context that lived through a failed allocation and one that threw, then was destroyed. -/
def tornDownSteps : List (Call × Grants) :=
  [(.createContext (some 1), allGranted), (.allocateBlocks 1 9, allGranted),
    (.allocateBlocks 1 2, { allGranted with insert := false }), (.destroyContext 1, allGranted)]

theorem teardown_leaves_nothing_failed_allocation :
    TornDown (machine.replay (smallInstance 1 0) tornDownSteps) := by
  apply teardown_leaves_nothing
  · exact ⟨_, smallInstance_initial 1 0, Machine.Reach.start.replay
      ⟨by decide +kernel, ⟨by decide +kernel, by decide +kernel, trivial⟩,
        by decide +kernel, ⟨by decide +kernel, by decide +kernel, trivial⟩,
        by decide +kernel, ⟨by decide +kernel, by decide +kernel, trivial⟩,
        by decide +kernel, ⟨by decide +kernel, by decide +kernel, trivial⟩, trivial⟩⟩
  · decide +kernel
  · intro ctx
    have hkeys : (machine.replay (smallInstance 1 0) tornDownSteps).contexts.keys = ∅ := by decide +kernel
    unfold findContext
    split
    next => rfl
    next => exact KeyedMap.find?_eq_none.mpr (by simp [hkeys])

/-- After the leak, destroying the only context leaves one block in use for good. -/
theorem leaky_fork_outlives_contexts :
    ReachableBy Machine.anyStep (machine.replay (smallInstance 1 0) (leakingSteps ++ [(.destroyContext 1, allGranted)])) ∧
      (machine.replay (smallInstance 1 0) (leakingSteps ++ [(.destroyContext 1, allGranted)])).config.l1BlockCount <
        2 ^ 31 ∧
      (machine.replay (smallInstance 1 0) (leakingSteps ++ [(.destroyContext 1, allGranted)])).contexts.keys = ∅ ∧
      ¬TornDown (machine.replay (smallInstance 1 0) (leakingSteps ++ [(.destroyContext 1, allGranted)])) := by
  refine ⟨⟨_, smallInstance_initial 1 0, Machine.Reach.start.replay ?_⟩, by decide +kernel, by decide +kernel, ?_⟩
  · exact ⟨by decide +kernel, trivial, by decide +kernel, trivial, by decide +kernel, trivial, by decide +kernel,
      trivial, trivial⟩
  · intro h
    have hfree :
        mmuGetFreeBlockCount (machine.replay (smallInstance 1 0) (leakingSteps ++ [(.destroyContext 1, allGranted)])) ≠
        (machine.replay (smallInstance 1 0) (leakingSteps ++ [(.destroyContext 1, allGranted)])).config.l1BlockCount := by
      decide +kernel
    exact hfree h.free

end Escaping

end DsfMmu
