import DsfMmu.Transparency

namespace DsfMmu

open MmuRuntime BlockManager Context

/-- A block comes in when an allocation that succeeds hands it out, and goes with the first store to the slot
it owns. -/
def unwrittenStep (mmu : MmuRuntime) (call : Call) (reply : Reply) (fresh : List Int) : List Int :=
  match call, reply with
  | .allocateBlocks ctx _, .status (.ok _) => newBlocks mmu (perform mmu call).2 ctx ++ fresh
  | .hostWrite _ d _ _, _ => fresh.filter fun p => mmu.l1Pool.rawPage p ≠ some d.hostPtr
  | _, _ => fresh

instance (mmu : MmuRuntime) (p : Int) : Decidable (mmu.Live p) :=
  inferInstanceAs (Decidable (0 < mmu.l1Allocator.refCounts.entry p))

/-- It also goes with its last reference. -/
def freshStep (mmu : MmuRuntime) (call : Call) (reply : Reply) (fresh : List Int) : List Int :=
  (unwrittenStep mmu call reply fresh).filter fun p => (perform mmu call).2.Live p

structure Fresh (mmu : MmuRuntime) (p : Int) : Prop where
  live : mmu.Live p
  bytes : mmu.logicalBytes p = mmu.zeroPage

/-- Maps of `p` hand out zeros; a batch does, unless it counts a pin on `p` when its counter is full. -/
structure ReadsZero (mmu : MmuRuntime) (p : Int) : Prop where
  map : ∀ ctx lb flags d mmu', mmuMapLogicalBlock mmu ctx lb flags = (.ok d, mmu') → d.physicalBlockId = p →
    hostRead mmu' d = mmu.zeroPage
  pages : ∀ ctx lbs flags ds mmu', mmuMapLogicalBlocks mmu ctx lbs flags = (.ok ds, mmu') →
    ¬BatchWraps mmu ctx lbs flags p →
      ∀ d ∈ ds, d.physicalBlockId = p → hostRead mmu' d = mmu.zeroPage

section Fresh

variable {mmu mmu' : MmuRuntime} {ctx : CtxHandle} {p : Int} {fresh : List Int}

/-- What an allocation that succeeds appends is cleared. -/
theorem allocate_fresh (h : mmu.Settled) {n : UInt32} {u : Unit}
    (hr : mmuAllocateBlocks mmu ctx n = (.ok u, mmu')) (hp : p ∈ newBlocks mmu mmu' ctx) : Fresh mmu' p := by
  rcases mmuAllocateBlocks_cases h hr with
    ⟨_, ⟨_, he, _⟩, _⟩ | ⟨_, _, _, _, _, _, _, _, _, he, _⟩ | ⟨c, count, ids, bm, hc, _, ht, _, _, hreg⟩
  · cases he
  · cases he
  · have halloc : mmu'.l1Allocator = bm := congrArg Routing.allocator hreg.routing
    have hcontexts : mmu'.contexts = mmu.contexts.insert ctx (c.grown ids) := congrArg Routing.contexts hreg.routing
    have hids : newBlocks mmu mmu' ctx = ids := newBlocks_grown hc hcontexts
    rw [hids] at hp
    refine ⟨?_, ?_⟩
    · have hone := ht.entry p
      rw [if_pos hp, ← halloc] at hone
      show 0 < mmu'.l1Allocator.refCounts.entry p
      omega
    · exact (hreg.fresh p hp).bytes _

theorem Fresh.readsZero (h : mmu.Settled) (hp : Fresh mmu p) : ReadsZero mmu p := by
  refine ⟨?_, ?_⟩
  · intro ctx lb flags d mmu' hm hd
    subst hd
    rw [← hp.bytes]
    exact hostRead_of_l1 (map_page h hm hp.live)
  · intro ctx lbs flags ds mmu' hm hno d hd hdp
    obtain ⟨new, hds, hall⟩ := mapBlocksLoop_pages lbs [] ds h hp.live hno hm
    rw [List.nil_append] at hds
    rw [← hp.bytes]
    exact hall d (hds ▸ hd) hdp

theorem unwrittenStep_cases {call : Call} {reply : Reply} (hp : p ∈ unwrittenStep mmu call reply fresh) :
    (∃ ctx n u, call = .allocateBlocks ctx n ∧ reply = .status (.ok u) ∧
      p ∈ newBlocks mmu (perform mmu call).2 ctx) ∨
    p ∈ fresh ∧ ∀ k d offset byte, call = .hostWrite k d offset byte → mmu.l1Pool.rawPage p ≠ some d.hostPtr := by
  unfold unwrittenStep at hp
  split at hp
  next ctx n u =>
    rcases List.mem_append.mp hp with hnew | hold
    · exact .inl ⟨ctx, n, u, rfl, rfl, hnew⟩
    · exact .inr ⟨hold, by simp⟩
  next ctx d offset byte =>
    obtain ⟨hold, hmiss⟩ := List.mem_filter.mp hp
    have hmiss : mmu.l1Pool.rawPage p ≠ some d.hostPtr := by simpa using hmiss
    refine .inr ⟨hold, ?_⟩
    intro k d' offset' byte' he
    cases he
    exact hmiss
  next hstore _ => exact .inr ⟨hp, fun k d offset byte he => absurd he (hstore k d offset byte)⟩

/-- A fresh block stays so for as long as it is in use and no store hits it. -/
theorem Fresh.kept (h : mmu.Settled) {call : Call} (hperm : Permitted mmu call)
    (hmiss : ∀ k d offset byte, call = .hostWrite k d offset byte → mmu.l1Pool.rawPage p ≠ some d.hostPtr)
    (hp : Fresh mmu p) (hlive : (perform mmu call).2.Live p) : Fresh (perform mmu call).2 p := by
  have hsetup := (perform_kept h hperm trivial (eventsOf_any mmu call)).setup
  have hbytes : (perform mmu call).2.logicalBytes p = mmu.logicalBytes p := by
    by_cases hstore : ∃ k d offset byte, call = .hostWrite k d offset byte
    · obtain ⟨k, d, offset, byte, rfl⟩ := hstore
      exact hostWrite_bytes_missed (hmiss k d offset byte rfl) offset byte
    · exact perform_keepsBytes h (fun k d offset byte he => hstore ⟨k, d, offset, byte, he⟩) p hp.live hlive
  refine ⟨hlive, ?_⟩
  rw [hbytes, hsetup.zeroPage]
  exact hp.bytes

theorem freshStep_fresh (h : mmu.Settled) {call : Call} (hperm : Permitted mmu call)
    (hfresh : ∀ p ∈ fresh, Fresh mmu p) :
    ∀ p ∈ freshStep mmu call (perform mmu call).1 fresh, Fresh (perform mmu call).2 p := by
  intro p hp
  obtain ⟨hin, hlive⟩ := List.mem_filter.mp hp
  have hlive : (perform mmu call).2.Live p := by simpa using hlive
  rcases unwrittenStep_cases hin with ⟨ctx, n, u, rfl, hreply, hnew⟩ | ⟨hold, hmiss⟩
  · obtain ⟨r, mmu', hr⟩ : ∃ r m, mmuAllocateBlocks mmu ctx n = (r, m) := ⟨_, _, rfl⟩
    simp only [perform, hr] at hreply hnew ⊢
    cases Reply.status.inj hreply
    exact allocate_fresh h hr hnew
  · exact (hfresh p hold).kept h hperm hmiss hlive

end Fresh

/-- From the allocation that hands it out until its first store or its last release, a block reads as zeros. -/
theorem fresh_blocks_read_zero {start : MmuRuntime} {t : MmuRuntime × List Int} (hstart : Initial start)
    (h : (machine.withGhost freshStep).Reach Machine.anyStep (start, []) t) : ∀ p ∈ t.2, ReadsZero t.1 p := by
  have hr : Reachable start := ⟨start, hstart, .start⟩
  have hinv : t.1.Settled ∧ ∀ p ∈ t.2, Fresh t.1 p := by
    refine h.invariant (I := fun s => s.1.Settled ∧ ∀ p ∈ s.2, Fresh s.1 p) ?_ ?_
    · exact ⟨hr.settled, fun _ hp => absurd hp List.not_mem_nil⟩
    · intro s call hs hp _
      have hperm : Permitted s.1 call := hp
      have hkept := perform_kept hs.1 hperm trivial (eventsOf_any s.1 call)
      exact ⟨hkept.settled, freshStep_fresh hs.1 hperm hs.2⟩
  intro p hp
  exact (hinv.2 p hp).readsZero hinv.1

/-- A mapping of the second of two blocks that share one L1 slot. -/
def neighbourMapping : MappedBlock := ⟨⟨0, 3⟩, 4, 1, 1, mapWrite⟩

/-- The second block is written through the slot that the first, never used, has to leave and gets back. -/
def writtenNextDoor : List Call :=
  [.createContext (some 1), .allocateBlocks 1 2, .mapLogicalBlock 1 1 mapWrite,
    .hostWrite 1 neighbourMapping 0 7, .unmapLogicalBlock 1 neighbourMapping, .mapLogicalBlock 1 0 mapRead,
    .unmapLogicalBlock 1 ⟨⟨0, 3⟩, 4, 0, 0, mapRead⟩]

theorem fresh_blocks_read_zero_next_door :
    ReadsZero ((machine.withGhost freshStep).replay (smallInstance 1 0, []) writtenNextDoor).1 0 :=
  fresh_blocks_read_zero (smallInstance_initial 1 0) (reach_replay .start (by decide +kernel)) 0 (by decide +kernel)

/-! Runs in which the bytes of another block do show. -/

/-- A written block is forked, and the clone lands in the block that context 1 got fresh and released. -/
def clonedIntoReleased : List Call :=
  [.createContext (some 1), .allocateBlocks 1 2, .mapLogicalBlock 1 0 mapWrite, .hostWrite 1 firstMapping 0 7,
    .unmapLogicalBlock 1 firstMapping, .releaseLogicalBlock 1 1, .forkContext 1 (fun _ => true) (some 2),
    .prepareBlockForWrite 2 0]

def cloneTarget : MmuRuntime × List Int :=
  (machine.withGhost unwrittenStep).replay (smallInstance 2 0, []) clonedIntoReleased

@[irreducible] def nextDoor : MmuRuntime := machine.replay (smallInstance 1 0) writtenNextDoor

/-- READ maps of the unwritten block, as many as fit its pin counter. -/
theorem nextDoor_reach (n : Nat) (hn : n < 2 ^ 32) : (machine.withGhost unwrittenStep).Reach Machine.anyStep
    (smallInstance 1 0, []) (repinned nextDoor 0 n (nextDoor.epoch + 2 * n), [0]) := by
  have hbase : Reachable nextDoor := by
    unfold nextDoor
    exact (smallInstance_reachable 1 0).replay (by decide +kernel)
  induction n with
  | zero =>
    have hpins : (nextDoor.blockDirectory.metas.entry 0).pinCount = 0 := by decide +kernel
    have hself := @repinned_self nextDoor 0 (by decide +kernel)
    rw [hpins] at hself
    have hghost : ((machine.withGhost unwrittenStep).replay (smallInstance 1 0, []) writtenNextDoor).2 = [0] := by
      decide +kernel
    have hrun := @reach_replay _ unwrittenStep _ _ writtenNextDoor
      (@Machine.Reach.start _ _ _ _ _ (smallInstance 1 0, [])) (by decide +kernel)
    have hend : (machine.withGhost unwrittenStep).replay (smallInstance 1 0, []) writtenNextDoor =
        (nextDoor, [0]) := by
      refine Prod.ext ?_ hghost
      rw [Machine.withGhost_replay_fst]
      unfold nextDoor
      dsimp only
    rw [hend] at hrun
    rw [Nat.mul_zero, Nat.add_zero, hself]
    exact hrun
  | succ n ih =>
    have hepoch : nextDoor.epoch < 100 := by decide +kernel
    have h1 : nextEpoch (nextEpoch (nextDoor.epoch + 2 * n)) = nextDoor.epoch + 2 * (n + 1) := by
      unfold nextEpoch
      omega
    have hpage : nextDoor.page .l1 0 = some ⟨⟨0, 3⟩, nextDoor.l1Pool.bytes ⟨0, 3⟩⟩ :=
      page_eq_some.mpr ⟨by decide +kernel, rfl⟩
    have hprev := ih (by omega)
    have hsettled := (Reachable.settled ⟨_, smallInstance_initial 1 0, hprev.forget (fun _ _ _ hc => hc)⟩ :
      (repinned nextDoor 0 n (nextDoor.epoch + 2 * n)).Settled)
    have hroute : routedBlock nextDoor 1 0 = some 0 := by decide +kernel
    have hmap := repinned_map hbase.settled hroute hpage hsettled
    have hstep := @Machine.Reach.next _ _ _ _ _ _ _ (Call.mapLogicalBlock 1 0 mapRead) hprev trivial trivial
    rw [nextPinCount_lt hn, h1] at hmap
    have hnext : (machine.withGhost unwrittenStep).step (repinned nextDoor 0 n (nextDoor.epoch + 2 * n), [0])
        (.mapLogicalBlock 1 0 mapRead) = (.mapped (.ok ⟨⟨0, 3⟩, nextDoor.config.blockSizeBytes, 0, 0, mapRead⟩),
          repinned nextDoor 0 (n + 1) (nextDoor.epoch + 2 * (n + 1)), [0]) := by
      simp only [Machine.withGhost, machine, perform, hmap, unwrittenStep]
    rw [hnext] at hstep
    exact hstep

/-- One READ map less than the pin counter can tell from none. -/
def nextDoorPinned : MmuRuntime := repinned nextDoor 0 (2 ^ 32 - 1) (nextDoor.epoch + 2 * (2 ^ 32 - 1))

/-- No store has hit a slot that block 1 owned in the first run, nor one that block 0 owned in the second;
yet a map of the clone, and a batch whose first map wraps the pin counter, show the other block's bytes. -/
theorem unwritten_block_shows_bytes :
    ((machine.withGhost unwrittenStep).Reach Machine.anyStep (smallInstance 2 0, []) cloneTarget ∧
      1 ∈ cloneTarget.2 ∧
      (let read := mmuMapLogicalBlock cloneTarget.1 2 0 mapRead
       read.1 = .ok ⟨⟨0, 2⟩, 4, 1, 0, mapRead⟩ ∧
       hostRead read.2 ⟨⟨0, 2⟩, 4, 1, 0, mapRead⟩ = [7, 0, 0, 0] ∧
       hostRead read.2 ⟨⟨0, 2⟩, 4, 1, 0, mapRead⟩ ≠ cloneTarget.1.zeroPage)) ∧
    ((machine.withGhost unwrittenStep).Reach Machine.anyStep (smallInstance 1 0, []) (nextDoorPinned, [0]) ∧
      (let batch := mmuMapLogicalBlocks nextDoorPinned 1 [0, 1] mapRead
       batch.1 = .ok [⟨⟨0, 3⟩, 4, 0, 0, mapRead⟩, ⟨⟨0, 3⟩, 4, 1, 1, mapRead⟩] ∧
       hostRead batch.2 ⟨⟨0, 3⟩, 4, 0, 0, mapRead⟩ = [7, 0, 0, 0] ∧
       hostRead batch.2 ⟨⟨0, 3⟩, 4, 0, 0, mapRead⟩ ≠ nextDoorPinned.zeroPage)) := by
  refine ⟨⟨reach_replay .start (by decide +kernel), by decide +kernel, by decide +kernel⟩, ?_, by decide +kernel⟩
  exact nextDoor_reach (2 ^ 32 - 1) (by omega)

end DsfMmu
