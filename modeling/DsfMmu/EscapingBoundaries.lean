import DsfMmu.BoundaryInvariants
import DsfMmu.EscapingRuns

namespace DsfMmu

namespace Escaping

open MmuRuntime Throwing BlockManager Context

variable {mmu mmu' : MmuRuntime} {room : Room}

section Directory

/-- What an allocation asks for first may be refused, nothing else. -/
def OnlyReserveRefused : StepCondition := fun mmu step _ => ∀ site, Refused site mmu step → site = .reserve

/-- A refused reserve leaves the state as it was, so calls that return reach every state there is. -/
theorem reachable_returning (h : ReachableBy OnlyReserveRefused mmu) :
    Reachable mmu ∧ Standing (fun site => site = .reserve) mmu := by
  refine h.invariant (I := fun mmu => Reachable mmu ∧ Standing (fun site => site = .reserve) mmu) ?_ ?_
  · intro s hs
    exact ⟨⟨s, hs, .start⟩, initial_standing _ hs⟩
  · intro s step hboth hp honly
    obtain ⟨hreach, hs⟩ := hboth
    obtain ⟨call, g⟩ := step
    have hev := stepEvents_any s (call, g)
    refine ⟨?_, (perform_standing hs hp trivial hev honly).1⟩
    have hgives := perform_gives g s call
    have hlands := perform_carried hs hp trivial hev
    dsimp only
    obtain ⟨r, s', hx⟩ : ∃ r s', perform g s call = (r, s') := ⟨_, _, rfl⟩
    cases r with
    | ok reply =>
      have heq := hgives.returned hx
      rw [hx]
      have hnext := hreach.step hp
      rw [heq] at hnext
      exact hnext
    | error site =>
      have hsite : site = .reserve := honly site (congrArg Prod.fst hx)
      have hscan := (hlands.threw hx).reserve hsite
      have heq := (reclaimUnusedResidentBlocks_gives (g.push 0) s).returned hscan
      have hself : s = s' := (reclaimUnusedResidentBlocks_self hreach.settled).symm.trans (congrArg Prod.snd heq)
      rw [hx, ← hself]
      exact hreach

/-- Block-directory coherence at every API boundary; a further scan would change nothing. -/
theorem block_directory_coherent (h : ReachableBy OnlyReserveRefused mmu) :
    (∀ p : Nat, DirectoryCoherent mmu p) ∧ ∀ room, reclaimUnusedResidentBlocks room mmu = (.ok (), mmu) := by
  obtain ⟨hreach, hs⟩ := reachable_returning h
  refine ⟨fun p => hreach.settled.directoryCoherent (Int.natCast_nonneg p), ?_⟩
  intro room
  exact reclaimUnusedResidentBlocks_tallied room hs.allocator (hs.tallied nofun)

/-- Two blocks mapped and forked with room for one in L1, and a refused reserve on the way. -/
def forkedSteps : List (Call × Grants) :=
  [(.createContext (some 1), allGranted), (.allocateBlocks 1 2, allGranted),
    (.mapLogicalBlock 1 0 mapRead, allGranted), (.allocateBlocks 1 1, { allGranted with reserve := false }),
    (.mapLogicalBlock 1 1 mapRead, allGranted), (.forkContext 1 (fun _ => true) (some 2), allGranted),
    (.prepareBlockForWrite 2 0, allGranted)]

theorem forked_meets : machine.Meets OnlyReserveRefused (smallInstance 1 0) forkedSteps := by
  have hgranted : ∀ s call, OnlyReserveRefused s (call, allGranted) (perform allGranted s call).1 :=
    fun s call site href => absurd href.denied (not_denied site)
  have hreserve : Refused .reserve (machine.replay (smallInstance 1 0) (forkedSteps.take 3))
      (.allocateBlocks 1 1, { allGranted with reserve := false }) := by decide +kernel
  exact ⟨by decide +kernel, hgranted _ _, by decide +kernel, hgranted _ _, by decide +kernel, hgranted _ _,
    by decide +kernel, fun site href => hreserve.unique href, by decide +kernel, hgranted _ _,
    by decide +kernel, hgranted _ _, by decide +kernel, hgranted _ _, trivial⟩

theorem block_directory_coherent_forked :
    (∀ p : Nat, DirectoryCoherent (machine.replay (smallInstance 1 0) forkedSteps) p) ∧
      ∀ room, reclaimUnusedResidentBlocks room (machine.replay (smallInstance 1 0) forkedSteps) =
        (.ok (), machine.replay (smallInstance 1 0) forkedSteps) :=
  block_directory_coherent ⟨_, smallInstance_initial 1 0, Machine.Reach.start.replay forked_meets⟩

/-- An allocation whose append is refused. -/
def strandingSteps : List (Call × Grants) :=
  [(.createContext (some 1), allGranted), (.allocateBlocks 1 1, { allGranted with append := fun _ => false })]

/-- It leaves block 0 with a reference and without a record. -/
theorem refused_append_strands_block :
    ReachableBy Machine.anyStep (machine.replay (smallInstance 1 0) strandingSteps) ∧
      ¬∀ p : Nat, DirectoryCoherent (machine.replay (smallInstance 1 0) strandingSteps) p := by
  refine ⟨⟨_, smallInstance_initial 1 0, Machine.Reach.start.replay ?_⟩, ?_⟩
  · exact ⟨by decide +kernel, trivial, by decide +kernel, trivial, trivial⟩
  · intro h
    have hrefs : 0 < (machine.replay (smallInstance 1 0) strandingSteps).l1Allocator.refCount 0 := by decide +kernel
    have hfree : ((machine.replay (smallInstance 1 0) strandingSteps).blockDirectory.metas.entry 0).allocated = false := by
      decide +kernel
    have hallocated := (h 0).allocated.mpr hrefs
    exact Bool.false_ne_true (hfree.symm.trans hallocated)

end Directory

section Residency

variable {seen : BadAlloc → Prop} {live : Int → Prop} {ctx : CtxHandle} {lb flags : UInt32}

theorem tallied_countExact (h : mmu.Tallied live) (ht : mmu.Tables) : CountExact mmu := by
  refine ⟨h.count, ?_⟩
  rw [← ht.limit]
  exact h.limit

/-- The scan that `mmu_destroy_context` runs, stopped anywhere. -/
theorem scan_countExact (h : Standing seen mmu) (hno : ¬seen .resetBlockData) (room : Room) (c : Context)
    (contexts : KeyedMap CtxHandle Context) (ids : List Int) (hids : ∀ p ∈ ids, mmu.Valid p) :
    Lands (forEach (reclaimBlock room) ids
      (mmu.withRouting ⟨Context.releaseAllBlocks c.pageTable mmu.l1Allocator, contexts⟩))
      (fun _ s => CountExact s) (fun _ _ => True) := by
  have hok : (Context.releaseAllBlocks c.pageTable mmu.l1Allocator).Ok := h.allocator.releaseAll _
  have htables := h.tables.withRouting
    (r := ⟨Context.releaseAllBlocks c.pageTable mmu.l1Allocator, contexts⟩) (releaseAll_size _ _)
  refine (@reclaimAll_lands (mmu.withRouting ⟨Context.releaseAllBlocks c.pageTable mmu.l1Allocator, contexts⟩)
    room ids hok htables hids).mono ?_ (fun _ _ _ => trivial)
  intro _ s hs
  exact tallied_countExact (hs.tallied _ ((h.tallied hno).withRouting _)) hs.tables

theorem NoneLeftBut.minor {v p : Int} {mid : MmuRuntime} (h : NoneLeftBut v mmu mid) (hm : Minor p mid mmu') :
    NoneLeftBut v mmu mmu' := by
  intro q hq hmem
  rw [residents_minor hm]
  exact h q hq hmem

/-- The mapping proper evicts one block at most. -/
theorem mapResolved_single (h : Standing seen mmu) (hno : ¬seen .resetBlockData) (room : Room) (c : Context)
    (lvid : Int) :
    Lands (mapResolved room mmu c lvid lb flags) (fun _ s => ∃ v, NoneLeftBut v mmu s)
      (fun _ s => ∃ v, NoneLeftBut v mmu s) := by
  unfold mapResolved
  split
  next => exact ⟨0, fun _ _ hq => hq⟩
  next route hroute =>
    dsimp only
    refine (ensureResidentInL1_single room h.allocator h.tables (h.tallied hno) _).andThen (fun _ _ hs => hs) ?_
    intro resident mid hmid
    obtain ⟨v, hv⟩ := hmid
    cases resident with
    | error status => exact ⟨v, hv⟩
    | ok u =>
      have hacq := minor_acquirePage mid .l1 route.physicalBlockId
      dsimp only
      split
      next heq =>
        rw [heq] at hacq
        exact ⟨v, hv.minor hacq⟩
      next slot s heq =>
        rw [heq] at hacq
        split
        next => exact ⟨v, hv.minor hacq⟩
        next d hpin =>
          exact ⟨v, (hv.minor hacq).minor ((minor_incrementPinCount hpin).trans (minor_touchBlock _ _))⟩

/-- A write preparation moves no resident block. -/
theorem Reassigned.residents {new : Int} (hs : Reassigned new mmu mmu') (h : mmu.Tallied mmu.Live) {q : Int}
    (hq : q ∈ mmu.residents) : q ∈ mmu'.residents := by
  obtain ⟨r, -, -, -, hr⟩ := hs.named
  have hne : q ≠ new := by
    rintro rfl
    exact hs.not_live (h.live_of_resident (mem_residents_iff.mp hq).2)
  exact noneLeft_touched hr.toTouches q hne hq

theorem mmuMapLogicalBlock_single (h : Standing seen mmu) (hno : ¬seen .resetBlockData) (room : Room) :
    Lands (mmuMapLogicalBlock room mmu ctx lb flags) (fun _ s => ∃ v, NoneLeftBut v mmu s)
      (fun _ s => ∃ v, NoneLeftBut v mmu s) := by
  have hnone : ∃ v, NoneLeftBut v mmu mmu := ⟨0, fun _ _ hq => hq⟩
  unfold mmuMapLogicalBlock
  split
  next => exact hnone
  next =>
    split
    next => exact hnone
    next c hc =>
      split
      next => exact hnone
      next lvid hlvid =>
        split
        next =>
          have hprep : Lands (mmuPrepareBlockForWrite room mmu ctx lb)
              (fun _ s => Carried seen (fun _ => True) mmu s) (Thrown seen (fun _ => True) mmu) :=
            mmuPrepareBlockForWrite_carried h trivial
          refine (hprep.and (mmuPrepareBlockForWrite_lands room h.allocator h.tables)).andThen ?_ ?_
          · intro e s hs
            obtain ⟨-, -, new, hs⟩ := hs
            exact ⟨0, fun q _ hq => hs.residents (h.tallied hno) hq⟩
          · intro prepared mid hmid
            have hkeep : ∀ q ∈ mmu.residents, q ∈ mid.residents := by
              intro q hq
              rcases hmid.2 with ⟨rfl, -⟩ | ⟨new, hs, -⟩
              · exact hq
              · exact hs.residents (h.tallied hno) hq
            cases prepared with
            | error status => exact ⟨0, fun q _ hq => hkeep q hq⟩
            | ok b =>
              dsimp only
              split
              next => exact ⟨0, fun q _ hq => hkeep q hq⟩
              next c' hc' =>
                refine (mapResolved_single hmid.1.standing hno room c' lvid).mono ?_ ?_
                · intro _ s hs
                  obtain ⟨v, hv⟩ := hs
                  exact ⟨v, fun q hqv hq => hv q hqv (hkeep q hq)⟩
                · intro _ s hs
                  obtain ⟨v, hv⟩ := hs
                  exact ⟨v, fun q hqv hq => hv q hqv (hkeep q hq)⟩
        next => exact mapResolved_single h hno room c lvid

/-- What the exact counter gives: no guard of a decrement hides an underflow, the eviction loop ends
within any budget above the counter, and a map pushes one block out of L1 at most, whether it returns or throws. -/
structure ResidencyAccounting (mmu : MmuRuntime) : Prop where
  exact : CountExact mmu
  guard : ∀ p ∈ mmu.residents, 0 < mmu.residentCount
  scan : ∀ room ctx c, findContext mmu ctx = some c → ∀ ids, ids <+: scanIds mmu →
    Lands (forEach (reclaimBlock room) ids { mmu with
      l1Allocator := Context.releaseAllBlocks c.pageTable mmu.l1Allocator
      contexts := mmu.contexts.erase ctx }) (fun _ s => CountExact s) (fun _ _ => True)
  loop : ∀ room p rounds, mmu.residentCount < rounds → ∃ x, evictionLoop room p rounds mmu = some x
  single : ∀ room ctx lb flags, ∃ v, ∀ q ≠ v, q ∈ mmu.residents →
    q ∈ (mmuMapLogicalBlock room mmu ctx lb flags).2.residents

/-- The free lists take every page of a block that is given up. -/
def TakesPages : StepCondition := fun mmu step _ => ¬Refused .resetBlockData mmu step

/-- Residency accounting at every API boundary, and all through the scan of a destroyed context, in every run that meets
the condition, whatever else fails or throws in it. -/
theorem residency_accounting (h : ReachableBy TakesPages mmu) : ResidencyAccounting mmu := by
  have hs : Standing (fun site => site ≠ .resetBlockData) mmu := by
    refine h.invariant (fun s hi => initial_standing _ hi) ?_
    intro s step hs hp hmeets
    refine (perform_standing hs hp trivial (stepEvents_any s step) ?_).1
    rintro site href rfl
    exact hmeets href
  have hno : ¬BadAlloc.resetBlockData ≠ BadAlloc.resetBlockData := fun hne => hne rfl
  have htally := hs.tallied hno
  refine ⟨tallied_countExact htally hs.tables, ?_, ?_, ?_, ?_⟩
  · intro p hp
    rw [htally.count]
    exact Finset.card_pos.mpr ⟨p, hp⟩
  · intro room ctx c _ ids hids
    apply scan_countExact hs hno
    intro p hp
    exact mem_scanIds.mp (hids.subset hp)
  · intro room p rounds hr
    exact eviction_terminates room hs.tables p hr
  · intro room ctx lb flags
    exact (mmuMapLogicalBlock_single hs hno room).left

/-- Two of four blocks fit L1, and each chunk of a pool is one page. -/
def unitChunks : MmuConfig := ⟨32, 1, 4, 2, 0, 4, 1⟩

def unitChunkInstance : MmuRuntime := .new (resolveConfig unitChunks 0 (by simp [unitChunks])) grantingHost

theorem unitChunkInstance_initial : Initial unitChunkInstance := by
  refine ⟨unitChunks, grantingHost, ?_⟩
  simp [mmuInit, unitChunkInstance, unitChunks, sizeofMmuConfig, mmuApiVersion, grantingHost,
    queryAvailableHostMemoryBytes]

/-- Blocks 0 and 1 were mapped and closed, and block 0 was given up; its page fills the room of the free list. -/
def releasedSteps : List (Call × Grants) :=
  [(.createContext (some 1), allGranted), (.allocateBlocks 1 3, allGranted), (.mapLogicalBlock 1 0 mapRead, allGranted),
    (.mapLogicalBlock 1 1 mapRead, allGranted), (.unmapLogicalBlock 1 ⟨⟨0, 0⟩, 4, 0, 0, mapRead⟩, allGranted),
    (.unmapLogicalBlock 1 ⟨⟨1, 0⟩, 4, 1, 1, mapRead⟩, allGranted), (.releaseLogicalBlock 1 0, allGranted)]

def noRoom : Grants := { allGranted with push := fun _ _ _ => false }

/-- A map that cannot evict block 1, as its page has no place to go. -/
def haltedSteps : List (Call × Grants) :=
  releasedSteps ++ [(.allocateBlocks 1 1, allGranted), (.mapLogicalBlock 1 2 mapRead, noRoom)]

theorem halted_meets : machine.Meets TakesPages unitChunkInstance haltedSteps := by
  have hgranted : ∀ s call, TakesPages s (call, allGranted) (perform allGranted s call).1 :=
    fun s call href => absurd href.denied (not_denied .resetBlockData)
  have hmove : Refused .moveBlockToL2 (machine.replay unitChunkInstance (haltedSteps.take 8))
      (.mapLogicalBlock 1 2 mapRead, noRoom) := by decide +kernel
  exact ⟨by decide +kernel, hgranted _ _, by decide +kernel, hgranted _ _, by decide +kernel, hgranted _ _,
    by decide +kernel, hgranted _ _, by decide +kernel, hgranted _ _, by decide +kernel, hgranted _ _,
    by decide +kernel, hgranted _ _, by decide +kernel, hgranted _ _, by decide +kernel,
    fun href => BadAlloc.noConfusion (hmove.unique href), trivial⟩

theorem residency_accounting_halted : ResidencyAccounting (machine.replay unitChunkInstance haltedSteps) :=
  residency_accounting ⟨_, unitChunkInstance_initial, Machine.Reach.start.replay halted_meets⟩

/-- Block 1 is given up while the free list has no room for its page. -/
def losingSteps : List (Call × Grants) := releasedSteps ++ [(.releaseLogicalBlock 1 1, noRoom)]

/-- It is counted out of L1 and still marked as resident. -/
theorem refused_push_miscounts :
    ReachableBy Machine.anyStep (machine.replay unitChunkInstance losingSteps) ∧
      ¬ResidencyAccounting (machine.replay unitChunkInstance losingSteps) := by
  refine ⟨⟨_, unitChunkInstance_initial, Machine.Reach.start.replay ?_⟩, ?_⟩
  · exact ⟨by decide +kernel, trivial, by decide +kernel, trivial, by decide +kernel, trivial, by decide +kernel,
      trivial, by decide +kernel, trivial, by decide +kernel, trivial, by decide +kernel, trivial, by decide +kernel,
      trivial, trivial⟩
  · intro h
    have hcount : (machine.replay unitChunkInstance losingSteps).residentCount = 0 := by decide +kernel
    have hresident : (1 : Int) ∈ (machine.replay unitChunkInstance losingSteps).residents := by decide +kernel
    have hpos := h.guard 1 hresident
    omega

end Residency

end Escaping

end DsfMmu
