import DsfMmu.MapPins

namespace DsfMmu

open MmuRuntime

/-- The state in which the next item of a batch finds the runtime, if this one succeeds. -/
def nextTurn (mmu : MmuRuntime) (ctx : CtxHandle) (lb flags : UInt32) : Option MmuRuntime :=
  match mmuMapLogicalBlock mmu ctx lb flags with
  | (.ok _, mmu) => some mmu
  | (.error _, _) => none

/-- Some item of the batch meets the condition when its turn comes. -/
def AtSomeTurn (P : MmuRuntime → UInt32 → Prop) (ctx : CtxHandle) (flags : UInt32) :
    List UInt32 → MmuRuntime → Prop
  | [], _ => False
  | lb :: rest, mmu => P mmu lb ∨ ∃ mid ∈ nextTurn mmu ctx lb flags, AtSomeTurn P ctx flags rest mid

instance AtSomeTurn.decidable (P : MmuRuntime → UInt32 → Prop) [∀ mmu lb, Decidable (P mmu lb)] (ctx : CtxHandle)
    (flags : UInt32) : ∀ lbs mmu, Decidable (AtSomeTurn P ctx flags lbs mmu)
  | [], _ => isFalse id
  | lb :: rest, mmu =>
    have : ∀ mid, Decidable (AtSomeTurn P ctx flags rest mid) := AtSomeTurn.decidable P ctx flags rest
    inferInstanceAs (Decidable (P mmu lb ∨ ∃ mid ∈ nextTurn mmu ctx lb flags, AtSomeTurn P ctx flags rest mid))

/-- The batch counts a pin on the block when its counter is full. -/
def BatchWraps (mmu : MmuRuntime) (ctx : CtxHandle) (lbs : List UInt32) (flags : UInt32) (p : Int) : Prop :=
  AtSomeTurn (fun mmu lb => MapWraps mmu ctx lb flags p) ctx flags lbs mmu

instance (mmu : MmuRuntime) (ctx : CtxHandle) (lbs : List UInt32) (flags : UInt32) (p : Int) :
    Decidable (BatchWraps mmu ctx lbs flags p) :=
  inferInstanceAs (Decidable (AtSomeTurn (fun mmu lb => MapWraps mmu ctx lb flags p) ctx flags lbs mmu))

/-- The pins that a list of mappings holds on a block. -/
def pinsTaken (ds : List MappedBlock) (p : Int) : Nat := ds.countP fun d => d.physicalBlockId = p

section Turns

variable {P : MmuRuntime → UInt32 → Prop} {mmu mmu' : MmuRuntime} {ctx : CtxHandle} {lb flags : UInt32}
  {rest : List UInt32}

theorem AtSomeTurn.not_here (h : ¬AtSomeTurn P ctx flags (lb :: rest) mmu) : ¬P mmu lb := fun hp => h (.inl hp)

theorem AtSomeTurn.not_later (h : ¬AtSomeTurn P ctx flags (lb :: rest) mmu) {d : MappedBlock}
    (hm : mmuMapLogicalBlock mmu ctx lb flags = (.ok d, mmu')) : ¬AtSomeTurn P ctx flags rest mmu' := by
  intro hlater
  refine h (.inr ⟨mmu', ?_, hlater⟩)
  unfold nextTurn
  rw [hm]
  rfl

theorem pinsTaken_append (ds es : List MappedBlock) (p : Int) :
    pinsTaken (ds ++ es) p = pinsTaken ds p + pinsTaken es p := List.countP_append

theorem pinsTaken_cons (d : MappedBlock) (ds : List MappedBlock) (p : Int) :
    pinsTaken (d :: ds) p = pinsTaken ds p + if d.physicalBlockId = p then 1 else 0 := by
  unfold pinsTaken
  rw [List.countP_cons]
  simp

end Turns

section Rollback

variable {mmu mmu' : MmuRuntime} {ctx : CtxHandle} {lb flags : UInt32} {done : List MappedBlock} {p : Int}
  {base : Nat}

/-- What a batch has done so far, seen from block `p`: its descriptors are still valid, and so many of the
pins of `p` are its own; a WRITE batch has no reason left to move what it has mapped. -/
structure Batched (mmu : MmuRuntime) (ctx : CtxHandle) (flags : UInt32) (p : Int) (base : Nat)
    (done : List MappedBlock) : Prop where
  settled : mmu.Settled
  routes : ∀ d ∈ done, routedBlock mmu ctx d.logicalBlockId = some d.physicalBlockId
  alone : hasWrite flags = true → ∀ d ∈ done, mmu.l1Allocator.refCounts.entry d.physicalBlockId = 1
  pin : (mmu.block p).info.pinCount = base + pinsTaken done p

theorem MmuRuntime.Settled.batched (h : mmu.Settled) (ctx : CtxHandle) (flags : UInt32) (p : Int) :
    Batched mmu ctx flags p (mmu.block p).info.pinCount [] :=
  ⟨h, nofun, fun _ => nofun, rfl⟩

/-- A block with one reference is not moved by a write preparation. -/
theorem not_switches_of_alone (h : mmu.Settled) {b : Int} (hroute : routedBlock mmu ctx lb = some b)
    (hone : mmu.l1Allocator.refCounts.entry b = 1) : ¬Switches mmu ctx lb := by
  intro hex
  obtain ⟨b', hb', hshared, -⟩ := hex
  cases Option.some.inj (hroute.symm.trans hb')
  rw [refCount_live h (routed_live h hroute)] at hshared
  omega

/-- A later item, failing or not, leaves the descriptors of the earlier ones valid. -/
theorem Batched.routes_after (hb : Batched mmu ctx flags p base done) {r : Except MmuError MappedBlock}
    (hstep : MapStep mmu mmu' ctx lb flags r) :
    ∀ d ∈ done, routedBlock mmu' ctx d.logicalBlockId = some d.physicalBlockId := by
  intro d hd
  apply hstep.undisplaced.routes ctx _ _ (hb.routes d hd)
  intro hw hsw hboth
  obtain ⟨-, hsame⟩ := hboth
  rw [← hsame] at hsw
  exact not_switches_of_alone hb.settled (hb.routes d hd) (hb.alone hw d hd) hsw

theorem Batched.step (hb : Batched mmu ctx flags p base done) (hno : ¬MapWraps mmu ctx lb flags p) {d : MappedBlock}
    (hm : mmuMapLogicalBlock mmu ctx lb flags = (.ok d, mmu')) :
    Batched mmu' ctx flags p base (done ++ [d]) := by
  have hstep := map_step hb.settled hm
  obtain ⟨hlb, hroute, hone⟩ := hstep.routed d rfl
  refine ⟨hstep.undisplaced.settled, ?_, ?_, ?_⟩
  · intro e he
    rcases List.mem_append.mp he with he | he
    · exact hb.routes_after hstep e he
    · cases List.mem_singleton.mp he
      rw [hlb]
      exact hroute
  · intro hw e he
    rcases List.mem_append.mp he with he | he
    · exact hstep.undisplaced.alone _ (hb.alone hw e he)
    · cases List.mem_singleton.mp he
      exact hone hw
  · have hpins := hstep.pins p
    have hpin := hb.pin
    rw [pinsTaken_append, pinsTaken_cons]
    by_cases hp : d.physicalBlockId = p
    · have hroom := hstep.room d rfl (by rw [hp]; exact hno)
      rw [hp] at hroom
      have hmaps : MapsBlock (.ok d) p := hp
      rw [if_pos hmaps, nextPinCount_lt hroom] at hpins
      rw [if_pos hp, hpins, hpin]
      simp only [pinsTaken, List.countP_nil]
      omega
    · have hmaps : ¬MapsBlock (.ok d) p := hp
      rw [if_neg hmaps] at hpins
      rw [if_neg hp, hpins, hpin]
      simp only [pinsTaken, List.countP_nil]
      omega

/-- The rollback takes back every pin of the batch, though it drops the statuses of its unmaps. -/
theorem unmapAll_pin (h : mmu.Settled)
    (hroutes : ∀ d ∈ done, routedBlock mmu ctx d.logicalBlockId = some d.physicalBlockId)
    (hpin : (mmu.block p).info.pinCount = base + pinsTaken done p) :
    ((unmapAll ctx done mmu).block p).info.pinCount = base := by
  induction done generalizing mmu with
  | nil => exact hpin
  | cons d rest ih =>
    obtain ⟨r, mid, hu⟩ : ∃ r mid, mmuUnmapLogicalBlock mmu ctx d = (r, mid) := ⟨_, _, rfl⟩
    obtain ⟨_, hun⟩ := mmuUnmapLogicalBlock_accepted h (hroutes d (by simp)) hu
    rw [unmapAll_cons hu rest]
    apply ih hun.settled
    · intro e he
      exact hun.routing.routes h hun.settled (hroutes e (List.mem_cons_of_mem _ he))
    · have hpins := hun.pins p
      rw [pinsTaken_cons] at hpin
      by_cases hp : d.physicalBlockId = p
      · rw [if_pos hp.symm, hp] at hpins
        rw [if_pos hp] at hpin
        omega
      · rw [if_neg (fun he => hp he.symm)] at hpins
        rw [if_neg hp] at hpin
        omega

/-- What a batch leaves on block `p`: the pins of its own mappings, or none. -/
def BatchLeaves (mmu : MmuRuntime) (ctx : CtxHandle) (flags : UInt32) (p : Int) (base : Nat)
    (r : Except MmuError (List MappedBlock)) : Prop :=
  match r with
  | .ok ds => Batched mmu ctx flags p base ds
  | .error _ => (mmu.block p).info.pinCount = base

theorem mapBlocksLoop_pin (lbs : List UInt32) (hb : Batched mmu ctx flags p base done)
    (hno : ¬BatchWraps mmu ctx lbs flags p) {r : Except MmuError (List MappedBlock)}
    (hm : mapBlocksLoop ctx flags lbs done mmu = (r, mmu')) : BatchLeaves mmu' ctx flags p base r := by
  induction lbs generalizing mmu done with
  | nil =>
    obtain ⟨rfl, rfl⟩ := Prod.mk.inj hm
    exact hb
  | cons lb rest ih =>
    have hhere := AtSomeTurn.not_here hno
    unfold mapBlocksLoop at hm
    split at hm
    next e mid hone =>
      obtain ⟨rfl, rfl⟩ := Prod.mk.inj hm
      have hstep := map_step hb.settled hone
      have hpins := hstep.pins p
      rw [if_neg (show ¬MapsBlock (.error e) p from id), hb.pin] at hpins
      exact unmapAll_pin hstep.undisplaced.settled (hb.routes_after hstep) hpins
    next d mid hone => exact ih (hb.step hhere hone) (AtSomeTurn.not_later hno hone) hm

/-- A batch map that fails leaves every pin count as it was, wherever it fails. -/
theorem failed_batch_keeps_pins (h : Reachable mmu) {lbs : List UInt32} {e : MmuError}
    (hm : mmuMapLogicalBlocks mmu ctx lbs flags = (.error e, mmu')) (q : Int)
    (hroom : ¬BatchWraps mmu ctx lbs flags q) :
    (mmu'.block q).info.pinCount = (mmu.block q).info.pinCount :=
  mapBlocksLoop_pin lbs (h.settled.batched ctx flags q) hroom hm

end Rollback

/-- Three blocks and room for two in L1; L2 has one page. -/
@[irreducible] def threeBlocks : MmuRuntime :=
  machine.replay (smallInstance 2 1) [.createContext (some 1), .allocateBlocks 1 3]

/-- The second item evicts a block, whose copy takes the page of L2; the third item finds both residents
pinned; and the unmaps of the rollback cannot write back what they unpin. -/
theorem failed_batch_keeps_pins_unsynced :
    let run := mmuMapLogicalBlocks threeBlocks 1 [0, 2, 1] mapWrite
    run.1 = .error .outOfMemory ∧ (run.2.block 0).info.dirty = true ∧
      (run.2.block 0).info.pinCount = (threeBlocks.block 0).info.pinCount ∧
      (run.2.block 2).info.pinCount = (threeBlocks.block 2).info.pinCount := by
  have hreach : Reachable threeBlocks := by
    unfold threeBlocks
    exact (smallInstance_reachable 2 1).replay (by decide +kernel)
  have herr : (mmuMapLogicalBlocks threeBlocks 1 [0, 2, 1] mapWrite).1 = .error .outOfMemory := by decide +kernel
  have hfailed : mmuMapLogicalBlocks threeBlocks 1 [0, 2, 1] mapWrite =
      (.error .outOfMemory, (mmuMapLogicalBlocks threeBlocks 1 [0, 2, 1] mapWrite).2) := Prod.ext herr rfl
  have h0 : ¬BatchWraps threeBlocks 1 [0, 2, 1] mapWrite 0 := by decide +kernel
  have h2 : ¬BatchWraps threeBlocks 1 [0, 2, 1] mapWrite 2 := by decide +kernel
  exact ⟨herr, by decide +kernel, failed_batch_keeps_pins hreach hfailed 0 h0,
    failed_batch_keeps_pins hreach hfailed 2 h2⟩

end DsfMmu
