import DsfMmu.CowFailure

namespace DsfMmu

open MmuRuntime BlockManager Context

section Outcome

variable {mmu mmu' : MmuRuntime} {ctx : CtxHandle} {d : MappedBlock} {p : Int} {flags : UInt32}

/-- The unmap of a WRITE mapping has to write the block back, and L2 has no page for it. -/
def WriteBackFails (mmu : MmuRuntime) (p : Int) (flags : UInt32) : Prop :=
  hasWrite flags = true ∧ (mmu.block p).info.residentInL1 = true ∧
    mmu.writeBackSupply (mmu.block p) mmu.stock = none

/-- What the failed write-back leaves: the pin is gone, and the block is dirty. -/
def BlockView.leftDirty (v : BlockView) : BlockView := (v.withPins (v.info.pinCount - 1)).withDirty true

/-- Past the validation an unmap fails exactly when its write-back does, after the bookkeeping. -/
theorem unmapPinned_outcome (h : mmu.Settled) (hp : mmu.Live p) :
    (¬WriteBackFails mmu p flags → ∃ mmu',
      mmuUnmapLogicalBlock.unmapPinned mmu p (mmu.block p).info flags = (.ok (), mmu')) ∧
    (WriteBackFails mmu p flags → ∃ mmu',
      mmuUnmapLogicalBlock.unmapPinned mmu p (mmu.block p).info flags = (.error .outOfMemory, mmu') ∧
        mmu'.block = Function.update mmu.block p (mmu.block p).leftDirty) := by
  have hv := h.valid hp
  obtain ⟨dir, hdec, h1⟩ := unpin_effect h hp
  have h2 := h1.mutate hv (fun m => { m with dirty := true })
  simp only [Function.update_idem, Function.update_self] at h2
  have hl2 : ((mmu.setDirectory dir).setDirectory
      ((mmu.setDirectory dir).blockDirectory.setDirty p true)).block p = (mmu.block p).leftDirty := by
    have hself := congrFun h2.blocks p
    rw [Function.update_self] at hself
    exact hself
  have hstock := syncL1ToL2_stock h2.sound (h2.valid hv)
  have hsupply : ((mmu.setDirectory dir).setDirectory
      ((mmu.setDirectory dir).blockDirectory.setDirty p true)).writeBackSupply (mmu.block p).leftDirty mmu.stock =
      mmu.writeBackSupply (mmu.block p) mmu.stock := rfl
  have hsame : ((mmu.setDirectory dir).setDirectory
      ((mmu.setDirectory dir).blockDirectory.setDirty p true)).stock = mmu.stock := rfl
  unfold BlockDirectory.setDirty at hl2 hstock hsupply hsame
  rw [hl2, hsame, hsupply] at hstock
  unfold mmuUnmapLogicalBlock.unmapPinned WriteBackFails
  rw [hdec]
  dsimp only
  unfold BlockDirectory.setDirty
  cases hw : hasWrite flags with
  | false => exact ⟨fun _ => ⟨_, rfl⟩, fun hf => absurd hf.1 Bool.false_ne_true⟩
  | true =>
    cases hr : (mmu.block p).info.residentInL1 with
    | false => exact ⟨fun _ => ⟨_, rfl⟩, fun hf => absurd hf.2.1 Bool.false_ne_true⟩
    | true =>
      cases hsup : mmu.writeBackSupply (mmu.block p) mmu.stock with
      | none =>
        rw [hsup] at hstock
        obtain ⟨e, m, herr⟩ := hstock
        cases syncL1ToL2_status h2.sound (h2.valid hv) herr
        refine ⟨fun hno => absurd ⟨rfl, rfl, rfl⟩ hno, fun _ => ⟨m, ?_, ?_⟩⟩
        · simp only [if_true]
          rw [herr]
        · have he := syncL1ToL2_error h2.sound herr
          rw [he.blocks, h2.blocks]
          rfl
      | some s =>
        rw [hsup] at hstock
        obtain ⟨m, hok, -⟩ := hstock
        refine ⟨fun _ => ?_, fun hf => ?_⟩
        · simp only [if_true]
          rw [hok]
          exact ⟨_, rfl⟩
        · cases hf.2.2

/-- An unmap gets past its validation when the entry leads to the block of the descriptor. -/
theorem mmuUnmapLogicalBlock_routed (h : mmu.Settled)
    (hroute : routedBlock mmu ctx d.logicalBlockId = some d.physicalBlockId) :
    mmuUnmapLogicalBlock mmu ctx d = mmuUnmapLogicalBlock.unmapPinned mmu d.physicalBlockId
      (mmu.block d.physicalBlockId).info d.mapFlags := by
  obtain ⟨c, lvid, hc, hlvid, hn⟩ := (routedBlock_eq_some h).mp hroute
  have hp : mmu.Live d.physicalBlockId := hn.live
  unfold mmuUnmapLogicalBlock
  rw [hc]
  dsimp only
  rw [if_neg (not_not.mpr (h.coherent.sound.refs_inRange.mpr (h.valid hp))), hlvid]
  dsimp only
  rw [resolveRouting_names h hn]
  dsimp only
  rw [if_neg (not_not.mpr rfl), h.get_meta hp]
  dsimp only
  rw [h.allocated hp, if_neg (by simp)]

/-- Otherwise it is refused, and nothing has happened. -/
theorem mmuUnmapLogicalBlock_refused (h : mmu.Settled)
    (hroute : routedBlock mmu ctx d.logicalBlockId ≠ some d.physicalBlockId) :
    ∃ e, mmuUnmapLogicalBlock mmu ctx d = (.error e, mmu) := by
  obtain ⟨r, m, hu⟩ : ∃ r m, mmuUnmapLogicalBlock mmu ctx d = (r, m) := ⟨_, _, rfl⟩
  rcases mmuUnmapLogicalBlock_cases h hu with ⟨⟨e, rfl⟩, rfl⟩ | ⟨c, lvid, hc, hlvid, hn, _⟩
  · exact ⟨e, hu⟩
  · exact absurd ((routedBlock_eq_some h).mpr ⟨c, lvid, hc, hlvid, hn⟩) hroute

/-- A routed unmap takes its pin; only the write-back can keep it from returning OK. -/
theorem mmuUnmapLogicalBlock_accepted (h : mmu.Settled)
    (hroute : routedBlock mmu ctx d.logicalBlockId = some d.physicalBlockId) {r : Except MmuError Unit}
    (hu : mmuUnmapLogicalBlock mmu ctx d = (r, mmu')) :
    (r = .ok () ∨ r = .error .outOfMemory) ∧ Unpinned mmu mmu' d.physicalBlockId := by
  obtain ⟨_, _, _, _, hn⟩ := (routedBlock_eq_some h).mp hroute
  have hp : mmu.Live d.physicalBlockId := hn.live
  rw [mmuUnmapLogicalBlock_routed h hroute] at hu
  refine ⟨?_, unmapPinned_unpinned h hp hu⟩
  obtain ⟨hok, hfail⟩ := @unmapPinned_outcome mmu d.physicalBlockId d.mapFlags h hp
  by_cases hf : WriteBackFails mmu d.physicalBlockId d.mapFlags
  · obtain ⟨m, heq, _⟩ := hfail hf
    rw [heq] at hu
    exact .inr (Prod.mk.inj hu).1.symm
  · obtain ⟨m, heq⟩ := hok hf
    rw [heq] at hu
    exact .inl (Prod.mk.inj hu).1.symm

/-- Every pin count, dirty flag, page and residency bit is as before. -/
structure Unmoved (mmu mmu' : MmuRuntime) : Prop where
  pins : ∀ q, (mmu'.block q).info.pinCount = (mmu.block q).info.pinCount
  dirty : ∀ q, (mmu'.block q).info.dirty = (mmu.block q).info.dirty
  resident : ∀ q, (mmu'.block q).info.residentInL1 = (mmu.block q).info.residentInL1
  l1 : ∀ q, (mmu'.block q).l1 = (mmu.block q).l1
  l2 : ∀ q, (mmu'.block q).l2 = (mmu.block q).l2

theorem Unmoved.of_block (h : mmu'.block = mmu.block) : Unmoved mmu mmu' := by
  refine ⟨?_, ?_, ?_, ?_, ?_⟩ <;> intro q <;> rw [h]

/-- A block left dirty shows no trace only when it was unpinned and dirty before. -/
theorem unmoved_leftDirty (hb : mmu'.block = Function.update mmu.block p (mmu.block p).leftDirty) :
    Unmoved mmu mmu' ↔ (mmu.block p).info.pinCount = 0 ∧ (mmu.block p).info.dirty = true := by
  have hself : mmu'.block p = (mmu.block p).leftDirty := by
    rw [hb, Function.update_self]
  constructor
  · intro h
    have hpins := h.pins p
    have hdirty := h.dirty p
    rw [hself] at hpins hdirty
    have hpins' : (mmu.block p).info.pinCount - 1 = (mmu.block p).info.pinCount := hpins
    exact ⟨by omega, hdirty.symm⟩
  · intro hboth
    obtain ⟨hpin, hdirty⟩ := hboth
    apply Unmoved.of_block
    have hsame : (mmu.block p).leftDirty = mmu.block p := by
      apply BlockView.ext
      · show { (mmu.block p).info with pinCount := (mmu.block p).info.pinCount - 1, dirty := true } = _
        rw [hpin, Nat.zero_sub, ← hpin, ← hdirty]
      · rfl
      · rfl
    rw [hb, hsame, Function.update_eq_self]

/-- The unmap takes the pin or marks the block dirty, and then fails to write the block back. -/
def LeavesDirty (mmu : MmuRuntime) (ctx : CtxHandle) (d : MappedBlock) : Prop :=
  routedBlock mmu ctx d.logicalBlockId = some d.physicalBlockId ∧
    WriteBackFails mmu d.physicalBlockId d.mapFlags ∧
    ((mmu.block d.physicalBlockId).info.pinCount ≠ 0 ∨ (mmu.block d.physicalBlockId).info.dirty = false)

instance (mmu : MmuRuntime) (ctx : CtxHandle) (d : MappedBlock) : Decidable (LeavesDirty mmu ctx d) :=
  inferInstanceAs (Decidable (routedBlock mmu ctx d.logicalBlockId = some d.physicalBlockId ∧
    (hasWrite d.mapFlags = true ∧ (mmu.block d.physicalBlockId).info.residentInL1 = true ∧
      mmu.writeBackSupply (mmu.block d.physicalBlockId) mmu.stock = none) ∧
    ((mmu.block d.physicalBlockId).info.pinCount ≠ 0 ∨ (mmu.block d.physicalBlockId).info.dirty = false)))

/-- What the write-back that fails does to the state. -/
theorem mmuUnmapLogicalBlock_fails (h : mmu.Settled)
    (hroute : routedBlock mmu ctx d.logicalBlockId = some d.physicalBlockId)
    (hf : WriteBackFails mmu d.physicalBlockId d.mapFlags) :
    ∃ mmu', mmuUnmapLogicalBlock mmu ctx d = (.error .outOfMemory, mmu') ∧
      mmu'.block = Function.update mmu.block d.physicalBlockId (mmu.block d.physicalBlockId).leftDirty := by
  obtain ⟨_, _, _, _, hn⟩ := (routedBlock_eq_some h).mp hroute
  rw [mmuUnmapLogicalBlock_routed h hroute]
  exact (unmapPinned_outcome h hn.live).2 hf

/-- A failed unmap changes nothing exactly where no write-back fails after the bookkeeping. -/
theorem failed_unmap_changes_nothing (h : Reachable mmu) (ctx : CtxHandle) (d : MappedBlock) :
    (∀ e mmu', mmuUnmapLogicalBlock mmu ctx d = (.error e, mmu') → Unmoved mmu mmu') ↔
      ¬LeavesDirty mmu ctx d := by
  have hs := h.settled
  constructor
  · intro hall hboth
    obtain ⟨hroute, hf, htrace⟩ := hboth
    obtain ⟨m, herr, hblock⟩ := mmuUnmapLogicalBlock_fails hs hroute hf
    obtain ⟨hpin, hdirty⟩ := (unmoved_leftDirty hblock).mp (hall _ m herr)
    rcases htrace with hpos | hclean
    · exact hpos hpin
    · rw [hdirty] at hclean
      cases hclean
  · intro hno e mmu' herr
    by_cases hroute : routedBlock mmu ctx d.logicalBlockId = some d.physicalBlockId
    · have hf : WriteBackFails mmu d.physicalBlockId d.mapFlags := by
        by_contra hf
        obtain ⟨_, _, _, _, hn⟩ := (routedBlock_eq_some hs).mp hroute
        obtain ⟨m, hok⟩ := (unmapPinned_outcome hs hn.live).1 hf
        rw [mmuUnmapLogicalBlock_routed hs hroute, hok] at herr
        cases herr
      obtain ⟨m, herr', hblock⟩ := mmuUnmapLogicalBlock_fails hs hroute hf
      obtain ⟨_, rfl⟩ := Prod.mk.inj (herr.symm.trans herr')
      apply (unmoved_leftDirty hblock).mpr
      unfold LeavesDirty at hno
      have hboth : ¬((mmu.block d.physicalBlockId).info.pinCount ≠ 0 ∨
          (mmu.block d.physicalBlockId).info.dirty = false) := fun htrace => hno ⟨hroute, hf, htrace⟩
      rw [not_or, not_not, Bool.not_eq_false] at hboth
      exact hboth
    · obtain ⟨e', hrefused⟩ := mmuUnmapLogicalBlock_refused hs hroute
      obtain ⟨_, rfl⟩ := Prod.mk.inj (herr.symm.trans hrefused)
      exact .of_block rfl

end Outcome

/-- The WRITE mapping of the second block, which is mapped twice. -/
def secondMapping : MappedBlock := ⟨⟨0, 2⟩, 4, 1, 1, mapWrite⟩

/-- Two resident blocks mapped for writing, the second one twice; the copy of the first one has taken
the only page of L2. -/
def cappedWriters : MmuRuntime :=
  machine.replay (smallInstance 2 1)
    [.createContext (some 1), .allocateBlocks 1 2, .mapLogicalBlock 1 0 mapWrite,
      .mapLogicalBlock 1 1 mapWrite, .mapLogicalBlock 1 1 mapWrite, .unmapLogicalBlock 1 firstMapping]

theorem cappedWriters_reachable : Reachable cappedWriters :=
  (smallInstance_reachable 2 1).replay (by decide +kernel)

/-- A descriptor whose entry leads elsewhere is refused without a trace. -/
theorem failed_unmap_changes_nothing_refused :
    let refused := mmuUnmapLogicalBlock cappedWriters 1 { secondMapping with logicalBlockId := 0 }
    refused.1 = .error .badHandle ∧ Unmoved cappedWriters refused.2 := by
  intro refused
  have herr : refused.1 = .error .badHandle := by decide +kernel
  have hall := (failed_unmap_changes_nothing cappedWriters_reachable 1
    { secondMapping with logicalBlockId := 0 }).mpr (by decide +kernel)
  exact ⟨herr, of_error hall herr⟩

/-- The unmap fails and has taken a pin; repeated, it fails and takes the pin of the other mapping. -/
theorem failed_unmap_drops_pins :
    Reachable cappedWriters ∧
    (let once := mmuUnmapLogicalBlock cappedWriters 1 secondMapping
     let twice := mmuUnmapLogicalBlock once.2 1 secondMapping
     (cappedWriters.block 1).info.pinCount = 2 ∧
     once.1 = .error .outOfMemory ∧ (once.2.block 1).info.pinCount = 1 ∧
     twice.1 = .error .outOfMemory ∧ (twice.2.block 1).info.pinCount = 0) ∧
    ¬(∀ e mmu', mmuUnmapLogicalBlock cappedWriters 1 secondMapping = (.error e, mmu') →
      Unmoved cappedWriters mmu') := by
  have herr : (mmuUnmapLogicalBlock cappedWriters 1 secondMapping).1 = .error .outOfMemory := by decide +kernel
  have hpins : ((mmuUnmapLogicalBlock cappedWriters 1 secondMapping).2.block 1).info.pinCount ≠
      (cappedWriters.block 1).info.pinCount := by decide +kernel
  refine ⟨cappedWriters_reachable, by decide +kernel, ?_⟩
  intro hall
  exact hpins ((of_error hall herr).pins 1)

end DsfMmu
