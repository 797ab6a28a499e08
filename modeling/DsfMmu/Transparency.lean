import DsfMmu.BatchRollback
import DsfMmu.RepeatedMaps
import DsfMmu.RetainedBlocks

namespace DsfMmu

open MmuRuntime BlockManager Context

section Read

variable {mmu mmu' : MmuRuntime} {ctx : CtxHandle} {lb flags : UInt32}

/-- A READ map that succeeds maps the block its entry names. -/
theorem mmuMapLogicalBlock_read (h : mmu.Settled) (hw : hasWrite flags = false) {d : MappedBlock}
    (hm : mmuMapLogicalBlock mmu ctx lb flags = (.ok d, mmu')) :
    routedBlock mmu ctx lb = some d.physicalBlockId ∧ Mapped mmu mmu' d.physicalBlockId d := by
  rcases mmuMapLogicalBlock_cases h hm with
    ⟨⟨_, he⟩, _⟩ | ⟨hwrite, _⟩ | ⟨mid, c, lvid, hc, hlvid, ⟨_, rfl⟩ | ⟨hwrite, _⟩, hres⟩
  · cases he
  · rw [hw] at hwrite
    cases hwrite
  · obtain ⟨hn, hmapped, _⟩ := mapResolved_ok h hres
    exact ⟨(routedBlock_eq_some h).mpr ⟨c, lvid, hc, hlvid, hn⟩, hmapped⟩
  · rw [hw] at hwrite
    cases hwrite

end Read

section Batch

variable {mmu mmu' : MmuRuntime} {ctx : CtxHandle} {lb flags : UInt32} {p : Int}

/-- A mapped page is in place and pinned. -/
structure Held (mmu : MmuRuntime) (d : MappedBlock) (bytes : Bytes) : Prop where
  page : (mmu.block d.physicalBlockId).l1 = some ⟨d.hostPtr, bytes⟩
  pinned : 0 < (mmu.block d.physicalBlockId).info.pinCount

theorem hostRead_of_l1 {d : MappedBlock} {bytes : Bytes}
    (h : (mmu.block d.physicalBlockId).l1 = some ⟨d.hostPtr, bytes⟩) : hostRead mmu d = bytes := by
  have hpage : mmu.page .l1 d.physicalBlockId = some ⟨d.hostPtr, bytes⟩ := h
  exact (page_eq_some.mp hpage).2.symm

/-- A map of any block keeps it so, unless it wraps the block's pin counter. -/
theorem Held.step {d : MappedBlock} {bytes : Bytes} {r : Except MmuError MappedBlock} (h : Held mmu d bytes)
    (hm : MapStep mmu mmu' ctx lb flags r) (hno : ¬MapWraps mmu ctx lb flags d.physicalBlockId) :
    Held mmu' d bytes := by
  have hpinned := h.pinned
  have hpins := hm.pins d.physicalBlockId
  have hpage := (hm.undisplaced.kept _ hpinned).trans h.page
  cases r with
  | error e =>
    rw [if_neg (show ¬MapsBlock (.error e) d.physicalBlockId from id)] at hpins
    exact ⟨hpage, by omega⟩
  | ok e =>
    split at hpins
    next hsame =>
      have hblock : e.physicalBlockId = d.physicalBlockId := hsame
      have hroom := hm.room e rfl (by rw [hblock]; exact hno)
      rw [hblock] at hroom
      rw [nextPinCount_lt hroom] at hpins
      exact ⟨hpage, by omega⟩
    next => exact ⟨hpage, by omega⟩

/-- A map of a block that was in use before it hands out the bytes the block had. -/
theorem map_page (h : mmu.Settled) {d : MappedBlock} (hm : mmuMapLogicalBlock mmu ctx lb flags = (.ok d, mmu'))
    (hlive : mmu.Live d.physicalBlockId) :
    (mmu'.block d.physicalBlockId).l1 = some ⟨d.hostPtr, mmu.logicalBytes d.physicalBlockId⟩ := by
  rcases mmuMapLogicalBlock_cases h hm with
    ⟨⟨_, he⟩, _⟩ | ⟨_, _, he, _⟩ | ⟨mid, c, lvid, _, _, ⟨_, rfl⟩ | ⟨_, b, hprep⟩, hres⟩
  · cases he
  · cases he
  · exact (mapResolved_ok h hres).2.1.page
  · have hmid := (prepare_clean h hprep).settled
    have hpage := (mapResolved_ok hmid hres).2.1.page
    rw [(prepare_retained h hprep).bytes _ hlive] at hpage
    exact hpage

theorem map_held (h : mmu.Settled) {d : MappedBlock} (hm : mmuMapLogicalBlock mmu ctx lb flags = (.ok d, mmu'))
    (hlive : mmu.Live d.physicalBlockId) (hno : ¬MapWraps mmu ctx lb flags d.physicalBlockId) :
    Held mmu' d (mmu.logicalBytes d.physicalBlockId) := by
  have hpins := (map_step h hm).pins d.physicalBlockId
  have hmaps : MapsBlock (.ok d) d.physicalBlockId := rfl
  rw [if_pos hmaps, nextPinCount_lt (map_room h hm hno)] at hpins
  exact ⟨map_page h hm hlive, by omega⟩

/-- The rest of a batch keeps the pages handed out before. -/
theorem mapBlocksLoop_held (lbs : List UInt32) (done ds : List MappedBlock) {d : MappedBlock} {bytes : Bytes}
    (h : mmu.Settled) (hd : Held mmu d bytes) (hno : ¬BatchWraps mmu ctx lbs flags d.physicalBlockId)
    (hm : mapBlocksLoop ctx flags lbs done mmu = (.ok ds, mmu')) : Held mmu' d bytes := by
  induction lbs generalizing mmu done with
  | nil =>
    obtain ⟨_, rfl⟩ := Prod.mk.inj hm
    exact hd
  | cons lb rest ih =>
    have hhere := AtSomeTurn.not_here hno
    unfold mapBlocksLoop at hm
    split at hm
    next => cases hm
    next e mid hone =>
      have hstep := map_step h hone
      have hlater := AtSomeTurn.not_later hno hone
      exact ih (done ++ [e]) hstep.undisplaced.settled (hd.step hstep hhere) hlater hm

/-- The pages of one block in a batch that does not wrap its pin counter. -/
theorem mapBlocksLoop_pages (lbs : List UInt32) (done ds : List MappedBlock) (h : mmu.Settled) (hlive : mmu.Live p)
    (hno : ¬BatchWraps mmu ctx lbs flags p) (hm : mapBlocksLoop ctx flags lbs done mmu = (.ok ds, mmu')) :
    ∃ new, ds = done ++ new ∧ ∀ d ∈ new, d.physicalBlockId = p → hostRead mmu' d = mmu.logicalBytes p := by
  induction lbs generalizing mmu done with
  | nil =>
    obtain ⟨hds, _⟩ := Prod.mk.inj hm
    cases Except.ok.inj hds
    exact ⟨[], (List.append_nil _).symm, fun _ hd => absurd hd List.not_mem_nil⟩
  | cons lb rest ih =>
    have hhere := AtSomeTurn.not_here hno
    unfold mapBlocksLoop at hm
    split at hm
    next => cases hm
    next d mid hone =>
      have hstep := map_step h hone
      have hkept := map_retained h hone
      have hlater := AtSomeTurn.not_later hno hone
      obtain ⟨new, hds, hall⟩ := ih (done ++ [d]) hstep.undisplaced.settled (hkept.live p hlive) hlater hm
      refine ⟨d :: new, by simpa using hds, ?_⟩
      intro e he hp
      rcases List.mem_cons.mp he with rfl | hold
      · subst hp
        have hheld := map_held h hone hlive hhere
        exact hostRead_of_l1 (mapBlocksLoop_held rest _ ds hstep.undisplaced.settled hheld hlater hm).page
      · rw [← hkept.bytes p hlive]
        exact hall e hold hp

/-- Item by item a READ batch that succeeds hands out the block of the entry. -/
theorem mapBlocksLoop_named (hw : hasWrite flags = false) (lbs : List UInt32) (done ds : List MappedBlock)
    (h : mmu.Settled) (hm : mapBlocksLoop ctx flags lbs done mmu = (.ok ds, mmu')) :
    ∃ new, ds = done ++ new ∧
      List.Forall₂ (fun lb d => routedBlock mmu ctx lb = some d.physicalBlockId) lbs new := by
  induction lbs generalizing mmu done with
  | nil =>
    obtain ⟨hds, _⟩ := Prod.mk.inj hm
    cases Except.ok.inj hds
    exact ⟨[], (List.append_nil _).symm, .nil⟩
  | cons lb rest ih =>
    unfold mapBlocksLoop at hm
    split at hm
    next => cases hm
    next d mid hone =>
      obtain ⟨hroute, hmapped⟩ := mmuMapLogicalBlock_read h hw hone
      obtain ⟨new, hds, hall⟩ := ih (done ++ [d]) hmapped.settled hm
      refine ⟨d :: new, by simpa using hds, .cons hroute (hall.imp ?_)⟩
      intro lb' d' hroute'
      rw [← routedBlock_congr h hmapped.settled hmapped.routing]
      exact hroute'

/-- And its bytes, where the batch does not wrap the block's pin counter. -/
theorem mapBlocks_read (hw : hasWrite flags = false) {lbs : List UInt32} {ds : List MappedBlock} (h : mmu.Settled)
    (hm : mmuMapLogicalBlocks mmu ctx lbs flags = (.ok ds, mmu')) :
    List.Forall₂ (fun lb d => routedBlock mmu ctx lb = some d.physicalBlockId ∧
      (¬BatchWraps mmu ctx lbs flags d.physicalBlockId →
        hostRead mmu' d = mmu.logicalBytes d.physicalBlockId)) lbs ds := by
  obtain ⟨new, hds, hroutes⟩ := mapBlocksLoop_named hw lbs [] ds h hm
  rw [List.nil_append] at hds
  subst hds
  have hpages : ∀ d ∈ ds, (∃ lb, routedBlock mmu ctx lb = some d.physicalBlockId) →
      ¬BatchWraps mmu ctx lbs flags d.physicalBlockId →
      hostRead mmu' d = mmu.logicalBytes d.physicalBlockId := by
    intro d hd hrouted hno
    obtain ⟨lb, hroute⟩ := hrouted
    obtain ⟨new, hnew, hall⟩ := mapBlocksLoop_pages lbs [] ds h (routed_live h hroute) hno hm
    rw [List.nil_append] at hnew
    exact hall d (hnew ▸ hd) rfl
  have hboth := (List.forall₂_and_left _ _).mpr ⟨hpages, hroutes.flip⟩
  apply hboth.flip.imp
  intro lb d hd
  exact ⟨hd.2, hd.1 ⟨lb, hd.2⟩⟩

end Batch

section Wrap

/-- Two blocks and room for one in L1; the first one's page starts with a seven. -/
@[irreducible] def oneWritten : MmuRuntime :=
  machine.replay (smallInstance 1 0)
    [.createContext (some 1), .allocateBlocks 1 2, .mapLogicalBlock 1 0 mapWrite,
      .hostWrite 1 firstMapping 0 7, .unmapLogicalBlock 1 firstMapping]

/-- The same after READ maps of the first block that were never unmapped. -/
def pinned (pins epoch : Nat) : MmuRuntime :=
  { oneWritten with
    epoch := epoch
    blockDirectory := oneWritten.blockDirectory.mutate 0 fun m =>
      { m with pinCount := pins, lastAccessEpoch := epoch } }

end Wrap

end DsfMmu
