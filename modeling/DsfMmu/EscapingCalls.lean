import DsfMmu.CopyOnWrite
import DsfMmu.EscapingBlocks

namespace DsfMmu

namespace Escaping

open MmuRuntime Throwing BlockManager Context

/-- What stands in a run in which no `bad_alloc` but those of `seen` has left a call. -/
structure Standing (seen : BadAlloc → Prop) (mmu : MmuRuntime) : Prop where
  tables : mmu.Tables
  routing : mmu.routing.Ok
  registered : ¬seen .append → ¬seen .insert → ∀ p, mmu.Live p → (mmu.blockDirectory.metas.entry p).allocated = true
  tallied : ¬seen .resetBlockData → mmu.Tallied mmu.Live

/-- What a call or a part of it carries over: what stands, the setup, and the routing by its steps. -/
structure Carried (seen : BadAlloc → Prop) (events : Event → Prop) (mmu mmu' : MmuRuntime) : Prop where
  standing : Standing seen mmu'
  setup : SameSetup mmu mmu'
  routing : Routing.Run events mmu.routing mmu'.routing

variable {seen : BadAlloc → Prop} {events : Event → Prop} {mmu mmu' : MmuRuntime} {room : Room} {p : Int}

section Carry

theorem Standing.carried (h : Standing seen mmu) : Carried seen events mmu mmu := ⟨h, .refl mmu, .refl⟩

theorem Carried.trans {a b c : MmuRuntime} (h : Carried seen events a b) (h' : Carried seen events b c) :
    Carried seen events a c := ⟨h'.standing, h.setup.trans h'.setup, h.routing.trans h'.routing⟩

/-- Storage alone has changed. -/
theorem Standing.storage (h : Standing seen mmu) (hup : Upkeep mmu mmu')
    (htally : ¬seen .resetBlockData → mmu'.Tallied mmu.Live) : Carried seen events mmu mmu' := by
  refine ⟨⟨hup.tables, ?_, ?_, ?_⟩, hup.routing.setup, ?_⟩
  · rw [hup.routing.routing_eq]
    exact h.routing
  · intro happend hinsert p hp
    have hlive := (hup.routing.live p).mp hp
    rw [hup.allocated p hlive]
    exact h.registered happend hinsert p hlive
  · intro hno
    exact (htally hno).congr (fun p => (hup.routing.live p).symm)
  · rw [hup.routing.routing_eq]
    exact .refl

theorem Standing.minor (h : Standing seen mmu) (hm : Minor p mmu mmu') (hp : ¬seen .resetBlockData → mmu.Live p) :
    Carried seen events mmu mmu' :=
  h.storage (upkeep_minor h.tables hm) (fun hno => (h.tallied hno).minor hm (hp hno))

/-- A block that a route leads to is in use, where the tally is known to hold. -/
theorem Standing.routed (h : Standing seen mmu) {c : Context} {lvid : Int} {route : PhysicalRoute}
    (hr : c.resolveRouting mmu.blockDirectory lvid = .ok route) :
    ¬seen .resetBlockData → mmu.Live route.physicalBlockId :=
  fun hno => (h.tallied hno).live_of_allocated (resolveRouting_allocated hr).2.2.2

/-- Only the routing has changed, no block has come into use, and the directory knows those that are left. -/
theorem Standing.rerouted {r : Routing} (h : Standing seen mmu) (hok : r.Ok)
    (hsize : r.allocator.refCounts.size = mmu.l1Allocator.refCounts.size)
    (hlive : ∀ q, 0 < r.allocator.refCounts.entry q ↔ mmu.Live q) (hrun : Routing.Run events mmu.routing r) :
    Carried seen events mmu (mmu.withRouting r) := by
  refine ⟨⟨h.tables.withRouting hsize, hok, ?_, ?_⟩, withRouting_setup mmu r, hrun⟩
  · intro happend hinsert q hq
    exact h.registered happend hinsert q ((hlive q).mp hq)
  · intro hno
    exact ((h.tallied hno).withRouting r).congr (fun q => (hlive q).symm)

end Carry

section Scans

theorem Standing.allocator (h : Standing seen mmu) : mmu.l1Allocator.Ok := h.routing.allocator

/-- References were dropped, and a scan over `ids` has followed. -/
theorem Standing.swept {r : Routing} {ids : List Int} (h : Standing seen mmu) (hok : r.Ok)
    (hsub : ∀ q, 0 < r.allocator.refCounts.entry q → mmu.Live q)
    (hids : ∀ q, mmu.Live q → q ∉ ids → 0 < r.allocator.refCounts.entry q)
    (hrun : Routing.Run events mmu.routing r) (hs : Swept ids (mmu.withRouting r) mmu') :
    Carried seen events mmu mmu' := by
  have hroute : mmu'.routing = r := hs.routing.routing_eq
  refine ⟨⟨hs.tables, ?_, ?_, ?_⟩, ⟨hs.routing.config, hs.routing.limit, hs.routing.replies⟩, ?_⟩
  · rw [hroute]
    exact hok
  · intro happend hinsert q hq
    have hlive : (mmu.withRouting r).Live q := (hs.routing.live q).mp hq
    rw [(hs.kept q (.inr hlive)).info]
    exact h.registered happend hinsert q (hsub q hlive)
  · intro hno
    refine (hs.tallied _ ((h.tallied hno).withRouting r)).mono ?_
    intro q hq
    obtain ⟨hlive, hscan⟩ := hq
    refine (hs.routing.live q).mpr ?_
    by_cases hmem : q ∈ ids
    · exact hscan hmem
    · exact hids q hlive hmem
  · rw [hroute]
    exact hrun

/-- The scan itself threw. -/
theorem Standing.halted {r : Routing} (h : Standing seen mmu) (hseen : seen .resetBlockData) (hok : r.Ok)
    (hsub : ∀ q, 0 < r.allocator.refCounts.entry q → mmu.Live q)
    (hrun : Routing.Run events mmu.routing r) (hup : Upkeep (mmu.withRouting r) mmu') :
    Carried seen events mmu mmu' := by
  have hroute : mmu'.routing = r := hup.routing.routing_eq
  refine ⟨⟨hup.tables, ?_, ?_, fun hno => absurd hseen hno⟩,
    ⟨hup.routing.config, hup.routing.limit, hup.routing.replies⟩, ?_⟩
  · rw [hroute]
    exact hok
  · intro happend hinsert q hq
    have hlive : (mmu.withRouting r).Live q := (hup.routing.live q).mp hq
    rw [hup.allocated q hlive]
    exact h.registered happend hinsert q (hsub q hlive)
  · rw [hroute]
    exact hrun

end Scans

/-- A `bad_alloc` from a free list, with what is carried over if the run is one that may see it. -/
def Thrown (seen : BadAlloc → Prop) (events : Event → Prop) (mmu : MmuRuntime) (site : BadAlloc) (mmu' : MmuRuntime) :
    Prop :=
  (site = .resetBlockData ∨ site = .moveBlockToL2 ∨ site = .cloneBlockDataForCow) ∧
    (seen site → Carried seen events mmu mmu')

theorem Carried.thrown {mid : MmuRuntime} {site : BadAlloc} (h : Carried seen events mmu mid)
    (ht : Thrown seen events mid site mmu') : Thrown seen events mmu site mmu' :=
  ⟨ht.1, fun hseen => h.trans (ht.2 hseen)⟩

section Release

variable {g : Grants} {ctx : CtxHandle} {lb : UInt32}

theorem mmuDestroyContext_carried (h : Standing seen mmu) (hplain : events .plain) :
    Lands (mmuDestroyContext g mmu ctx) (fun _ s => Carried seen events mmu s) (Thrown seen events mmu) := by
  unfold mmuDestroyContext
  split
  next => exact h.carried
  next c hc =>
    have hfind := (findContext_find? hc).2
    have hstep : mmu.routing.Step .plain
        ⟨mmu.l1Allocator.releaseAll (namedBlocks c.pageTable), mmu.contexts.erase ctx⟩ :=
      .destroyed (r := mmu.routing) hfind
    have hok := h.routing.step hstep
    have hrun : Routing.Run events mmu.routing _ := .single hplain hstep
    have hsub : ∀ q, 0 < (mmu.l1Allocator.releaseAll (namedBlocks c.pageTable)).refCounts.entry q → mmu.Live q := by
      intro q hq
      rw [h.allocator.releaseAll_entry] at hq
      show 0 < mmu.l1Allocator.refCounts.entry q
      omega
    have htables : (mmu.withRouting
        ⟨mmu.l1Allocator.releaseAll (namedBlocks c.pageTable), mmu.contexts.erase ctx⟩).Tables :=
      h.tables.withRouting (releaseAll_size _ _)
    refine (@reclaimUnusedResidentBlocks_lands (mmu.withRouting
      ⟨mmu.l1Allocator.releaseAll (namedBlocks c.pageTable), mmu.contexts.erase ctx⟩) _ hok.allocator htables).mono ?_ ?_
    · intro _ s hs
      refine h.swept hok hsub ?_ hrun hs
      intro q hq hnot
      have hvalid := h.tables.refs_inRange.mp (h.allocator.valid_of_pos hq)
      exact absurd (mem_scanIds.mpr hvalid) hnot
    · intro e s hs
      obtain ⟨rfl, hup⟩ := hs
      exact ⟨.inl rfl, fun hseen => h.halted hseen hok hsub hrun hup⟩

theorem mmuReleaseLogicalBlock_carried (h : Standing seen mmu) (hplain : events .plain) :
    Lands (mmuReleaseLogicalBlock g mmu ctx lb) (fun _ s => Carried seen events mmu s) (Thrown seen events mmu) := by
  unfold mmuReleaseLogicalBlock
  split
  next => exact h.carried
  next c hc =>
    split
    next => exact h.carried
    next lvid hlvid =>
      split
      next => exact h.carried
      next route hroute =>
        have hentry := (resolveRouting_allocated hroute).1
        have hfind := (findContext_find? hc).2
        rcases releaseLogicalBlock_cases h.allocator c lvid with ⟨e, heq, -⟩ | ⟨b, hb, heq⟩
        · rw [heq]
          dsimp only
          rw [setContext_same hfind]
          exact h.carried
        · have hsame : route.physicalBlockId = b := Option.some.inj (hentry.symm.trans hb.entry)
          rw [heq, hsame]
          dsimp only
          have hstep : mmu.routing.Step .plain
              ⟨(mmu.l1Allocator.release b).2, mmu.contexts.insert ctx (c.remapped lvid kUnallocatedBlock)⟩ :=
            .released (r := mmu.routing) hfind hb
          have hok := h.routing.step hstep
          have hrun : Routing.Run events mmu.routing _ := .single hplain hstep
          have hentries : ∀ q, (mmu.l1Allocator.release b).2.refCounts.entry q =
              if q = b ∧ 0 < mmu.l1Allocator.refCounts.entry q then mmu.l1Allocator.refCounts.entry q - 1
              else mmu.l1Allocator.refCounts.entry q := h.allocator.release_entry b
          have hsub : ∀ q, 0 < (mmu.l1Allocator.release b).2.refCounts.entry q → mmu.Live q := by
            intro q hq
            rw [hentries] at hq
            show 0 < mmu.l1Allocator.refCounts.entry q
            split at hq <;> omega
          have hvalid : mmu.Valid b := h.tables.refs_inRange.mp (h.allocator.valid_of_pos hb.live)
          refine (@reclaimBlock_lands (mmu.withRouting
            ⟨(mmu.l1Allocator.release b).2, mmu.contexts.insert ctx (c.remapped lvid kUnallocatedBlock)⟩) b _
            hok.allocator (h.tables.withRouting (release_size _ _)) hvalid).andThen ?_ ?_
          · intro e s hs
            obtain ⟨rfl, hup⟩ := hs
            exact ⟨.inl rfl, fun hseen => h.halted hseen hok hsub hrun hup⟩
          · intro _ s hs
            refine h.swept hok hsub ?_ hrun hs
            intro q hq hnot
            show 0 < (mmu.l1Allocator.release b).2.refCounts.entry q
            rw [hentries, if_neg (fun hc => hnot (by simp [hc.1]))]
            exact hq

end Release

section Prepare

/-- The record of a block was made anew. -/
structure Renewed (p : Int) (mmu mmu' : MmuRuntime) : Prop extends Touches p mmu mmu' where
  allocated : (mmu'.blockDirectory.metas.entry p).allocated = true
  outside : (mmu'.blockDirectory.metas.entry p).residentInL1 = false
  count : mmu'.residentCount = mmu.residentCount

theorem Renewed.minor {mid : MmuRuntime} (h : Renewed p mmu mid) (hm : Minor p mid mmu') : Renewed p mmu mmu' :=
  ⟨h.toTouches.trans hm.toTouches, hm.allocated.trans h.allocated, hm.resident.trans h.outside, hm.count.trans h.count⟩

theorem renewed_fresh (hv : mmu.blockDirectory.isValid p) :
    Renewed p mmu ((mmu.setDirectory (mmu.blockDirectory.initializeFreshBlock p)).setDirectory
      ((mmu.setDirectory (mmu.blockDirectory.initializeFreshBlock p)).blockDirectory.setTier p .l2)) := by
  have hentry : (mmu.blockDirectory.mutate p (fun _ => makeFreshMeta)).metas.entry p = makeFreshMeta := by
    rw [mutate_entry_self, if_pos hv]
  have hinit : Renewed p mmu (mmu.setDirectory (mmu.blockDirectory.initializeFreshBlock p)) :=
    ⟨touches_mutate mmu p (fun _ => makeFreshMeta), congrArg BlockMeta.allocated hentry,
      congrArg BlockMeta.residentInL1 hentry, rfl⟩
  exact hinit.minor (minor_tier _ p .l2)

/-- A block out of use has come into use with a new record. -/
theorem Standing.renewed {r : Routing} (h : Standing seen mmu) (hok : r.Ok)
    (hsize : r.allocator.refCounts.size = mmu.l1Allocator.refCounts.size) (hv : mmu.Valid p) (hnew : ¬mmu.Live p)
    (hlive : ∀ q, 0 < r.allocator.refCounts.entry q ↔ mmu.Live q ∨ q = p)
    (hrun : Routing.Run events mmu.routing r) (hr : Renewed p (mmu.withRouting r) mmu') :
    Carried seen events mmu mmu' := by
  have hroute : mmu'.routing = r := hr.routing.routing_eq
  have hlive' : ∀ q, mmu'.Live q ↔ mmu.Live q ∨ q = p := fun q => (hr.routing.live q).trans (hlive q)
  refine ⟨⟨(h.tables.withRouting hsize).touched hr.toTouches, ?_, ?_, ?_⟩,
    ⟨hr.routing.config, hr.routing.limit, hr.routing.replies⟩, ?_⟩
  · rw [hroute]
    exact hok
  · intro happend hinsert q hq
    by_cases hqp : q = p
    · rw [hqp]
      exact hr.allocated
    · rw [hr.metas q hqp]
      exact h.registered happend hinsert q (((hlive' q).mp hq).resolve_right hqp)
  · intro hno
    have hbefore := (h.tallied hno).withRouting r
    have hout : ((mmu.withRouting r).blockDirectory.metas.entry p).residentInL1 = false := by
      rw [(hbefore.bare p hnew).1]
      rfl
    refine hbefore.touched hr.toTouches hv (.inl ((hlive' p).mpr (.inr rfl)))
      (fun q _ hq => (hlive' q).mpr (.inl hq)) ?_ ?_
    · rw [hout, hr.outside, hr.count]
    · rw [hr.count]
      exact hbefore.limit
  · rw [hroute]
    exact hrun

variable {ctx : CtxHandle} {lb : UInt32}

/-- An entry that named a shared block names block `new` now, which had no reference and has a new record. -/
structure Reassigned (new : Int) (mmu mmu' : MmuRuntime) : Prop where
  unused : mmu.l1Allocator.refCounts.entry new = 0
  valid : mmu.Valid new
  named : ∃ r, mmu.routing.Step .plain r ∧ r.allocator.refCounts.size = mmu.l1Allocator.refCounts.size ∧
    (∀ q, 0 < r.allocator.refCounts.entry q ↔ mmu.Live q ∨ q = new) ∧ Renewed new (mmu.withRouting r) mmu'

theorem Reassigned.not_live {new : Int} (h : Reassigned new mmu mmu') : ¬mmu.Live new := not_live_of_zero h.unused

/-- A write preparation does nothing, or switches an entry; a `bad_alloc` comes from the clone only. -/
theorem mmuPrepareBlockForWrite_lands (room : Room) (ha : mmu.l1Allocator.Ok) (ht : mmu.Tables) :
    Lands (mmuPrepareBlockForWrite room mmu ctx lb)
      (fun r s => (s = mmu ∧ ∀ p before, r = .ok p → mmuResolveRouting mmu ctx lb = .ok before →
          p = before.physicalBlockId) ∨ ∃ new, Reassigned new mmu s ∧ ∀ p, r = .ok p → p = new)
      (fun e s => e = .cloneBlockDataForCow ∧ ∃ new, Reassigned new mmu s) := by
  unfold mmuPrepareBlockForWrite
  split
  next => exact .inl ⟨rfl, nofun⟩
  next c hc =>
    split
    next => exact .inl ⟨rfl, nofun⟩
    next lvid hlvid =>
      split
      next => exact .inl ⟨rfl, nofun⟩
      next before hroute =>
        have hentry := (resolveRouting_allocated hroute).1
        have hfind := (findContext_find? hc).2
        have hresolve : mmuResolveRouting mmu ctx lb = .ok before := by
          unfold mmuResolveRouting
          rw [hc]
          dsimp only
          rw [hlvid]
          exact hroute
        rcases prepareBlockForWrite_cases ha c lvid with
          ⟨e, heq, -⟩ | ⟨b, hb, -, heq⟩ | ⟨b, new, bm, hb, hshared, htaken, heq⟩
        · rw [heq]
          dsimp only
          rw [setContext_same hfind]
          exact .inl ⟨rfl, nofun⟩
        · have hsame : before.physicalBlockId = b := Option.some.inj (hentry.symm.trans hb.entry)
          rw [heq, hsame]
          dsimp only
          rw [setContext_same hfind, if_neg (not_not.mpr rfl)]
          refine .inl ⟨rfl, ?_⟩
          rintro _ before' ⟨⟩ hbefore
          cases Except.ok.inj (hresolve.symm.trans hbefore)
          exact hsame.symm
        · have hsame : before.physicalBlockId = b := Option.some.inj (hentry.symm.trans hb.entry)
          have hne : new ≠ b := (htaken.ne_new hb.live).symm
          rw [heq, hsame]
          dsimp only
          rw [if_pos hne]
          obtain ⟨hvalid, hzero⟩ := htaken.free new (List.mem_singleton_self new)
          have hv : mmu.Valid new := ht.refs_inRange.mp hvalid
          have hsize : (bm.release b).2.refCounts.size = mmu.l1Allocator.refCounts.size :=
            (release_size bm b).trans htaken.size
          have htables := ht.withRouting
            (r := ⟨(bm.release b).2, mmu.contexts.insert ctx (c.remapped lvid new)⟩) hsize
          have hfresh := @renewed_fresh (mmu.withRouting
            ⟨(bm.release b).2, mmu.contexts.insert ctx (c.remapped lvid new)⟩) new (htables.meta_inRange.mpr hv)
          have hend : ∀ s, Renewed new (mmu.withRouting
              ⟨(bm.release b).2, mmu.contexts.insert ctx (c.remapped lvid new)⟩) s → Reassigned new mmu s := by
            intro s hs
            refine ⟨hzero, hv, _, ?_, hsize, remap_live htaken hshared, hs⟩
            exact .remapped (r := mmu.routing) hfind hb hshared htaken
          refine (cloneBlockDataForCow_lands room _ b before.tier new).andThen ?_ ?_
          · intro e s hs
            exact ⟨hs.1, new, hend s (hfresh.minor hs.2)⟩
          · intro cloned s hs
            cases cloned with
            | error status => exact .inr ⟨new, hend s (hfresh.minor hs), nofun⟩
            | ok u =>
              refine .inr ⟨new, hend s (hfresh.minor hs), ?_⟩
              rintro _ ⟨⟩
              rfl

theorem Reassigned.carried {new : Int} (hs : Reassigned new mmu mmu') (h : Standing seen mmu) (hplain : events .plain) :
    Carried seen events mmu mmu' := by
  obtain ⟨r, hstep, hsize, hlive, hr⟩ := hs.named
  exact h.renewed (h.routing.step hstep) hsize hs.valid hs.not_live hlive (.single hplain hstep) hr

theorem mmuPrepareBlockForWrite_carried (h : Standing seen mmu) (hplain : events .plain) :
    Lands (mmuPrepareBlockForWrite room mmu ctx lb) (fun _ s => Carried seen events mmu s) (Thrown seen events mmu) := by
  refine (mmuPrepareBlockForWrite_lands room h.allocator h.tables).mono ?_ ?_
  · intro _ s hs
    rcases hs with ⟨rfl, -⟩ | ⟨new, hs, -⟩
    · exact h.carried
    · exact hs.carried h hplain
  · intro e s hs
    obtain ⟨rfl, new, hs⟩ := hs
    exact ⟨.inr (.inr rfl), fun _ => hs.carried h hplain⟩

end Prepare

end Escaping

end DsfMmu
