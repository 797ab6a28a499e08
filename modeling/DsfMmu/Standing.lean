import DsfMmu.Provision
import DsfMmu.ReturningCalls
import DsfMmu.StorageFrames

namespace DsfMmu

namespace MmuRuntime

/-- The tables have the configured sizes, and no slot of a pool has two owners. -/
structure Tables (mmu : MmuRuntime) : Prop where
  refs_size : mmu.l1Allocator.refCounts.size = mmu.config.l1BlockCount
  metas_size : mmu.blockDirectory.metas.size = mmu.config.l1BlockCount
  owners_size : ∀ id, (mmu.pool id).ownerPages.size = mmu.config.l1BlockCount
  limit : mmu.residentLimit = mmu.config.l1ResidentBlockLimit
  pool_ok : ∀ id, (mmu.pool id).Ok

/-- The directory and the pools keep nothing of block `p`. -/
def Bare (mmu : MmuRuntime) (p : Int) : Prop :=
  mmu.blockDirectory.metas.entry p = makeDefaultMeta ∧ ∀ id, (mmu.pool id).ownerPages.entry p = none

/-- The counter is the number of residents and within the limit, and nothing is kept of a block out of use. -/
structure Tallied (mmu : MmuRuntime) (live : Int → Prop) : Prop where
  bare : ∀ p, ¬live p → mmu.Bare p
  count : mmu.residentCount = mmu.residents.card
  limit : mmu.residentCount ≤ mmu.residentLimit

section Tables

variable {mmu mmu' : MmuRuntime} {live live' : Int → Prop} {p : Int}

theorem Tables.meta_inRange (h : mmu.Tables) : mmu.blockDirectory.isValid p ↔ mmu.Valid p := by
  simp [BlockDirectory.isValid, IntTable.inRange_iff_mem, h.metas_size, Valid]

theorem Tables.refs_inRange (h : mmu.Tables) : mmu.l1Allocator.isValid p ↔ mmu.Valid p := by
  simp [BlockManager.isValid, IntTable.inRange_iff_mem, h.refs_size, Valid]

theorem Tables.owner_inRange (h : mmu.Tables) (id : PoolId) : (mmu.pool id).ownerPages.InRange p ↔ mmu.Valid p := by
  simp [IntTable.inRange_iff_mem, h.owners_size id, Valid]

theorem Sound.tables (h : mmu.Sound) : mmu.Tables := ⟨h.refs_size, h.metas_size, h.owners_size, h.limit, h.pool_ok⟩

theorem Tables.touched (h : mmu.Tables) (ht : Touches p mmu mmu') : mmu'.Tables := by
  refine ⟨?_, ?_, ?_, ?_, ?_⟩
  · rw [ht.routing.allocator, ht.routing.config]
    exact h.refs_size
  · rw [ht.metas_size, ht.routing.config]
    exact h.metas_size
  · intro id
    rw [ht.owners_size, ht.routing.config]
    exact h.owners_size id
  · rw [ht.routing.limit, ht.routing.config]
    exact h.limit
  · intro id
    exact ht.pool_ok id (h.pool_ok id)

theorem pool_withRouting (mmu : MmuRuntime) (r : Routing) (id : PoolId) : (mmu.withRouting r).pool id = mmu.pool id := by
  cases id <;> rfl

theorem Tables.withRouting {r : Routing} (h : mmu.Tables)
    (hsize : r.allocator.refCounts.size = mmu.l1Allocator.refCounts.size) : (mmu.withRouting r).Tables := by
  refine ⟨hsize.trans h.refs_size, h.metas_size, ?_, h.limit, ?_⟩
  · intro id
    rw [pool_withRouting]
    exact h.owners_size id
  · intro id
    rw [pool_withRouting]
    exact h.pool_ok id

theorem Bare.same (h : mmu.Bare p) (hs : SameBlock p mmu mmu') : mmu'.Bare p :=
  ⟨hs.info.trans h.1, fun id => (hs.owners id).trans (h.2 id)⟩

theorem Tallied.mono (h : mmu.Tallied live) (hsub : ∀ p, live p → live' p) : mmu.Tallied live' :=
  ⟨fun p hp => h.bare p (fun hl => hp (hsub p hl)), h.count, h.limit⟩

theorem Tallied.congr (h : mmu.Tallied live) (hl : ∀ p, live p ↔ live' p) : mmu.Tallied live' :=
  h.mono (fun p => (hl p).mp)

/-- A block with an allocated record is in use. -/
theorem Tallied.live_of_allocated (h : mmu.Tallied live)
    (ha : (mmu.blockDirectory.metas.entry p).allocated = true) : live p := by
  by_contra hl
  rw [(h.bare p hl).1] at ha
  cases ha

theorem Tallied.live_of_resident (h : mmu.Tallied live)
    (hr : (mmu.blockDirectory.metas.entry p).residentInL1 = true) : live p := by
  by_contra hl
  rw [(h.bare p hl).1] at hr
  cases hr

theorem mem_residents_iff : p ∈ mmu.residents ↔
    mmu.Valid p ∧ (mmu.blockDirectory.metas.entry p).residentInL1 = true := Finset.mem_filter

/-- The residents after block `p` alone was marked. -/
theorem residents_touched (ht : Touches p mmu mmu') (hv : mmu.Valid p) :
    mmu'.residents.card + (if (mmu.blockDirectory.metas.entry p).residentInL1 then 1 else 0) =
      mmu.residents.card + if (mmu'.blockDirectory.metas.entry p).residentInL1 then 1 else 0 := by
  unfold residents
  rw [ht.routing.config]
  refine card_flag_update (f := fun q => (mmu.blockDirectory.metas.entry q).residentInL1)
    (g := fun q => (mmu'.blockDirectory.metas.entry q).residentInL1) hv ?_
  intro q hq
  rw [ht.metas q hq]

/-- One block is marked, taken or given up, and the counter follows. -/
theorem Tallied.touched (h : mmu.Tallied live) (ht : Touches p mmu mmu') (hv : mmu.Valid p)
    (hself : live' p ∨ mmu'.Bare p) (hother : ∀ q ≠ p, live q → live' q)
    (hcount : mmu'.residentCount + (if (mmu.blockDirectory.metas.entry p).residentInL1 then 1 else 0) =
      mmu.residentCount + if (mmu'.blockDirectory.metas.entry p).residentInL1 then 1 else 0)
    (hlimit : mmu'.residentCount ≤ mmu.residentLimit) : mmu'.Tallied live' := by
  refine ⟨?_, ?_, ?_⟩
  · intro q hq
    by_cases hqp : q = p
    · subst q
      exact hself.resolve_left hq
    · exact (h.bare q (fun hl => hq (hother q hqp hl))).same (ht.others hqp)
  · have hcard := residents_touched ht hv
    have hbefore := h.count
    omega
  · rw [ht.routing.limit]
    exact hlimit

theorem residents_minor (hm : Minor p mmu mmu') : mmu'.residents = mmu.residents := by
  unfold MmuRuntime.residents
  rw [hm.routing.config]
  refine Finset.filter_congr ?_
  intro q _
  by_cases hq : q = p
  · rw [hq, hm.resident]
  · rw [hm.metas q hq]

theorem Tallied.minor (h : mmu.Tallied live) (hm : Minor p mmu mmu') (hp : live p) : mmu'.Tallied live := by
  refine ⟨?_, ?_, ?_⟩
  · intro q hq
    have hqp : q ≠ p := fun he => hq (he ▸ hp)
    exact (h.bare q hq).same (hm.others hqp)
  · rw [hm.count, residents_minor hm]
    exact h.count
  · rw [hm.count, hm.routing.limit]
    exact h.limit

theorem Bare.withRouting (h : mmu.Bare p) (r : Routing) : (mmu.withRouting r).Bare p := by
  refine ⟨h.1, ?_⟩
  intro id
  rw [pool_withRouting]
  exact h.2 id

theorem Tallied.withRouting (h : mmu.Tallied live) (r : Routing) : (mmu.withRouting r).Tallied live :=
  ⟨fun p hp => (h.bare p hp).withRouting r, h.count, h.limit⟩

end Tables

end MmuRuntime

end DsfMmu
