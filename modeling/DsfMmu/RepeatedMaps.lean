import DsfMmu.MapPins

namespace DsfMmu

open MmuRuntime BlockManager Context

/-- The same runtime after `p` was touched last, at `epoch`, and has `pins` pins. -/
def repinned (mmu : MmuRuntime) (p : Int) (pins epoch : Nat) : MmuRuntime :=
  { mmu with
    epoch := epoch
    blockDirectory := mmu.blockDirectory.mutate p fun m =>
      { m with pinCount := pins, lastAccessEpoch := epoch } }

section Repinned

variable {mmu : MmuRuntime} {ctx : CtxHandle} {lb : UInt32} {p : Int} {pg : Page} {pins epoch : Nat}

theorem repinned_self (h : (mmu.blockDirectory.metas.entry p).lastAccessEpoch = mmu.epoch) :
    repinned mmu p (mmu.blockDirectory.metas.entry p).pinCount mmu.epoch = mmu := by
  unfold repinned
  rw [BlockDirectory.mutate_eq_self (by rw [← h])]

theorem repinned_touch (mmu : MmuRuntime) (p : Int) (pins epoch : Nat) :
    touchBlock (repinned mmu p pins epoch) p = repinned mmu p pins (nextEpoch epoch) := by
  simp only [touchBlock, repinned, BlockDirectory.setLastAccessEpoch, BlockDirectory.mutate_mutate]

theorem repinned_mutate (mmu : MmuRuntime) (p : Int) (pins epoch : Nat) (f : Nat → Nat) :
    (repinned mmu p pins epoch).setDirectory ((repinned mmu p pins epoch).blockDirectory.mutate p
      fun m => { m with pinCount := f m.pinCount }) = repinned mmu p (f pins) epoch := by
  simp only [setDirectory, repinned, BlockDirectory.mutate_mutate]

theorem repinned_info (hv : mmu.blockDirectory.isValid p) :
    (repinned mmu p pins epoch).blockDirectory.metas.entry p =
      { mmu.blockDirectory.metas.entry p with pinCount := pins, lastAccessEpoch := epoch } := by
  have hentry := BlockDirectory.mutate_entry hv
    (fun m => { m with pinCount := pins, lastAccessEpoch := epoch }) p
  rw [if_pos rfl] at hentry
  exact hentry

/-- A READ map counts one pin and touches the block twice. -/
theorem repinned_map (hb : mmu.Settled) (hroute : routedBlock mmu ctx lb = some p) (hpage : mmu.page .l1 p = some pg)
    (h : (repinned mmu p pins epoch).Settled) :
    mmuMapLogicalBlock (repinned mmu p pins epoch) ctx lb mapRead =
      (.ok ⟨pg.ptr, mmu.config.blockSizeBytes, p, lb, mapRead⟩,
        repinned mmu p (nextPinCount pins) (nextEpoch (nextEpoch epoch))) := by
  obtain ⟨c, lvid, hc, hlvid, hn⟩ := (routedBlock_eq_some hb).mp hroute
  have hc' : findContext (repinned mmu p pins epoch) ctx = some c := hc
  have hn' : c.Names (repinned mmu p pins epoch).l1Allocator lvid p := hn
  have hpage' : (repinned mmu p pins epoch).page .l1 p = some pg := hpage
  have hvalid : (repinned mmu p pins (nextEpoch epoch)).blockDirectory.isValid p :=
    (BlockDirectory.mutate_isValid _ _ _ _).mpr (hb.coherent.sound.meta_inRange.mpr (hb.valid hn.live))
  rw [mmuMapLogicalBlock_unwritten (by decide) (by decide) hc' hlvid, mapResolved_resident h hn' hpage',
    repinned_touch]
  unfold BlockDirectory.incrementPinCount
  rw [if_pos hvalid, repinned_mutate, repinned_touch]
  rfl

/-- The unmap takes the pin back and touches the block once. -/
theorem repinned_unmap (hb : mmu.Settled) (hroute : routedBlock mmu ctx lb = some p)
    (h : (repinned mmu p (pins + 1) epoch).Settled) (ptr : PagePtr) (size : Nat) :
    mmuUnmapLogicalBlock (repinned mmu p (pins + 1) epoch) ctx ⟨ptr, size, p, lb, mapRead⟩ =
      (.ok (), repinned mmu p pins (nextEpoch epoch)) := by
  obtain ⟨c, lvid, hc, hlvid, hn⟩ := (routedBlock_eq_some hb).mp hroute
  have hroute' : routedBlock (repinned mmu p (pins + 1) epoch) ctx lb = some p :=
    (routedBlock_eq_some h).mpr ⟨c, lvid, hc, hlvid, hn⟩
  have hv : mmu.blockDirectory.isValid p := hb.coherent.sound.meta_inRange.mpr (hb.valid hn.live)
  have hvalid : (repinned mmu p (pins + 1) epoch).blockDirectory.isValid p :=
    (BlockDirectory.mutate_isValid _ _ _ _).mpr hv
  have hentry : ((repinned mmu p (pins + 1) epoch).blockDirectory.metas.entry p).pinCount = pins + 1 :=
    congrArg BlockMeta.pinCount (repinned_info hv)
  have hpins : ((repinned mmu p (pins + 1) epoch).block p).info.pinCount = pins + 1 := hentry
  have hdec : (repinned mmu p (pins + 1) epoch).blockDirectory.decrementPinCount p =
      (true, (repinned mmu p (pins + 1) epoch).blockDirectory.mutate p
        fun m => { m with pinCount := m.pinCount - 1 }) := by
    unfold BlockDirectory.decrementPinCount
    rw [BlockDirectory.get_eq_some hvalid]
    dsimp only
    rw [if_neg (by omega)]
  have hread : hasWrite mapRead = false := by decide
  rw [mmuUnmapLogicalBlock_routed h hroute']
  unfold mmuUnmapLogicalBlock.unmapPinned
  dsimp only
  rw [hpins, if_pos (by omega), hdec]
  dsimp only
  rw [hread, if_neg (by simp), repinned_mutate (f := (· - 1)), repinned_touch]
  rfl

end Repinned

end DsfMmu
