import DsfMmu.Api
import DsfMmu.Eviction

namespace DsfMmu

open MmuRuntime

/-- No block but `p` has its record or its pages changed. -/
structure Touches (p : Int) (mmu mmu' : MmuRuntime) : Prop where
  routing : SameRouting mmu mmu'
  metas_size : mmu'.blockDirectory.metas.size = mmu.blockDirectory.metas.size
  owners_size : ∀ id, (mmu'.pool id).ownerPages.size = (mmu.pool id).ownerPages.size
  pool_ok : ∀ id, (mmu.pool id).Ok → (mmu'.pool id).Ok
  metas : ∀ q ≠ p, mmu'.blockDirectory.metas.entry q = mmu.blockDirectory.metas.entry q
  owners : ∀ q ≠ p, ∀ id, (mmu'.pool id).ownerPages.entry q = (mmu.pool id).ownerPages.entry q

/-- Nor are the marks of block `p` or the counter. -/
structure Minor (p : Int) (mmu mmu' : MmuRuntime) : Prop extends Touches p mmu mmu' where
  allocated : (mmu'.blockDirectory.metas.entry p).allocated = (mmu.blockDirectory.metas.entry p).allocated
  resident : (mmu'.blockDirectory.metas.entry p).residentInL1 = (mmu.blockDirectory.metas.entry p).residentInL1
  count : mmu'.residentCount = mmu.residentCount

/-- The record of block `q` and the pages it owns are as they were. -/
structure SameBlock (q : Int) (mmu mmu' : MmuRuntime) : Prop where
  info : mmu'.blockDirectory.metas.entry q = mmu.blockDirectory.metas.entry q
  owners : ∀ id, (mmu'.pool id).ownerPages.entry q = (mmu.pool id).ownerPages.entry q

section Frames

variable {p : Int} {a b c mmu mmu' : MmuRuntime}

theorem Touches.refl (p : Int) (mmu : MmuRuntime) : Touches p mmu mmu :=
  ⟨.refl mmu, rfl, fun _ => rfl, fun _ h => h, fun _ _ => rfl, fun _ _ _ => rfl⟩

theorem Touches.trans (h : Touches p a b) (h' : Touches p b c) : Touches p a c := by
  refine ⟨h.routing.trans h'.routing, h'.metas_size.trans h.metas_size, ?_, ?_, ?_, ?_⟩
  · intro id
    exact (h'.owners_size id).trans (h.owners_size id)
  · intro id hok
    exact h'.pool_ok id (h.pool_ok id hok)
  · intro q hq
    exact (h'.metas q hq).trans (h.metas q hq)
  · intro q hq id
    exact (h'.owners q hq id).trans (h.owners q hq id)

theorem Touches.others (h : Touches p mmu mmu') {q : Int} (hq : q ≠ p) : SameBlock q mmu mmu' :=
  ⟨h.metas q hq, h.owners q hq⟩

theorem Touches.isValid (h : Touches p mmu mmu') (q : Int) :
    mmu'.blockDirectory.isValid q ↔ mmu.blockDirectory.isValid q := by
  unfold BlockDirectory.isValid IntTable.InRange
  rw [h.metas_size]

theorem SameBlock.refl (q : Int) (mmu : MmuRuntime) : SameBlock q mmu mmu := ⟨rfl, fun _ => rfl⟩

theorem SameBlock.trans {q : Int} (h : SameBlock q a b) (h' : SameBlock q b c) : SameBlock q a c :=
  ⟨h'.info.trans h.info, fun id => (h'.owners id).trans (h.owners id)⟩

theorem Minor.refl (p : Int) (mmu : MmuRuntime) : Minor p mmu mmu := ⟨.refl p mmu, rfl, rfl, rfl⟩

theorem Minor.trans (h : Minor p a b) (h' : Minor p b c) : Minor p a c :=
  ⟨h.toTouches.trans h'.toTouches, h'.allocated.trans h.allocated, h'.resident.trans h.resident,
    h'.count.trans h.count⟩

/-- The counter belongs to no block. -/
theorem Touches.recounted (h : Touches p mmu mmu') (n : Nat) : Touches p mmu { mmu' with residentCount := n } :=
  ⟨⟨h.routing.config, h.routing.allocator, h.routing.contexts, h.routing.limit, h.routing.replies⟩, h.metas_size,
    h.owners_size, h.pool_ok, h.metas, h.owners⟩

theorem touches_setDirectory {d : BlockDirectory} (hsize : d.metas.size = mmu.blockDirectory.metas.size)
    (hmetas : ∀ q ≠ p, d.metas.entry q = mmu.blockDirectory.metas.entry q) : Touches p mmu (mmu.setDirectory d) := by
  refine ⟨⟨rfl, rfl, rfl, rfl, rfl⟩, hsize, ?_, ?_, hmetas, ?_⟩
  · intro id
    cases id <;> rfl
  · intro id hok
    cases id <;> exact hok
  · intro q _ id
    cases id <;> rfl

/-- The record of a valid block after a write, and of no other. -/
theorem mutate_entry_self (d : BlockDirectory) (p : Int) (f : BlockMeta → BlockMeta) :
    (d.mutate p f).metas.entry p = if d.isValid p then f (d.metas.entry p) else d.metas.entry p := by
  by_cases hv : d.isValid p
  · rw [BlockDirectory.mutate_entry hv, if_pos rfl, if_pos hv]
  · rw [BlockDirectory.mutate, if_neg hv, if_neg hv]

theorem touches_mutate (mmu : MmuRuntime) (p : Int) (f : BlockMeta → BlockMeta) :
    Touches p mmu (mmu.setDirectory (mmu.blockDirectory.mutate p f)) := by
  refine touches_setDirectory (BlockDirectory.mutate_size _ _ _) ?_
  intro q hq
  by_cases hv : mmu.blockDirectory.isValid p
  · rw [BlockDirectory.mutate_entry hv, if_neg hq]
  · rw [BlockDirectory.mutate, if_neg hv]

theorem minor_mutate (mmu : MmuRuntime) (p : Int) {f : BlockMeta → BlockMeta}
    (hf : ∀ m, (f m).allocated = m.allocated ∧ (f m).residentInL1 = m.residentInL1) :
    Minor p mmu (mmu.setDirectory (mmu.blockDirectory.mutate p f)) := by
  refine ⟨touches_mutate mmu p f, ?_, ?_, rfl⟩
  · show ((mmu.blockDirectory.mutate p f).metas.entry p).allocated = _
    rw [mutate_entry_self]
    split
    next => exact (hf _).1
    next => rfl
  · show ((mmu.blockDirectory.mutate p f).metas.entry p).residentInL1 = _
    rw [mutate_entry_self]
    split
    next => exact (hf _).2
    next => rfl

theorem minor_tier (mmu : MmuRuntime) (p : Int) (tier : MmuTier) :
    Minor p mmu (mmu.mutateMeta p fun m => { m with tier := tier }) := minor_mutate mmu p (fun _ => ⟨rfl, rfl⟩)

theorem minor_setPool {id : PoolId} {pool : ChunkPool} (hsize : pool.ownerPages.size = (mmu.pool id).ownerPages.size)
    (hok : (mmu.pool id).Ok → pool.Ok)
    (howners : ∀ q ≠ p, pool.ownerPages.entry q = (mmu.pool id).ownerPages.entry q) :
    Minor p mmu (mmu.setPool id pool) := by
  refine ⟨⟨setPool_routing mmu id pool, by simp, ?_, ?_, by simp, ?_⟩, by simp, by simp, by simp⟩
  · intro i
    by_cases hi : i = id
    · simpa [hi] using hsize
    · simp [hi]
  · intro i hi'
    by_cases hi : i = id
    · subst i
      simpa using hok hi'
    · simpa [hi] using hi'
  · intro q hq i
    by_cases hi : i = id
    · simpa [hi] using howners q hq
    · simp [hi]

theorem minor_releasePage (mmu : MmuRuntime) (id : PoolId) (p : Int) : Minor p mmu (releasePage mmu id p) := by
  refine minor_setPool ?_ (fun h => ChunkPool.releasePage_ok h p) ?_
  · unfold ChunkPool.releasePage
    split
    next => rfl
    next => split <;> rfl
  · intro q hq
    unfold ChunkPool.releasePage
    split
    next => rfl
    next =>
      split
      next => rfl
      next => exact IntTable.set_entry_ne _ _ hq

/-- The page that is released is gone. -/
theorem releasePage_owner {id : PoolId} (hv : (mmu.pool id).ownerPages.InRange p) :
    ((releasePage mmu id p).pool id).ownerPages.entry p = none := by
  unfold releasePage
  rw [pool_setPool, if_pos rfl]
  unfold ChunkPool.releasePage
  rw [if_neg (not_not.mpr hv)]
  split
  next hnone => exact hnone
  next => simp

/-- The other pool does not come into it. -/
theorem releasePage_other {id id' : PoolId} (hne : id' ≠ id) : (releasePage mmu id p).pool id' = mmu.pool id' := by
  unfold releasePage
  rw [pool_setPool, if_neg hne]

theorem minor_write (mmu : MmuRuntime) (id : PoolId) (slot : PagePtr) (page : Bytes) (p : Int) :
    Minor p mmu (mmu.setPool id ((mmu.pool id).write slot page)) :=
  minor_setPool rfl (fun h => ChunkPool.write_ok h slot page) (fun _ _ => rfl)

theorem minor_copyOrZero (mmu : MmuRuntime) (src : Option (PoolId × PagePtr)) (dst : PoolId) (slot : PagePtr)
    (p : Int) : Minor p mmu (copyOrZero mmu src dst slot) := by
  unfold copyOrZero
  split
  next => exact minor_write mmu dst slot _ p
  next => exact minor_write mmu dst slot _ p

theorem minor_touchBlock (mmu : MmuRuntime) (p : Int) : Minor p mmu (touchBlock mmu p) := by
  have h := minor_mutate mmu p (f := fun m => { m with lastAccessEpoch := nextEpoch mmu.epoch }) (fun _ => ⟨rfl, rfl⟩)
  exact ⟨⟨⟨h.routing.config, h.routing.allocator, h.routing.contexts, h.routing.limit, h.routing.replies⟩,
    h.metas_size, h.owners_size, h.pool_ok, h.metas, h.owners⟩, h.allocated, h.resident, h.count⟩

theorem minor_askHost (mmu : MmuRuntime) (p : Int) : Minor p mmu mmu.askHost.2 := by
  refine ⟨⟨⟨rfl, rfl, rfl, rfl, rfl⟩, rfl, ?_, ?_, fun _ _ => rfl, ?_⟩, rfl, rfl, rfl⟩
  · intro id
    cases id <;> rfl
  · intro id hok
    cases id <;> exact hok
  · intro q _ id
    cases id <;> rfl

theorem minor_addChunk (mmu : MmuRuntime) (id : PoolId) {blocks pushed : Nat} (hp : pushed ≤ blocks) (p : Int) :
    Minor p mmu (mmu.setPool id ((mmu.pool id).addChunk blocks pushed)) :=
  minor_setPool rfl (fun h => ChunkPool.addChunk_ok h hp) (fun _ _ => rfl)

theorem minor_allocateChunk (mmu : MmuRuntime) (id : PoolId) (blocks : Nat) (p : Int) :
    Minor p mmu (allocateChunk mmu id blocks).2 := by
  unfold allocateChunk
  dsimp only
  split
  next => exact .refl p mmu
  next =>
    split
    next => exact .refl p mmu
    next =>
      have hask := minor_askHost mmu p
      split
      next heq =>
        rw [heq] at hask
        exact hask.trans (minor_addChunk _ id (le_refl _) p)
      next heq =>
        rw [heq] at hask
        exact hask
      next heq =>
        rw [heq] at hask
        exact hask.trans (minor_addChunk _ id (min_le_right _ _) p)

theorem minor_refill (mmu : MmuRuntime) (id : PoolId) (p : Int) : Minor p mmu (refill mmu id).2 := by
  unfold refill
  split
  next => exact .refl p mmu
  next =>
    split
    next => exact .refl p mmu
    next => exact minor_allocateChunk mmu id _ p

theorem minor_acquirePage (mmu : MmuRuntime) (id : PoolId) (p : Int) : Minor p mmu (acquirePage mmu id p).2 := by
  unfold acquirePage
  split
  next => exact .refl p mmu
  next hv =>
    split
    next => exact .refl p mmu
    next hnone =>
      split
      next => exact .refl p mmu
      next =>
        have hrefill := minor_refill mmu id p
        -- asked about another block, the refill leaves the owner of this one alone
        have howner := (minor_refill mmu id (p + 1)).owners p (by omega) id
        have hsize := hrefill.owners_size id
        split
        next heq =>
          rw [heq] at hrefill
          exact hrefill
        next mid heq =>
          rw [heq] at hrefill howner hsize
          split
          next => exact hrefill
          next slot hslot =>
            refine hrefill.trans (minor_setPool rfl ?_ ?_)
            · intro hok
              refine ChunkPool.takeFree_ok hok ?_ (howner.trans hnone) hslot
              have hv' : (mmu.pool id).ownerPages.InRange p := not_not.mp hv
              unfold IntTable.InRange at hv' ⊢
              rw [hsize]
              exact hv'
            · intro q hq
              exact IntTable.set_entry_ne _ _ hq

/-- What is noted down once a block has its L2 page. -/
theorem minor_backed (mmu : MmuRuntime) (p : Int) :
    Minor p mmu ((mmu.setDirectory (mmu.blockDirectory.setHasL2Backing p true)).setDirectory
      ((mmu.setDirectory (mmu.blockDirectory.setHasL2Backing p true)).blockDirectory.setL2SlotId p p)) := by
  have h : Minor p mmu (mmu.setDirectory (mmu.blockDirectory.setHasL2Backing p true)) :=
    minor_mutate mmu p (fun _ => ⟨rfl, rfl⟩)
  exact h.trans (minor_mutate _ p (fun _ => ⟨rfl, rfl⟩))

theorem minor_setDirty (mmu : MmuRuntime) (p : Int) (dirty : Bool) :
    Minor p mmu (mmu.setDirectory (mmu.blockDirectory.setDirty p dirty)) := minor_mutate mmu p (fun _ => ⟨rfl, rfl⟩)

theorem minor_syncL1ToL2 (mmu : MmuRuntime) (p : Int) : Minor p mmu (syncL1ToL2 mmu p).2 := by
  have hacq := minor_acquirePage mmu .l2 p
  unfold syncL1ToL2
  split
  next heq =>
    rw [heq] at hacq
    exact hacq
  next heq =>
    rw [heq] at hacq
    exact (hacq.trans (minor_copyOrZero _ _ _ _ p)).trans (minor_backed _ p)

theorem minor_syncL2ToL1 (mmu : MmuRuntime) (p : Int) : Minor p mmu (syncL2ToL1 mmu p).2 := by
  have hacq := minor_acquirePage mmu .l1 p
  unfold syncL2ToL1
  split
  next heq =>
    rw [heq] at hacq
    exact hacq
  next heq =>
    rw [heq] at hacq
    exact (hacq.trans (minor_copyOrZero _ _ _ _ p)).trans (minor_mutate _ p (fun _ => ⟨rfl, rfl⟩))

/-- An unmap that is past the validation marks no block and moves none. -/
theorem minor_unmapPinned (mmu : MmuRuntime) (p : Int) (blockMeta : BlockMeta) (flags : UInt32) :
    Minor p mmu (mmuUnmapLogicalBlock.unmapPinned mmu p blockMeta flags).2 := by
  have hdec : ∀ d, (if blockMeta.pinCount > 0 then mmu.blockDirectory.decrementPinCount p
      else (true, mmu.blockDirectory)) = (true, d) → Minor p mmu (mmu.setDirectory d) := by
    intro d hd
    split at hd
    next =>
      unfold BlockDirectory.decrementPinCount at hd
      split at hd
      next => cases hd
      next =>
        split at hd
        next => cases hd
        next =>
          obtain ⟨-, rfl⟩ := Prod.mk.inj hd
          exact minor_mutate mmu p (fun _ => ⟨rfl, rfl⟩)
    next =>
      obtain ⟨-, rfl⟩ := Prod.mk.inj hd
      exact .refl p mmu
  unfold mmuUnmapLogicalBlock.unmapPinned
  split
  next => exact .refl p mmu
  next d heq =>
    have hd := hdec d heq
    dsimp only
    split
    next =>
      have hdirty := hd.trans (minor_setDirty _ p true)
      split
      next =>
        have hsync := hdirty.trans (minor_syncL1ToL2 _ p)
        split
        next hs =>
          rw [hs] at hsync
          exact hsync
        next hs =>
          rw [hs] at hsync
          exact (hsync.trans (minor_setDirty _ p false)).trans (minor_touchBlock _ p)
      next => exact hdirty.trans (minor_touchBlock _ p)
    next => exact hd.trans (minor_touchBlock _ p)

theorem minor_hostWrite (mmu : MmuRuntime) (d : MappedBlock) (offset : Nat) (byte : UInt8) (p : Int) :
    Minor p mmu (hostWrite mmu d offset byte) :=
  minor_write mmu .l1 d.hostPtr _ p

end Frames

end DsfMmu
