import DsfMmu.EscapingEviction

namespace DsfMmu

namespace Escaping

open MmuRuntime Throwing

variable {mmu mmu' : MmuRuntime} {room : Room} {live : Int → Prop} {p : Int}

section Ensure

/-- Block `p` has come into L1, and the counter has followed. -/
structure Promoted (p : Int) (mmu mmu' : MmuRuntime) : Prop extends Touches p mmu mmu' where
  allocated : (mmu'.blockDirectory.metas.entry p).allocated = (mmu.blockDirectory.metas.entry p).allocated
  after : (mmu'.blockDirectory.metas.entry p).residentInL1 = true
  count : mmu'.residentCount = mmu.residentCount + 1

theorem Promoted.minor {mid : MmuRuntime} (h : Promoted p mmu mid) (hm : Minor p mid mmu') : Promoted p mmu mmu' :=
  ⟨h.toTouches.trans hm.toTouches, hm.allocated.trans h.allocated, hm.resident.trans h.after, hm.count.trans h.count⟩

theorem promoteToL1_marks (hv : mmu.blockDirectory.isValid p) :
    (∃ e, (promoteToL1 mmu p).1 = .error e) ∧ Minor p mmu (promoteToL1 mmu p).2 ∨
      (promoteToL1 mmu p).1 = .ok () ∧ Promoted p mmu (promoteToL1 mmu p).2 := by
  have hsync := minor_syncL2ToL1 mmu p
  unfold promoteToL1
  split
  next heq =>
    rw [heq] at hsync
    exact .inl ⟨⟨_, rfl⟩, hsync⟩
  next mid heq =>
    rw [heq] at hsync
    refine .inr ⟨rfl, ?_⟩
    have hvalid := (hsync.isValid p).mpr hv
    have hall := hsync.toTouches.trans
      (touches_mutate mid p (fun m => { m with residentInL1 := true, l1FrameId := p, tier := .l1 }))
    have hentry : (mid.blockDirectory.mutate p (fun m =>
        { m with residentInL1 := true, l1FrameId := p, tier := .l1 })).metas.entry p =
        { mid.blockDirectory.metas.entry p with residentInL1 := true, l1FrameId := p, tier := .l1 } := by
      rw [mutate_entry_self, if_pos hvalid]
    have hpromoted : Promoted p mmu { mid.mutateMeta p (fun m =>
        { m with residentInL1 := true, l1FrameId := p, tier := .l1 }) with residentCount := mid.residentCount + 1 } := by
      refine ⟨hall.recounted _, ?_, ?_, ?_⟩
      · exact (congrArg BlockMeta.allocated hentry).trans hsync.allocated
      · exact congrArg BlockMeta.residentInL1 hentry
      · rw [← hsync.count]
    exact hpromoted.minor (minor_touchBlock _ p)

theorem Promoted.tallied (hp : Promoted p mmu mmu') (hv : mmu.Valid p) (hlive : live p)
    (hout : (mmu.blockDirectory.metas.entry p).residentInL1 = false) (hroom : mmu.residentCount < mmu.residentLimit)
    (h : mmu.Tallied live) : mmu'.Tallied live := by
  refine h.touched hp.toTouches hv (.inl hlive) (fun _ _ hq => hq) ?_ ?_
  · rw [hout, hp.after, hp.count]
    simp
  · have := hp.count
    omega

/-- The block is found in L1 already: nothing but the touch. -/
theorem minor_touched_tier (mmu : MmuRuntime) (p : Int) :
    Minor p mmu ((touchBlock mmu p).mutateMeta p fun m => { m with tier := .l1 }) :=
  (minor_touchBlock mmu p).trans (minor_tier _ p .l1)

theorem valid_of_get {blockMeta : BlockMeta} (hget : mmu.blockDirectory.get p = some blockMeta) :
    mmu.blockDirectory.isValid p ∧ mmu.blockDirectory.metas.entry p = blockMeta := by
  unfold BlockDirectory.get at hget
  split at hget
  next hv => exact ⟨hv, Option.some.inj hget⟩
  next => cases hget

/-- After the scan of `EnsureResidentInL1`. -/
def ensureScanned (room : Room) (mmu : MmuRuntime) (p : Int) : Throwing BadAlloc MmuRuntime (Except MmuError Unit) :=
  match mmu.blockDirectory.get p with
  | none => (.ok (.error .invalidArgument), mmu)
  | some blockMeta =>
    if blockMeta.allocated = false then (.ok (.error .invalidArgument), mmu)
    else if blockMeta.residentInL1 then
      (.ok (.ok ()), (touchBlock mmu p).mutateMeta p fun m => { m with tier := .l1 })
    else
      andThen (evictForRoom room mmu p) fun evicted mmu =>
        match evicted with
        | .error status => (.ok (.error status), mmu)
        | .ok _ =>
          match promoteToL1 mmu p with
          | (promoted, mmu) => (.ok promoted, mmu)

theorem ensureResidentInL1_scanned (room : Room) (mmu : MmuRuntime) (p : Int) :
    ensureResidentInL1 room mmu p =
      if ¬mmu.l1Allocator.isValid p then (.ok (.error .invalidArgument), mmu)
      else andThen (reclaimUnusedResidentBlocks room mmu) fun _ mmu => ensureScanned room mmu p := rfl

/-- Whatever an eviction leaves behind, the marks of the blocks in use and the tally are kept. -/
theorem ensureScanned_lands (room : Room) (ht : mmu.Tables) (p : Int) :
    Lands (ensureScanned room mmu p)
      (fun _ s => Upkeep mmu s ∧ ∀ live, mmu.Tallied live → s.Tallied live)
      (fun e s => e = .moveBlockToL2 ∧ Upkeep mmu s ∧ ∀ live, mmu.Tallied live → s.Tallied live) := by
  have hstay : Upkeep mmu mmu ∧ ∀ live, mmu.Tallied live → mmu.Tallied live := ⟨upkeep_refl ht, fun _ h => h⟩
  unfold ensureScanned
  split
  next => exact hstay
  next blockMeta hget =>
    obtain ⟨hvalid, hentry⟩ := valid_of_get hget
    split
    next => exact hstay
    next halloc =>
      have hlive : ∀ live, mmu.Tallied live → live p := by
        intro live h
        refine h.live_of_allocated ?_
        rw [hentry]
        simpa using halloc
      split
      next =>
        have hm := minor_touched_tier mmu p
        exact ⟨upkeep_minor ht hm, fun live h => h.minor hm (hlive live h)⟩
      next hout =>
        refine (evictForRoom_lands room ht p).andThen ?_ ?_
        · intro e s hs
          exact ⟨hs.1, hs.2.upkeep, hs.2.tallied⟩
        · intro evicted mid hmid
          obtain ⟨hev, hroom⟩ := hmid
          cases evicted with
          | error status => exact ⟨hev.upkeep, hev.tallied⟩
          | ok u =>
            have hvalid' := hev.upkeep.isValid ht hvalid
            rcases promoteToL1_marks hvalid' with ⟨-, hm⟩ | ⟨-, hp⟩
            · exact ⟨hev.upkeep.trans (upkeep_minor hev.upkeep.tables hm),
                fun live h => (hev.tallied live h).minor hm (hlive live h)⟩
            · refine ⟨hev.upkeep.trans (upkeep_touched hev.upkeep.tables hp.toTouches (fun _ => hp.allocated)), ?_⟩
              intro live h
              refine hp.tallied (hev.upkeep.tables.meta_inRange.mp hvalid') (hlive live h) ?_ (hroom rfl)
                (hev.tallied live h)
              rw [hev.self.info, hentry]
              simpa using hout

theorem ensureResidentInL1_upkeep (room : Room) (ha : mmu.l1Allocator.Ok) (ht : mmu.Tables) (p : Int) :
    Lands (ensureResidentInL1 room mmu p) (fun _ s => Upkeep mmu s)
      (fun e s => (e = .resetBlockData ∨ e = .moveBlockToL2) ∧ Upkeep mmu s) := by
  rw [ensureResidentInL1_scanned]
  split
  next => exact upkeep_refl ht
  next =>
    refine (reclaimUnusedResidentBlocks_lands room ha ht).andThen ?_ ?_
    · intro e s hs
      exact ⟨.inl hs.1, hs.2⟩
    · intro _ mid hmid
      refine (ensureScanned_lands room hmid.tables p).mono ?_ ?_
      · intro _ s hs
        exact hmid.upkeep.trans hs.1
      · intro e s hs
        exact ⟨.inr hs.1, hmid.upkeep.trans hs.2.1⟩

/-- With nothing kept of unused blocks the scan is idle, and what is thrown comes from an eviction. -/
theorem ensureResidentInL1_tallied (room : Room) (ha : mmu.l1Allocator.Ok) (ht : mmu.Tables)
    (h : mmu.Tallied mmu.Live) (p : Int) :
    Lands (ensureResidentInL1 room mmu p) (fun _ s => s.Tallied mmu.Live)
      (fun e s => e = .moveBlockToL2 ∧ s.Tallied mmu.Live) := by
  rw [ensureResidentInL1_scanned, reclaimUnusedResidentBlocks_tallied room ha h]
  split
  next => exact h
  next =>
    refine (ensureScanned_lands room ht p).mono ?_ ?_
    · intro _ s hs
      exact hs.2 _ h
    · intro e s hs
      exact ⟨hs.1, hs.2.2 _ h⟩

/-- And one victim is enough. -/
theorem ensureResidentInL1_single (room : Room) (ha : mmu.l1Allocator.Ok) (ht : mmu.Tables)
    (h : mmu.Tallied mmu.Live) (p : Int) :
    Lands (ensureResidentInL1 room mmu p) (fun _ s => ∃ v, NoneLeftBut v mmu s) (fun _ s => ∃ v, NoneLeftBut v mmu s) := by
  have hstay : NoneLeftBut p mmu mmu := fun _ _ hres => hres
  rw [ensureResidentInL1_scanned, reclaimUnusedResidentBlocks_tallied room ha h]
  split
  next => exact ⟨p, hstay⟩
  next =>
    show Lands (ensureScanned room mmu p) _ _
    unfold ensureScanned
    split
    next => exact ⟨p, hstay⟩
    next blockMeta hget =>
      obtain ⟨hvalid, hentry⟩ := valid_of_get hget
      split
      next => exact ⟨p, hstay⟩
      next =>
        split
        next => exact ⟨p, noneLeft_touched (minor_touched_tier mmu p).toTouches⟩
        next hout =>
          have hself : p ∉ mmu.residents := by
            intro hres
            have hr := (mem_residents_iff.mp hres).2
            rw [hentry] at hr
            exact hout hr
          refine (((evictForRoom_single room ht h p).and (evictForRoom_lands room ht p))).andThen ?_ ?_
          · intro e s hs
            exact hs.1
          · intro evicted mid hmid
            obtain ⟨⟨v, hv⟩, hev, -⟩ := hmid
            cases evicted with
            | error status => exact ⟨v, hv⟩
            | ok u =>
              have hvalid' := hev.upkeep.isValid ht hvalid
              have htouch : Touches p mid (promoteToL1 mid p).2 := by
                rcases promoteToL1_marks hvalid' with ⟨-, hm⟩ | ⟨-, hp⟩
                · exact hm.toTouches
                · exact hp.toTouches
              refine ⟨v, ?_⟩
              intro q hq hres
              have hqp : q ≠ p := fun he => hself (he ▸ hres)
              exact noneLeft_touched htouch q hqp (hv q hq hres)

end Ensure

end Escaping

end DsfMmu
