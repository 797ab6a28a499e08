import DsfMmu.EscapingResidence

namespace DsfMmu

namespace Escaping

open MmuRuntime Throwing BlockManager Context

variable {mmu mmu' : MmuRuntime} {room : Room} {live : Int → Prop} {p : Int}

section Register

/-- No pool has a page of block `p`. -/
def Ownerless (mmu : MmuRuntime) (p : Int) : Prop := ∀ id, (mmu.pool id).ownerPages.entry p = none

theorem Ownerless.same (h : Ownerless mmu p) (hs : SameBlock p mmu mmu') : Ownerless mmu' p :=
  fun id => (hs.owners id).trans (h id)

/-- A new block is marked, in L1 where there is room. -/
structure Fresh (p : Int) (mmu mmu' : MmuRuntime) : Prop extends Touches p mmu mmu' where
  allocated : (mmu'.blockDirectory.metas.entry p).allocated = true
  count : mmu'.residentCount =
    mmu.residentCount + if (mmu'.blockDirectory.metas.entry p).residentInL1 then 1 else 0
  limit : mmu.residentCount ≤ mmu.residentLimit → mmu'.residentCount ≤ mmu.residentLimit

theorem Fresh.minor {mid : MmuRuntime} (h : Fresh p mmu mid) (hm : Minor p mid mmu') : Fresh p mmu mmu' := by
  refine ⟨h.toTouches.trans hm.toTouches, hm.allocated.trans h.allocated, ?_, ?_⟩
  · rw [hm.count, hm.resident]
    exact h.count
  · rw [hm.count]
    exact h.limit

theorem Fresh.tallied (hf : Fresh p mmu mmu') (hv : mmu.Valid p) (hnew : ¬live p) (h : mmu.Tallied live) :
    mmu'.Tallied (fun q => live q ∨ q = p) := by
  have hout : (mmu.blockDirectory.metas.entry p).residentInL1 = false := by
    rw [(h.bare p hnew).1]
    rfl
  refine h.touched hf.toTouches hv (.inl (.inr rfl)) (fun _ _ hq => .inl hq) ?_ (hf.limit h.limit)
  rw [hout, hf.count]
  simp

theorem resetBlockData_ownerless (ht : mmu.Tables) (hv : mmu.Valid p) (howner : Ownerless mmu p) :
    ∃ s, resetBlockData room mmu p = (.ok (), s) ∧ Touches p mmu s ∧ s.residentCount = mmu.residentCount ∧
      (s.blockDirectory.metas.entry p).allocated = (mmu.blockDirectory.metas.entry p).allocated ∧
      (s.blockDirectory.metas.entry p).residentInL1 = false := by
  have hreturns : ∃ s, resetBlockData room mmu p = (.ok (), s) := by
    unfold resetBlockData
    rw [releasePage_bare _ (howner .l1)]
    show ∃ s, andThen (releasePage room .resetBlockData mmu .l2 p) _ = (.ok (), s)
    rw [releasePage_bare _ (howner .l2)]
    exact ⟨_, rfl⟩
  obtain ⟨s, hs⟩ := hreturns
  obtain ⟨htouch, hcount, -, halloc, hout⟩ := (resetBlockData_lands room ht hv).returned hs
  exact ⟨s, hs, htouch, hcount, halloc, hout⟩

/-- The end of `RegisterFreshBlock`, for a block that its reset has left out of L1. -/
def placeFresh (mmu : MmuRuntime) (p : Int) : MmuRuntime :=
  if mmu.residentCount < mmu.residentLimit then
    let mmu := { mmu.mutateMeta p (fun m => { m with residentInL1 := true, l1FrameId := p }) with
      residentCount := mmu.residentCount + 1 }
    touchBlock (mmu.mutateMeta p fun m => { m with tier := .l1 }) p
  else
    mmu.mutateMeta p fun m =>
      { m with
        residentInL1 := false
        l1FrameId := kInvalidFrameId
        lastAccessEpoch := 0
        tier := .l2 }

theorem placeFresh_inside (hv : mmu.blockDirectory.isValid p)
    (halloc : (mmu.blockDirectory.metas.entry p).allocated = true) (hroom : mmu.residentCount < mmu.residentLimit) :
    Fresh p mmu (placeFresh mmu p) := by
  have hset := touches_mutate mmu p (fun m => { m with residentInL1 := true, l1FrameId := p })
  have hentry : (mmu.blockDirectory.mutate p (fun m =>
      { m with residentInL1 := true, l1FrameId := p })).metas.entry p =
      { mmu.blockDirectory.metas.entry p with residentInL1 := true, l1FrameId := p } := by
    rw [mutate_entry_self, if_pos hv]
  have hin := congrArg BlockMeta.residentInL1 hentry
  have hfresh : Fresh p mmu { mmu.mutateMeta p (fun m =>
      { m with residentInL1 := true, l1FrameId := p }) with residentCount := mmu.residentCount + 1 } := by
    refine ⟨hset.recounted _, (congrArg BlockMeta.allocated hentry).trans halloc, ?_, fun _ => hroom⟩
    show mmu.residentCount + 1 = mmu.residentCount + if ((mmu.blockDirectory.mutate p (fun m =>
      { m with residentInL1 := true, l1FrameId := p })).metas.entry p).residentInL1 then 1 else 0
    rw [hin]
    rfl
  unfold placeFresh
  rw [if_pos hroom]
  exact (hfresh.minor (minor_tier _ p .l1)).minor (minor_touchBlock _ p)

theorem placeFresh_outside (hv : mmu.blockDirectory.isValid p)
    (halloc : (mmu.blockDirectory.metas.entry p).allocated = true) (hfull : ¬mmu.residentCount < mmu.residentLimit) :
    Fresh p mmu (placeFresh mmu p) := by
  have hset := touches_mutate mmu p (fun m =>
    { m with residentInL1 := false, l1FrameId := kInvalidFrameId, lastAccessEpoch := 0, tier := .l2 })
  have hentry : (mmu.blockDirectory.mutate p (fun m => { m with
      residentInL1 := false, l1FrameId := kInvalidFrameId, lastAccessEpoch := 0, tier := .l2 })).metas.entry p =
      { mmu.blockDirectory.metas.entry p with
        residentInL1 := false, l1FrameId := kInvalidFrameId, lastAccessEpoch := 0, tier := .l2 } := by
    rw [mutate_entry_self, if_pos hv]
  have hout := congrArg BlockMeta.residentInL1 hentry
  unfold placeFresh
  rw [if_neg hfull]
  refine ⟨hset, (congrArg BlockMeta.allocated hentry).trans halloc, ?_, fun hle => hle⟩
  show mmu.residentCount = mmu.residentCount + if ((mmu.blockDirectory.mutate p _).metas.entry p).residentInL1
    then 1 else 0
  rw [hout]
  rfl

theorem registerFreshBlock_placed {mid : MmuRuntime} (hv : mid.blockDirectory.isValid p)
    (hout : (mid.blockDirectory.metas.entry p).residentInL1 = false)
    (hreset : resetBlockData room (mmu.setDirectory (mmu.blockDirectory.initializeFreshBlock p)) p = (.ok (), mid)) :
    registerFreshBlock room mmu p = (.ok (), placeFresh mid p) := by
  unfold registerFreshBlock placeFresh
  simp only [hreset, andThen, BlockDirectory.get_eq_some hv, hout, if_true]
  split
  next => rfl
  next => rfl

/-- A block without pages is registered, and nothing is asked of the host for it. -/
theorem registerFreshBlock_ownerless (room : Room) (ht : mmu.Tables) (hv : mmu.Valid p) (howner : Ownerless mmu p) :
    ∃ s, registerFreshBlock room mmu p = (.ok (), s) ∧ Fresh p mmu s := by
  have hinit : Touches p mmu (mmu.setDirectory (mmu.blockDirectory.initializeFreshBlock p)) :=
    touches_mutate mmu p (fun _ => makeFreshMeta)
  have hmarked : ((mmu.blockDirectory.initializeFreshBlock p).metas.entry p).allocated = true := by
    show ((mmu.blockDirectory.mutate p (fun _ => makeFreshMeta)).metas.entry p).allocated = true
    rw [mutate_entry_self, if_pos (ht.meta_inRange.mpr hv)]
    rfl
  have howner' : Ownerless (mmu.setDirectory (mmu.blockDirectory.initializeFreshBlock p)) p := by
    intro id
    have hid := howner id
    cases id <;> exact hid
  obtain ⟨mid, hreset, htouch, hcount, halloc, hout⟩ :=
    @resetBlockData_ownerless _ room _ (ht.touched hinit) ((hinit.routing.valid p).mpr hv) howner'
  have hall := hinit.trans htouch
  have hcount' : mid.residentCount = mmu.residentCount := hcount
  have hvalid : mid.blockDirectory.isValid p := (ht.touched hall).meta_inRange.mpr ((hall.routing.valid p).mpr hv)
  have hplaced : Fresh p mid (placeFresh mid p) := by
    by_cases hroom : mid.residentCount < mid.residentLimit
    · exact placeFresh_inside hvalid (halloc.trans hmarked) hroom
    · exact placeFresh_outside hvalid (halloc.trans hmarked) hroom
  refine ⟨_, registerFreshBlock_placed hvalid hout hreset, hall.trans hplaced.toTouches, hplaced.allocated, ?_, ?_⟩
  · rw [← hcount']
    exact hplaced.count
  · have hlimit := hplaced.limit
    rw [hall.routing.limit, hcount'] at hlimit
    exact hlimit

/-- All the blocks of an allocation. -/
structure FreshAll (ids : List Int) (mmu mmu' : MmuRuntime) : Prop where
  routing : SameRouting mmu mmu'
  tables : mmu'.Tables
  others : ∀ q, q ∉ ids → SameBlock q mmu mmu'
  allocated : ∀ q ∈ ids, (mmu'.blockDirectory.metas.entry q).allocated = true
  tallied : ∀ live, mmu.Tallied live → (∀ q ∈ ids, ¬live q) → mmu'.Tallied (fun q => live q ∨ q ∈ ids)

theorem registerAll_ownerless (room : Room) (ids : List Int) (hnd : ids.Nodup) (ht : mmu.Tables)
    (hids : ∀ q ∈ ids, mmu.Valid q ∧ Ownerless mmu q) :
    ∃ s, forEach (registerFreshBlock room) ids mmu = (.ok (), s) ∧ FreshAll ids mmu s := by
  induction ids generalizing mmu with
  | nil =>
    refine ⟨mmu, rfl, .refl mmu, ht, fun q _ => .refl q mmu, nofun, ?_⟩
    intro live h _
    exact h.mono (fun _ hq => .inl hq)
  | cons p rest ih =>
    obtain ⟨hp, hnd'⟩ := List.nodup_cons.mp hnd
    obtain ⟨hv, howner⟩ := hids p List.mem_cons_self
    obtain ⟨mid, hreg, hf⟩ := registerFreshBlock_ownerless room ht hv howner
    have hrest : ∀ q ∈ rest, mid.Valid q ∧ Ownerless mid q := by
      intro q hq
      obtain ⟨hvq, hoq⟩ := hids q (List.mem_cons_of_mem p hq)
      have hqp : q ≠ p := fun he => hp (he ▸ hq)
      exact ⟨(hf.routing.valid q).mpr hvq, hoq.same (hf.others hqp)⟩
    obtain ⟨s, hloop, hall⟩ := ih hnd' (ht.touched hf.toTouches) hrest
    refine ⟨s, ?_, hf.routing.trans hall.routing, hall.tables, ?_, ?_, ?_⟩
    · show andThen (registerFreshBlock room mmu p) _ = _
      rw [hreg]
      exact hloop
    · intro q hq
      have hqp : q ≠ p := fun he => hq (he ▸ List.mem_cons_self)
      have hqrest : q ∉ rest := fun hm => hq (List.mem_cons_of_mem p hm)
      exact (hf.others hqp).trans (hall.others q hqrest)
    · intro q hq
      rcases List.mem_cons.mp hq with rfl | hm
      · rw [(hall.others q hp).info]
        exact hf.allocated
      · exact hall.allocated q hm
    · intro live h hnew
      have hmid := hf.tallied hv (hnew p List.mem_cons_self) h
      have hnew' : ∀ q ∈ rest, ¬(live q ∨ q = p) := by
        intro q hq hor
        rcases hor with hl | rfl
        · exact hnew q (List.mem_cons_of_mem p hq) hl
        · exact hp hq
      refine (hall.tallied _ hmid hnew').mono ?_
      intro q hq
      rcases hq with (hl | rfl) | hm
      · exact .inl hl
      · exact .inr List.mem_cons_self
      · exact .inr (List.mem_cons_of_mem p hm)

end Register

section Clone

/-- The copy made for a write marks no block. -/
theorem cloneBlockDataForCow_lands (room : Room) (mmu : MmuRuntime) (src : Int) (tier : MmuTier) (dst : Int) :
    Lands (cloneBlockDataForCow room mmu src tier dst) (fun _ s => Minor dst mmu s)
      (fun e s => e = .cloneBlockDataForCow ∧ Minor dst mmu s) := by
  unfold cloneBlockDataForCow
  split
  next => exact .refl dst mmu
  next =>
    split
    next srcMeta _ _ _ =>
      have hacq := minor_acquirePage mmu .l2 dst
      dsimp only
      split
      next heq =>
        rw [heq] at hacq
        exact hacq
      next dstL2 mid heq =>
        rw [heq] at hacq
        have hcopied := (hacq.trans (minor_copyOrZero mid (cowSource mmu src tier srcMeta) .l2 dstL2 dst)).trans
          (minor_backed _ dst)
        split
        next =>
          have hacq' := hcopied.trans (minor_acquirePage _ .l1 dst)
          split
          next heq' =>
            rw [heq'] at hacq'
            exact hacq'
          next heq' =>
            rw [heq'] at hacq'
            exact hacq'.trans (minor_copyOrZero _ _ _ _ dst)
        next =>
          refine (releasePage_lands room _ _ .l1 dst).andThen ?_ ?_
          · intro e s hs
            obtain ⟨he, rfl⟩ := hs
            exact ⟨he, hcopied⟩
          · intro _ s hs
            subst hs
            exact hcopied.trans (minor_releasePage _ .l1 dst)
    next => exact .refl dst mmu

end Clone

section Blocks

variable {bm bm' : BlockManager} {c : Context}

/-- How the loop of `AllocateBlocks` ends; a refused append has taken one block more than it has appended. -/
theorem allocateLoop_cases (append : Nat → Bool) (n : Nat) (h : bm.Ok) (pt : PageTable) (acc : List Int) :
    (∃ ids bm', Taken bm ids bm' ∧ ids.length = n ∧
      allocateLoop append n bm pt acc = (.ok (.ok (acc ++ ids)), bm', ⟨pt.entries ++ ids⟩)) ∨
    (∃ ids bm', Taken bm ids bm' ∧ ids.length < n ∧ bm'.freeList = [] ∧
      allocateLoop append n bm pt acc =
        (.ok (.error .outOfMemory), bm'.releaseAll (acc ++ ids), ⟨pt.entries ++ ids⟩)) ∨
    ∃ ids b bm', Taken bm (ids ++ [b]) bm' ∧
      allocateLoop append n bm pt acc = (.error .append, bm', ⟨pt.entries ++ ids⟩) := by
  induction n generalizing bm pt acc with
  | zero =>
    refine .inl ⟨[], bm, h.taken_nil, rfl, ?_⟩
    simp [allocateLoop]
  | succ n ih =>
    cases ha : bm.allocate with
    | none =>
      refine .inr (.inl ⟨[], bm, h.taken_nil, by simp, allocate_none.mp ha, ?_⟩)
      simp [allocateLoop, ha]
    | some taken =>
      obtain ⟨p, bm1⟩ := taken
      have h1 := h.allocate_some ha
      by_cases happend : append acc.length = true
      · have hstep : allocateLoop append (n + 1) bm pt acc =
            allocateLoop append n bm1 (pt.append p) (acc ++ [p]) := by
          simp only [allocateLoop, ha, happend, if_true]
        have hentries : ∀ ids, (⟨(pt.append p).entries ++ ids⟩ : PageTable) = ⟨pt.entries ++ p :: ids⟩ := by
          intro ids
          simp [PageTable.append]
        rw [hstep]
        rcases ih h1.ok (pt.append p) (acc ++ [p]) with
          ⟨ids, bm', h2, hlen, hloop⟩ | ⟨ids, bm', h2, hlen, hempty, hloop⟩ | ⟨ids, b, bm', h2, hloop⟩
        · refine .inl ⟨p :: ids, bm', h1.trans h2, by simp [hlen], ?_⟩
          rw [hloop, hentries, List.append_assoc, List.singleton_append]
        · refine .inr (.inl ⟨p :: ids, bm', h1.trans h2, by simpa using hlen, hempty, ?_⟩)
          rw [hloop, hentries, List.append_assoc, List.singleton_append]
        · refine .inr (.inr ⟨p :: ids, b, bm', h1.trans h2, ?_⟩)
          rw [hloop, hentries]
      · refine .inr (.inr ⟨[], p, bm1, h1, ?_⟩)
        simp [allocateLoop, ha, happend]

/-- The outcomes of `AllocateBlocks`. -/
theorem allocateBlocks_cases (g : Grants) (h : bm.Ok) (c : Context) {n : Int} (hn : 0 ≤ n) :
    allocateBlocks g c bm n = (.error .reserve, bm, c) ∨
    (∃ ids bm', Taken bm ids bm' ∧ (ids.length : Int) = n ∧
      (allocateBlocks g c bm n = (.ok (.ok ids), bm', c.grown ids) ∨
        allocateBlocks g c bm n = (.error .insert, bm', c.grown ids))) ∨
    (∃ ids bm', Taken bm ids bm' ∧ (ids.length : Int) < n ∧ bm'.freeList = [] ∧
      allocateBlocks g c bm n = (.ok (.error .outOfMemory), bm'.releaseAll ids, c.grown ids)) ∨
    ∃ ids b bm', Taken bm (ids ++ [b]) bm' ∧ allocateBlocks g c bm n = (.error .append, bm', c.grown ids) := by
  unfold allocateBlocks
  rw [if_neg (not_lt.mpr hn)]
  split
  next => exact .inl rfl
  next =>
    right
    rcases allocateLoop_cases g.append n.toNat h c.pageTable [] with
      ⟨ids, bm', ht, hlen, hloop⟩ | ⟨ids, bm', ht, hlen, hempty, hloop⟩ | ⟨ids, b, bm', ht, hloop⟩
    · rw [hloop]
      refine .inl ⟨ids, bm', ht, by omega, ?_⟩
      dsimp only [List.nil_append]
      split
      next => exact .inr rfl
      next => exact .inl rfl
    · rw [hloop]
      exact .inr (.inl ⟨ids, bm', ht, by omega, hempty, rfl⟩)
    · rw [hloop]
      exact .inr (.inr ⟨ids, b, bm', ht, rfl⟩)

/-- A route leads to a block whose record is allocated. -/
theorem resolveRouting_allocated {d : BlockDirectory} {lvid : Int} {route : PhysicalRoute}
    (hr : c.resolveRouting d lvid = .ok route) :
    c.pageTable.get lvid = some route.physicalBlockId ∧ route.physicalBlockId ≠ kUnallocatedBlock ∧
      d.isValid route.physicalBlockId ∧ (d.metas.entry route.physicalBlockId).allocated = true := by
  unfold Context.resolveRouting at hr
  split at hr
  next => cases hr
  next b hget =>
    split at hr
    next => cases hr
    next hun =>
      split at hr
      next => cases hr
      next m hm =>
        split at hr
        next => cases hr
        next hall =>
          cases Except.ok.inj hr
          have hv : d.isValid b := by
            by_contra hv
            rw [BlockDirectory.get, if_neg hv] at hm
            cases hm
          rw [BlockDirectory.get_eq_some hv] at hm
          cases Option.some.inj hm
          exact ⟨hget, hun, hv, Bool.eq_true_of_not_eq_false hall⟩

end Blocks

end Escaping

end DsfMmu
