import DsfMmu.Escapes

namespace DsfMmu

namespace Escaping

open Throwing

/-- The sites within `ReleasePage`. -/
def BadAlloc.OfFreeList : BadAlloc → Prop
  | .resetBlockData | .moveBlockToL2 | .cloneBlockDataForCow => True
  | .reserve | .append | .insert => False

/-- Some free list has no room for a page. -/
def Crowded (room : Room) (site : BadAlloc) : Prop := site.OfFreeList ∧ ∃ id p, room id p = false

/-- A request of the kind is refused, or would be. -/
def Grants.Denies (g : Grants) : BadAlloc → Prop
  | .reserve => g.reserve = false
  | .append => ∃ i, g.append i = false
  | .insert => g.insert = false
  | site => ∃ i, Crowded (g.push i) site

theorem Crowded.denies {g : Grants} {i : Nat} {site : BadAlloc} (h : Crowded (g.push i) site) : g.Denies site := by
  cases site with
  | reserve => exact absurd h.1 id
  | append => exact absurd h.1 id
  | insert => exact absurd h.1 id
  | _ => exact ⟨i, h⟩

section Storage

variable (room : Room)

theorem releasePage_gives (site : BadAlloc) (hsite : site.OfFreeList) (mmu : MmuRuntime) (id : PoolId) (p : Int) :
    Gives (Crowded room) (releasePage room site mmu id p) ((), DsfMmu.releasePage mmu id p) := by
  unfold releasePage
  split
  next h => exact ⟨hsite, id, p, h.2.2⟩
  next => exact gives_return _ _

theorem resetBlockData_gives (mmu : MmuRuntime) (p : Int) :
    Gives (Crowded room) (resetBlockData room mmu p) ((), DsfMmu.resetBlockData mmu p) :=
  (releasePage_gives room .resetBlockData trivial mmu .l1 p).andThen
    ((releasePage_gives room .resetBlockData trivial _ .l2 p).andThen (gives_return _ _))

theorem forgetBlock_gives (mmu : MmuRuntime) (p : Int) :
    Gives (Crowded room) (forgetBlock room mmu p) ((), DsfMmu.forgetBlock mmu p) :=
  (resetBlockData_gives room _ p).andThen (gives_return _ _)

theorem reclaimBlock_gives (mmu : MmuRuntime) (p : Int) :
    Gives (Crowded room) (reclaimBlock room mmu p) ((), DsfMmu.reclaimBlock mmu p) := by
  unfold reclaimBlock DsfMmu.reclaimBlock
  split
  next => exact forgetBlock_gives room mmu p
  next => exact gives_return _ _

theorem reclaimUnusedResidentBlocks_gives (mmu : MmuRuntime) :
    Gives (Crowded room) (reclaimUnusedResidentBlocks room mmu) ((), DsfMmu.reclaimUnusedResidentBlocks mmu) :=
  .forEach (reclaimBlock_gives room) (scanIds mmu) mmu

theorem moveBlockToL2_gives (mmu : MmuRuntime) (p : Int) :
    Gives (Crowded room) (moveBlockToL2 room mmu p) (DsfMmu.moveBlockToL2 mmu p) := by
  unfold moveBlockToL2 DsfMmu.moveBlockToL2
  split
  next => exact gives_return _ _
  next =>
    cases mmu.blockDirectory.get p with
    | none => exact gives_return _ _
    | some blockMeta =>
      dsimp only
      split
      next => exact gives_return _ _
      next =>
        split
        next =>
          generalize syncL1ToL2 mmu p = synced
          obtain ⟨r, m⟩ := synced
          cases r with
          | error status => exact gives_return _ _
          | ok u => exact (releasePage_gives room .moveBlockToL2 trivial _ .l1 p).andThen (gives_return _ _)
        next => exact (releasePage_gives room .moveBlockToL2 trivial mmu .l1 p).andThen (gives_return _ _)

theorem evictionLoop_gives (p : Int) (rounds : Nat) (mmu : MmuRuntime) :
    (∃ x y, evictionLoop room p rounds mmu = some x ∧ DsfMmu.evictionLoop p rounds mmu = some y ∧ Gives (Crowded room) x y) ∨
      (∃ site s, evictionLoop room p rounds mmu = some (.error site, s) ∧ Crowded room site) ∨
      evictionLoop room p rounds mmu = none ∧ DsfMmu.evictionLoop p rounds mmu = none := by
  induction rounds generalizing mmu with
  | zero => exact .inr (.inr ⟨rfl, rfl⟩)
  | succ rounds ih =>
    simp only [evictionLoop, DsfMmu.evictionLoop]
    split
    next => exact .inl ⟨_, _, rfl, rfl, gives_return _ _⟩
    next =>
      split
      next => exact .inl ⟨_, _, rfl, rfl, gives_return _ _⟩
      next =>
        have hmove := moveBlockToL2_gives room mmu (pickEvictionCandidate mmu p)
        generalize moveBlockToL2 room mmu (pickEvictionCandidate mmu p) = moved at hmove
        obtain ⟨r, m⟩ := moved
        cases r with
        | error site => exact .inr (.inl ⟨site, m, rfl, hmove⟩)
        | ok result =>
          rw [hmove.returned rfl]
          cases result with
          | error status => exact .inl ⟨_, _, rfl, rfl, gives_return _ _⟩
          | ok u => exact ih m

theorem evictForRoom_gives (mmu : MmuRuntime) (p : Int) :
    Gives (Crowded room) (evictForRoom room mmu p) (DsfMmu.evictForRoom mmu p) := by
  unfold evictForRoom DsfMmu.evictForRoom
  rcases evictionLoop_gives room p (mmu.residentCount + 1) mmu with
    ⟨x, y, hx, hy, hxy⟩ | ⟨site, s, hx, hsite⟩ | ⟨hx, hy⟩
  · rw [hx, hy]
    exact hxy
  · rw [hx]
    exact hsite
  · rw [hx, hy]
    exact gives_return _ _

theorem ensureResidentInL1_gives (mmu : MmuRuntime) (p : Int) :
    Gives (Crowded room) (ensureResidentInL1 room mmu p) (DsfMmu.ensureResidentInL1 mmu p) := by
  unfold ensureResidentInL1 DsfMmu.ensureResidentInL1
  split
  next => exact gives_return _ _
  next =>
    refine (reclaimUnusedResidentBlocks_gives room mmu).andThen ?_
    dsimp only
    cases (DsfMmu.reclaimUnusedResidentBlocks mmu).blockDirectory.get p with
    | none => exact gives_return _ _
    | some blockMeta =>
      dsimp only
      split
      next => exact gives_return _ _
      next =>
        split
        next => exact gives_return _ _
        next =>
          refine (evictForRoom_gives room _ p).andThen ?_
          generalize DsfMmu.evictForRoom _ p = evicted
          obtain ⟨r, m⟩ := evicted
          cases r with
          | error status => exact gives_return _ _
          | ok u => exact gives_return _ _

theorem registerFreshBlock_gives (mmu : MmuRuntime) (p : Int) :
    Gives (Crowded room) (registerFreshBlock room mmu p) ((), DsfMmu.registerFreshBlock mmu p) := by
  unfold registerFreshBlock DsfMmu.registerFreshBlock
  refine (resetBlockData_gives room _ p).andThen ?_
  dsimp only
  generalize DsfMmu.resetBlockData (mmu.setDirectory (mmu.blockDirectory.initializeFreshBlock p)) p = mid
  cases mid.blockDirectory.get p with
  | none => exact gives_return _ _
  | some blockMeta =>
    dsimp only
    split
    next => exact gives_return _ _
    next => exact gives_return _ _

theorem cloneBlockDataForCow_gives (mmu : MmuRuntime) (src : Int) (tier : MmuTier) (dst : Int) :
    Gives (Crowded room) (cloneBlockDataForCow room mmu src tier dst)
      (DsfMmu.cloneBlockDataForCow mmu src tier dst) := by
  unfold cloneBlockDataForCow DsfMmu.cloneBlockDataForCow
  split
  next => exact gives_return _ _
  next =>
    cases mmu.blockDirectory.get src with
    | none => exact gives_return _ _
    | some srcMeta =>
      cases mmu.blockDirectory.get dst with
      | none => exact gives_return _ _
      | some dstMeta =>
        dsimp only
        generalize acquirePage mmu .l2 dst = acquired
        obtain ⟨r, m⟩ := acquired
        cases r with
        | error status => exact gives_return _ _
        | ok slot =>
          dsimp only
          split
          next =>
            generalize acquirePage _ .l1 dst = acquired
            obtain ⟨r, m⟩ := acquired
            cases r with
            | error status => exact gives_return _ _
            | ok slot => exact gives_return _ _
          next => exact (releasePage_gives room .cloneBlockDataForCow trivial _ .l1 dst).andThen (gives_return _ _)

end Storage

section Api

theorem allocateLoop_gives (append : Nat → Bool) (n : Nat) (bm : BlockManager) (pt : PageTable) (allocated : List Int) :
    Gives (fun site => site = .append ∧ ∃ i, append i = false) (allocateLoop append n bm pt allocated)
      (Context.allocateLoop n bm pt allocated) := by
  induction n generalizing bm pt allocated with
  | zero => exact gives_return _ _
  | succ n ih =>
    unfold allocateLoop Context.allocateLoop
    cases bm.allocate with
    | none => exact gives_return _ _
    | some taken =>
      dsimp only
      split
      next => exact ih _ _ _
      next h => exact ⟨rfl, _, Bool.eq_false_of_not_eq_true h⟩

theorem allocateBlocks_gives (g : Grants) (c : Context) (bm : BlockManager) (n : Int) :
    Gives g.Denies (allocateBlocks g c bm n) (c.allocateBlocks bm n) := by
  unfold allocateBlocks Context.allocateBlocks
  split
  next => exact gives_return _ _
  next =>
    split
    next h => exact h.2
    next =>
      have hloop := allocateLoop_gives g.append n.toNat bm c.pageTable []
      generalize allocateLoop g.append n.toNat bm c.pageTable [] = looped at hloop
      obtain ⟨r, bm', pt⟩ := looped
      cases r with
      | error site =>
        obtain ⟨hsite, hrefused⟩ := hloop.threw rfl
        rw [hsite]
        exact hrefused
      | ok result =>
        rw [hloop.returned rfl]
        cases result with
        | error status => exact gives_return _ _
        | ok allocated =>
          dsimp only
          split
          next h => exact h.2
          next => exact gives_return _ _

variable (g : Grants) (room : Room) (mmu : MmuRuntime) (ctx : CtxHandle)

theorem mmuDestroyContext_gives : Gives g.Denies (mmuDestroyContext g mmu ctx) ((), DsfMmu.mmuDestroyContext mmu ctx) := by
  unfold mmuDestroyContext DsfMmu.mmuDestroyContext
  cases findContext mmu ctx with
  | none => exact gives_return _ _
  | some c => exact (reclaimUnusedResidentBlocks_gives (g.push 0) _).weaken (fun _ h => h.denies)

theorem mmuAllocateBlocks_gives (n : UInt32) :
    Gives g.Denies (mmuAllocateBlocks g mmu ctx n) (DsfMmu.mmuAllocateBlocks mmu ctx n) := by
  unfold mmuAllocateBlocks DsfMmu.mmuAllocateBlocks
  cases findContext mmu ctx with
  | none => exact gives_return _ _
  | some c =>
    cases u32ToInt n with
    | none => exact gives_return _ _
    | some count =>
      refine ((reclaimUnusedResidentBlocks_gives (g.push 0) mmu).weaken (fun _ h => h.denies)).andThen ?_
      dsimp only
      have hblocks := allocateBlocks_gives g c (DsfMmu.reclaimUnusedResidentBlocks mmu).l1Allocator count
      generalize allocateBlocks g c (DsfMmu.reclaimUnusedResidentBlocks mmu).l1Allocator count = taken at hblocks
      obtain ⟨r, bm, c'⟩ := taken
      cases r with
      | error site => exact hblocks.threw rfl
      | ok result =>
        rw [hblocks.returned rfl]
        cases result with
        | error status => exact gives_return _ _
        | ok newBlocks =>
          exact (Gives.weaken (.forEach (registerFreshBlock_gives (g.push 0)) _ _) (fun _ h => h.denies)).andThen
            (gives_return _ _)

theorem mmuReleaseLogicalBlock_gives (lb : UInt32) :
    Gives g.Denies (mmuReleaseLogicalBlock g mmu ctx lb) (DsfMmu.mmuReleaseLogicalBlock mmu ctx lb) := by
  unfold mmuReleaseLogicalBlock DsfMmu.mmuReleaseLogicalBlock
  cases findContext mmu ctx with
  | none => exact gives_return _ _
  | some c =>
    cases u32ToInt lb with
    | none => exact gives_return _ _
    | some lvid =>
      dsimp only
      cases c.resolveRouting mmu.blockDirectory lvid with
      | error status => exact gives_return _ _
      | ok route =>
        dsimp only
        generalize c.releaseLogicalBlock mmu.l1Allocator lvid = released
        obtain ⟨r, bm, c'⟩ := released
        cases r with
        | error status => exact gives_return _ _
        | ok u =>
          exact ((reclaimBlock_gives (g.push 0) _ _).weaken (fun _ h => h.denies)).andThen (gives_return _ _)

theorem mmuPrepareBlockForWrite_gives (lb : UInt32) :
    Gives (Crowded room) (mmuPrepareBlockForWrite room mmu ctx lb) (DsfMmu.mmuPrepareBlockForWrite mmu ctx lb) := by
  unfold mmuPrepareBlockForWrite DsfMmu.mmuPrepareBlockForWrite
  cases findContext mmu ctx with
  | none => exact gives_return _ _
  | some c =>
    cases u32ToInt lb with
    | none => exact gives_return _ _
    | some lvid =>
      dsimp only
      cases c.resolveRouting mmu.blockDirectory lvid with
      | error status => exact gives_return _ _
      | ok before =>
        dsimp only
        generalize c.prepareBlockForWrite mmu.l1Allocator lvid = prepared
        obtain ⟨r, bm, c'⟩ := prepared
        cases r with
        | error status => exact gives_return _ _
        | ok pbid =>
          dsimp only
          split
          next =>
            refine (cloneBlockDataForCow_gives room _ _ _ _).andThen ?_
            generalize DsfMmu.cloneBlockDataForCow _ _ _ _ = cloned
            obtain ⟨r, m⟩ := cloned
            cases r with
            | error status => exact gives_return _ _
            | ok u => exact gives_return _ _
          next => exact gives_return _ _

theorem mapResolved_gives (c : Context) (lvid : Int) (lb flags : UInt32) :
    Gives (Crowded room) (mapResolved room mmu c lvid lb flags) (DsfMmu.mapResolved mmu c lvid lb flags) := by
  unfold mapResolved DsfMmu.mapResolved
  cases c.resolveRouting mmu.blockDirectory lvid with
  | error status => exact gives_return _ _
  | ok route =>
    dsimp only
    refine (ensureResidentInL1_gives room mmu _).andThen ?_
    generalize DsfMmu.ensureResidentInL1 mmu _ = resident
    obtain ⟨r, m⟩ := resident
    cases r with
    | error status => exact gives_return _ _
    | ok u =>
      dsimp only
      generalize acquirePage m .l1 route.physicalBlockId = acquired
      obtain ⟨r, m⟩ := acquired
      cases r with
      | error status => exact gives_return _ _
      | ok slot =>
        dsimp only
        generalize m.blockDirectory.incrementPinCount route.physicalBlockId = pinned
        obtain ⟨done, d⟩ := pinned
        cases done with
        | false => exact gives_return _ _
        | true => exact gives_return _ _

theorem mmuMapLogicalBlock_gives (lb flags : UInt32) :
    Gives (Crowded room) (mmuMapLogicalBlock room mmu ctx lb flags) (DsfMmu.mmuMapLogicalBlock mmu ctx lb flags) := by
  unfold mmuMapLogicalBlock DsfMmu.mmuMapLogicalBlock
  split
  next => exact gives_return _ _
  next =>
    cases findContext mmu ctx with
    | none => exact gives_return _ _
    | some c =>
      cases u32ToInt lb with
      | none => exact gives_return _ _
      | some lvid =>
        dsimp only
        split
        next =>
          refine (mmuPrepareBlockForWrite_gives room mmu ctx lb).andThen ?_
          generalize DsfMmu.mmuPrepareBlockForWrite mmu ctx lb = prepared
          obtain ⟨r, m⟩ := prepared
          cases r with
          | error status => exact gives_return _ _
          | ok p =>
            dsimp only
            cases findContext m ctx with
            | none => exact gives_return _ _
            | some c => exact mapResolved_gives room m c lvid lb flags
        next => exact mapResolved_gives room mmu c lvid lb flags

theorem mapBlocksLoop_gives (flags : UInt32) (i : Nat) (lbs : List UInt32) (done : List MappedBlock) :
    Gives g.Denies (mapBlocksLoop g ctx flags i lbs done mmu) (DsfMmu.mapBlocksLoop ctx flags lbs done mmu) := by
  induction lbs generalizing i done mmu with
  | nil => exact gives_return _ _
  | cons lb rest ih =>
    unfold mapBlocksLoop DsfMmu.mapBlocksLoop
    refine ((mmuMapLogicalBlock_gives (g.push i) mmu ctx lb flags).weaken (fun _ h => h.denies)).andThen ?_
    generalize DsfMmu.mmuMapLogicalBlock mmu ctx lb flags = mapped
    obtain ⟨r, m⟩ := mapped
    cases r with
    | error status => exact gives_return _ _
    | ok d => exact ih m (i + 1) (done ++ [d])

/-- A call does what `DsfMmu.perform` does, unless it is refused something. -/
theorem perform_gives (call : Call) : Gives g.Denies (perform g mmu call) (DsfMmu.perform mmu call) := by
  cases call with
  | destroyContext ctx => exact (mmuDestroyContext_gives g mmu ctx).andThen (gives_return _ _)
  | allocateBlocks ctx n => exact (mmuAllocateBlocks_gives g mmu ctx n).andThen (gives_return _ _)
  | releaseLogicalBlock ctx lb => exact (mmuReleaseLogicalBlock_gives g mmu ctx lb).andThen (gives_return _ _)
  | prepareBlockForWrite ctx lb =>
    exact ((mmuPrepareBlockForWrite_gives (g.push 0) mmu ctx lb).weaken (fun _ h => h.denies)).andThen (gives_return _ _)
  | mapLogicalBlock ctx lb flags =>
    exact ((mmuMapLogicalBlock_gives (g.push 0) mmu ctx lb flags).weaken (fun _ h => h.denies)).andThen (gives_return _ _)
  | mapLogicalBlocks ctx lbs flags => exact (mapBlocksLoop_gives g mmu ctx flags 0 lbs []).andThen (gives_return _ _)
  | _ => exact gives_return _ _

end Api

section Granted

variable {g : Grants} {mmu : MmuRuntime} {call : Call} {site : BadAlloc}

/-- What is refused is the host's doing. -/
theorem Refused.denied (h : Refused site mmu (call, g)) : g.Denies site :=
  (perform_gives g mmu call).threw (Prod.ext h rfl)

theorem not_denied (site : BadAlloc) : ¬allGranted.Denies site := by
  have hroom : ∀ i site, ¬Crowded (allGranted.push i) site := by
    intro i site h
    obtain ⟨id, p, hfull⟩ := h.2
    cases hfull
  cases site with
  | reserve => exact Bool.noConfusion
  | append =>
    intro h
    obtain ⟨i, hi⟩ := h
    cases hi
  | insert => exact Bool.noConfusion
  | _ =>
    intro h
    obtain ⟨i, hi⟩ := h
    exact hroom i _ hi

/-- A call is left at one site only. -/
theorem Refused.unique {other : BadAlloc} (h : Refused site mmu (call, g)) (h' : Refused other mmu (call, g)) :
    other = site :=
  Except.error.inj (h'.symm.trans h)

theorem perform_granted (mmu : MmuRuntime) (call : Call) :
    perform allGranted mmu call = (.ok (DsfMmu.perform mmu call).1, (DsfMmu.perform mmu call).2) :=
  (perform_gives allGranted mmu call).eq not_denied

/-- The runs of calls that return are the runs in which every request is granted. -/
theorem reachable_granted (h : Reachable mmu) : ReachableBy (fun _ step _ => step.2 = allGranted) mmu := by
  obtain ⟨start, hi, hr⟩ := h
  refine ⟨start, hi, ?_⟩
  induction hr with
  | start => exact .start
  | @next s call hreach hp _ ih =>
    have hstep : (machine.step s (call, allGranted)).2 = (DsfMmu.perform s call).2 := by
      show (perform allGranted s call).2 = _
      rw [perform_granted]
    show machine.Reach _ start (DsfMmu.perform s call).2
    rw [← hstep]
    exact .next ih hp rfl

end Granted

end Escaping

end DsfMmu
