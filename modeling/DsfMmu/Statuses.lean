import DsfMmu.BatchRouting
import DsfMmu.ForkIsolation
import DsfMmu.PinProtection
import DsfMmu.WriteAdmission

namespace DsfMmu

open MmuRuntime BlockManager Context

/-- What is wrong with an entry, if anything. -/
def entryFault (w : EagerWorld CtxHandle Bytes) (ctx : CtxHandle) (lb : UInt32) : Option MmuError :=
  match w ctx with
  | none => some .badHandle
  | some slots =>
    if 2 ^ 31 ≤ lb.toNat then some .invalidArgument
    else if (lb.toNat : Int) < staticCastInt slots.length ∧ (w.slot ctx lb.toNat).isSome then none
    else some .unallocated

def mapFault (w : EagerWorld CtxHandle Bytes) (ctx : CtxHandle) (flags lb : UInt32) : Option MmuError :=
  if validateMapFlags flags = false then some .invalidArgument else entryFault w ctx lb

/-- A descriptor has to name the block its entry names. -/
def unmapFault (mmu : MmuRuntime) (ctx : CtxHandle) (d : MappedBlock) : Option MmuError :=
  if mmu.view ctx = none then some .badHandle
  else if ¬mmu.l1Allocator.isValid d.physicalBlockId then some .invalidArgument
  else
    match entryFault mmu.view ctx d.logicalBlockId with
    | some e => some e
    | none => if routedBlock mmu ctx d.logicalBlockId = some d.physicalBlockId then none else some .badHandle

/-- The error a call is due whatever memory there is; a batch is due that of the first item with one. -/
def Call.fault (mmu : MmuRuntime) : Call → Option MmuError
  | .createContext _ => none
  | .destroyContext _ => none
  | .forkContext src _ _ =>
    if src = nullHandle then some .invalidArgument else if mmu.view src = none then some .badHandle else none
  | .allocateBlocks ctx n =>
    if mmu.view ctx = none then some .badHandle else if 2 ^ 31 ≤ n.toNat then some .invalidArgument else none
  | .releaseLogicalBlock ctx lb => entryFault mmu.view ctx lb
  | .prepareBlockForWrite ctx lb => entryFault mmu.view ctx lb
  | .mapLogicalBlock ctx lb flags => mapFault mmu.view ctx flags lb
  | .mapLogicalBlocks ctx lbs flags => lbs.findSome? (mapFault mmu.view ctx flags)
  | .unmapLogicalBlock ctx d => unmapFault mmu ctx d
  | .unmapLogicalBlocks ctx ds => ds.findSome? (unmapFault mmu ctx)
  | .hostWrite .. => none

def Call.Batch : Call → Prop
  | .mapLogicalBlocks .. | .unmapLogicalBlocks .. => True
  | _ => False

def failure {α : Type} : Except MmuError α → Option MmuError
  | .ok _ => none
  | .error e => some e

def Reply.failure : Reply → Option MmuError
  | .done => none
  | .status r => DsfMmu.failure r
  | .handle r => DsfMmu.failure r
  | .block r => DsfMmu.failure r
  | .mapped r => DsfMmu.failure r
  | .mappedAll r => DsfMmu.failure r

/-- Where a call on an entry gets to. -/
inductive Entry (mmu : MmuRuntime) (ctx : CtxHandle) (lb : UInt32) : Option MmuError → Prop
  | noContext : findContext mmu ctx = none → Entry mmu ctx lb (some .badHandle)
  | noIndex {c : Context} : findContext mmu ctx = some c → u32ToInt lb = none → Entry mmu ctx lb (some .invalidArgument)
  | noBlock {c : Context} {lvid : Int} : findContext mmu ctx = some c → u32ToInt lb = some lvid →
      c.resolveRouting mmu.blockDirectory lvid = .error .unallocated → Entry mmu ctx lb (some .unallocated)
  | names {c : Context} {lvid b : Int} : findContext mmu ctx = some c → u32ToInt lb = some lvid →
      c.Names mmu.l1Allocator lvid b → Entry mmu ctx lb none

section Entries

variable {mmu mmu' : MmuRuntime} {ctx : CtxHandle} {lb flags : UInt32}

theorem view_none (h : mmu.Covered) : mmu.view ctx = none ↔ findContext mmu ctx = none := by
  unfold MmuRuntime.view
  rw [Option.map_eq_none_iff, Option.eq_none_iff_forall_ne_some, Option.eq_none_iff_forall_ne_some]
  refine forall_congr' fun c => not_congr ?_
  exact (Settled.findContext h.routing.handles).symm

theorem u32ToInt_none : u32ToInt lb = none ↔ 2 ^ 31 ≤ lb.toNat := by
  unfold u32ToInt
  split
  next hbig => exact iff_of_true rfl (by omega)
  next hbig => exact iff_of_false (by simp) (by omega)

theorem u32ToInt_some (h : ¬2 ^ 31 ≤ lb.toNat) : u32ToInt lb = some (lb.toNat : Int) := if_neg (by omega)

/-- In a table where no entry has lost its block, an entry that cannot be resolved is unallocated. -/
theorem entry_of (h : mmu.Covered) (ctx : CtxHandle) (lb : UInt32) : Entry mmu ctx lb (entryFault mmu.view ctx lb) := by
  unfold entryFault
  cases hview : mmu.view ctx with
  | none => exact .noContext ((view_none h).mp hview)
  | some slots =>
    obtain ⟨c, hfind, hslots⟩ := Option.map_eq_some_iff.mp hview
    have hc : findContext mmu ctx = some c := (Settled.findContext h.routing.handles).mpr hfind
    have hlen : slots.length = c.pageTable.entries.length := by
      rw [← hslots, List.length_map]
    dsimp only
    split
    next hbig => exact .noIndex hc (u32ToInt_none.mpr hbig)
    next hbig =>
      have hlvid := u32ToInt_some hbig
      split
      next hin =>
        obtain ⟨hlt, hslot⟩ := hin
        obtain ⟨bytes, hbytes⟩ := Option.isSome_iff_exists.mp hslot
        obtain ⟨b, hentry, hun, _⟩ := slot_eq_some.mp hbytes
        obtain ⟨c', hfind', hb⟩ := entryAt_eq_some.mp hentry
        cases hfind.symm.trans hfind'
        have hbounds : c.pageTable.inBounds (lb.toNat : Int) := ⟨by omega, by rw [← hlen]; exact hlt⟩
        have hget : c.pageTable.get (lb.toNat : Int) = some b := (if_pos hbounds).trans hb
        exact .names hc hlvid ⟨hget, hun, h.live hfind (List.mem_of_getElem? hb) hun⟩
      next hout =>
        refine .noBlock hc hlvid ?_
        unfold Context.resolveRouting
        cases hget : c.pageTable.get (lb.toNat : Int) with
        | none => rfl
        | some b =>
          dsimp only
          split
          next => rfl
          next hun =>
            -- an entry in bounds that names a block is a slot the client sees
            unfold PageTable.get at hget
            split at hget
            next hbounds =>
              refine absurd ⟨?_, ?_⟩ hout
              · rw [hlen]
                exact hbounds.2
              · refine Option.isSome_iff_exists.mpr ⟨_, slot_eq_some.mpr ⟨b, ?_, hun, rfl⟩⟩
                exact entryAt_eq_some.mpr ⟨c, hfind, hget⟩
            next => cases hget

end Entries

/-- A call with a fault is refused with it and changes nothing; one without can only run out of memory. -/
def Due {α : Type} (mmu : MmuRuntime) (fault : Option MmuError) (out : Except MmuError α × MmuRuntime) : Prop :=
  match fault with
  | some e => out = (.error e, mmu)
  | none => ∀ e, out.1 = .error e → e = .outOfMemory

section Due

variable {mmu mmu' : MmuRuntime} {ctx : CtxHandle} {lb flags : UInt32}

theorem Due.failure {α : Type} {fault : Option MmuError} {out : Except MmuError α × MmuRuntime}
    (h : Due mmu fault out) : failure out.1 = fault ∨ failure out.1 = some .outOfMemory := by
  cases fault with
  | some e =>
    have hout : out = (.error e, mmu) := h
    rw [hout]
    exact .inl rfl
  | none =>
    have hsound : ∀ e, out.1 = .error e → e = .outOfMemory := h
    cases hr : out.1 with
    | ok a => exact .inl rfl
    | error e =>
      rw [hsound e hr]
      exact .inr rfl

theorem resolve_status (h : mmu.Covered) (ctx : CtxHandle) (lb : UInt32) :
    failure (mmuResolveRouting mmu ctx lb) = entryFault mmu.view ctx lb := by
  have hentry := entry_of h ctx lb
  generalize entryFault mmu.view ctx lb = fault at hentry ⊢
  unfold mmuResolveRouting
  cases hentry with
  | noContext hc =>
    rw [hc]
    rfl
  | noIndex hc hl =>
    rw [hc]
    dsimp only
    rw [hl]
    rfl
  | noBlock hc hl hr =>
    rw [hc]
    dsimp only
    rw [hl]
    dsimp only
    rw [hr]
    rfl
  | names hc hl hn =>
    rw [hc]
    dsimp only
    rw [hl]
    dsimp only
    rw [resolveRouting_names h.settled hn]
    rfl

theorem release_due (h : mmu.Covered) (ctx : CtxHandle) (lb : UInt32) :
    Due mmu (entryFault mmu.view ctx lb) (mmuReleaseLogicalBlock mmu ctx lb) := by
  have hentry := entry_of h ctx lb
  generalize entryFault mmu.view ctx lb = fault at hentry ⊢
  cases hentry with
  | noContext hc =>
    unfold mmuReleaseLogicalBlock
    rw [hc]
    rfl
  | noIndex hc hl =>
    unfold mmuReleaseLogicalBlock
    rw [hc]
    dsimp only
    rw [hl]
    rfl
  | noBlock hc hl hr =>
    unfold mmuReleaseLogicalBlock
    rw [hc]
    dsimp only
    rw [hl]
    dsimp only
    rw [hr]
    rfl
  | names hc hl hn =>
    obtain ⟨mmu', hrelease⟩ := mmuReleaseLogicalBlock_routed h.settled
      ((routedBlock_eq_some h.settled).mpr ⟨_, _, hc, hl, hn⟩)
    intro e he
    rw [hrelease] at he
    cases he

theorem clone_status {src dst : Int} {tier : MmuTier} {e : MmuError} (hs : mmu.Sound) (hsrc : mmu.Valid src)
    (hdst : mmu.Valid dst) (hout : (mmu.block dst).info.residentInL1 = false)
    (h : cloneBlockDataForCow mmu src tier dst = (.error e, mmu')) : e = .outOfMemory := by
  unfold cloneBlockDataForCow at h
  rw [if_neg (not_or.mpr ⟨not_not.mpr (hs.refs_inRange.mpr hsrc), not_not.mpr (hs.refs_inRange.mpr hdst)⟩),
    BlockDirectory.get_eq_some (hs.meta_inRange.mpr hsrc), BlockDirectory.get_eq_some (hs.meta_inRange.mpr hdst)] at h
  dsimp only at h
  split at h
  next e' m hacquire =>
    cases h
    exact acquirePage_status hs hdst hacquire
  next =>
    have hinfo : (mmu.blockDirectory.metas.entry dst).residentInL1 = false := hout
    rw [hinfo, if_neg Bool.false_ne_true] at h
    cases h

/-- The clone of a shared block and the block it needs are all that a preparation can lack. -/
theorem prepare_status (h : mmu.Settled) {c : Context} {lvid b : Int} (hc : findContext mmu ctx = some c)
    (hl : u32ToInt lb = some lvid) (hn : c.Names mmu.l1Allocator lvid b) {e : MmuError}
    (hr : mmuPrepareBlockForWrite mmu ctx lb = (.error e, mmu')) : e = .outOfMemory := by
  have hroute := resolveRouting_names h hn
  rcases prepareBlockForWrite_cases h.allocator c lvid with
    ⟨e', heq, hno⟩ | ⟨b', hn', hone, heq⟩ | ⟨b', new, bm, hn', _, ht, heq⟩
  · obtain ⟨hshared, hempty⟩ := hno b hn
    have hcount := refCount_valid (h.allocator.valid_of_pos hn.live)
    have hprep : c.prepareBlockForWrite mmu.l1Allocator lvid = (.error .outOfMemory, mmu.l1Allocator, c) := by
      unfold prepareBlockForWrite
      rw [hn.entry]
      dsimp only
      rw [if_neg hn.block, if_neg (by omega), if_neg (by omega), allocate_none.mpr hempty]
    simp only [mmuPrepareBlockForWrite, hc, hl, hroute, hprep] at hr
    exact (Except.error.inj (Prod.mk.inj hr).1).symm
  · obtain rfl : b' = b := Option.some.inj (hn'.entry.symm.trans hn.entry)
    rw [mmuPrepareBlockForWrite_private h hc hl hn hone] at hr
    cases hr
  · obtain rfl : b' = b := Option.some.inj (hn'.entry.symm.trans hn.entry)
    rw [mmuPrepareBlockForWrite_staged h hc hl hn (ht.ne_new hn.live).symm heq] at hr
    have hstaged := staged_effect (r := ⟨(bm.release b').2, mmu.contexts.insert ctx (c.remapped lvid new)⟩) h ht
      ((release_size _ _).trans ht.size)
    split at hr
    next e' m hclone =>
      cases hr
      refine clone_status hstaged.sound (hstaged.valid (h.valid hn.live)) (hstaged.valid (taken_new h ht).1) ?_ hclone
      rw [hstaged.blocks, Function.update_self]
      rfl
    next => cases hr

theorem prepare_due (h : mmu.Covered) (ctx : CtxHandle) (lb : UInt32) :
    Due mmu (entryFault mmu.view ctx lb) (mmuPrepareBlockForWrite mmu ctx lb) := by
  have hentry := entry_of h ctx lb
  generalize entryFault mmu.view ctx lb = fault at hentry ⊢
  cases hentry with
  | noContext hc =>
    unfold mmuPrepareBlockForWrite
    rw [hc]
    rfl
  | noIndex hc hl =>
    unfold mmuPrepareBlockForWrite
    rw [hc]
    dsimp only
    rw [hl]
    rfl
  | noBlock hc hl hr =>
    unfold mmuPrepareBlockForWrite
    rw [hc]
    dsimp only
    rw [hl]
    dsimp only
    rw [hr]
    rfl
  | names hc hl hn =>
    intro e he
    exact prepare_status h.settled hc hl hn (Prod.ext he rfl)

/-- A WRITE map meets the faults of its entry in the preparation, a READ map in the mapping proper. -/
theorem map_due (h : mmu.Covered) (ctx : CtxHandle) (flags lb : UInt32) :
    Due mmu (mapFault mmu.view ctx flags lb) (mmuMapLogicalBlock mmu ctx lb flags) := by
  unfold mapFault
  by_cases hflags : validateMapFlags flags = true
  · rw [if_neg (by simp [hflags])]
    have hentry := entry_of h ctx lb
    have hprep := prepare_due h ctx lb
    generalize entryFault mmu.view ctx lb = fault at hentry hprep ⊢
    cases hentry with
    | noContext hc =>
      unfold mmuMapLogicalBlock
      rw [hflags, if_neg (by simp), hc]
      rfl
    | noIndex hc hl =>
      unfold mmuMapLogicalBlock
      rw [hflags, if_neg (by simp), hc]
      dsimp only
      rw [hl]
      rfl
    | noBlock hc hl hr =>
      cases hw : hasWrite flags with
      | false =>
        rw [mmuMapLogicalBlock_unwritten hflags hw hc hl]
        unfold mapResolved
        rw [hr]
        rfl
      | true =>
        rw [mmuMapLogicalBlock_write hflags hw hc hl, show mmuPrepareBlockForWrite mmu ctx lb = _ from hprep]
        rfl
    | names hc hl hn =>
      intro e he
      cases hw : hasWrite flags with
      | false =>
        rw [mmuMapLogicalBlock_unwritten hflags hw hc hl] at he
        exact mapResolved_status h.settled hn (Prod.ext he rfl)
      | true =>
        rw [mmuMapLogicalBlock_write hflags hw hc hl] at he
        split at he
        next e' mid hr =>
          cases he
          exact prepare_status h.settled hc hl hn hr
        next b mid hr =>
          obtain ⟨hmid, c', lvid', hc', hl', hn', _⟩ := mmuPrepareBlockForWrite_ok h.settled hr
          cases Option.some.inj (hl.symm.trans hl')
          rw [hc'] at he
          exact mapResolved_status hmid hn' (Prod.ext he rfl)
  · rw [if_pos (by simpa using hflags), mmuMapLogicalBlock_invalid hflags]
    rfl

theorem unmap_due (h : mmu.Covered) (ctx : CtxHandle) (d : MappedBlock) :
    Due mmu (unmapFault mmu ctx d) (mmuUnmapLogicalBlock mmu ctx d) := by
  unfold unmapFault
  split
  next hnone =>
    unfold mmuUnmapLogicalBlock
    rw [(view_none h).mp hnone]
    rfl
  next hsome =>
    obtain ⟨c, hc⟩ := Option.ne_none_iff_exists'.mp (mt (view_none h).mpr hsome)
    split
    next hinvalid =>
      unfold mmuUnmapLogicalBlock
      rw [hc]
      dsimp only
      rw [if_pos hinvalid]
      rfl
    next hvalid =>
      have hentry := entry_of h ctx d.logicalBlockId
      generalize entryFault mmu.view ctx d.logicalBlockId = fault at hentry ⊢
      cases hentry with
      | noContext hno => cases hno.symm.trans hc
      | noIndex hc hl =>
        unfold mmuUnmapLogicalBlock
        rw [hc]
        dsimp only
        rw [if_neg hvalid, hl]
        rfl
      | noBlock hc hl hr =>
        unfold mmuUnmapLogicalBlock
        rw [hc]
        dsimp only
        rw [if_neg hvalid, hl]
        dsimp only
        rw [hr]
        rfl
      | names hc hl hn =>
        have hroute := (routedBlock_eq_some h.settled).mpr ⟨_, _, hc, hl, hn⟩
        dsimp only
        split
        next heq =>
          intro e he
          obtain ⟨hok | hout, _⟩ := mmuUnmapLogicalBlock_accepted h.settled heq rfl
          · cases hok.symm.trans he
          · exact (Except.error.inj (hout.symm.trans he)).symm
        next hne =>
          rw [hroute, Option.some.injEq] at hne
          unfold mmuUnmapLogicalBlock
          rw [hc]
          dsimp only
          rw [if_neg hvalid, hl]
          dsimp only
          rw [resolveRouting_names h.settled hn]
          dsimp only
          rw [if_pos hne]
          rfl

end Due

/-! A batch meets its faults in the order of its items, as no item changes those of another. -/

section Batches

variable {mmu mmu' : MmuRuntime} {ctx : CtxHandle} {flags : UInt32}

theorem mapBlocksLoop_status (lbs : List UInt32) (done : List MappedBlock) (h : mmu.Covered)
    {r : Except MmuError (List MappedBlock)} (hm : mapBlocksLoop ctx flags lbs done mmu = (r, mmu')) :
    failure r = lbs.findSome? (mapFault mmu.view ctx flags) ∨ failure r = some .outOfMemory := by
  induction lbs generalizing mmu done with
  | nil =>
    cases hm
    exact .inl rfl
  | cons lb rest ih =>
    have hdue := (map_due h ctx flags lb).failure
    obtain ⟨r1, mid, hmap⟩ : ∃ r1 mid, mmuMapLogicalBlock mmu ctx lb flags = (r1, mid) := ⟨_, _, rfl⟩
    rw [List.findSome?_cons]
    unfold mapBlocksLoop at hm
    rw [hmap] at hm hdue
    cases r1 with
    | error e =>
      cases hm
      rcases hdue with hfault | hout
      · rw [← hfault]
        exact .inl rfl
      · exact .inr hout
    | ok d =>
      rcases hdue with hfault | hout
      · have hview : mid.view = mmu.view := by
          rcases map_view h hmap with hsame | ⟨⟨_, he⟩, _⟩
          · exact hsame
          · cases he
        have hrest := ih (done ++ [d]) (map_covered h hmap) hm
        rw [hview] at hrest
        rw [← hfault]
        exact hrest
      · cases hout

theorem unmap_routing (h : mmu.Settled) {d : MappedBlock} {r : Except MmuError Unit}
    (hu : mmuUnmapLogicalBlock mmu ctx d = (r, mmu')) : SameRouting mmu mmu' := by
  rcases mmuUnmapLogicalBlock_cases h hu with ⟨_, rfl⟩ | ⟨_, _, _, _, _, hun⟩
  · exact .refl _
  · exact hun.routing

theorem unmapFault_congr (h : mmu.Settled) (h' : mmu'.Settled) (hr : SameRouting mmu mmu')
    (hview : mmu'.view = mmu.view) : unmapFault mmu' ctx = unmapFault mmu ctx := by
  funext d
  unfold unmapFault
  rw [hview, hr.allocator, routedBlock_congr h h' hr]

theorem unmapBlocksLoop_error (ds : List MappedBlock) (e : MmuError) (mmu : MmuRuntime) :
    (unmapBlocksLoop ctx ds (.error e) mmu).1 = .error e := by
  induction ds generalizing mmu with
  | nil => rfl
  | cons d rest ih =>
    unfold unmapBlocksLoop
    split
    next => exact ih _
    next => exact ih _

theorem unmapBlocksLoop_status (ds : List MappedBlock) (h : mmu.Covered) :
    failure (unmapBlocksLoop ctx ds (.ok ()) mmu).1 = ds.findSome? (unmapFault mmu ctx) ∨
      failure (unmapBlocksLoop ctx ds (.ok ()) mmu).1 = some .outOfMemory := by
  induction ds generalizing mmu with
  | nil => exact .inl rfl
  | cons d rest ih =>
    have hdue := (unmap_due h ctx d).failure
    obtain ⟨r, mid, hu⟩ : ∃ r mid, mmuUnmapLogicalBlock mmu ctx d = (r, mid) := ⟨_, _, rfl⟩
    rw [List.findSome?_cons]
    unfold unmapBlocksLoop
    rw [hu] at hdue ⊢
    cases r with
    | error e =>
      -- the first error stays, whatever the later unmaps return
      simp only [if_true, unmapBlocksLoop_error]
      rcases hdue with hfault | hout
      · rw [← hfault]
        exact .inl rfl
      · exact .inr hout
    | ok done =>
      have hmid := unmap_covered h hu
      have hrest := ih hmid
      rw [unmapFault_congr h.settled hmid.settled (unmap_routing h.settled hu) (unmap_view h.settled hu)] at hrest
      rcases hdue with hfault | hout
      · rw [← hfault]
        exact hrest
      · cases hout

end Batches

section Calls

variable {mmu : MmuRuntime} {ctx : CtxHandle}

theorem create_due (handle : Option CtxHandle) : Due mmu none (mmuCreateContext mmu handle) := by
  intro e he
  cases handle with
  | none => exact (Except.error.inj he).symm
  | some ctx => cases he

theorem fork_due (h : mmu.Covered) (src : CtxHandle) (grows : Nat → Bool) (handle : Option CtxHandle) :
    Due mmu ((Call.forkContext src grows handle).fault mmu) (mmuForkContext mmu src grows handle) := by
  unfold mmuForkContext
  dsimp only [Call.fault]
  by_cases hnull : src = nullHandle
  · rw [if_pos hnull, if_pos hnull]
    rfl
  · rw [if_neg hnull, if_neg hnull]
    by_cases hview : mmu.view src = none
    · rw [if_pos hview, (view_none h).mp hview]
      rfl
    · obtain ⟨c, hc⟩ := Option.ne_none_iff_exists'.mp (mt (view_none h).mpr hview)
      rw [if_neg hview, hc]
      intro e he
      dsimp only at he
      split at he
      next => exact (Except.error.inj he).symm
      next =>
        split at he
        next => exact (Except.error.inj he).symm
        next => cases he

theorem allocate_due (h : mmu.Covered) (ctx : CtxHandle) (n : UInt32) :
    Due mmu ((Call.allocateBlocks ctx n).fault mmu) (mmuAllocateBlocks mmu ctx n) := by
  unfold mmuAllocateBlocks
  dsimp only [Call.fault]
  by_cases hview : mmu.view ctx = none
  · rw [if_pos hview, (view_none h).mp hview]
    rfl
  · obtain ⟨c, hc⟩ := Option.ne_none_iff_exists'.mp (mt (view_none h).mpr hview)
    rw [if_neg hview, hc]
    by_cases hbig : 2 ^ 31 ≤ n.toNat
    · rw [if_pos hbig]
      dsimp only
      rw [u32ToInt_none.mpr hbig]
      rfl
    · rw [if_neg hbig]
      dsimp only
      rw [u32ToInt_some hbig]
      intro e he
      have hallocator : (reclaimUnusedResidentBlocks mmu).l1Allocator.Ok := by
        rw [reclaimUnusedResidentBlocks_self h.settled]
        exact h.settled.allocator
      obtain ⟨ids, bm', _, ⟨_, heq⟩ | ⟨_, _, heq⟩⟩ := allocateBlocks_spec hallocator c (Int.natCast_nonneg n.toNat)
      · dsimp only at he
        rw [heq] at he
        cases he
      · dsimp only at he
        rw [heq] at he
        exact (Except.error.inj he).symm

theorem entryFault_internal {w : EagerWorld CtxHandle Bytes} {lb : UInt32} :
    entryFault w ctx lb ≠ some .internal := by
  unfold entryFault
  split
  next => simp
  next => split_ifs <;> simp

theorem mapFault_internal {w : EagerWorld CtxHandle Bytes} {flags lb : UInt32} :
    mapFault w ctx flags lb ≠ some .internal := by
  unfold mapFault
  split
  next => simp
  next => exact entryFault_internal

theorem unmapFault_internal {d : MappedBlock} : unmapFault mmu ctx d ≠ some .internal := by
  unfold unmapFault
  split
  next => simp
  next =>
    split
    next => simp
    next =>
      split
      next e he =>
        rw [← he]
        exact entryFault_internal
      next => split_ifs <;> simp

/-- No argument, however wrong, is due an internal error. -/
theorem fault_internal (call : Call) : call.fault mmu ≠ some .internal := by
  cases call with
  | createContext | destroyContext | hostWrite => exact nofun
  | forkContext src grows handle =>
    dsimp only [Call.fault]
    split_ifs <;> simp
  | allocateBlocks ctx n =>
    dsimp only [Call.fault]
    split_ifs <;> simp
  | releaseLogicalBlock ctx lb => exact entryFault_internal
  | prepareBlockForWrite ctx lb => exact entryFault_internal
  | mapLogicalBlock ctx lb flags => exact mapFault_internal
  | mapLogicalBlocks ctx lbs flags =>
    intro hsome
    obtain ⟨lb, _, hlb⟩ := List.exists_of_findSome?_eq_some hsome
    exact mapFault_internal hlb
  | unmapLogicalBlock ctx d => exact unmapFault_internal
  | unmapLogicalBlocks ctx ds =>
    intro hsome
    obtain ⟨d, _, hd⟩ := List.exists_of_findSome?_eq_some hsome
    exact unmapFault_internal hd

/-- What the fault of a call says about its reply and the state it leaves. -/
structure Foretold (mmu : MmuRuntime) (call : Call) : Prop where
  status : (perform mmu call).1.failure = call.fault mmu ∨ (perform mmu call).1.failure = some .outOfMemory
  refused : ∀ e, call.fault mmu = some e → ¬call.Batch →
    (perform mmu call).1.failure = some e ∧ (perform mmu call).2 = mmu
  internal : (perform mmu call).1.failure ≠ some .internal

theorem not_internal {call : Call} (h : (perform mmu call).1.failure = call.fault mmu ∨
    (perform mmu call).1.failure = some .outOfMemory) : (perform mmu call).1.failure ≠ some .internal := by
  rcases h with hfault | hout
  · rw [hfault]
    exact fault_internal call
  · rw [hout]
    simp

theorem Due.foretold {α : Type} {call : Call} {out : Except MmuError α × MmuRuntime} (h : Due mmu (call.fault mmu) out)
    (hreply : (perform mmu call).1.failure = DsfMmu.failure out.1) (hstate : (perform mmu call).2 = out.2) :
    Foretold mmu call := by
  have hstatus := h.failure
  rw [← hreply] at hstatus
  refine ⟨hstatus, ?_, not_internal hstatus⟩
  intro e he _
  rw [he] at h
  have hout : out = (.error e, mmu) := h
  rw [hreply, hstate, hout]
  exact ⟨rfl, rfl⟩

theorem Foretold.batch {call : Call} (hbatch : call.Batch) (h : (perform mmu call).1.failure = call.fault mmu ∨
    (perform mmu call).1.failure = some .outOfMemory) : Foretold mmu call :=
  ⟨h, fun _ _ hno => absurd hbatch hno, not_internal h⟩

theorem Foretold.of_covered (h : mmu.Covered) (call : Call) : Foretold mmu call := by
  cases call with
  | createContext handle => exact (create_due handle).foretold rfl rfl
  | destroyContext ctx => exact ⟨.inl rfl, (fun _ he => nomatch he), nofun⟩
  | forkContext src grows handle => exact (fork_due h src grows handle).foretold rfl rfl
  | allocateBlocks ctx n => exact (allocate_due h ctx n).foretold rfl rfl
  | releaseLogicalBlock ctx lb => exact (release_due h ctx lb).foretold rfl rfl
  | prepareBlockForWrite ctx lb => exact (prepare_due h ctx lb).foretold rfl rfl
  | mapLogicalBlock ctx lb flags => exact (map_due h ctx flags lb).foretold rfl rfl
  | mapLogicalBlocks ctx lbs flags => exact .batch trivial (mapBlocksLoop_status lbs [] h rfl)
  | unmapLogicalBlock ctx d => exact (unmap_due h ctx d).foretold rfl rfl
  | unmapLogicalBlocks ctx ds => exact .batch trivial (unmapBlocksLoop_status ds h)
  | hostWrite ctx d offset byte => exact ⟨.inl rfl, (fun _ he => nomatch he), nofun⟩

end Calls

end DsfMmu
