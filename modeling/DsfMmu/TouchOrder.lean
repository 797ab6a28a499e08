import DsfMmu.LastUse
import DsfMmu.MapPins

namespace DsfMmu

open MmuRuntime BlockManager Context LastUse

/-- A touch of `p` if a call on `p` returned OK. -/
def touchedBy (r : Except MmuError Unit) (p : Int) : List Int :=
  match r with
  | .ok _ => [p]
  | .error _ => []

/-- Where a map gets to before it resolves its block: past the validation of the flags and the preparation. -/
def prepared (mmu : MmuRuntime) (ctx : CtxHandle) (lb flags : UInt32) : Option MmuRuntime :=
  if validateMapFlags flags = false then none
  else if hasWrite flags then
    match mmuPrepareBlockForWrite mmu ctx lb with
    | (.error _, _) => none
    | (.ok _, mmu) => some mmu
  else some mmu

/-- The touch by `EnsureResidentInL1` within a map, which may still fail after it. -/
def ensured (mmu : MmuRuntime) (ctx : CtxHandle) (lb flags : UInt32) : List Int :=
  match prepared mmu ctx lb flags with
  | none => []
  | some mmu =>
    match routedBlock mmu ctx lb with
    | none => []
    | some p => touchedBy (ensureResidentInL1 mmu p).1 p

def handedOutBlock : Except MmuError MappedBlock → List Int
  | .ok d => [d.physicalBlockId]
  | .error _ => []

def mapTouches (mmu : MmuRuntime) (ctx : CtxHandle) (lb flags : UInt32) : List Int :=
  handedOutBlock (mmuMapLogicalBlock mmu ctx lb flags).1 ++ ensured mmu ctx lb flags

def unmapTouches (mmu : MmuRuntime) (ctx : CtxHandle) (d : MappedBlock) : List Int :=
  touchedBy (mmuUnmapLogicalBlock mmu ctx d).1 d.physicalBlockId

/-- The unmaps of a list, in its order. -/
def unmapsTouch (ctx : CtxHandle) : List MappedBlock → MmuRuntime → List Int → List Int
  | [], _, touches => touches
  | d :: rest, mmu, touches =>
    unmapsTouch ctx rest (mmuUnmapLogicalBlock mmu ctx d).2 (unmapTouches mmu ctx d ++ touches)

/-- The maps of a batch, and the unmaps of its rollback. -/
def batchTouches (ctx : CtxHandle) (flags : UInt32) :
    List UInt32 → List MappedBlock → MmuRuntime → List Int → List Int
  | [], _, _, touches => touches
  | lb :: rest, done, mmu, touches =>
    match mmuMapLogicalBlock mmu ctx lb flags with
    | (.error _, mmu') => unmapsTouch ctx done mmu' (mapTouches mmu ctx lb flags ++ touches)
    | (.ok d, mmu') => batchTouches ctx flags rest (done ++ [d]) mmu' (mapTouches mmu ctx lb flags ++ touches)

/-- The new blocks of an allocation that it made resident, the last of them first. -/
def residentNew (mmu mmu' : MmuRuntime) (ctx : CtxHandle) : List Int :=
  ((newBlocks mmu mmu' ctx).filter fun p => (mmu'.block p).info.residentInL1).reverse

def touchStep (mmu : MmuRuntime) (call : Call) (reply : Reply) (touches : List Int) : List Int :=
  match call, reply with
  | .allocateBlocks ctx _, .status (.ok _) => residentNew mmu (perform mmu call).2 ctx ++ touches
  | .mapLogicalBlock ctx lb flags, _ => mapTouches mmu ctx lb flags ++ touches
  | .mapLogicalBlocks ctx lbs flags, _ => batchTouches ctx flags lbs [] mmu touches
  | .unmapLogicalBlock ctx d, _ => unmapTouches mmu ctx d ++ touches
  | .unmapLogicalBlocks ctx ds, _ => unmapsTouch ctx ds mmu touches
  | _, _ => touches

/-- The epoch counts the touches, and every resident block is stamped with its last one, on 64 bits. -/
structure Clocked (mmu : MmuRuntime) (touches : List Int) : Prop where
  epoch : mmu.epoch = touches.length % 2 ^ 64
  touched : ∀ p, (mmu.block p).info.residentInL1 = true → p ∈ touches
  stamp : ∀ p, (mmu.block p).info.residentInL1 = true →
    (mmu.block p).info.lastAccessEpoch = lastUse touches p % 2 ^ 64

section Clocked

variable {mmu mmu' : MmuRuntime} {touches : List Int} {p : Int}

/-- No touch, and no block comes to L1 or is stamped. -/
theorem Clocked.untouched (h : Clocked mmu touches) (hepoch : mmu'.epoch = mmu.epoch)
    (hblocks : ∀ q, (mmu'.block q).info.residentInL1 = true → (mmu.block q).info.residentInL1 = true ∧
      (mmu'.block q).info.lastAccessEpoch = (mmu.block q).info.lastAccessEpoch) : Clocked mmu' touches := by
  refine ⟨hepoch.trans h.epoch, ?_, ?_⟩
  · intro q hq
    exact h.touched q (hblocks q hq).1
  · intro q hq
    obtain ⟨hr, hstamp⟩ := hblocks q hq
    rw [hstamp]
    exact h.stamp q hr

theorem Clocked.same (h : Clocked mmu touches) (hepoch : mmu'.epoch = mmu.epoch) (hblocks : mmu'.block = mmu.block) :
    Clocked mmu' touches := by
  apply h.untouched hepoch
  intro q hq
  rw [hblocks] at hq ⊢
  exact ⟨hq, rfl⟩

/-- One block changes, without a touch. -/
theorem Clocked.update (h : Clocked mmu touches) (hepoch : mmu'.epoch = mmu.epoch) {v : BlockView}
    (hblocks : mmu'.block = Function.update mmu.block p v)
    (hv : v.info.residentInL1 = true → (mmu.block p).info.residentInL1 = true ∧
      v.info.lastAccessEpoch = (mmu.block p).info.lastAccessEpoch) : Clocked mmu' touches := by
  apply h.untouched hepoch
  intro q hq
  rw [hblocks] at hq ⊢
  by_cases hqp : q = p
  · subst hqp
    rw [Function.update_self] at hq ⊢
    exact hv hq
  · rw [Function.update_of_ne hqp] at hq ⊢
    exact ⟨hq, rfl⟩

/-- One block changes and is touched. -/
theorem Clocked.touch (h : Clocked mmu touches) (hepoch : mmu'.epoch = nextEpoch mmu.epoch) {v : BlockView}
    (hblocks : mmu'.block = Function.update mmu.block p v) (hv : v.info.lastAccessEpoch = nextEpoch mmu.epoch) :
    Clocked mmu' (p :: touches) := by
  have hnext : nextEpoch mmu.epoch = (touches.length + 1) % 2 ^ 64 := by
    unfold nextEpoch
    rw [h.epoch]
    omega
  refine ⟨hepoch.trans hnext, ?_, ?_⟩
  · intro q hq
    rw [hblocks] at hq
    by_cases hqp : q = p
    · rw [hqp]
      exact List.mem_cons_self
    · rw [Function.update_of_ne hqp] at hq
      exact List.mem_cons_of_mem _ (h.touched q hq)
  · intro q hq
    rw [hblocks] at hq ⊢
    by_cases hqp : q = p
    · subst hqp
      rw [Function.update_self, lastUse_self, hv, hnext]
    · rw [Function.update_of_ne hqp] at hq ⊢
      rw [lastUse_of_ne (Ne.symm hqp)]
      exact h.stamp q hq

end Clocked

/-! Pages come and go without a touch. -/

section Epoch

variable {mmu mmu' : MmuRuntime} {ctx : CtxHandle} {lb : UInt32}

theorem allocateChunk_epoch (mmu : MmuRuntime) (id : PoolId) (n : Nat) : (allocateChunk mmu id n).2.epoch = mmu.epoch := by
  unfold allocateChunk
  dsimp only
  split
  next => rfl
  next =>
    split
    next => rfl
    next =>
      split
      next m hask =>
        have hm := congrArg (fun x => x.2.epoch) hask
        exact (setPool_epoch m id _).trans hm.symm
      next m hask => exact (congrArg (fun x => x.2.epoch) hask).symm
      next pushed m hask =>
        have hm := congrArg (fun x => x.2.epoch) hask
        exact (setPool_epoch m id _).trans hm.symm

theorem acquirePage_epoch (mmu : MmuRuntime) (id : PoolId) (p : Int) : (acquirePage mmu id p).2.epoch = mmu.epoch := by
  have hrefill : (refill mmu id).2.epoch = mmu.epoch := by
    unfold refill
    split
    next => rfl
    next =>
      split
      next => rfl
      next => exact allocateChunk_epoch mmu id _
  unfold acquirePage
  split
  next => rfl
  next =>
    split
    next => rfl
    next =>
      split
      next => rfl
      next =>
        split
        next e m hr =>
          rw [hr] at hrefill
          exact hrefill
        next u m hr =>
          rw [hr] at hrefill
          split
          next => exact hrefill
          next => exact (setPool_epoch m id _).trans hrefill

theorem copyOrZero_epoch (mmu : MmuRuntime) (src : Option (PoolId × PagePtr)) (id : PoolId) (slot : PagePtr) :
    (copyOrZero mmu src id slot).epoch = mmu.epoch := by
  unfold copyOrZero
  split
  next => exact setPool_epoch mmu id _
  next => exact setPool_epoch mmu id _

theorem cloneBlockDataForCow_epoch (mmu : MmuRuntime) (src : Int) (tier : MmuTier) (dst : Int) :
    (cloneBlockDataForCow mmu src tier dst).2.epoch = mmu.epoch := by
  unfold cloneBlockDataForCow
  split
  next => rfl
  next =>
    split
    next srcMeta dstMeta _ _ =>
      have hacq := acquirePage_epoch mmu .l2 dst
      dsimp only
      split
      next e m he =>
        rw [he] at hacq
        exact hacq
      next dstL2 m he =>
        rw [he] at hacq
        have hcopy := (copyOrZero_epoch m (cowSource mmu src tier srcMeta) .l2 dstL2).trans hacq
        split
        next =>
          split
          next e m' he' =>
            have hl1 := congrArg (fun x => x.2.epoch) he'
            exact hl1.symm.trans ((acquirePage_epoch _ .l1 dst).trans hcopy)
          next dstL1 m' he' =>
            have hl1 := congrArg (fun x => x.2.epoch) he'
            exact (copyOrZero_epoch m' _ .l1 dstL1).trans (hl1.symm.trans ((acquirePage_epoch _ .l1 dst).trans hcopy))
        next => exact (setPool_epoch _ .l1 _).trans hcopy
    next => rfl

theorem prepare_epoch (mmu : MmuRuntime) (ctx : CtxHandle) (lb : UInt32) :
    (mmuPrepareBlockForWrite mmu ctx lb).2.epoch = mmu.epoch := by
  unfold mmuPrepareBlockForWrite
  split
  next => rfl
  next c _ =>
    split
    next => rfl
    next lvid _ =>
      split
      next => rfl
      next before _ =>
        split
        next => rfl
        next new bm c' _ =>
          dsimp only
          split
          next =>
            split
            next e m he =>
              have hclone := congrArg (fun x => x.2.epoch) he
              exact hclone.symm.trans (cloneBlockDataForCow_epoch _ _ _ _)
            next u m he =>
              have hclone := congrArg (fun x => x.2.epoch) he
              exact hclone.symm.trans (cloneBlockDataForCow_epoch _ _ _ _)
          next => rfl

end Epoch

/-! The stages of a map. -/

section Map

variable {mmu mmu' : MmuRuntime} {ctx : CtxHandle} {lb flags : UInt32} {touches : List Int} {p : Int}

theorem evict_clocked (h : mmu.Settled) (hc : Clocked mmu touches) {r : Except MmuError Unit}
    (he : evictForRoom mmu p = (r, mmu')) : Clocked mmu' touches := by
  rw [evictForRoom_eq h.coherent, evictOnce] at he
  split at he
  next =>
    obtain ⟨_, rfl⟩ := Prod.mk.inj he
    exact hc
  next =>
    split at he
    next =>
      obtain ⟨_, rfl⟩ := Prod.mk.inj he
      exact hc
    next hv =>
      have hs := h.coherent.sound
      cases r with
      | error e =>
        have heff := moveBlockToL2_error hs he
        exact hc.same heff.epoch heff.blocks
      | ok u =>
        have hvictim := pickEvictionCandidate_nonneg hv
        obtain ⟨ptr, heff⟩ := moveBlockToL2_ok hs (h.valid (hvictim.is_live h.coherent)) hvictim.resident he
        exact hc.update heff.epoch heff.blocks (fun hr => absurd hr Bool.false_ne_true)

theorem ensure_clocked (h : mmu.Settled) (hc : Clocked mmu touches) (hp : mmu.Live p) {r : Except MmuError Unit}
    (he : ensureResidentInL1 mmu p = (r, mmu')) : Clocked mmu' (touchedBy r p ++ touches) := by
  cases hr : (mmu.block p).info.residentInL1 with
  | true =>
    rw [ensureResidentInL1_inside h hp hr] at he
    obtain ⟨rfl, rfl⟩ := Prod.mk.inj he
    have heff := touchBlock_effect h.coherent.sound (h.valid hp)
    exact hc.touch heff.epoch heff.blocks rfl
  | false =>
    rw [ensureResidentInL1_outside h hp hr] at he
    split at he
    next hroom =>
      obtain ⟨rfl, rfl⟩ := Prod.mk.inj he
      exact evict_clocked h hc hroom
    next mid hroom =>
      have hmid := evict_clocked h hc hroom
      obtain ⟨hq, hlt, _⟩ := evictForRoom_ok h.coherent hroom
      have hl1 : RoomFor mid .l1 p := hq.coherent.roomFor_below hlt .l1
      cases r with
      | error e =>
        have heff := promoteToL1_error hq.coherent.sound hl1 he
        exact hmid.same heff.epoch heff.blocks
      | ok u =>
        obtain ⟨ptr, heff⟩ := promoteToL1_ok hq.coherent.sound ((hq.routing.valid p).mpr (h.valid hp)) hl1 he
        exact hmid.touch heff.epoch heff.blocks rfl

/-- A map that has resolved its block makes it resident, and stamps it once more if it succeeds. -/
theorem mapResolved_stages (h : mmu.Settled) {c : Context} {lvid : Int} (hn : c.Names mmu.l1Allocator lvid p)
    {r : Except MmuError MappedBlock} (hm : mapResolved mmu c lvid lb flags = (r, mmu')) :
    ∃ re mid, ensureResidentInL1 mmu p = (re, mid) ∧
      ((∃ e, r = .error e) ∧ mmu'.epoch = mid.epoch ∧ mmu'.block = mid.block ∨
        ∃ d v, r = .ok d ∧ re = .ok () ∧ d.physicalBlockId = p ∧ mmu'.epoch = nextEpoch mid.epoch ∧
          mmu'.block = Function.update mid.block p v ∧ v.info.residentInL1 = true ∧
          v.info.lastAccessEpoch = nextEpoch mid.epoch) := by
  have hp : mmu.Live p := hn.live
  rw [mapResolved_names h hn] at hm
  split at hm
  next e m1 hens =>
    obtain ⟨rfl, rfl⟩ := Prod.mk.inj hm
    exact ⟨.error e, m1, hens, .inl ⟨⟨e, rfl⟩, rfl, rfl⟩⟩
  next u m1 hens =>
    obtain ⟨hq1, hres, _⟩ := ensureResidentInL1_ok h hp hens
    have hs1 := hq1.settled h
    have hp1 : m1.Live p := (hq1.routing.live p).mpr hp
    have hacq := acquirePage_epoch m1 .l1 p
    refine ⟨.ok u, m1, hens, ?_⟩
    split at hm
    next e m2 ha =>
      obtain ⟨rfl, rfl⟩ := Prod.mk.inj hm
      rw [ha] at hacq
      exact .inl ⟨⟨e, rfl⟩, hacq, (hs1.coherent.materialise_error hres ha).2⟩
    next slot m2 ha =>
      rw [ha] at hacq
      have hepoch : m2.epoch = m1.epoch := hacq
      obtain ⟨hq2, hblock2⟩ := hs1.coherent.materialise hp1 hres ha
      have hs2 := hq2.settled hs1
      have hp2 : m2.Live p := (hq2.routing.live p).mpr hp1
      have hl2 : (m2.block p).l1 = some ⟨slot, BlockView.pageBytes m1.zeroPage (m1.block p).l1⟩ := by
        rw [hblock2, Function.update_self]
        rfl
      have hr2 : (m2.block p).info.residentInL1 = true := by
        rw [hblock2, Function.update_self]
        exact hres
      have hblock3 := (pin_touch hs2 hp2 hl2).2.2
      obtain ⟨v, hv⟩ : ∃ v, v = ((m2.block p).withPins (nextPinCount (m2.block p).info.pinCount)).touched
        (nextEpoch m2.epoch) := ⟨_, rfl⟩
      rw [← hv, hblock2, Function.update_idem] at hblock3
      obtain ⟨rfl, rfl⟩ := Prod.mk.inj hm
      refine .inr ⟨_, v, rfl, rfl, rfl, congrArg nextEpoch hepoch, hblock3, ?_, ?_⟩
      · rw [hv]
        exact hr2
      · rw [hv, ← hepoch]
        rfl

theorem mapResolved_clocked (h : mmu.Settled) (hc : Clocked mmu touches) {c : Context} {lvid : Int}
    (hn : c.Names mmu.l1Allocator lvid p) {r : Except MmuError MappedBlock}
    (hm : mapResolved mmu c lvid lb flags = (r, mmu')) :
    Clocked mmu' (handedOutBlock r ++ (touchedBy (ensureResidentInL1 mmu p).1 p ++ touches)) := by
  obtain ⟨re, mid, hens, hrest⟩ := mapResolved_stages h hn hm
  have hmid := ensure_clocked h hc hn.live hens
  rw [hens]
  rcases hrest with ⟨⟨e, rfl⟩, hepoch, hblocks⟩ | ⟨d, v, rfl, _, rfl, hepoch, hblocks, _, hv⟩
  · exact hmid.same hepoch hblocks
  · exact hmid.touch hepoch hblocks hv

theorem prepare_clocked (h : mmu.Settled) (hc : Clocked mmu touches) {r : Except MmuError Int}
    (hr : mmuPrepareBlockForWrite mmu ctx lb = (r, mmu')) : Clocked mmu' touches := by
  have hepoch := prepare_epoch mmu ctx lb
  rw [hr] at hepoch
  rcases mmuPrepareBlockForWrite_cases h hr with
    ⟨_, rfl, _⟩ | ⟨_, _, _, _, _, _, _, _, rfl⟩ | ⟨c, lvid, b, new, bm, v, _, _, _, _, _, hm, hv⟩
  · exact hc
  · exact hc
  · refine hc.update hepoch hm.blocks (fun hres => ?_)
    rcases hv with ⟨⟨ptr, rfl⟩, _⟩ | ⟨rfl, _⟩
    · cases hres
    · cases hres

/-- A map that gets to `EnsureResidentInL1` at all gets there for one block, after its preparation. -/
structure Resolved (mmu mmu' : MmuRuntime) (ctx : CtxHandle) (lb flags : UInt32)
    (r : Except MmuError MappedBlock) (mid : MmuRuntime) (c : Context) (lvid p : Int) : Prop where
  before : mid = mmu ∨ ∃ b, mmuPrepareBlockForWrite mmu ctx lb = (.ok b, mid)
  settled : mid.Settled
  names : c.Names mid.l1Allocator lvid p
  ensured : ensured mmu ctx lb flags = touchedBy (ensureResidentInL1 mid p).1 p
  rest : mapResolved mid c lvid lb flags = (r, mmu')

theorem ensured_eq {mid : MmuRuntime} (hprep : prepared mmu ctx lb flags = some mid)
    (hroute : routedBlock mid ctx lb = some p) :
    ensured mmu ctx lb flags = touchedBy (ensureResidentInL1 mid p).1 p := by
  unfold ensured
  rw [hprep]
  dsimp only
  rw [hroute]

theorem ensured_nil (hprep : ∀ mid ∈ prepared mmu ctx lb flags, routedBlock mid ctx lb = none) :
    ensured mmu ctx lb flags = [] := by
  unfold ensured
  split
  next => rfl
  next mid hmid =>
    rw [hprep mid hmid]

theorem map_stages (h : mmu.Settled) {r : Except MmuError MappedBlock}
    (hm : mmuMapLogicalBlock mmu ctx lb flags = (r, mmu')) :
    (ensured mmu ctx lb flags = [] ∧ (∃ e, r = .error e) ∧
      (mmu' = mmu ∨ ∃ e, mmuPrepareBlockForWrite mmu ctx lb = (.error e, mmu'))) ∨
    ∃ mid c lvid p, Resolved mmu mmu' ctx lb flags r mid c lvid p := by
  cases hvalid : validateMapFlags flags with
  | false =>
    have hnone : prepared mmu ctx lb flags = none := if_pos hvalid
    rw [mmuMapLogicalBlock_invalid (by simp [hvalid])] at hm
    obtain ⟨rfl, rfl⟩ := Prod.mk.inj hm
    refine .inl ⟨ensured_nil ?_, ⟨_, rfl⟩, .inl rfl⟩
    intro mid hmid
    rw [hnone] at hmid
    cases hmid
  | true =>
    have hnot : ¬validateMapFlags flags = false := by simp [hvalid]
    cases hw : hasWrite flags with
    | false =>
      have hprep : prepared mmu ctx lb flags = some mmu := by
        unfold prepared
        rw [if_neg hnot, hw, if_neg (by simp)]
      cases hroute : routedBlock mmu ctx lb with
      | none =>
        refine .inl ⟨ensured_nil ?_, ?_⟩
        · intro mid hmid
          cases Option.some.inj (hprep.symm.trans hmid)
          exact hroute
        · rcases mmuMapLogicalBlock_cases h hm with
            ⟨he, rfl⟩ | ⟨hwrite, _⟩ | ⟨mid, c, lvid, hc, hlvid, ⟨_, rfl⟩ | ⟨hwrite, _⟩, hres⟩
          · exact ⟨he, .inl rfl⟩
          · rw [hw] at hwrite
            cases hwrite
          · have hno : ∀ p, ¬c.Names mid.l1Allocator lvid p := by
              intro p hn
              have hsome := (routedBlock_eq_some h).mpr ⟨c, lvid, hc, hlvid, hn⟩
              rw [hroute] at hsome
              cases hsome
            obtain ⟨e, he⟩ := mapResolved_unnamed h hno lb flags
            rw [he] at hres
            obtain ⟨rfl, rfl⟩ := Prod.mk.inj hres
            exact ⟨⟨e, rfl⟩, .inl rfl⟩
          · rw [hw] at hwrite
            cases hwrite
      | some p =>
        obtain ⟨c, lvid, hc, hlvid, hn⟩ := (routedBlock_eq_some h).mp hroute
        rw [mmuMapLogicalBlock_unwritten hvalid hw hc hlvid] at hm
        exact .inr ⟨mmu, c, lvid, p, .inl rfl, h, hn, ensured_eq hprep hroute, hm⟩
    | true =>
      obtain ⟨rp, mid, hr⟩ : ∃ rp m, mmuPrepareBlockForWrite mmu ctx lb = (rp, m) := ⟨_, _, rfl⟩
      cases rp with
      | error e =>
        have hprep : prepared mmu ctx lb flags = none := by
          unfold prepared
          rw [if_neg hnot, if_pos hw, hr]
        refine .inl ⟨ensured_nil ?_, ?_⟩
        · intro mid' hmid
          rw [hprep] at hmid
          cases hmid
        · rcases mmuMapLogicalBlock_cases h hm with
            ⟨he, rfl⟩ | ⟨_, e', he, hr'⟩ | ⟨mid', c, lvid, _, _, ⟨hread, _⟩ | ⟨_, b, hr'⟩, _⟩
          · exact ⟨he, .inl rfl⟩
          · exact ⟨⟨e', he⟩, .inr ⟨e', hr'⟩⟩
          · rw [hw] at hread
            cases hread
          · rw [hr] at hr'
            cases hr'
      | ok b =>
        have hprep : prepared mmu ctx lb flags = some mid := by
          unfold prepared
          rw [if_neg hnot, if_pos hw, hr]
        obtain ⟨hs, c, lvid, hc, hlvid, hn, _⟩ := mmuPrepareBlockForWrite_ok h hr
        have hroute : routedBlock mid ctx lb = some b := (routedBlock_eq_some hs).mpr ⟨c, lvid, hc, hlvid, hn⟩
        have hctx : ∃ c₀, findContext mmu ctx = some c₀ := by
          rcases mmuPrepareBlockForWrite_cases h hr with
            ⟨⟨_, he⟩, _⟩ | ⟨c₀, _, _, hc₀, _⟩ | ⟨c₀, _, _, _, _, _, hc₀, _⟩
          · cases he
          · exact ⟨c₀, hc₀⟩
          · exact ⟨c₀, hc₀⟩
        obtain ⟨c₀, hc₀⟩ := hctx
        rw [mmuMapLogicalBlock_write hvalid hw hc₀ hlvid, hr] at hm
        dsimp only at hm
        rw [hc] at hm
        exact .inr ⟨mid, c, lvid, b, .inr ⟨b, hr⟩, hs, hn, ensured_eq hprep hroute, hm⟩

/-- A map that succeeds touches its block twice. -/
theorem mapTouches_ok (h : mmu.Settled) {d : MappedBlock}
    (hm : mmuMapLogicalBlock mmu ctx lb flags = (.ok d, mmu')) :
    mapTouches mmu ctx lb flags = [d.physicalBlockId, d.physicalBlockId] := by
  rcases map_stages h hm with ⟨_, ⟨_, he⟩, _⟩ | ⟨mid, c, lvid, p, hres⟩
  · cases he
  · obtain ⟨re, m1, hens, ⟨⟨_, he⟩, _⟩ | ⟨d', v, hd, rfl, rfl, _⟩⟩ :=
      mapResolved_stages hres.settled hres.names hres.rest
    · cases he
    · cases Except.ok.inj hd
      unfold mapTouches
      rw [hm, hres.ensured, hens]
      rfl

theorem map_clocked (h : mmu.Settled) (hc : Clocked mmu touches) {r : Except MmuError MappedBlock}
    (hm : mmuMapLogicalBlock mmu ctx lb flags = (r, mmu')) :
    Clocked mmu' (mapTouches mmu ctx lb flags ++ touches) := by
  unfold mapTouches
  rw [hm]
  rcases map_stages h hm with ⟨hnil, ⟨e, rfl⟩, hend⟩ | ⟨mid, c, lvid, p, hres⟩
  · rw [hnil]
    rcases hend with rfl | ⟨e', hr⟩
    · exact hc
    · exact prepare_clocked h hc hr
  · have hmid : Clocked mid touches := by
      rcases hres.before with rfl | ⟨b, hr⟩
      · exact hc
      · exact prepare_clocked h hc hr
    have hend := mapResolved_clocked hres.settled hmid hres.names hres.rest
    rw [hres.ensured, List.append_assoc]
    exact hend

end Map

section Calls

variable {mmu mmu' : MmuRuntime} {ctx : CtxHandle} {lb flags : UInt32} {touches : List Int} {p : Int}

theorem unmapPinned_clocked (h : mmu.Settled) (hc : Clocked mmu touches) (hp : mmu.Live p)
    {r : Except MmuError Unit}
    (hu : mmuUnmapLogicalBlock.unmapPinned mmu p (mmu.block p).info flags = (r, mmu')) :
    Clocked mmu' (touchedBy r p ++ touches) := by
  rcases unmapPinned_effect h hp hu with ⟨⟨e, rfl⟩, _, _, he⟩ | ⟨rfl, v, _, he⟩
  · exact hc.update he.epoch he.blocks (fun hr => ⟨hr, rfl⟩)
  · exact hc.touch he.epoch he.blocks rfl

theorem unmap_clocked (h : mmu.Settled) (hc : Clocked mmu touches) {d : MappedBlock} {r : Except MmuError Unit}
    (hu : mmuUnmapLogicalBlock mmu ctx d = (r, mmu')) : Clocked mmu' (unmapTouches mmu ctx d ++ touches) := by
  unfold unmapTouches
  rw [hu]
  by_cases hroute : routedBlock mmu ctx d.logicalBlockId = some d.physicalBlockId
  · have hp := routed_live h hroute
    rw [mmuUnmapLogicalBlock_routed h hroute] at hu
    exact unmapPinned_clocked h hc hp hu
  · obtain ⟨e, he⟩ := mmuUnmapLogicalBlock_refused h hroute
    rw [he] at hu
    obtain ⟨rfl, rfl⟩ := Prod.mk.inj hu
    exact hc

theorem unmapAll_clocked (ds : List MappedBlock) (h : mmu.Settled) (hc : Clocked mmu touches) :
    Clocked (unmapAll ctx ds mmu) (unmapsTouch ctx ds mmu touches) := by
  induction ds generalizing mmu touches with
  | nil => exact hc
  | cons d rest ih =>
    obtain ⟨r, mid, hu⟩ : ∃ r m, mmuUnmapLogicalBlock mmu ctx d = (r, m) := ⟨_, _, rfl⟩
    have hmid := unmap_clocked h hc hu
    have hrest := ih (unmap_clean h hu).settled hmid
    unfold unmapAll unmapsTouch
    rw [List.foldl_cons, hu]
    exact hrest

theorem mapBlocksLoop_clocked (lbs : List UInt32) (done : List MappedBlock) (h : mmu.Settled)
    (hc : Clocked mmu touches) {r : Except MmuError (List MappedBlock)}
    (hm : mapBlocksLoop ctx flags lbs done mmu = (r, mmu')) :
    Clocked mmu' (batchTouches ctx flags lbs done mmu touches) := by
  induction lbs generalizing mmu touches done with
  | nil =>
    obtain ⟨_, rfl⟩ := Prod.mk.inj hm
    exact hc
  | cons lb rest ih =>
    unfold mapBlocksLoop at hm
    split at hm
    next e mid hone =>
      obtain ⟨_, rfl⟩ := Prod.mk.inj hm
      have hmid := map_clocked h hc hone
      unfold batchTouches
      rw [hone]
      exact unmapAll_clocked done (map_clean h hone).settled hmid
    next d mid hone =>
      have hmid := map_clocked h hc hone
      unfold batchTouches
      rw [hone]
      exact ih (done ++ [d]) (map_clean h hone).settled hmid hm

/-- `RegisterFreshBlock` touches the block if it makes it resident. -/
theorem registerFreshBlock_clocked (hs : mmu.Sound) (hv : mmu.Valid p) (hc : Clocked mmu touches) :
    (registerFreshBlock mmu p).Sound ∧ SameRouting mmu (registerFreshBlock mmu p) ∧
      (∀ q ≠ p, (registerFreshBlock mmu p).block q = mmu.block q) ∧
      Clocked (registerFreshBlock mmu p)
        (([p].filter fun q => ((registerFreshBlock mmu p).block q).info.residentInL1).reverse ++ touches) := by
  obtain ⟨hroom, hfull⟩ := registerFreshBlock_effect hs hv
  by_cases hlt : mmu.residentCount < mmu.residentLimit
  · have heff := hroom hlt
    have hself : ((registerFreshBlock mmu p).block p).info.residentInL1 = true := by
      rw [heff.blocks, Function.update_self]
      rfl
    refine ⟨heff.sound, heff.routing, ?_, ?_⟩
    · intro q hq
      rw [heff.blocks, Function.update_of_ne hq]
    · have hin : [p].filter (fun q => ((registerFreshBlock mmu p).block q).info.residentInL1) = [p] := by simp [hself]
      rw [hin]
      exact hc.touch heff.epoch heff.blocks rfl
  · have heff := hfull hlt
    have hself : ¬((registerFreshBlock mmu p).block p).info.residentInL1 = true := by
      rw [heff.blocks, Function.update_self]
      exact Bool.false_ne_true
    refine ⟨heff.sound, heff.routing, ?_, ?_⟩
    · intro q hq
      rw [heff.blocks, Function.update_of_ne hq]
    · have hout : [p].filter (fun q => ((registerFreshBlock mmu p).block q).info.residentInL1) = [] := by simp [hself]
      rw [hout]
      exact hc.update heff.epoch heff.blocks (fun hr => absurd hr Bool.false_ne_true)

theorem registerAll_clocked (ids : List Int) (hs : mmu.Sound) (hv : ∀ q ∈ ids, mmu.Valid q) (hnd : ids.Nodup)
    (hc : Clocked mmu touches) :
    SameRouting mmu (ids.foldl registerFreshBlock mmu) ∧
      (∀ q, q ∉ ids → (ids.foldl registerFreshBlock mmu).block q = mmu.block q) ∧
      Clocked (ids.foldl registerFreshBlock mmu)
        ((ids.filter fun q => ((ids.foldl registerFreshBlock mmu).block q).info.residentInL1).reverse ++ touches) := by
  induction ids generalizing mmu touches with
  | nil => exact ⟨.refl mmu, fun _ _ => rfl, hc⟩
  | cons p rest ih =>
    obtain ⟨hp, hrest⟩ := List.nodup_cons.mp hnd
    obtain ⟨hs', hr', hother, hone⟩ := registerFreshBlock_clocked hs (hv p List.mem_cons_self) hc
    have hv' : ∀ q ∈ rest, (registerFreshBlock mmu p).Valid q :=
      fun q hq => (hr'.valid q).mpr (hv q (List.mem_cons_of_mem _ hq))
    obtain ⟨hroute, hkept, hall⟩ := ih hs' hv' hrest hone
    rw [List.foldl_cons]
    refine ⟨hr'.trans hroute, ?_, ?_⟩
    · intro q hq
      have hqp : q ≠ p := fun he => hq (he ▸ List.mem_cons_self)
      have hqrest : q ∉ rest := fun hin => hq (List.mem_cons_of_mem _ hin)
      rw [hkept q hqrest, hother q hqp]
    · have hsplit : p :: rest = [p] ++ rest := rfl
      have hfirst : [p].filter (fun q => ((rest.foldl registerFreshBlock (registerFreshBlock mmu p)).block q).info.residentInL1) =
          [p].filter (fun q => ((registerFreshBlock mmu p).block q).info.residentInL1) := by
        apply List.filter_congr
        intro q hq
        rw [List.mem_singleton.mp hq, hkept p hp]
      rw [hsplit, List.filter_append, hfirst, List.reverse_append, List.append_assoc]
      exact hall

theorem allocate_clocked (h : mmu.Settled) (hc : Clocked mmu touches) {n : UInt32} {u : Unit}
    (hr : mmuAllocateBlocks mmu ctx n = (.ok u, mmu')) : Clocked mmu' (residentNew mmu mmu' ctx ++ touches) := by
  obtain ⟨c, ids, bm, hctx, ht, hend⟩ := mmuAllocateBlocks_registers h hr
  have hcoh : (mmu.withRouting ⟨bm, mmu.contexts.insert ctx (c.grown ids)⟩).Coherent mmu.Live :=
    h.coherent.withRouting ht.size
  have hv : ∀ q ∈ ids, mmu.Valid q := fun q hq => h.coherent.sound.refs_inRange.mp (ht.free q hq).1
  have hstart : Clocked (mmu.withRouting ⟨bm, mmu.contexts.insert ctx (c.grown ids)⟩) touches := hc.same rfl rfl
  obtain ⟨hroute, _, hall⟩ := registerAll_clocked ids hcoh.sound hv ht.nodup hstart
  rw [← hend] at hroute hall
  have hids : newBlocks mmu mmu' ctx = ids := newBlocks_grown hctx hroute.contexts
  unfold residentNew
  rw [hids]
  exact hall

theorem Forgot.clocked {r : Routing} (hf : Forgot mmu mmu' r) (hc : Clocked mmu touches) : Clocked mmu' touches := by
  apply hc.untouched hf.epoch
  intro q hq
  have hlive : mmu'.Live q := hf.settled.coherent.live_of_resident hq
  rw [hf.blocks q hlive] at hq ⊢
  exact ⟨hq, rfl⟩

/-- Every call keeps the clock. -/
theorem perform_clocked (h : mmu.Settled) (hc : Clocked mmu touches) (call : Call) :
    Clocked (perform mmu call).2 (touchStep mmu call (perform mmu call).1 touches) := by
  cases call with
  | createContext handle =>
    obtain ⟨r, hr⟩ := mmuCreateContext_routes mmu handle
    show Clocked (mmuCreateContext mmu handle).2 touches
    rw [hr]
    exact hc.same rfl rfl
  | destroyContext ctx =>
    obtain ⟨r, hf⟩ := mmuDestroyContext_forgets h ctx
    exact hf.clocked hc
  | forkContext src grows handle =>
    obtain ⟨r, hr⟩ := mmuForkContext_routes h src grows handle
    show Clocked (mmuForkContext mmu src grows handle).2 touches
    rw [hr]
    exact hc.same rfl rfl
  | allocateBlocks ctx n =>
    obtain ⟨r, mmu', hr⟩ : ∃ r m, mmuAllocateBlocks mmu ctx n = (r, m) := ⟨_, _, rfl⟩
    cases r with
    | error e =>
      simp only [perform, hr]
      rcases mmuAllocateBlocks_cases h hr with
        ⟨_, _, rfl⟩ | ⟨_, _, _, _, _, _, _, _, _, _, rfl⟩ | ⟨_, _, _, _, _, _, _, _, he, _⟩
      · exact hc
      · exact hc.same rfl rfl
      · cases he
    | ok u =>
      have hclocked := allocate_clocked h hc hr
      simp only [touchStep, perform, hr]
      exact hclocked
  | releaseLogicalBlock ctx lb =>
    obtain ⟨r, hf⟩ := mmuReleaseLogicalBlock_forgets h ctx lb
    exact hf.clocked hc
  | prepareBlockForWrite ctx lb =>
    obtain ⟨r, mmu', hr⟩ : ∃ r m, mmuPrepareBlockForWrite mmu ctx lb = (r, m) := ⟨_, _, rfl⟩
    simp only [perform, hr]
    exact prepare_clocked h hc hr
  | mapLogicalBlock ctx lb flags =>
    obtain ⟨r, mmu', hr⟩ : ∃ r m, mmuMapLogicalBlock mmu ctx lb flags = (r, m) := ⟨_, _, rfl⟩
    simp only [perform, hr]
    exact map_clocked h hc hr
  | mapLogicalBlocks ctx lbs flags =>
    obtain ⟨r, mmu', hr⟩ : ∃ r m, mmuMapLogicalBlocks mmu ctx lbs flags = (r, m) := ⟨_, _, rfl⟩
    simp only [perform, hr]
    exact mapBlocksLoop_clocked lbs [] h hc hr
  | unmapLogicalBlock ctx d =>
    obtain ⟨r, mmu', hr⟩ : ∃ r m, mmuUnmapLogicalBlock mmu ctx d = (r, m) := ⟨_, _, rfl⟩
    simp only [perform, hr]
    exact unmap_clocked h hc hr
  | unmapLogicalBlocks ctx ds =>
    rw [perform_unmaps]
    exact unmapAll_clocked ds h hc
  | hostWrite ctx d offset byte =>
    show Clocked (hostWrite mmu d offset byte) touches
    have hinfo : ∀ q, ((hostWrite mmu d offset byte).block q).info = (mmu.block q).info := by
      intro q
      rw [hostWrite_block]
      rfl
    refine @Clocked.untouched mmu (hostWrite mmu d offset byte) touches hc rfl ?_
    intro q hq
    rw [hinfo] at hq ⊢
    exact ⟨hq, rfl⟩

end Calls

end DsfMmu
