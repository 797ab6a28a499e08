import DsfMmu.Lifecycle

namespace DsfMmu

open MmuRuntime BlockManager Context

section Remap

variable {mmu mmu' : MmuRuntime} {bm : BlockManager} {b new : Int}

/-- The allocator when an entry has moved: the new block has one reference, the old one has lost one. -/
theorem moved_entry (ht : Taken mmu.l1Allocator [new] bm) (hlive : mmu.Live b) (q : Int) :
    (bm.release b).2.refCounts.entry q =
      if q = new then 1
      else if q = b then mmu.l1Allocator.refCounts.entry b - 1 else mmu.l1Allocator.refCounts.entry q := by
  have hpos : 0 < mmu.l1Allocator.refCounts.entry b := hlive
  have hne : b ≠ new := ht.ne_new hpos
  rw [ht.ok.release_entry, ht.entry]
  simp only [List.mem_singleton]
  by_cases hq : q = new
  · have hqb : q ≠ b := fun he => hne (he.symm.trans hq)
    simp [hq, hne.symm]
  · by_cases hqb : q = b
    · rw [if_neg hq, if_pos ⟨hqb, by rw [hqb]; omega⟩, if_neg hq, if_pos hqb, hqb]
    · rw [if_neg hq, if_neg (fun hc => hqb hc.1), if_neg hq, if_neg hqb]

/-- So it is after CoW, where the old block was shared. -/
theorem remap_entry (ht : Taken mmu.l1Allocator [new] bm) (hshared : 1 < mmu.l1Allocator.refCounts.entry b)
    (q : Int) : (bm.release b).2.refCounts.entry q =
      if q = new then 1
      else if q = b then mmu.l1Allocator.refCounts.entry b - 1 else mmu.l1Allocator.refCounts.entry q := by
  have hlive : mmu.Live b := lt_trans Int.one_pos hshared
  exact moved_entry ht hlive q

theorem remap_live (ht : Taken mmu.l1Allocator [new] bm) (hshared : 1 < mmu.l1Allocator.refCounts.entry b)
    (q : Int) : 0 < (bm.release b).2.refCounts.entry q ↔ mmu.Live q ∨ q = new := by
  rw [remap_entry ht hshared]
  by_cases hq : q = new
  · simp [hq]
  · rw [if_neg hq]
    by_cases hqb : q = b
    · rw [if_pos hqb, hqb]
      have hb : mmu.Live b := by
        show 0 < _
        omega
      simp only [hb, true_or, iff_true]
      omega
    · rw [if_neg hqb]
      simp only [hq, or_false]
      rfl

/-- CoW switched the entry: the new block is private, and either holds the old block's bytes
or, when the clone failed, nothing yet. -/
structure Remapped (mmu mmu' : MmuRuntime) (b new : Int) (v : BlockView) (r : Routing) : Prop where
  settled : mmu'.Settled
  setup : SameSetup mmu mmu'
  routing : mmu'.routing = r
  count : mmu'.residentCount = mmu.residentCount
  blocks : mmu'.block = Function.update mmu.block new v

end Remap

section Prepare

variable {mmu mmu' : MmuRuntime}

theorem remapped_of_effect {ctx : CtxHandle} {c : Context} {b new : Int} {bm : BlockManager} {v : BlockView}
    {e : Nat} (h : mmu.Settled) (hshared : 1 < mmu.l1Allocator.refCounts.entry b)
    (ht : Taken mmu.l1Allocator [new] bm)
    (he : Effect (mmu.withRouting ⟨(bm.release b).2, mmu.contexts.insert ctx c⟩) mmu'
      (Function.update mmu.block new v) mmu.residentCount e)
    (hok : BlockView.Ok mmu.zeroPage new True v) (hr : v.info.residentInL1 = false) :
    Remapped mmu mmu' b new v ⟨(bm.release b).2, mmu.contexts.insert ctx c⟩ := by
  obtain ⟨hfree, hzero⟩ := ht.free new (by simp)
  have hvalid : mmu.Valid new := h.coherent.sound.refs_inRange.mp hfree
  have hnew : ¬mmu.Live new := not_live_of_zero hzero
  have hcoh : (mmu.withRouting ⟨(bm.release b).2, mmu.contexts.insert ctx c⟩).Coherent mmu.Live :=
    h.coherent.withRouting ((release_size _ _).trans ht.size)
  have hw : weight ((mmu.withRouting ⟨(bm.release b).2, mmu.contexts.insert ctx c⟩).block new) = weight v := by
    rw [withRouting_block, h.coherent.unused hnew]
    simp only [weight, hr]
    rfl
  have hcoh' : mmu'.Coherent (fun q => mmu.Live q ∨ q = new) := by
    apply hcoh.of_update he hvalid (hok.congr (by simp))
    · intro q hq
      simp [hq]
    · rw [hw]
      rfl
    · exact h.coherent.limit
  refine ⟨⟨?_, ?_⟩, ⟨he.routing.config, he.routing.limit, he.routing.replies⟩, he.routing.routing_eq,
    he.residentCount, he.blocks⟩
  · rw [he.routing.allocator]
    exact ht.ok.release b
  · apply hcoh'.congr
    intro q
    rw [he.routing.live]
    exact (remap_live ht hshared q).symm

/-- The runtime when CoW has switched the entry and is about to clone. -/
def staged (mmu : MmuRuntime) (r : Routing) (new : Int) : MmuRuntime :=
  let mmu := mmu.withRouting r
  let mmu := mmu.setDirectory (mmu.blockDirectory.initializeFreshBlock new)
  mmu.setDirectory (mmu.blockDirectory.setTier new .l2)

theorem taken_new (h : mmu.Settled) {new : Int} {bm : BlockManager} (ht : Taken mmu.l1Allocator [new] bm) :
    mmu.Valid new ∧ mmu.block new = .unused := by
  obtain ⟨hfree, hzero⟩ := ht.free new (by simp)
  exact ⟨h.coherent.sound.refs_inRange.mp hfree, h.coherent.unused (not_live_of_zero hzero)⟩

theorem staged_effect (h : mmu.Settled) {new : Int} {bm : BlockManager} {r : Routing}
    (ht : Taken mmu.l1Allocator [new] bm)
    (hsize : r.allocator.refCounts.size = mmu.l1Allocator.refCounts.size) :
    Effect (mmu.withRouting r) (staged mmu r new) (Function.update mmu.block new .freshSwapped)
      mmu.residentCount mmu.epoch := by
  obtain ⟨hvalid, hunused⟩ := taken_new h ht
  have hcoh : (mmu.withRouting r).Coherent mmu.Live := h.coherent.withRouting hsize
  have h1 := (hcoh.sound.effect_refl.mutate hvalid (fun _ => makeFreshMeta)).mutate hvalid
    (fun m => { m with tier := .l2 })
  simp only [Function.update_idem, Function.update_self, withRouting_block, hunused] at h1
  exact h1

/-- The entry of a shared block, once a block is taken for it: the rest is the clone. -/
theorem mmuPrepareBlockForWrite_staged (h : mmu.Settled) {ctx : CtxHandle} {lb : UInt32} {c : Context}
    {lvid b new : Int} {bm : BlockManager} (hc : findContext mmu ctx = some c) (hlvid : u32ToInt lb = some lvid)
    (hn : c.Names mmu.l1Allocator lvid b) (hne : new ≠ b)
    (heq : c.prepareBlockForWrite mmu.l1Allocator lvid = (.ok new, (bm.release b).2, c.remapped lvid new)) :
    mmuPrepareBlockForWrite mmu ctx lb =
      match cloneBlockDataForCow (staged mmu ⟨(bm.release b).2, mmu.contexts.insert ctx (c.remapped lvid new)⟩ new)
        b (mmu.block b).info.tier new with
      | (.error status, mmu) => (.error status, mmu)
      | (.ok _, mmu) => (.ok new, mmu) := by
  unfold mmuPrepareBlockForWrite
  rw [hc]
  dsimp only
  rw [hlvid]
  dsimp only
  rw [resolveRouting_names h hn]
  dsimp only
  rw [heq]
  dsimp only
  rw [if_pos hne, setContext_eq]
  rfl

/-- The clone ends with the source's bytes in the new block, or with nothing done to it. -/
theorem clone_remapped (h : mmu.Settled) {ctx : CtxHandle} {c : Context} {b new : Int} {bm : BlockManager}
    (hb : mmu.Live b) (hshared : 1 < mmu.l1Allocator.refCounts.entry b) (ht : Taken mmu.l1Allocator [new] bm)
    {r : Except MmuError Unit}
    (hclone : cloneBlockDataForCow (staged mmu ⟨(bm.release b).2, mmu.contexts.insert ctx c⟩ new) b
      (mmu.block b).info.tier new = (r, mmu')) :
    ∃ v, Remapped mmu mmu' b new v ⟨(bm.release b).2, mmu.contexts.insert ctx c⟩ ∧
      (((∃ ptr, v = .cloned new ptr (mmu.logicalBytes b)) ∧ r = .ok ()) ∨
        v = .freshSwapped ∧ ∃ e, r = .error e) := by
  have hne : b ≠ new := ht.ne_new hb
  obtain ⟨hvalid, _⟩ := taken_new h ht
  have h1 := staged_effect (r := ⟨(bm.release b).2, mmu.contexts.insert ctx c⟩) h ht
    ((release_size _ _).trans ht.size)
  generalize staged mmu ⟨(bm.release b).2, mmu.contexts.insert ctx c⟩ new = mid at hclone h1
  have hfresh : mid.block new = .freshSwapped := by
    rw [h1.blocks, Function.update_self]
  have hsrc : mid.block b = mmu.block b := by
    rw [h1.blocks, Function.update_of_ne hne]
  have hzp : mid.zeroPage = mmu.zeroPage := h1.zeroPage
  cases r with
  | error e =>
    have h2 := cloneBlockDataForCow_error h1.sound (h1.valid hvalid) hfresh hclone
    rw [h1.blocks, h1.residentCount, h1.epoch] at h2
    have hm := remapped_of_effect h hshared ht (h1.trans h2) BlockView.freshSwapped_ok rfl
    exact ⟨_, hm, .inr ⟨rfl, e, rfl⟩⟩
  | ok u =>
    obtain ⟨ptr, h2⟩ := cloneBlockDataForCow_ok h1.sound (h1.valid (h.valid hb)) (h1.valid hvalid) hne hfresh hclone
    rw [hsrc, hzp, BlockView.cowBytes_tier (h.coherent.ok hb), h1.blocks, h1.residentCount, h1.epoch,
      Function.update_idem] at h2
    have hm := remapped_of_effect h hshared ht (h1.trans h2) (BlockView.cloned_ok ptr _) rfl
    exact ⟨_, hm, .inl ⟨⟨ptr, rfl⟩, rfl⟩⟩

/-- An entry that names no block is refused. -/
theorem mmuPrepareBlockForWrite_unnamed (h : mmu.Settled) {ctx : CtxHandle} {lb : UInt32}
    (hno : ∀ c lvid b, findContext mmu ctx = some c → u32ToInt lb = some lvid →
      ¬c.Names mmu.l1Allocator lvid b) :
    ∃ e, mmuPrepareBlockForWrite mmu ctx lb = (.error e, mmu) := by
  cases hc : findContext mmu ctx with
  | none => exact ⟨.badHandle, by simp [mmuPrepareBlockForWrite, hc]⟩
  | some c =>
    cases hlvid : u32ToInt lb with
    | none => exact ⟨.invalidArgument, by simp [mmuPrepareBlockForWrite, hc, hlvid]⟩
    | some lvid =>
      cases hroute : c.resolveRouting mmu.blockDirectory lvid with
      | error e => exact ⟨e, by simp [mmuPrepareBlockForWrite, hc, hlvid, hroute]⟩
      | ok before => exact absurd (resolveRouting_ok h c hroute).1 (hno c lvid _ hc hlvid)

/-- `mmu_prepare_block_for_write`: refused, nothing to do, or the entry moves to a private block. -/
theorem mmuPrepareBlockForWrite_cases (h : mmu.Settled) {ctx : CtxHandle} {lb : UInt32}
    {r : Except MmuError Int} (hr : mmuPrepareBlockForWrite mmu ctx lb = (r, mmu')) :
    ((∃ e, r = .error e) ∧ mmu' = mmu ∧
      ∀ c lvid b, findContext mmu ctx = some c → u32ToInt lb = some lvid → c.Names mmu.l1Allocator lvid b →
        1 < mmu.l1Allocator.refCounts.entry b ∧ mmu.l1Allocator.freeList = []) ∨
    (∃ c lvid b, findContext mmu ctx = some c ∧ u32ToInt lb = some lvid ∧ c.Names mmu.l1Allocator lvid b ∧
      mmu.l1Allocator.refCounts.entry b = 1 ∧ r = .ok b ∧ mmu' = mmu) ∨
    ∃ c lvid b new bm v, findContext mmu ctx = some c ∧ u32ToInt lb = some lvid ∧
      c.Names mmu.l1Allocator lvid b ∧ 1 < mmu.l1Allocator.refCounts.entry b ∧
      Taken mmu.l1Allocator [new] bm ∧
      Remapped mmu mmu' b new v ⟨(bm.release b).2, mmu.contexts.insert ctx (c.remapped lvid new)⟩ ∧
      (((∃ ptr, v = .cloned new ptr (mmu.logicalBytes b)) ∧ r = .ok new) ∨
        v = .freshSwapped ∧ ∃ e, r = .error e) := by
  by_cases hnamed : ∃ c lvid b, findContext mmu ctx = some c ∧ u32ToInt lb = some lvid ∧
    c.Names mmu.l1Allocator lvid b
  swap
  · have hno : ∀ c lvid b, findContext mmu ctx = some c → u32ToInt lb = some lvid →
        ¬c.Names mmu.l1Allocator lvid b := fun c lvid b hc hl hn => hnamed ⟨c, lvid, b, hc, hl, hn⟩
    obtain ⟨e, herr⟩ := mmuPrepareBlockForWrite_unnamed h hno
    rw [herr] at hr
    obtain ⟨rfl, rfl⟩ := Prod.mk.inj hr
    exact .inl ⟨⟨e, rfl⟩, rfl, fun c lvid b hc hl hn => absurd hn (hno c lvid b hc hl)⟩
  obtain ⟨c, lvid, b, hc, hlvid, hn⟩ := hnamed
  have hsame : ∀ b', c.Names mmu.l1Allocator lvid b' → b' = b := by
    intro b' hb'
    exact Option.some.inj (hb'.entry.symm.trans hn.entry)
  have hroute := resolveRouting_names h hn
  rcases prepareBlockForWrite_cases h.allocator c lvid with
    ⟨e, heq, hno⟩ | ⟨b', hb', hone, heq⟩ | ⟨b', new, bm, hb', hshared, ht, heq⟩
  · have hcall : mmuPrepareBlockForWrite mmu ctx lb = (.error e, mmu) := by
      simp only [mmuPrepareBlockForWrite, hc, hlvid, hroute, heq, setContext_same (findContext_find? hc).2]
    rw [hcall] at hr
    obtain ⟨rfl, rfl⟩ := Prod.mk.inj hr
    refine .inl ⟨⟨e, rfl⟩, rfl, ?_⟩
    intro c' lvid' b' hc' hl' hn'
    cases Option.some.inj (hc.symm.trans hc')
    cases Option.some.inj (hlvid.symm.trans hl')
    exact hno b' hn'
  · cases hsame b' hb'
    have hcall : mmuPrepareBlockForWrite mmu ctx lb = (.ok b, mmu) := by
      simp only [mmuPrepareBlockForWrite, hc, hlvid, hroute, heq, ne_eq, not_true_eq_false, if_false,
        setContext_same (findContext_find? hc).2]
    rw [hcall] at hr
    obtain ⟨rfl, rfl⟩ := Prod.mk.inj hr
    exact .inr (.inl ⟨c, lvid, b, hc, hlvid, hn, hone, rfl, rfl⟩)
  · cases hsame b' hb'
    rw [mmuPrepareBlockForWrite_staged h hc hlvid hn (ht.ne_new hn.live).symm heq] at hr
    refine .inr (.inr ⟨c, lvid, b, new, bm, ?_⟩)
    split at hr
    next e m hclone =>
      obtain ⟨rfl, rfl⟩ := Prod.mk.inj hr
      obtain ⟨v, hm, ⟨_, hok⟩ | ⟨hv, _⟩⟩ := clone_remapped h hn.live hshared ht hclone
      · cases hok
      · exact ⟨v, hc, hlvid, hn, hshared, ht, hm, .inr ⟨hv, e, rfl⟩⟩
    next u m hclone =>
      obtain ⟨rfl, rfl⟩ := Prod.mk.inj hr
      obtain ⟨v, hm, ⟨hv, _⟩ | ⟨_, e, herr⟩⟩ := clone_remapped h hn.live hshared ht hclone
      · exact ⟨v, hc, hlvid, hn, hshared, ht, hm, .inl ⟨hv, rfl⟩⟩
      · cases herr

end Prepare

end DsfMmu
