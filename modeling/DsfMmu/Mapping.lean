import DsfMmu.Api
import DsfMmu.ContextSpecs
import DsfMmu.Eviction

namespace DsfMmu

open MmuRuntime

section Map

variable {mmu mmu' : MmuRuntime} {p : Int}

/-- In a settled state an entry resolves exactly when it names a block with references. -/
theorem resolveRouting_ok (h : mmu.Settled) (c : Context) {lvid : Int} {route : PhysicalRoute}
    (hr : c.resolveRouting mmu.blockDirectory lvid = .ok route) :
    c.Names mmu.l1Allocator lvid route.physicalBlockId ∧
      route.tier = (mmu.block route.physicalBlockId).info.tier := by
  unfold Context.resolveRouting at hr
  split at hr
  next => cases hr
  next b hget =>
    split at hr
    next => cases hr
    next hun =>
      split at hr
      next => cases hr
      next m hm =>
        split at hr
        next => cases hr
        next hall =>
          cases Except.ok.inj hr
          have hv : mmu.blockDirectory.isValid b := by
            by_contra hv
            simp [BlockDirectory.get, hv] at hm
          rw [BlockDirectory.get_eq_some hv] at hm
          cases Option.some.inj hm
          exact ⟨⟨hget, hun, h.coherent.live_iff.mp (Bool.eq_true_of_not_eq_false hall)⟩, rfl⟩

theorem resolveRouting_names (h : mmu.Settled) {c : Context} {lvid b : Int}
    (hn : c.Names mmu.l1Allocator lvid b) :
    c.resolveRouting mmu.blockDirectory lvid =
      .ok ⟨(mmu.block b).info.tier, b, b.toNat * c.blockSizeBytes % 2 ^ 64⟩ := by
  have hall := h.allocated hn.live
  unfold Context.resolveRouting
  rw [hn.entry]
  dsimp only
  rw [if_neg hn.block, h.get_meta hn.live]
  dsimp only
  rw [if_neg (by simp [hall])]

/-- A block that a map may have pushed out of L1, if any; all others but `p` are untouched. -/
def OthersKept (p : Int) (mmu mmu' : MmuRuntime) : Prop :=
  ∃ v, ∀ q, q ≠ p → q ≠ v → mmu'.block q = mmu.block q

theorem EvictedAtMostOne.others (h : EvictedAtMostOne p mmu mmu') : OthersKept p mmu mmu' := by
  rcases h with h | ⟨v, ptr, -, -, h⟩
  · refine ⟨p, ?_⟩
    intro q _ _
    rw [h]
  · refine ⟨v, ?_⟩
    intro q _ hq
    rw [h, Function.update_of_ne hq]

theorem OthersKept.update {mid : MmuRuntime} {v : BlockView} (h : OthersKept p mmu mid)
    (hb : mmu'.block = Function.update mid.block p v) : OthersKept p mmu mmu' := by
  obtain ⟨w, hw⟩ := h
  refine ⟨w, ?_⟩
  intro q hq hqw
  rw [hb, Function.update_of_ne hq]
  exact hw q hq hqw

/-- A successful map of block `p`: it is resident and pinned once more, its L1 page is handed out. -/
structure Mapped (mmu mmu' : MmuRuntime) (p : Int) (d : MappedBlock) : Prop where
  settled : mmu'.Settled
  routing : SameRouting mmu mmu'
  bytes : ∀ q, mmu'.logicalBytes q = mmu.logicalBytes q
  pins : ∀ q, (mmu'.block q).info.pinCount =
    if q = p then nextPinCount (mmu.block p).info.pinCount else (mmu.block q).info.pinCount
  kept : ∀ q, 0 < (mmu.block q).info.pinCount → (mmu'.block q).l1 = (mmu.block q).l1
  resident : (mmu'.block p).info.residentInL1 = true
  page : (mmu'.block p).l1 = some ⟨d.hostPtr, mmu.logicalBytes p⟩
  others : OthersKept p mmu mmu'
  physical : d.physicalBlockId = p

theorem nextPinCount_lt {n : Nat} (h : n + 1 < 2 ^ 32) : nextPinCount n = n + 1 := Nat.mod_eq_of_lt h

/-- The end of a map: one more pin on a block that owns its L1 page, and a touch. -/
theorem pin_touch (h : mmu.Settled) (hp : mmu.Live p) {pg : Page} (hl : (mmu.block p).l1 = some pg) :
    let mmu' := touchBlock (mmu.setDirectory (mmu.blockDirectory.incrementPinCount p).2) p
    mmu'.Settled ∧ SameRouting mmu mmu' ∧
      mmu'.block = Function.update mmu.block p
        (((mmu.block p).withPins (nextPinCount (mmu.block p).info.pinCount)).touched (nextEpoch mmu.epoch)) := by
  intro mmu'
  have hv := h.valid hp
  have hinc : (mmu.blockDirectory.incrementPinCount p).2 =
      mmu.blockDirectory.mutate p (fun m => { m with pinCount := nextPinCount m.pinCount }) := by
    unfold BlockDirectory.incrementPinCount
    rw [if_pos (h.coherent.sound.meta_inRange.mpr hv)]
  have he := ((h.coherent.sound.effect_refl.mutate hv
    (fun m => { m with pinCount := nextPinCount m.pinCount })).touch hv)
  rw [← hinc] at he
  have he' : Effect mmu mmu' (Function.update mmu.block p
      (((mmu.block p).withPins (nextPinCount (mmu.block p).info.pinCount)).touched (nextEpoch mmu.epoch)))
      mmu.residentCount (nextEpoch mmu.epoch) := by
    refine he.of_blocks ?_
    simp only [Function.update_idem, Function.update_self]
    rfl
  have hok := BlockView.touched_ok (BlockView.withPins_ok (h.coherent.ok hp) (by simp [hl])
    (nextPinCount (mmu.block p).info.pinCount)) (nextEpoch mmu.epoch)
  have hcoh : mmu'.Coherent mmu.Live :=
    h.coherent.of_update he' hv (hok.congr (iff_true_intro hp).symm) (fun _ _ => Iff.rfl) rfl
      h.coherent.limit
  refine ⟨⟨?_, hcoh.congr (fun q => (he'.routing.live q).symm)⟩, he'.routing, he'.blocks⟩
  rw [he'.routing.allocator]
  exact h.allocator

/-- What a map does for an entry that names block `p`: the lookup finds the block and the pin count is there
to be incremented. -/
theorem mapResolved_names (h : mmu.Settled) {c : Context} {lvid : Int} (hn : c.Names mmu.l1Allocator lvid p)
    (lb flags : UInt32) :
    mapResolved mmu c lvid lb flags =
      match ensureResidentInL1 mmu p with
      | (.error status, mmu) => (.error status, mmu)
      | (.ok _, mmu) =>
        match acquirePage mmu .l1 p with
        | (.error status, mmu) => (.error status, mmu)
        | (.ok l1Page, mmu) =>
          (.ok ⟨l1Page, mmu.config.blockSizeBytes, p, lb, flags⟩,
            touchBlock (mmu.setDirectory (mmu.blockDirectory.incrementPinCount p).2) p) := by
  have hp : mmu.Live p := hn.live
  obtain ⟨r1, m1, hens⟩ : ∃ r m, ensureResidentInL1 mmu p = (r, m) := ⟨_, _, rfl⟩
  obtain ⟨r2, m2, hacq⟩ : ∃ r m, acquirePage m1 .l1 p = (r, m) := ⟨_, _, rfl⟩
  unfold mapResolved
  rw [resolveRouting_names h hn]
  cases r1 with
  | error e => simp only [hens]
  | ok u =>
    cases r2 with
    | error e => simp only [hens, hacq]
    | ok slot =>
      obtain ⟨hq1, hres, _⟩ := ensureResidentInL1_ok h hp hens
      have hs1 := hq1.settled h
      have hp1 : m1.Live p := (hq1.routing.live p).mpr hp
      obtain ⟨hq2, _⟩ := hs1.coherent.materialise hp1 hres hacq
      have hs2 := hq2.settled hs1
      have hp2 : m2.Live p := (hq2.routing.live p).mpr hp1
      obtain ⟨dir, hinc⟩ : ∃ dir, m2.blockDirectory.incrementPinCount p = (true, dir) := by
        unfold BlockDirectory.incrementPinCount
        rw [if_pos (hs2.coherent.sound.meta_inRange.mpr (hs2.valid hp2))]
        exact ⟨_, rfl⟩
      simp only [hens, hacq, hinc]

/-- A map of an entry without a block fails at once. -/
theorem mapResolved_unnamed (h : mmu.Settled) {c : Context} {lvid : Int}
    (hno : ∀ p, ¬c.Names mmu.l1Allocator lvid p) (lb flags : UInt32) :
    ∃ e, mapResolved mmu c lvid lb flags = (.error e, mmu) := by
  unfold mapResolved
  split
  next e _ => exact ⟨e, rfl⟩
  next route hroute => exact absurd (resolveRouting_ok h c hroute).1 (hno _)

theorem mapResolved_ok (h : mmu.Settled) {c : Context} {lvid : Int} {lb flags : UInt32} {d : MappedBlock}
    (hm : mapResolved mmu c lvid lb flags = (.ok d, mmu')) :
    c.Names mmu.l1Allocator lvid d.physicalBlockId ∧ Mapped mmu mmu' d.physicalBlockId d ∧
      d.logicalBlockId = lb ∧ d.mapFlags = flags := by
  by_cases hnamed : ∃ p, c.Names mmu.l1Allocator lvid p
  swap
  · obtain ⟨e, herr⟩ := mapResolved_unnamed h (not_exists.mp hnamed) lb flags
    rw [herr] at hm
    cases hm
  obtain ⟨p, hn⟩ := hnamed
  have hp : mmu.Live p := hn.live
  rw [mapResolved_names h hn] at hm
  split at hm
  next => cases hm
  next m1 hens =>
    obtain ⟨hq1, hres, mid, hev, v, hblock1⟩ := ensureResidentInL1_ok h hp hens
    have hs1 := hq1.settled h
    have hp1 : m1.Live p := (hq1.routing.live p).mpr hp
    split at hm
    next => cases hm
    next slot m2 hacq =>
      obtain ⟨hd, rfl⟩ := Prod.mk.inj hm
      cases Except.ok.inj hd
      obtain ⟨hq2, hblock2⟩ := hs1.coherent.materialise hp1 hres hacq
      have hs2 := hq2.settled hs1
      have hp2 : m2.Live p := (hq2.routing.live p).mpr hp1
      have hl2 : (m2.block p).l1 = some ⟨slot, BlockView.pageBytes m1.zeroPage (m1.block p).l1⟩ := by
        rw [hblock2, Function.update_self]
        rfl
      obtain ⟨hs3, hr3, hblock3⟩ := pin_touch hs2 hp2 hl2
      have hq := hq1.trans (hq2.congr hq1.routing.live)
      have hbytes1 : BlockView.pageBytes m1.zeroPage (m1.block p).l1 = mmu.logicalBytes p := by
        rw [← hq1.bytes, logicalBytes, BlockView.bytes, hres, if_pos rfl]
      refine ⟨hn, ⟨hs3, hq.routing.trans hr3, ?_, ?_, ?_, ?_, ?_, ?_, rfl⟩, rfl, rfl⟩
      · intro q
        rw [← hq.bytes q]
        simp only [logicalBytes, hblock3, hr3.zeroPage]
        refine BlockView.update_field (BlockView.bytes m2.zeroPage) ?_ q
        rfl
      · intro q
        rw [hblock3]
        by_cases hqp : q = p
        · rw [hqp, Function.update_self, if_pos rfl, ← hq.pins]
          rfl
        · rw [Function.update_of_ne hqp, if_neg hqp]
          exact hq.pins q
      · intro q hpin
        rw [hblock3, ← hq.kept q hpin]
        refine BlockView.update_field BlockView.l1 ?_ q
        rfl
      · rw [hblock3, Function.update_self, hblock2, Function.update_self]
        exact hres
      · rw [hblock3, Function.update_self, ← hbytes1]
        exact hl2
      · exact ((hev.others.update hblock1).update hblock2).update hblock3

theorem mapResolved_error (h : mmu.Settled) {c : Context} {lvid : Int} {lb flags : UInt32} {e : MmuError}
    (hm : mapResolved mmu c lvid lb flags = (.error e, mmu')) :
    Quiet mmu.Live mmu mmu' ∧ ∃ v, ∀ q ≠ v, (mmu.block q).info.residentInL1 = true →
      (mmu'.block q).info.residentInL1 = true := by
  by_cases hnamed : ∃ p, c.Names mmu.l1Allocator lvid p
  swap
  · obtain ⟨_, herr⟩ := mapResolved_unnamed h (not_exists.mp hnamed) lb flags
    rw [herr] at hm
    obtain ⟨_, rfl⟩ := Prod.mk.inj hm
    exact ⟨h.coherent.quiet_refl, 0, fun _ _ hr => hr⟩
  obtain ⟨p, hn⟩ := hnamed
  have hp : mmu.Live p := hn.live
  rw [mapResolved_names h hn] at hm
  split at hm
  next hens =>
    cases hm
    obtain ⟨hq, hev⟩ := ensureResidentInL1_error h hp hens
    refine ⟨hq, ?_⟩
    obtain ⟨v, hv⟩ := hev.others
    refine ⟨v, ?_⟩
    intro q hqv hr
    by_cases hqp : q = p
    · rw [hqp, hev.self, ← hqp]
      exact hr
    · rw [hv q hqp hqv]
      exact hr
  next m1 hens =>
    obtain ⟨hq1, hres, mid, hev, v, hblock1⟩ := ensureResidentInL1_ok h hp hens
    have hs1 := hq1.settled h
    obtain ⟨w, hw⟩ := hev.others.update hblock1
    split at hm
    next hacq =>
      cases hm
      obtain ⟨hq2, hblock2⟩ := hs1.coherent.materialise_error hres hacq
      refine ⟨hq1.trans (hq2.congr hq1.routing.live), w, ?_⟩
      rw [hblock2]
      intro q hqw hr
      by_cases hqp : q = p
      · rw [hqp]
        exact hres
      · rw [hw q hqp hqw]
        exact hr
    next => cases hm

end Map

section Unmap

variable {mmu mmu' : MmuRuntime} {p : Int}

/-- What an unmap of block `p` does once it is past the validation, whatever status it ends with:
one pin less, and no page in L1 moved or changed. -/
structure Unpinned (mmu mmu' : MmuRuntime) (p : Int) : Prop where
  settled : mmu'.Settled
  routing : SameRouting mmu mmu'
  bytes : ∀ q, mmu'.logicalBytes q = mmu.logicalBytes q
  pins : ∀ q, (mmu'.block q).info.pinCount =
    if q = p then (mmu.block p).info.pinCount - 1 else (mmu.block q).info.pinCount
  pages : ∀ q, (mmu'.block q).l1 = (mmu.block q).l1
  residents : ∀ q, (mmu'.block q).info.residentInL1 = (mmu.block q).info.residentInL1

/-- A view that differs in the pin count, the dirty flag, the epoch and the L2 page at most. -/
theorem unpinned_of_effect (h : mmu.Settled) (hp : mmu.Live p) {v : BlockView} {e : Nat}
    (he : Effect mmu mmu' (Function.update mmu.block p v) mmu.residentCount e)
    (hok : BlockView.Ok mmu.zeroPage p True v)
    (hbytes : v.bytes mmu.zeroPage = (mmu.block p).bytes mmu.zeroPage)
    (hpins : v.info.pinCount = (mmu.block p).info.pinCount - 1) (hl1 : v.l1 = (mmu.block p).l1)
    (hr : v.info.residentInL1 = (mmu.block p).info.residentInL1) : Unpinned mmu mmu' p := by
  have hweight : weight v = weight (mmu.block p) := by
    simp only [weight, hr]
  have hcoh := h.coherent.of_update he (h.valid hp) (hok.congr (iff_true_intro hp).symm) (fun _ _ => Iff.rfl)
    (by rw [hweight]) h.coherent.limit
  refine ⟨⟨?_, hcoh.congr (fun q => (he.routing.live q).symm)⟩, he.routing, ?_, ?_, ?_, ?_⟩
  · rw [he.routing.allocator]
    exact h.allocator
  · intro q
    simp only [logicalBytes, he.blocks, he.zeroPage]
    exact BlockView.update_field (BlockView.bytes mmu.zeroPage) hbytes q
  · intro q
    rw [he.blocks]
    by_cases hq : q = p
    · rw [hq, Function.update_self, if_pos rfl, hpins]
    · rw [Function.update_of_ne hq, if_neg hq]
  · intro q
    rw [he.blocks]
    exact BlockView.update_field BlockView.l1 hl1 q
  · intro q
    rw [he.blocks]
    exact BlockView.update_field (fun v => v.info.residentInL1) hr q

/-- The guarded decrement, with or without a pin to take. -/
theorem unpin_effect (h : mmu.Settled) (hp : mmu.Live p) :
    ∃ d, (if (mmu.block p).info.pinCount > 0 then mmu.blockDirectory.decrementPinCount p
        else (true, mmu.blockDirectory)) = (true, d) ∧
      Effect mmu (mmu.setDirectory d)
        (Function.update mmu.block p ((mmu.block p).withPins ((mmu.block p).info.pinCount - 1)))
        mmu.residentCount mmu.epoch := by
  have hs := h.coherent.sound
  by_cases hpin : (mmu.block p).info.pinCount > 0
  · refine ⟨mmu.blockDirectory.mutate p (fun m => { m with pinCount := m.pinCount - 1 }), ?_, ?_⟩
    · rw [if_pos hpin, BlockDirectory.decrementPinCount, h.get_meta hp]
      dsimp only
      rw [if_neg (by omega)]
    · exact hs.effect_refl.mutate (h.valid hp) (fun m => { m with pinCount := m.pinCount - 1 })
  · refine ⟨mmu.blockDirectory, if_neg hpin, ?_⟩
    have hzero : (mmu.block p).info.pinCount = 0 := by omega
    have hsame : (mmu.block p).withPins ((mmu.block p).info.pinCount - 1) = mmu.block p := by
      rw [hzero, Nat.zero_sub, ← hzero]
      rfl
    rw [hsame, Function.update_eq_self]
    exact hs.effect_refl

/-- How an unmap that is past the validation ends: without the page it needs for the write-back, or with
the block touched and, after a WRITE mapping, written back if it is resident and dirty if it is not. -/
theorem unmapPinned_effect (h : mmu.Settled) (hp : mmu.Live p) {flags : UInt32} {r : Except MmuError Unit}
    (hu : mmuUnmapLogicalBlock.unmapPinned mmu p (mmu.block p).info flags = (r, mmu')) :
    let w := (mmu.block p).withPins ((mmu.block p).info.pinCount - 1)
    ((∃ e, r = .error e) ∧ hasWrite flags = true ∧ (mmu.block p).info.residentInL1 = true ∧
      Effect mmu mmu' (Function.update mmu.block p (w.withDirty true)) mmu.residentCount mmu.epoch) ∨
    r = .ok () ∧ ∃ v, (hasWrite flags = false ∧ v = w ∨
        hasWrite flags = true ∧ (mmu.block p).info.residentInL1 = false ∧ v = w.withDirty true ∨
        hasWrite flags = true ∧ (mmu.block p).info.residentInL1 = true ∧
          ∃ ptr, v = ((w.withDirty true).writtenBack mmu.zeroPage p ptr).withDirty false) ∧
      Effect mmu mmu' (Function.update mmu.block p (v.touched (nextEpoch mmu.epoch))) mmu.residentCount
        (nextEpoch mmu.epoch) := by
  intro w
  have hv := h.valid hp
  obtain ⟨d, hdec, h1⟩ := unpin_effect h hp
  unfold mmuUnmapLogicalBlock.unmapPinned at hu
  rw [hdec] at hu
  dsimp only at hu
  split at hu
  next hw =>
    have h2 := h1.mutate hv (fun m => { m with dirty := true })
    split at hu
    next hr =>
      split at hu
      next e _ hsync =>
        obtain ⟨rfl, rfl⟩ := Prod.mk.inj hu
        have h3 := h2.trans (syncL1ToL2_error h2.sound hsync)
        rw [h2.blocks, h2.residentCount, h2.epoch, Function.update_idem, Function.update_self] at h3
        exact .inl ⟨⟨e, rfl⟩, hw, hr, h3⟩
      next hsync =>
        obtain ⟨rfl, rfl⟩ := Prod.mk.inj hu
        obtain ⟨ptr, h3⟩ := syncL1ToL2_ok h2.sound (h2.valid hv) hsync
        have h4 := h2.trans h3
        rw [h2.blocks, h2.residentCount, h2.epoch, h2.zeroPage] at h4
        simp only [Function.update_idem, Function.update_self] at h4
        have h5 := (h4.mutate hv (fun m => { m with dirty := false })).touch hv
        simp only [Function.update_idem, Function.update_self] at h5
        exact .inr ⟨rfl, _, .inr (.inr ⟨hw, hr, ptr, rfl⟩), h5⟩
    next hr =>
      obtain ⟨rfl, rfl⟩ := Prod.mk.inj hu
      have h3 := h2.touch hv
      simp only [Function.update_idem, Function.update_self] at h3
      exact .inr ⟨rfl, _, .inr (.inl ⟨hw, by simpa using hr, rfl⟩), h3⟩
  next hw =>
    obtain ⟨rfl, rfl⟩ := Prod.mk.inj hu
    have h2 := h1.touch hv
    simp only [Function.update_idem, Function.update_self] at h2
    exact .inr ⟨rfl, _, .inl ⟨by simpa using hw, rfl⟩, h2⟩

theorem unmapPinned_unpinned (h : mmu.Settled) (hp : mmu.Live p) {flags : UInt32} {r : Except MmuError Unit}
    (hu : mmuUnmapLogicalBlock.unmapPinned mmu p (mmu.block p).info flags = (r, mmu')) :
    Unpinned mmu mmu' p := by
  have hle : (mmu.block p).info.pinCount - 1 ≤ (mmu.block p).info.pinCount := Nat.sub_le _ _
  have hpins := BlockView.withPins_le_ok (h.coherent.ok hp) hle
  have hdirty := BlockView.withDirty_ok hpins true
  rcases unmapPinned_effect h hp hu with
    ⟨_, _, _, he⟩ | ⟨_, v, ⟨_, rfl⟩ | ⟨_, _, rfl⟩ | ⟨_, hr, ptr, rfl⟩, he⟩
  · exact unpinned_of_effect h hp he hdirty rfl rfl rfl rfl
  · exact unpinned_of_effect h hp he (BlockView.touched_ok hpins _) rfl rfl rfl rfl
  · exact unpinned_of_effect h hp he (BlockView.touched_ok hdirty _) rfl rfl rfl rfl
  · have hclean := BlockView.withDirty_ok (BlockView.writtenBack_ok hdirty ptr) false
    exact unpinned_of_effect h hp he (BlockView.touched_ok hclean _) (@BlockView.writtenBack_bytes _ p _ hr ptr)
      rfl rfl rfl

/-- An unmap is refused without any change, or takes a pin from the block of the descriptor. -/
theorem mmuUnmapLogicalBlock_cases (h : mmu.Settled) {ctx : CtxHandle} {d : MappedBlock}
    {r : Except MmuError Unit} (hu : mmuUnmapLogicalBlock mmu ctx d = (r, mmu')) :
    ((∃ e, r = .error e) ∧ mmu' = mmu) ∨
    ∃ c lvid, findContext mmu ctx = some c ∧ u32ToInt d.logicalBlockId = some lvid ∧
      c.Names mmu.l1Allocator lvid d.physicalBlockId ∧ Unpinned mmu mmu' d.physicalBlockId := by
  unfold mmuUnmapLogicalBlock at hu
  split at hu
  next => cases hu; exact .inl ⟨⟨_, rfl⟩, rfl⟩
  next c hc =>
    dsimp only at hu
    split at hu
    next => cases hu; exact .inl ⟨⟨_, rfl⟩, rfl⟩
    next =>
      split at hu
      next => cases hu; exact .inl ⟨⟨_, rfl⟩, rfl⟩
      next lvid hlvid =>
        split at hu
        next => cases hu; exact .inl ⟨⟨_, rfl⟩, rfl⟩
        next route hroute =>
          obtain ⟨hnames, -⟩ := resolveRouting_ok h c hroute
          split at hu
          next => cases hu; exact .inl ⟨⟨_, rfl⟩, rfl⟩
          next heq =>
            have heq' : route.physicalBlockId = d.physicalBlockId := not_not.mp heq
            rw [heq'] at hnames
            have hp : mmu.Live d.physicalBlockId := hnames.live
            rw [h.get_meta hp] at hu
            dsimp only at hu
            split at hu
            next => cases hu; exact .inl ⟨⟨_, rfl⟩, rfl⟩
            next => exact .inr ⟨c, lvid, hc, hlvid, hnames, unmapPinned_unpinned h hp hu⟩

end Unmap

end DsfMmu
