import DsfMmu.BlockMoves
import DsfMmu.FlatRefinement
import DsfMmu.PinProtection

namespace DsfMmu

open MmuRuntime BlockManager Context LastUse

section LastUse

variable {older history : List Int} {p : Int}

theorem lastUse_mono (h : older <:+ history) (p : Int) : lastUse older p ≤ lastUse history p := by
  obtain ⟨newer, rfl⟩ := h
  induction newer with
  | nil => exact le_rfl
  | cons q newer ih =>
    rw [List.cons_append]
    by_cases hq : q = p
    · subst hq
      have hle := lastUse_le (newer ++ older) q
      rw [lastUse_self]
      omega
    · rw [lastUse_of_ne hq]
      exact ih

theorem mem_of_lastUse (h : older.length < lastUse (history ++ older) p) : p ∈ history := by
  induction history with
  | nil =>
    have hle := lastUse_le older p
    rw [List.nil_append] at h
    omega
  | cons q newer ih =>
    by_cases hq : q = p
    · subst hq
      exact List.mem_cons_self
    · rw [List.cons_append, lastUse_of_ne hq] at h
      exact List.mem_cons_of_mem _ (ih h)

end LastUse

section Crowding

variable {mmu mmu' mid : MmuRuntime} {ctx : CtxHandle} {lb flags : UInt32} {touches : List Int} {p b : Int}

/-- Where a block has to leave, there is L2 for it. -/
theorem Roomy.not_starved (h : Roomy mmu touches) (hevicted : evictedFor mmu p = some b) : ¬Starved mmu p := by
  intro hst
  obtain ⟨_, _, hno⟩ := hst
  unfold evictedFor at hevicted
  dsimp only at hevicted
  split at hevicted
  next => cases hevicted
  next hcond =>
    push Not at hcond
    rcases hno with hneg | ⟨hnone, hcap⟩
    · exact absurd hneg (by omega)
    · have hvictim := pickEvictionCandidate_nonneg (Int.not_lt.mpr hcond.2.2)
      have hpage : mmu.page .l2 (pickEvictionCandidate mmu p) = none := hnone
      have hlt := committedPages_lt h.settled.coherent.sound (h.settled.valid (hvictim.is_live h.settled.coherent)) hpage
      have hl2 := h.l2
      omega

/-- What a map does when it evicts: L1 is full, and the block it brings in is from outside. -/
theorem map_crowded (h : Roomy mmu touches) {r : Except MmuError MappedBlock}
    (hm : mmuMapLogicalBlock mmu ctx lb flags = (r, mmu')) (hev : Evicted mmu mmu' b) :
    ∃ d, r = .ok d ∧ d.physicalBlockId ∉ mmu.residents ∧ mmu.residents.card = mmu.config.l1ResidentBlockLimit := by
  have hs := h.settled
  obtain ⟨hin, hgone⟩ := hev
  rcases map_stages hs hm with ⟨_, _, rfl | ⟨e, hr⟩⟩ | ⟨mid, c, lvid, p, hres⟩
  · exact absurd hin hgone
  · rw [prepare_residents hs hr] at hgone
    exact absurd hin hgone
  · have hmid : Roomy mid touches ∧ SameSetup mmu mid ∧
        ∀ q, (mid.block q).info.residentInL1 = (mmu.block q).info.residentInL1 := by
      rcases hres.before with rfl | ⟨b', hr⟩
      · exact ⟨h, .refl _, fun _ => rfl⟩
      · exact ⟨h.prepared hr, (prepare_clean hs hr).setup, prepare_residents hs hr⟩
    obtain ⟨hroomy, hsetup, hresidents⟩ := hmid
    have hsame : mid.residents = mmu.residents := by
      ext q
      rw [hroomy.settled.coherent.mem_residents, hs.coherent.mem_residents, hresidents]
    have hevicted : evictedFor mid p = some b := by
      by_contra hstays
      exact hgone ((mapResolved_moved hres.settled hres.names hres.rest b).inside ((hresidents b).trans hin) hstays)
    rcases mapResolved_outcome hroomy.settled hroomy.grants hres.names lb flags with ⟨hst, _⟩ | ⟨_, d, m, heq⟩
    · exact absurd hst (hroomy.not_starved hevicted)
    · cases hres.rest.symm.trans heq
      obtain ⟨hn, _⟩ := mapResolved_ok hroomy.settled heq
      have hp : d.physicalBlockId = p := Option.some.inj (hn.entry.symm.trans hres.names.entry)
      unfold evictedFor at hevicted
      dsimp only at hevicted
      split at hevicted
      next => cases hevicted
      next hcond =>
        push Not at hcond
        obtain ⟨hout, hfull, _⟩ := hcond
        have hcount := hroomy.settled.coherent.count
        have hlimit := hroomy.settled.coherent.limit
        have hconfig := hroomy.settled.coherent.sound.limit
        refine ⟨d, rfl, ?_, ?_⟩
        · rw [hp, ← hsame, hroomy.settled.coherent.mem_residents]
          exact hout
        · rw [← hsame, ← hsetup.config]
          omega

end Crowding

/-- The touches from time `base` on are of the blocks in `W`, and the clock is still running. -/
structure Within (base : Nat) (W : Finset Int) (touches : List Int) : Prop where
  clock : touches.length < maxEpoch
  recent : ∀ q, base < lastUse touches q → q ∈ W

/-- Since time `base`, when `b` was touched, the program has worked within `W`; `b` is in L1. -/
structure Window (b : Int) (base : Nat) (W : Finset Int) (mmu : MmuRuntime) (touches : List Int) : Prop where
  roomy : Roomy mmu touches
  resident : (mmu.block b).info.residentInL1 = true
  since : base ≤ lastUse touches b
  pinned : ∀ q, 0 < (mmu.block q).info.pinCount → q ∈ W

section Window

variable {mmu mmu' : MmuRuntime} {ctx : CtxHandle} {lb flags : UInt32} {touches touches' : List Int} {b : Int} {base : Nat}
  {W : Finset Int}

theorem Within.earlier (h : Within base W touches') (hs : touches <:+ touches') : Within base W touches :=
  ⟨hs.length_le.trans_lt h.clock, fun q hq => h.recent q (hq.trans_le (lastUse_mono hs q))⟩

/-- A call that moves nothing out of L1 and pins nothing. -/
theorem Window.settle (h : Window b base W mmu touches) (hs : touches <:+ touches') (hroomy : Roomy mmu' touches')
    (hresident : (mmu'.block b).info.residentInL1 = true)
    (hpins : ∀ q, 0 < (mmu'.block q).info.pinCount → 0 < (mmu.block q).info.pinCount) :
    Window b base W mmu' touches' :=
  ⟨hroomy, hresident, h.since.trans (lastUse_mono hs b), fun q hq => h.pinned q (hpins q hq)⟩

/-- A map does not evict `b`: it would be the oldest of a full L1, and everything else there, with the block coming in,
is one block too many for `W`. -/
theorem Window.map (h : Window b base W mmu touches) (hb : b ∈ W) (hfew : W.card ≤ mmu.config.l1ResidentBlockLimit)
    (hw : Within base W (mapTouches mmu ctx lb flags ++ touches)) {r : Except MmuError MappedBlock}
    (hm : mmuMapLogicalBlock mmu ctx lb flags = (r, mmu')) :
    Window b base W mmu' (mapTouches mmu ctx lb flags ++ touches) := by
  have hs := h.roomy.settled
  have hsuffix : touches <:+ mapTouches mmu ctx lb flags ++ touches := List.suffix_append _ _
  have hmapped : ∀ d, r = .ok d → d.physicalBlockId ∈ W := by
    intro d hd
    subst hd
    apply hw.recent
    rw [mapTouches_ok hs hm]
    have hle := (lastUse_le touches b)
    have hsince := h.since
    have hself : lastUse ([d.physicalBlockId, d.physicalBlockId] ++ touches) d.physicalBlockId =
        (d.physicalBlockId :: touches).length + 1 := lastUse_self ..
    rw [hself, List.length_cons]
    omega
  refine ⟨h.roomy.mapped hm, ?_, h.since.trans (lastUse_mono hsuffix b), ?_⟩
  · by_contra hgone
    have hev : Evicted mmu mmu' b := ⟨h.resident, hgone⟩
    have hleast : LeastRecent mmu touches b := by
      apply map_least hs h.roomy.clocked (hw.earlier hsuffix).clock ctx lb flags
      rw [hm]
      exact hev
    obtain ⟨d, hd, hout, hfull⟩ := map_crowded h.roomy hm hev
    have hsub : insert d.physicalBlockId mmu.residents ⊆ W := by
      intro q hq
      rcases Finset.mem_insert.mp hq with rfl | hq
      · exact hmapped d hd
      · by_cases hpin : 0 < (mmu.block q).info.pinCount
        · exact h.pinned q hpin
        · by_cases hqb : q = b
          · exact hqb ▸ hb
          · have holder := hleast.oldest q (hs.coherent.mem_residents.mp hq) (by omega) hqb
            have hmono := lastUse_mono hsuffix q
            have hsince := h.since
            exact hw.recent q (by omega)
    have hcard := Finset.card_le_card hsub
    rw [Finset.card_insert_of_notMem hout] at hcard
    omega
  · intro q hq
    rw [(map_step hs hm).pins] at hq
    split at hq
    next hmaps =>
      cases r with
      | ok d => exact (show d.physicalBlockId = q from hmaps) ▸ hmapped d rfl
      | error e => exact hmaps.elim
    next => exact h.pinned q hq

theorem unmap_resident (h : mmu.Settled) {d : MappedBlock} {r : Except MmuError Unit}
    (hu : mmuUnmapLogicalBlock mmu ctx d = (r, mmu')) (q : Int) :
    (mmu'.block q).info.residentInL1 = (mmu.block q).info.residentInL1 := by
  by_cases hroute : routedBlock mmu ctx d.logicalBlockId = some d.physicalBlockId
  · rw [mmuUnmapLogicalBlock_routed h hroute] at hu
    rcases unmapPinned_effect h (routed_live h hroute) hu with ⟨_, _, _, he⟩ | ⟨_, v, hv, he⟩
    · rw [he.blocks]
      refine BlockView.update_field (fun v => v.info.residentInL1) ?_ q
      rfl
    · have hsame : v.info.residentInL1 = (mmu.block d.physicalBlockId).info.residentInL1 := by
        rcases hv with ⟨_, rfl⟩ | ⟨_, _, rfl⟩ | ⟨_, _, ptr, rfl⟩
        · rfl
        · rfl
        · rfl
      rw [he.blocks]
      refine BlockView.update_field (fun v => v.info.residentInL1) ?_ q
      exact hsame
  · obtain ⟨e, he⟩ := mmuUnmapLogicalBlock_refused h hroute
    cases hu.symm.trans he
    rfl

theorem Window.unmap (h : Window b base W mmu touches) {d : MappedBlock} {r : Except MmuError Unit}
    (hu : mmuUnmapLogicalBlock mmu ctx d = (r, mmu')) : Window b base W mmu' (unmapTouches mmu ctx d ++ touches) := by
  have hs := h.roomy.settled
  have hroomy := h.roomy.unmapped ctx d
  rw [hu] at hroomy
  refine h.settle (List.suffix_append _ _) hroomy ((unmap_resident hs hu b).trans h.resident) ?_
  intro q hq
  have hle := unmap_pin_le hs hu q
  omega

theorem Window.unmapAll (ds : List MappedBlock) (h : Window b base W mmu touches) :
    Window b base W (unmapAll ctx ds mmu) (unmapsTouch ctx ds mmu touches) := by
  induction ds generalizing mmu touches with
  | nil => exact h
  | cons d rest ih =>
    unfold DsfMmu.unmapAll unmapsTouch
    rw [List.foldl_cons]
    exact ih (h.unmap rfl)

theorem batchTouches_failed {lbs : List UInt32} {done : List MappedBlock} {e : MmuError} {mid : MmuRuntime}
    (hm : mmuMapLogicalBlock mmu ctx lb flags = (.error e, mid)) :
    batchTouches ctx flags (lb :: lbs) done mmu touches =
      unmapsTouch ctx done mid (mapTouches mmu ctx lb flags ++ touches) := by
  rw [batchTouches, hm]

theorem batchTouches_mapped {lbs : List UInt32} {done : List MappedBlock} {d : MappedBlock} {mid : MmuRuntime}
    (hm : mmuMapLogicalBlock mmu ctx lb flags = (.ok d, mid)) :
    batchTouches ctx flags (lb :: lbs) done mmu touches =
      batchTouches ctx flags lbs (done ++ [d]) mid (mapTouches mmu ctx lb flags ++ touches) := by
  rw [batchTouches, hm]

/-- No map of a batch evicts `b`, nor does its rollback. -/
theorem Window.mapsLoop (lbs : List UInt32) (done : List MappedBlock) (h : Window b base W mmu touches) (hb : b ∈ W)
    (hfew : W.card ≤ mmu.config.l1ResidentBlockLimit) (hw : Within base W (batchTouches ctx flags lbs done mmu touches))
    {r : Except MmuError (List MappedBlock)} (hm : mapBlocksLoop ctx flags lbs done mmu = (r, mmu')) :
    Window b base W mmu' (batchTouches ctx flags lbs done mmu touches) := by
  induction lbs generalizing mmu touches done with
  | nil =>
    cases hm
    exact h
  | cons lb rest ih =>
    unfold mapBlocksLoop at hm
    split at hm
    next e mid hone =>
      cases hm
      rw [batchTouches_failed hone] at hw ⊢
      exact (h.map hb hfew (hw.earlier (unmapsTouch_suffix done mid _)) hone).unmapAll done
    next d mid hone =>
      rw [batchTouches_mapped hone] at hw ⊢
      have hmid := h.map hb hfew (hw.earlier (batchTouches_suffix rest _ mid _)) hone
      have hconfig := (map_clean h.roomy.settled hone).setup.config
      exact ih (done ++ [d]) hmid (by rw [hconfig]; exact hfew) hw hm

/-- Every call that leaves `b` in use leaves it in L1. -/
theorem Window.step (h : Window b base W mmu touches) (hb : b ∈ W) (hfew : W.card ≤ mmu.config.l1ResidentBlockLimit)
    {call : Call} (hp : Permitted mmu call) (hlive : (perform mmu call).2.Live b)
    (hw : Within base W (touchStep mmu call (perform mmu call).1 touches)) :
    Window b base W (perform mmu call).2 (touchStep mmu call (perform mmu call).1 touches) := by
  have hs := h.roomy.settled
  have hsuffix := touchStep_suffix mmu call (perform mmu call).1 touches
  have hroomy := h.roomy.next hp
  have hforgot : ∀ r, Forgot mmu (perform mmu call).2 r →
      Window b base W (perform mmu call).2 (touchStep mmu call (perform mmu call).1 touches) := by
    intro r hf
    refine h.settle hsuffix hroomy ?_ ?_
    · rw [hf.blocks b hlive]
      exact h.resident
    · intro q hq
      have hq' := hf.settled.live_of_pinned hq
      rw [hf.blocks q hq'] at hq
      exact hq
  have hsame : (∀ q, ((perform mmu call).2.block q).info = (mmu.block q).info) →
      Window b base W (perform mmu call).2 (touchStep mmu call (perform mmu call).1 touches) := by
    intro hinfo
    refine h.settle hsuffix hroomy ?_ ?_
    · rw [hinfo]
      exact h.resident
    · intro q hq
      rw [hinfo] at hq
      exact hq
  cases call with
  | createContext handle =>
    obtain ⟨r, hr⟩ := mmuCreateContext_routes mmu handle
    refine hsame fun q => ?_
    show ((mmuCreateContext mmu handle).2.block q).info = (mmu.block q).info
    rw [hr]
    rfl
  | destroyContext ctx =>
    obtain ⟨r, hf⟩ := mmuDestroyContext_forgets hs ctx
    exact hforgot r hf
  | forkContext src grows handle =>
    obtain ⟨r, hr⟩ := mmuForkContext_routes hs src grows handle
    refine hsame fun q => ?_
    show ((mmuForkContext mmu src grows handle).2.block q).info = (mmu.block q).info
    rw [hr]
    rfl
  | allocateBlocks ctx n =>
    obtain ⟨r, mmu', hr⟩ : ∃ r m, mmuAllocateBlocks mmu ctx n = (r, m) := ⟨_, _, rfl⟩
    have hend : (perform mmu (.allocateBlocks ctx n)).2 = mmu' := by simp only [perform, hr]
    rcases mmuAllocateBlocks_cases hs hr with
      ⟨_, _, rfl⟩ | ⟨_, _, _, _, _, _, _, _, _, _, rfl⟩ | ⟨_, _, ids, _, _, _, ht, _, _, hreg⟩
    · exact hsame fun q => by rw [hend]
    · exact hsame fun q => by rw [hend]; rfl
    · refine h.settle hsuffix hroomy ?_ ?_
      · -- a resident block is in use, so it was not among the free ones
        have hin := hs.coherent.live_of_resident h.resident
        have hold : b ∉ ids := by
          intro hnew
          have hzero := (ht.free b hnew).2
          have hpos : 0 < mmu.l1Allocator.refCounts.entry b := hin
          omega
        rw [hend, hreg.blocks b hold]
        exact h.resident
      · intro q hq
        rw [hend] at hq
        by_cases hnew : q ∈ ids
        · rw [IsFresh.unpinned (hreg.fresh q hnew)] at hq
          exact absurd hq (lt_irrefl 0)
        · rw [hreg.blocks q hnew] at hq
          exact hq
  | releaseLogicalBlock ctx lb =>
    obtain ⟨r, hf⟩ := mmuReleaseLogicalBlock_forgets hs ctx lb
    exact hforgot r hf
  | prepareBlockForWrite ctx lb =>
    obtain ⟨r, mmu', hr⟩ : ∃ r m, mmuPrepareBlockForWrite mmu ctx lb = (r, m) := ⟨_, _, rfl⟩
    have hend : (perform mmu (.prepareBlockForWrite ctx lb)).2 = mmu' := by simp only [perform, hr]
    refine h.settle hsuffix hroomy ?_ ?_
    · rw [hend, prepare_residents hs hr]
      exact h.resident
    · intro q hq
      rw [hend, (prepare_undisplaced hs hr).2] at hq
      exact hq
  | mapLogicalBlock ctx lb flags =>
    obtain ⟨r, mmu', hr⟩ : ∃ r m, mmuMapLogicalBlock mmu ctx lb flags = (r, m) := ⟨_, _, rfl⟩
    have hmap := h.map hb hfew hw hr
    simp only [perform, hr]
    exact hmap
  | mapLogicalBlocks ctx lbs flags =>
    obtain ⟨r, mmu', hr⟩ : ∃ r m, mmuMapLogicalBlocks mmu ctx lbs flags = (r, m) := ⟨_, _, rfl⟩
    have hmaps := h.mapsLoop lbs [] hb hfew hw hr
    simp only [perform, hr]
    exact hmaps
  | unmapLogicalBlock ctx d => exact h.unmap rfl
  | unmapLogicalBlocks ctx ds =>
    rw [perform_unmaps]
    exact h.unmapAll ds
  | hostWrite ctx d offset byte =>
    refine hsame fun q => ?_
    show ((hostWrite mmu d offset byte).block q).info = (mmu.block q).info
    rw [hostWrite_block]
    rfl

end Window

/-- The steps that leave `b` in use. -/
def LeavesInUse (b : Int) : MmuRuntime × List Int → Call → Reply → Prop := fun s call _ => (perform s.1 call).2.Live b

theorem Window.run {s t : MmuRuntime × List Int} {b : Int} {base : Nat} {W : Finset Int} (h : Window b base W s.1 s.2)
    (hb : b ∈ W) (hfew : W.card ≤ s.1.config.l1ResidentBlockLimit)
    (hrun : (machine.withGhost touchStep).Reach (LeavesInUse b) s t) (hw : Within base W t.2) :
    Window b base W t.1 t.2 ∧ t.1.config = s.1.config := by
  induction hrun with
  | start => exact ⟨h, rfl⟩
  | @next u call _ hp hlive ih =>
    obtain ⟨hwindow, hconfig⟩ := ih (hw.earlier (touchStep_suffix u.1 call (perform u.1 call).1 u.2))
    have hkept := perform_kept hwindow.roomy.settled hp trivial (eventsOf_any u.1 call)
    exact ⟨hwindow.step hb (by rw [hconfig]; exact hfew) hp hlive hw, hkept.setup.config.trans hconfig⟩

theorem Roomy.reached {start : MmuRuntime} {s : MmuRuntime × List Int} (h : Roomy start [])
    (hs : (machine.withGhost touchStep).Reach Machine.anyStep (start, []) s) :
    Roomy s.1 s.2 ∧ s.1.config = start.config := by
  refine hs.invariant (I := fun u => Roomy u.1 u.2 ∧ u.1.config = start.config) ⟨h, rfl⟩ ?_
  intro u call hu hp _
  have hkept := perform_kept hu.1.settled hp trivial (eventsOf_any u.1 call)
  exact ⟨hu.1.next hp, hkept.setup.config.trans hu.2⟩

/-- In every run a block that has just been touched stays in L1 as long as it is in use and, itself included, no more
blocks are pinned or touched than L1 holds. -/
theorem working_set_stays_resident {start : MmuRuntime} {s t : MmuRuntime × List Int} {b : Int} {recent : List Int}
    (hstart : Initial start) (hl2 : start.config.l2BlockCount = start.config.l1BlockCount)
    (hhost : ∀ n, start.host.reply n = .granted) (hs : (machine.withGhost touchStep).Reach Machine.anyStep (start, []) s)
    (hhead : s.2.head? = some b) (hresident : (s.1.block b).info.residentInL1 = true)
    (hrun : (machine.withGhost touchStep).Reach (LeavesInUse b) s t) (hrecent : t.2 = recent ++ s.2)
    (hclock : t.2.length < maxEpoch)
    (hfew : (insert b (s.1.pinnedBlocks ∪ recent.toFinset)).card ≤ start.config.l1ResidentBlockLimit) :
    (t.1.block b).info.residentInL1 = true := by
  obtain ⟨hroomy, hconfig⟩ := (Roomy.fresh hstart hl2 hhost).reached hs
  have hold := List.cons_head?_tail hhead
  have hwindow : Window b s.2.length (insert b (s.1.pinnedBlocks ∪ recent.toFinset)) s.1 s.2 := by
    refine ⟨hroomy, hresident, ?_, ?_⟩
    · rw [← hold, lastUse_self, List.length_cons]
    · intro q hq
      exact Finset.mem_insert_of_mem (Finset.mem_union_left _ ((mem_pinnedBlocks hroomy.settled).mpr hq))
  have hwithin : Within s.2.length (insert b (s.1.pinnedBlocks ∪ recent.toFinset)) t.2 := by
    refine ⟨hclock, fun q hq => ?_⟩
    rw [hrecent] at hq
    exact Finset.mem_insert_of_mem (Finset.mem_union_right _ (List.mem_toFinset.mpr (mem_of_lastUse hq)))
  rw [← hconfig] at hfew
  exact (hwindow.run (Finset.mem_insert_self ..) hfew hrun hwithin).1.resident

instance (b : Int) (s : MmuRuntime × List Int) (call : Call) (reply : Reply) : Decidable (LeavesInUse b s call reply) :=
  inferInstanceAs (Decidable (0 < (perform s.1 call).2.l1Allocator.refCounts.entry b))

/-- The third block is mapped twice over, and pushes out the second. -/
def thirdMapped : MmuRuntime × List Int :=
  (machine.withGhost touchStep).replay firstTouched [.mapLogicalBlock 1 2 mapRead, .mapLogicalBlock 1 2 mapRead]

theorem working_set_stays_resident_first : (thirdMapped.1.block 0).info.residentInL1 = true := by
  have hrun : (machine.withGhost touchStep).Reach (LeavesInUse 0) firstTouched thirdMapped :=
    .replay .start ⟨trivial, by decide +kernel, trivial, by decide +kernel, trivial⟩
  exact @working_set_stays_resident _ _ _ _ [2, 2, 2, 2] (smallInstance_initial 2 0) rfl (fun _ => rfl)
    (@reach_replay _ touchStep _ _ touchFirst .start (by decide +kernel)) (by decide +kernel) (by decide +kernel) hrun
    (by decide +kernel) (by decide +kernel) (by decide +kernel)

end DsfMmu
