import DsfMmu.BatchRollback
import DsfMmu.RepeatedMaps
import DsfMmu.TouchOrder

namespace DsfMmu

open MmuRuntime BlockManager Context LastUse

/-- The one unpinned resident block whose last touch is the earliest. -/
structure LeastRecent (mmu : MmuRuntime) (touches : List Int) (v : Int) : Prop where
  resident : (mmu.block v).info.residentInL1 = true
  unpinned : (mmu.block v).info.pinCount = 0
  oldest : ∀ q, (mmu.block q).info.residentInL1 = true → (mmu.block q).info.pinCount = 0 → q ≠ v →
    lastUse touches v < lastUse touches q

/-- Block `v` is in L1 before a call and not after it. -/
def Evicted (mmu mmu' : MmuRuntime) (v : Int) : Prop :=
  (mmu.block v).info.residentInL1 = true ∧ ¬(mmu'.block v).info.residentInL1 = true

/-- What a map evicts is the least recently touched block. -/
def MapEvictsLru (mmu : MmuRuntime) (touches : List Int) (ctx : CtxHandle) (lb flags : UInt32) : Prop :=
  ∀ v, Evicted mmu (mmuMapLogicalBlock mmu ctx lb flags).2 v → LeastRecent mmu touches v

/-- So does each map of a batch, at the state and after the touches of its turn, before the epoch is used up. -/
def TurnsEvictLru (ctx : CtxHandle) (flags : UInt32) : List UInt32 → MmuRuntime → List Int → Prop
  | [], _, _ => True
  | lb :: rest, mmu, touches =>
    (touches.length < maxEpoch → MapEvictsLru mmu touches ctx lb flags) ∧
      ∀ mid ∈ nextTurn mmu ctx lb flags, TurnsEvictLru ctx flags rest mid (mapTouches mmu ctx lb flags ++ touches)

structure EvictsLru (mmu : MmuRuntime) (touches : List Int) : Prop where
  map : ∀ ctx lb flags, MapEvictsLru mmu touches ctx lb flags
  mapAll : ∀ ctx lbs flags, TurnsEvictLru ctx flags lbs mmu touches
  pick : ∀ p, pickEvictionCandidate mmu p = -1 ↔
    ∀ q, (mmu.block q).info.residentInL1 = true → q ≠ p → 0 < (mmu.block q).info.pinCount

section Lru

variable {mmu mmu' : MmuRuntime} {ctx : CtxHandle} {lb flags : UInt32} {touches : List Int} {p v : Int}

/-- Until the epoch is used up the stamps are the times themselves. -/
theorem Clocked.stamp_eq (hc : Clocked mmu touches) (hlen : touches.length < maxEpoch)
    (hr : (mmu.block p).info.residentInL1 = true) :
    (mmu.block p).info.lastAccessEpoch = lastUse touches p ∧ lastUse touches p < maxEpoch := by
  have hle := lastUse_le touches p
  have hstamp := hc.stamp p hr
  unfold maxEpoch at hlen ⊢
  rw [Nat.mod_eq_of_lt (by omega)] at hstamp
  exact ⟨hstamp, by omega⟩

/-- The scan finds no victim if there is none, and else the victim touched first of all. -/
theorem pick_oldest (h : mmu.Settled) (hc : Clocked mmu touches) (hlen : touches.length < maxEpoch) (p : Int) :
    (pickEvictionCandidate mmu p = -1 ∧ ∀ q, ¬Victim mmu p q) ∨
      (Victim mmu p (pickEvictionCandidate mmu p) ∧ ∀ q, Victim mmu p q → q ≠ pickEvictionCandidate mmu p →
        lastUse touches (pickEvictionCandidate mmu p) < lastUse touches q) := by
  rcases pickEvictionCandidate_cases h.coherent.sound p with ⟨hnone, hall⟩ | ⟨hvictim, hall⟩
  · refine .inl ⟨hnone, ?_⟩
    intro q hq
    have hmax := hall q hq
    obtain ⟨hstamp, hlt⟩ := hc.stamp_eq hlen hq.resident
    omega
  · refine .inr ⟨hvictim, ?_⟩
    intro q hq hne
    have hle := hall q hq
    have hstamp := (hc.stamp_eq hlen hvictim.resident).1
    have hstamp' := (hc.stamp_eq hlen hq.resident).1
    have hdiffer : lastUse touches q ≠ lastUse touches (pickEvictionCandidate mmu p) :=
      fun he => hne (lastUse_inj (hc.touched q hq.resident) he)
    omega

theorem pick_none_iff (h : mmu.Settled) (hc : Clocked mmu touches) (hlen : touches.length < maxEpoch) (p : Int) :
    pickEvictionCandidate mmu p = -1 ↔
      ∀ q, (mmu.block q).info.residentInL1 = true → q ≠ p → 0 < (mmu.block q).info.pinCount := by
  rcases pick_oldest h hc hlen p with ⟨hnone, hall⟩ | ⟨hvictim, _⟩
  · refine ⟨fun _ q hr hne => ?_, fun _ => hnone⟩
    have hpin : (mmu.block q).info.pinCount ≠ 0 := fun hz => hall q ((victim_iff h.coherent).mpr ⟨hr, hne, hz⟩)
    omega
  · have hpos := hvictim.nonneg
    refine ⟨fun hnone => by omega, fun hall => ?_⟩
    have hpin := hall _ hvictim.resident hvictim.other
    have hzero := hvictim.unpinned
    omega

/-- A block that has to get into L1 pushes out the least recently touched one, if any. -/
theorem evict_least (h : mmu.Settled) (hc : Clocked mmu touches) (hlen : touches.length < maxEpoch)
    (hout : (mmu.block p).info.residentInL1 = false) {r : Except MmuError Unit}
    (he : evictForRoom mmu p = (r, mmu')) (hv : Evicted mmu mmu' v) : LeastRecent mmu touches v := by
  obtain ⟨hin, hgone⟩ := hv
  rw [evictForRoom_eq h.coherent, evictOnce] at he
  split at he
  next =>
    obtain ⟨_, rfl⟩ := Prod.mk.inj he
    exact absurd hin hgone
  next =>
    split at he
    next =>
      obtain ⟨_, rfl⟩ := Prod.mk.inj he
      exact absurd hin hgone
    next hneg =>
      have hs := h.coherent.sound
      cases r with
      | error e =>
        rw [(moveBlockToL2_error hs he).blocks] at hgone
        exact absurd hin hgone
      | ok u =>
        have hpick := pickEvictionCandidate_nonneg hneg
        obtain ⟨ptr, heff⟩ := moveBlockToL2_ok hs (h.valid (hpick.is_live h.coherent)) hpick.resident he
        have hsame : v = pickEvictionCandidate mmu p := by
          by_contra hne
          rw [heff.blocks, Function.update_of_ne hne] at hgone
          exact hgone hin
        rcases pick_oldest h hc hlen p with ⟨_, hall⟩ | ⟨_, hall⟩
        · exact absurd hpick (hall _)
        · rw [hsame]
          refine ⟨hpick.resident, hpick.unpinned, ?_⟩
          intro q hr hz hne
          have hqp : q ≠ p := by
            intro heq
            subst heq
            rw [hout] at hr
            cases hr
          exact hall q ((victim_iff h.coherent).mpr ⟨hr, hqp, hz⟩) hne

theorem ensure_least (h : mmu.Settled) (hc : Clocked mmu touches) (hlen : touches.length < maxEpoch)
    (hp : mmu.Live p) {r : Except MmuError Unit} (he : ensureResidentInL1 mmu p = (r, mmu'))
    (hv : Evicted mmu mmu' v) : LeastRecent mmu touches v := by
  obtain ⟨hin, hgone⟩ := hv
  cases hr : (mmu.block p).info.residentInL1 with
  | true =>
    rw [ensureResidentInL1_inside h hp hr] at he
    obtain ⟨_, rfl⟩ := Prod.mk.inj he
    have hblock := (touchBlock_effect h.coherent.sound (h.valid hp)).blocks
    have hsame : ((touchBlock mmu p).block v).info.residentInL1 = (mmu.block v).info.residentInL1 := by
      rw [hblock]
      refine BlockView.update_field (fun v => v.info.residentInL1) ?_ v
      rfl
    exact absurd (hsame.trans hin) hgone
  | false =>
    rw [ensureResidentInL1_outside h hp hr] at he
    split at he
    next hroom =>
      obtain ⟨rfl, rfl⟩ := Prod.mk.inj he
      exact evict_least h hc hlen hr hroom ⟨hin, hgone⟩
    next mid hroom =>
      obtain ⟨hq, hlt, hev⟩ := evictForRoom_ok h.coherent hroom
      refine evict_least h hc hlen hr hroom ⟨hin, ?_⟩
      intro hmid
      cases r with
      | error e =>
        rw [(hq.coherent.promote_error hlt he).2] at hgone
        exact hgone hmid
      | ok u =>
        have hpmid : (mid.block p).info.residentInL1 = false := by
          rw [hev.self]
          exact hr
        obtain ⟨ptr, _, hblock⟩ := hq.coherent.promote hp hpmid hlt he
        have hvp : v ≠ p := by
          intro heq
          subst heq
          rw [hpmid] at hmid
          cases hmid
        rw [hblock, Function.update_of_ne hvp] at hgone
        exact hgone hmid

theorem LeastRecent.congr (hr : ∀ q, (mmu'.block q).info.residentInL1 = (mmu.block q).info.residentInL1)
    (hpins : ∀ q, (mmu'.block q).info.pinCount = (mmu.block q).info.pinCount) (h : LeastRecent mmu' touches v) :
    LeastRecent mmu touches v := by
  refine ⟨(hr v).symm.trans h.resident, (hpins v).symm.trans h.unpinned, ?_⟩
  intro q hq hz
  exact h.oldest q ((hr q).trans hq) ((hpins q).trans hz)

theorem prepare_residents (h : mmu.Settled) {r : Except MmuError Int}
    (hr : mmuPrepareBlockForWrite mmu ctx lb = (r, mmu')) (q : Int) :
    (mmu'.block q).info.residentInL1 = (mmu.block q).info.residentInL1 := by
  rcases mmuPrepareBlockForWrite_cases h hr with
    ⟨_, rfl, _⟩ | ⟨_, _, _, _, _, _, _, _, rfl⟩ | ⟨c, lvid, b, new, bm, w, _, _, _, _, ht, hm, hw⟩
  · rfl
  · rfl
  · have hunused : (mmu.block new).info.residentInL1 = false := by
      rw [(taken_new h ht).2]
      rfl
    have hclone : w.info.residentInL1 = false := by
      rcases hw with ⟨⟨ptr, rfl⟩, _⟩ | ⟨rfl, _⟩
      · rfl
      · rfl
    rw [hm.blocks]
    exact BlockView.update_field (fun v => v.info.residentInL1) (hclone.trans hunused.symm) q

/-- Neither the preparation nor what follows `EnsureResidentInL1` takes a block out of L1. -/
theorem map_least (h : mmu.Settled) (hc : Clocked mmu touches) (hlen : touches.length < maxEpoch)
    (ctx : CtxHandle) (lb flags : UInt32) : MapEvictsLru mmu touches ctx lb flags := by
  obtain ⟨r, mmu', hm⟩ : ∃ r m, mmuMapLogicalBlock mmu ctx lb flags = (r, m) := ⟨_, _, rfl⟩
  unfold MapEvictsLru
  rw [hm]
  intro v hv
  obtain ⟨hin, hgone⟩ := hv
  rcases map_stages h hm with ⟨_, _, rfl | ⟨e, hr⟩⟩ | ⟨mid, c, lvid, p, hres⟩
  · exact absurd hin hgone
  · rw [prepare_residents h hr] at hgone
    exact absurd hin hgone
  · have hmid : Clocked mid touches ∧ (∀ q, (mid.block q).info.residentInL1 = (mmu.block q).info.residentInL1) ∧
        ∀ q, (mid.block q).info.pinCount = (mmu.block q).info.pinCount := by
      rcases hres.before with rfl | ⟨b, hr⟩
      · exact ⟨hc, fun _ => rfl, fun _ => rfl⟩
      · exact ⟨prepare_clocked h hc hr, prepare_residents h hr, (prepare_undisplaced h hr).2⟩
    obtain ⟨hclock, hresidents, hpins⟩ := hmid
    obtain ⟨re, m1, hens, hrest⟩ := mapResolved_stages hres.settled hres.names hres.rest
    have hout : ¬(m1.block v).info.residentInL1 = true := by
      intro hstill
      rcases hrest with ⟨_, _, hblocks⟩ | ⟨d, w, _, _, _, _, hblocks, hw, _⟩
      · rw [hblocks] at hgone
        exact hgone hstill
      · rw [hblocks] at hgone
        by_cases hvp : v = p
        · rw [hvp, Function.update_self] at hgone
          exact hgone hw
        · rw [Function.update_of_ne hvp] at hgone
          exact hgone hstill
    have hleast := ensure_least hres.settled hclock hlen hres.names.live hens ⟨(hresidents v).trans hin, hout⟩
    exact hleast.congr hresidents hpins

theorem turns_least (lbs : List UInt32) (h : mmu.Settled) (hc : Clocked mmu touches) :
    TurnsEvictLru ctx flags lbs mmu touches := by
  induction lbs generalizing mmu touches with
  | nil => trivial
  | cons lb rest ih =>
    refine ⟨fun hlen => map_least h hc hlen ctx lb flags, ?_⟩
    intro mid hmid
    obtain ⟨r, mmu', hm⟩ : ∃ r m, mmuMapLogicalBlock mmu ctx lb flags = (r, m) := ⟨_, _, rfl⟩
    have hnext : mid = mmu' := by
      unfold nextTurn at hmid
      rw [hm] at hmid
      cases r with
      | error e => cases hmid
      | ok d => exact (Option.some.inj hmid).symm
    rw [hnext]
    exact ih (map_clean h hm).settled (map_clocked h hc hm)

end Lru

theorem new_clocked {mmu : MmuRuntime} (h : Initial mmu) : Clocked mmu [] := by
  obtain ⟨config, env, rfl⟩ := initial_new h
  have hnone : ∀ p, ¬((MmuRuntime.new config env).block p).info.residentInL1 = true := by
    intro p hr
    have hunused : (MmuRuntime.new config env).block p = .unused := rfl
    rw [hunused] at hr
    exact Bool.false_ne_true hr
  exact ⟨rfl, fun p hr => absurd hr (hnone p), fun p hr => absurd hr (hnone p)⟩

/-- In every run of fewer touches than the epoch can count, each map evicts the least recently touched of the
unpinned residents, and the scan comes back without a victim only where there is none. -/
theorem eviction_is_lru {start : MmuRuntime} {t : MmuRuntime × List Int} (hstart : Initial start)
    (h : (machine.withGhost touchStep).Reach Machine.anyStep (start, []) t) (hlen : t.2.length < maxEpoch) :
    EvictsLru t.1 t.2 := by
  have hr : Reachable start := ⟨start, hstart, .start⟩
  have hinv : t.1.Settled ∧ Clocked t.1 t.2 := by
    refine h.invariant (I := fun s => s.1.Settled ∧ Clocked s.1 s.2) ⟨hr.settled, new_clocked hstart⟩ ?_
    intro s call hs hp _
    have hperm : Permitted s.1 call := hp
    have hkept := perform_kept hs.1 hperm trivial (eventsOf_any s.1 call)
    exact ⟨hkept.settled, perform_clocked hs.1 hs.2 call⟩
  obtain ⟨hs, hc⟩ := hinv
  refine ⟨map_least hs hc hlen, ?_, pick_none_iff hs hc hlen⟩
  intro ctx lbs flags
  exact turns_least lbs hs hc

def touchFirst : List Call :=
  [.createContext (some 1), .allocateBlocks 1 3, .mapLogicalBlock 1 0 mapRead,
    .unmapLogicalBlock 1 ⟨⟨0, 3⟩, 4, 0, 0, mapRead⟩]

/-- Two residents and a third block outside L1; the first block was touched last. -/
def firstTouched : MmuRuntime × List Int := (machine.withGhost touchStep).replay (smallInstance 2 0, []) touchFirst

theorem eviction_is_lru_second : LeastRecent firstTouched.1 firstTouched.2 1 := by
  have hlru := eviction_is_lru (smallInstance_initial 2 0)
    (@reach_replay _ touchStep _ _ touchFirst .start (by decide +kernel)) (by decide +kernel)
  exact hlru.map 1 2 mapRead 1 ⟨by decide +kernel, by decide +kernel⟩

/-! An epoch that wraps. -/

@[irreducible] def twoResidents : MmuRuntime := machine.replay (smallInstance 2 0) touchFirst

theorem twoResidents_reachable : Reachable twoResidents := by
  unfold twoResidents
  exact (smallInstance_reachable 2 0).replay (by decide +kernel)

/-- READ maps of the first block, each unmapped again, until the epoch is about to wrap. -/
theorem twoResidents_reach (n : Nat) (hn : twoResidents.epoch + 3 * n < 2 ^ 64) :
    ∃ touches, (machine.withGhost touchStep).Reach Machine.anyStep (smallInstance 2 0, [])
      (repinned twoResidents 0 0 (twoResidents.epoch + 3 * n), touches) := by
  induction n with
  | zero =>
    have hpins : (twoResidents.blockDirectory.metas.entry 0).pinCount = 0 := by decide +kernel
    have hself := @repinned_self twoResidents 0 (by decide +kernel)
    rw [hpins] at hself
    rw [Nat.mul_zero, Nat.add_zero, hself]
    unfold twoResidents
    exact reach_replay_fst .start (by decide +kernel)
  | succ n ih =>
    obtain ⟨touches, hprev⟩ := ih (by omega)
    have hbase := twoResidents_reachable.settled
    have hroute : routedBlock twoResidents 1 0 = some 0 := by decide +kernel
    have hpage : twoResidents.page .l1 0 = some ⟨⟨0, 3⟩, twoResidents.l1Pool.bytes ⟨0, 3⟩⟩ :=
      page_eq_some.mpr ⟨by decide +kernel, rfl⟩
    have hsettled : ∀ {s touches}, (machine.withGhost touchStep).Reach Machine.anyStep (smallInstance 2 0, [])
        (s, touches) → s.Settled := by
      intro s touches h
      exact Reachable.settled ⟨_, smallInstance_initial 2 0, h.forget (fun _ _ _ hc => hc)⟩
    have hmap := repinned_map hbase hroute hpage (hsettled hprev)
    obtain ⟨touches', hmapped⟩ := @reach_perform _ _ _ _ _ (.mapLogicalBlock 1 0 mapRead) hprev trivial
    simp only [perform, hmap, nextPinCount_lt (show 0 + 1 < 2 ^ 32 by omega)] at hmapped
    have hunmap := repinned_unmap hbase hroute (hsettled hmapped) ⟨0, 3⟩ 4
    obtain ⟨touches'', hend⟩ := @reach_perform _ _ _ _ _
      (.unmapLogicalBlock 1 ⟨⟨0, 3⟩, 4, 0, 0, mapRead⟩) hmapped trivial
    simp only [perform, hunmap] at hend
    have hepoch : nextEpoch (nextEpoch (nextEpoch (twoResidents.epoch + 3 * n))) =
        twoResidents.epoch + 3 * (n + 1) := by
      unfold nextEpoch
      omega
    rw [hepoch] at hend
    exact ⟨touches'', hend⟩

/-- The second block is mapped and unmapped when the epoch has one count left. -/
def beforeWrap : MmuRuntime := repinned twoResidents 0 0 (twoResidents.epoch + 3 * ((2 ^ 64 - 7) / 3))

def acrossWrap : MmuRuntime := (perform beforeWrap (.mapLogicalBlock 1 1 mapRead)).2

def afterWrap : MmuRuntime := (perform acrossWrap (.unmapLogicalBlock 1 ⟨⟨0, 2⟩, 4, 1, 1, mapRead⟩)).2

/-- The second block, touched across the wrap, carries the smaller stamp and is evicted before the first, which
has not been touched for longer. -/
theorem wrapped_epoch_evicts_newer : ∃ touches,
    (machine.withGhost touchStep).Reach Machine.anyStep (smallInstance 2 0, []) (afterWrap, touches) ∧
      afterWrap.epoch < 2 ^ 64 - 1 ∧
      Evicted afterWrap (mmuMapLogicalBlock afterWrap 1 2 mapRead).2 1 ∧
      (afterWrap.block 0).info.residentInL1 = true ∧ (afterWrap.block 0).info.pinCount = 0 ∧
      lastUse touches 0 < lastUse touches 1 ∧ ¬MapEvictsLru afterWrap touches 1 2 mapRead := by
  have hepoch : twoResidents.epoch = 5 := by decide +kernel
  obtain ⟨touches, hbefore⟩ := twoResidents_reach ((2 ^ 64 - 7) / 3) (by omega)
  have hsettled : beforeWrap.Settled :=
    Reachable.settled ⟨_, smallInstance_initial 2 0, hbefore.forget (fun _ _ _ hc => hc)⟩
  have hmap : (mmuMapLogicalBlock beforeWrap 1 1 mapRead).1 = .ok ⟨⟨0, 2⟩, 4, 1, 1, mapRead⟩ := by decide +kernel
  have htwice : mapTouches beforeWrap 1 1 mapRead = [1, 1] := mapTouches_ok hsettled (Prod.ext hmap rfl)
  have honce : unmapTouches acrossWrap 1 ⟨⟨0, 2⟩, 4, 1, 1, mapRead⟩ = [1] := by decide +kernel
  have hacross := @Machine.Reach.next _ _ _ _ _ _ _ (Call.mapLogicalBlock 1 1 mapRead) hbefore trivial trivial
  have hafter := @Machine.Reach.next _ _ _ _ _ _ _
    (Call.unmapLogicalBlock 1 ⟨⟨0, 2⟩, 4, 1, 1, mapRead⟩) hacross trivial trivial
  have hlast : lastUse ([1] ++ ([1, 1] ++ touches)) 0 < lastUse ([1] ++ ([1, 1] ++ touches)) 1 := by
    have hle := lastUse_le touches 0
    have hnew : lastUse ([1] ++ ([1, 1] ++ touches)) 1 = touches.length + 3 := lastUse_self 1 (1 :: 1 :: touches)
    have hold : lastUse ([1] ++ ([1, 1] ++ touches)) 0 = lastUse touches 0 := rfl
    omega
  have hevicted : Evicted afterWrap (mmuMapLogicalBlock afterWrap 1 2 mapRead).2 1 :=
    ⟨by decide +kernel, by decide +kernel⟩
  have hresident : (afterWrap.block 0).info.residentInL1 = true := by decide +kernel
  have hunpinned : (afterWrap.block 0).info.pinCount = 0 := by decide +kernel
  refine ⟨[1] ++ ([1, 1] ++ touches), ?_, by decide +kernel, hevicted, hresident, hunpinned, hlast, ?_⟩
  · have hghost : [1] ++ ([1, 1] ++ touches) = unmapTouches acrossWrap 1 ⟨⟨0, 2⟩, 4, 1, 1, mapRead⟩ ++
        (mapTouches beforeWrap 1 1 mapRead ++ touches) := by
      rw [honce, htwice]
    rw [hghost]
    exact hafter
  · intro hlru
    have hless := (hlru 1 hevicted).oldest 0 hresident hunpinned (by decide)
    omega

end DsfMmu
