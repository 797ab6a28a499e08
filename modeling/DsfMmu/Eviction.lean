import DsfMmu.LeastKey
import DsfMmu.Residence

namespace DsfMmu

open MmuRuntime LeastKey

section Victims

variable {mmu mmu' : MmuRuntime} {live : Int → Prop} {p : Int}

theorem mem_scanIds : p ∈ scanIds mmu ↔ mmu.Valid p := by
  unfold scanIds MmuRuntime.Valid
  rw [IntTable.mem_indices, List.mem_map]
  constructor
  · intro hex
    obtain ⟨n, hn, rfl⟩ := hex
    have := List.mem_range.mp hn
    refine ⟨Int.natCast_nonneg n, ?_⟩
    show (n : Int) < _
    omega
  · intro hboth
    obtain ⟨h0, h1⟩ := hboth
    refine ⟨p.toNat, List.mem_range.mpr (by omega), ?_⟩
    show ((p.toNat : Nat) : Int) = p
    omega

/-- A block `PickEvictionCandidate` may settle on. -/
structure Victim (mmu : MmuRuntime) (protectedPbid v : Int) : Prop where
  valid : mmu.blockDirectory.isValid v
  allocated : (mmu.block v).info.allocated = true
  resident : (mmu.block v).info.residentInL1 = true
  other : v ≠ protectedPbid
  unpinned : (mmu.block v).info.pinCount = 0

instance (mmu : MmuRuntime) (p : Int) : DecidablePred (Victim mmu p) := fun v =>
  decidable_of_iff (mmu.blockDirectory.isValid v ∧ (mmu.block v).info.allocated = true ∧
      (mmu.block v).info.residentInL1 = true ∧ v ≠ p ∧ (mmu.block v).info.pinCount = 0)
    ⟨fun h => ⟨h.1, h.2.1, h.2.2.1, h.2.2.2.1, h.2.2.2.2⟩,
      fun h => ⟨h.valid, h.allocated, h.resident, h.other, h.unpinned⟩⟩

theorem considerVictim_eq (mmu : MmuRuntime) (p : Int) :
    considerVictim mmu p = keepLess (Victim mmu p) (fun q => (mmu.block q).info.lastAccessEpoch) := by
  funext best q
  unfold considerVictim keepLess
  by_cases hv : mmu.blockDirectory.isValid q
  · rw [BlockDirectory.get_eq_some hv]
    have hinfo : mmu.blockDirectory.metas.entry q = (mmu.block q).info := rfl
    dsimp only
    rw [hinfo]
    split
    next hout =>
      rw [if_neg]
      intro hboth
      obtain ⟨hvictim, -⟩ := hboth
      have hin := hvictim.allocated
      have hres := hvictim.resident
      rcases hout with hout | hout <;> simp [hout] at hin hres
    next hin =>
      simp only [not_or, Bool.not_eq_false] at hin
      split
      next hsame => rw [if_neg fun hc => hc.1.other hsame]
      next hother =>
        split
        next hpinned =>
          rw [if_neg]
          intro hboth
          obtain ⟨hvictim, -⟩ := hboth
          have hpin := hvictim.unpinned
          omega
        next hunpinned =>
          have hvictim : Victim mmu p q := ⟨hv, hin.1, hin.2, hother, by omega⟩
          simp only [hvictim, true_and]
  · have hnone : mmu.blockDirectory.get q = none := if_neg hv
    rw [hnone, if_neg fun hc => hv hc.1.valid]

theorem scan_least (mmu : MmuRuntime) (p : Int) :
    Least (Victim mmu p) (fun q => (mmu.block q).info.lastAccessEpoch) (scanIds mmu) (-1, maxEpoch)
      ((scanIds mmu).foldl (considerVictim mmu p) (-1, maxEpoch)) := by
  rw [considerVictim_eq]
  exact foldl_least _ _

theorem pickEvictionCandidate_victim (mmu : MmuRuntime) (p : Int) :
    pickEvictionCandidate mmu p = -1 ∨ Victim mmu p (pickEvictionCandidate mmu p) := by
  rcases (scan_least mmu p).kept with he | ⟨_, hvictim, _⟩
  · exact .inl (congrArg Prod.fst he)
  · exact .inr hvictim

/-- The scan settles on a victim touched the longest time ago, if any victim's epoch is below the maximum. -/
theorem pickEvictionCandidate_cases (hs : mmu.Sound) (p : Int) :
    (pickEvictionCandidate mmu p = -1 ∧ ∀ q, Victim mmu p q → maxEpoch ≤ (mmu.block q).info.lastAccessEpoch) ∨
      (Victim mmu p (pickEvictionCandidate mmu p) ∧ ∀ q, Victim mmu p q →
        (mmu.block (pickEvictionCandidate mmu p)).info.lastAccessEpoch ≤ (mmu.block q).info.lastAccessEpoch) := by
  have hleast := scan_least mmu p
  have hscan : ∀ q, Victim mmu p q → ((scanIds mmu).foldl (considerVictim mmu p) (-1, maxEpoch)).2 ≤
      (mmu.block q).info.lastAccessEpoch :=
    fun q hq => hleast.least q (mem_scanIds.mpr (hs.meta_inRange.mp hq.valid)) hq
  rcases hleast.kept with he | ⟨_, hvictim, hkey, _⟩
  · rw [he] at hscan
    exact .inl ⟨congrArg Prod.fst he, hscan⟩
  · rw [hkey] at hscan
    exact .inr ⟨hvictim, hscan⟩

theorem pickEvictionCandidate_nonneg (hv : ¬pickEvictionCandidate mmu p < 0) :
    Victim mmu p (pickEvictionCandidate mmu p) := by
  rcases pickEvictionCandidate_victim mmu p with he | hvictim
  · rw [he] at hv
    exact absurd (by decide) hv
  · exact hvictim

theorem Victim.is_live {v : Int} (h : Victim mmu p v) (hc : mmu.Coherent live) : live v :=
  hc.live_iff.mp h.allocated

/-- Where directory and pools agree, any unpinned resident but the protected one will do. -/
theorem victim_iff {v : Int} (h : mmu.Coherent live) : Victim mmu p v ↔
    (mmu.block v).info.residentInL1 = true ∧ v ≠ p ∧ (mmu.block v).info.pinCount = 0 := by
  constructor
  · intro hv
    exact ⟨hv.resident, hv.other, hv.unpinned⟩
  · intro hboth
    obtain ⟨hr, hne, hpin⟩ := hboth
    have hlive := h.live_of_resident hr
    exact ⟨h.sound.meta_inRange.mpr (h.valid v hlive), h.live_iff.mpr hlive, hr, hne, hpin⟩

theorem Victim.nonneg {v : Int} (h : Victim mmu p v) : 0 ≤ v := h.valid.1

end Victims

section Eviction

variable {mmu mmu' : MmuRuntime} {live : Int → Prop} {p : Int}

/-- What the eviction loop does when the counter is exact: at most one block leaves L1. -/
def evictOnce (mmu : MmuRuntime) (physicalBlockId : Int) : Except MmuError Unit × MmuRuntime :=
  if mmu.residentCount < mmu.residentLimit then (.ok (), mmu)
  else if pickEvictionCandidate mmu physicalBlockId < 0 then (.error .outOfMemory, mmu)
  else moveBlockToL2 mmu (pickEvictionCandidate mmu physicalBlockId)

/-- The victim of a full L1 leaves room. -/
theorem evict_victim (h : mmu.Coherent live) {u : Unit} (hfull : ¬mmu.residentCount < mmu.residentLimit)
    (hv : ¬pickEvictionCandidate mmu p < 0)
    (hm : moveBlockToL2 mmu (pickEvictionCandidate mmu p) = (.ok u, mmu')) :
    ∃ v ptr, v ≠ p ∧ (mmu.block v).info.pinCount = 0 ∧ Quiet live mmu mmu' ∧
      mmu'.residentCount < mmu'.residentLimit ∧
      mmu'.block = Function.update mmu.block v ((mmu.block v).demoted mmu.zeroPage v ptr) := by
  have hvictim := pickEvictionCandidate_nonneg hv
  have hlive := hvictim.is_live h
  obtain ⟨ptr, hq, hcount, hblock⟩ := h.evict hlive hvictim.resident hvictim.unpinned hm
  have hlimit := h.limit
  have hsame := hq.routing.limit
  exact ⟨_, ptr, hvictim.other, hvictim.unpinned, hq, by omega, hblock⟩

/-- Two rounds are always enough, since the first one leaves room. -/
theorem evictionLoop_eq (h : mmu.Coherent live) (p : Int) (rounds : Nat) :
    evictionLoop p (rounds + 2) mmu = some (evictOnce mmu p) := by
  rw [evictionLoop, evictOnce]
  split
  next => rfl
  next hfull =>
    dsimp only
    split
    next => rfl
    next hv =>
      cases hm : moveBlockToL2 mmu (pickEvictionCandidate mmu p) with
      | mk r mmu' =>
        cases r with
        | error e => rfl
        | ok u =>
          obtain ⟨_, _, _, _, _, hroom, _⟩ := evict_victim h hfull hv hm
          simp only [evictionLoop, hroom, if_true]

/-- With any budget above `resident_count` the loop ends by itself. -/
theorem evictionLoop_total (h : mmu.Coherent live) (p : Int) {rounds : Nat}
    (hr : mmu.residentCount < rounds) : evictionLoop p rounds mmu = some (evictOnce mmu p) := by
  have hpos := h.sound.limit_pos
  match rounds, hr with
  | 1, hr =>
    have hroom : mmu.residentCount < mmu.residentLimit := by omega
    simp only [evictionLoop, evictOnce, hroom, if_true]
  | rounds + 2, _ => exact evictionLoop_eq h p rounds

theorem evictForRoom_eq (h : mmu.Coherent live) (p : Int) : evictForRoom mmu p = evictOnce mmu p := by
  rw [evictForRoom, evictionLoop_total h p (Nat.lt_succ_self _)]
  rfl

/-- All blocks are as before, or all but one unpinned block other than `p` that left L1. -/
def EvictedAtMostOne (p : Int) (mmu mmu' : MmuRuntime) : Prop :=
  mmu'.block = mmu.block ∨
    ∃ v ptr, v ≠ p ∧ (mmu.block v).info.pinCount = 0 ∧
      mmu'.block = Function.update mmu.block v ((mmu.block v).demoted mmu.zeroPage v ptr)

theorem EvictedAtMostOne.self (h : EvictedAtMostOne p mmu mmu') : mmu'.block p = mmu.block p := by
  rcases h with h | ⟨v, ptr, hv, -, h⟩
  · rw [h]
  · rw [h, Function.update_of_ne hv.symm]

theorem evictForRoom_ok (h : mmu.Coherent live) {u : Unit} (he : evictForRoom mmu p = (.ok u, mmu')) :
    Quiet live mmu mmu' ∧ mmu'.residentCount < mmu'.residentLimit ∧ EvictedAtMostOne p mmu mmu' := by
  rw [evictForRoom_eq h, evictOnce] at he
  split at he
  next hlt =>
    cases he
    exact ⟨h.quiet_refl, hlt, .inl rfl⟩
  next hfull =>
    split at he
    next => cases he
    next hv =>
      obtain ⟨v, ptr, hne, hpin, hq, hroom, hblock⟩ := evict_victim h hfull hv he
      exact ⟨hq, hroom, .inr ⟨v, ptr, hne, hpin, hblock⟩⟩

theorem evictForRoom_error (h : mmu.Coherent live) {e : MmuError}
    (he : evictForRoom mmu p = (.error e, mmu')) : Quiet live mmu mmu' ∧ mmu'.block = mmu.block := by
  rw [evictForRoom_eq h, evictOnce] at he
  split at he
  next => cases he
  next =>
    split at he
    next =>
      cases he
      exact ⟨h.quiet_refl, rfl⟩
    next => exact h.evict_error he

end Eviction

section Ensure

variable {mmu mmu' : MmuRuntime} {p : Int}

namespace MmuRuntime

theorem Settled.valid (h : mmu.Settled) (hp : mmu.Live p) : mmu.Valid p := h.coherent.valid p hp

theorem Settled.get_meta (h : mmu.Settled) (hp : mmu.Live p) :
    mmu.blockDirectory.get p = some (mmu.block p).info :=
  BlockDirectory.get_eq_some (h.coherent.sound.meta_inRange.mpr (h.valid hp))

theorem Settled.allocated (h : mmu.Settled) (hp : mmu.Live p) : (mmu.block p).info.allocated = true :=
  h.coherent.live_iff.mpr hp

end MmuRuntime

/-- Setting the tier of a resident block to L1 changes nothing. -/
theorem mutateMeta_tier (h : mmu.Settled) (hp : mmu.Live p) (hr : (mmu.block p).info.residentInL1 = true) :
    mmu.mutateMeta p (fun m => { m with tier := .l1 }) = mmu := by
  have htier := (h.coherent.ok hp).tier trivial
  rw [hr, if_pos rfl] at htier
  apply mutate_self
  have hinfo : mmu.blockDirectory.metas.entry p = (mmu.block p).info := rfl
  rw [hinfo, ← htier]

/-- A block in L1 is only touched. -/
theorem ensureResidentInL1_inside (h : mmu.Settled) (hp : mmu.Live p)
    (hr : (mmu.block p).info.residentInL1 = true) : ensureResidentInL1 mmu p = (.ok (), touchBlock mmu p) := by
  have ht := h.coherent.touch hp
  have hblock := (touchBlock_effect h.coherent.sound (h.valid hp)).blocks
  have hr' : ((touchBlock mmu p).block p).info.residentInL1 = true := by
    rw [hblock, Function.update_self]
    exact hr
  unfold ensureResidentInL1
  rw [if_neg (not_not.mpr (h.coherent.sound.refs_inRange.mpr (h.valid hp))), reclaimUnusedResidentBlocks_self h]
  dsimp only
  rw [h.get_meta hp]
  dsimp only
  rw [h.allocated hp, hr, if_neg (by simp), if_pos rfl, mutateMeta_tier (ht.settled h) ((ht.routing.live p).mpr hp) hr']

/-- A block outside L1 needs room and is then promoted. -/
theorem ensureResidentInL1_outside (h : mmu.Settled) (hp : mmu.Live p)
    (hr : (mmu.block p).info.residentInL1 = false) :
    ensureResidentInL1 mmu p = match evictForRoom mmu p with
      | (.error status, mmu) => (.error status, mmu)
      | (.ok _, mmu) => promoteToL1 mmu p := by
  unfold ensureResidentInL1
  rw [if_neg (not_not.mpr (h.coherent.sound.refs_inRange.mpr (h.valid hp))), reclaimUnusedResidentBlocks_self h]
  dsimp only
  rw [h.get_meta hp]
  dsimp only
  rw [h.allocated hp, hr, if_neg (by simp)]
  refine (if_neg (by simp)).trans ?_
  rcases evictForRoom mmu p with ⟨_ | _, mid⟩
  · rfl
  · rfl

/-- `EnsureResidentInL1` that succeeds. -/
theorem ensureResidentInL1_ok (h : mmu.Settled) {u : Unit} (hp : mmu.Live p)
    (he : ensureResidentInL1 mmu p = (.ok u, mmu')) :
    Quiet mmu.Live mmu mmu' ∧ (mmu'.block p).info.residentInL1 = true ∧
      ∃ mid, EvictedAtMostOne p mmu mid ∧ ∃ v, mmu'.block = Function.update mid.block p v := by
  cases hr : (mmu.block p).info.residentInL1 with
  | true =>
    rw [ensureResidentInL1_inside h hp hr] at he
    obtain ⟨_, rfl⟩ := Prod.mk.inj he
    have hblock := (touchBlock_effect h.coherent.sound (h.valid hp)).blocks
    refine ⟨h.coherent.touch hp, ?_, mmu, .inl rfl, _, hblock⟩
    rw [hblock, Function.update_self]
    exact hr
  | false =>
    rw [ensureResidentInL1_outside h hp hr] at he
    split at he
    next => cases he
    next mid hroom =>
      obtain ⟨hq, hlt, hev⟩ := evictForRoom_ok h.coherent hroom
      have hpmid : (mid.block p).info.residentInL1 = false := by
        rw [hev.self]
        exact hr
      obtain ⟨ptr, hq', hblock⟩ := hq.coherent.promote hp hpmid hlt he
      refine ⟨hq.trans hq', ?_, mid, hev, _, hblock⟩
      rw [hblock, Function.update_self]
      rfl

/-- `EnsureResidentInL1` that fails may have evicted a block all the same. -/
theorem ensureResidentInL1_error (h : mmu.Settled) {e : MmuError} (hp : mmu.Live p)
    (he : ensureResidentInL1 mmu p = (.error e, mmu')) :
    Quiet mmu.Live mmu mmu' ∧ EvictedAtMostOne p mmu mmu' := by
  cases hr : (mmu.block p).info.residentInL1 with
  | true =>
    rw [ensureResidentInL1_inside h hp hr] at he
    cases he
  | false =>
    rw [ensureResidentInL1_outside h hp hr] at he
    split at he
    next hroom =>
      cases he
      obtain ⟨hq, hblock⟩ := evictForRoom_error h.coherent hroom
      exact ⟨hq, .inl hblock⟩
    next mid hroom =>
      obtain ⟨hq, hlt, hev⟩ := evictForRoom_ok h.coherent hroom
      obtain ⟨hq', hblock⟩ := hq.coherent.promote_error hlt he
      refine ⟨hq.trans hq', ?_⟩
      unfold EvictedAtMostOne at hev ⊢
      rw [hblock]
      exact hev

end Ensure

end DsfMmu
