import DsfMmu.EscapingStorage

namespace DsfMmu

namespace Escaping

open MmuRuntime Throwing

variable {mmu mmu' : MmuRuntime} {room : Room} {live : Int → Prop} {p : Int}

section Move

/-- Block `p` has left L1, and the counter has followed. -/
structure Demoted (p : Int) (mmu mmu' : MmuRuntime) : Prop extends Touches p mmu mmu' where
  allocated : (mmu'.blockDirectory.metas.entry p).allocated = (mmu.blockDirectory.metas.entry p).allocated
  before : (mmu.blockDirectory.metas.entry p).residentInL1 = true
  after : (mmu'.blockDirectory.metas.entry p).residentInL1 = false
  count : mmu'.residentCount = mmu.residentCount - 1

theorem Demoted.minor {mid : MmuRuntime} (h : Demoted p mmu mid) (hm : Minor p mid mmu') : Demoted p mmu mmu' :=
  ⟨h.toTouches.trans hm.toTouches, hm.allocated.trans h.allocated, h.before, hm.resident.trans h.after,
    hm.count.trans h.count⟩

theorem demoted_of_minor {mid : MmuRuntime} (hm : Minor p mmu mid) (hv : mid.blockDirectory.isValid p)
    (hr : (mmu.blockDirectory.metas.entry p).residentInL1 = true) :
    Demoted p mmu (dropResident (mid.mutateMeta p fun m =>
      { m with residentInL1 := false, l1FrameId := kInvalidFrameId })) := by
  have hset := touches_mutate mid p (fun m => { m with residentInL1 := false, l1FrameId := kInvalidFrameId })
  have hall := hm.toTouches.trans hset
  have hentry : (mid.blockDirectory.mutate p (fun m =>
      { m with residentInL1 := false, l1FrameId := kInvalidFrameId })).metas.entry p =
      { mid.blockDirectory.metas.entry p with residentInL1 := false, l1FrameId := kInvalidFrameId } := by
    rw [mutate_entry_self, if_pos hv]
  refine ⟨hall.recounted _, ?_, hr, ?_, ?_⟩
  · have ha := congrArg BlockMeta.allocated hentry
    exact ha.trans hm.allocated
  · exact congrArg BlockMeta.residentInL1 hentry
  · rw [← hm.count]
    show (if mid.residentCount > 0 then mid.residentCount - 1 else mid.residentCount) = mid.residentCount - 1
    split <;> omega

/-- What `MoveBlockToL2` may do: as long as the block is not demoted it is not reported moved, unless it was out
of L1 before. -/
theorem moveBlockToL2_lands (room : Room) (mmu : MmuRuntime) (p : Int) :
    Lands (moveBlockToL2 room mmu p)
      (fun r s => Demoted p mmu s ∨
        Minor p mmu s ∧ (r = .ok () → (mmu.blockDirectory.metas.entry p).residentInL1 = false))
      (fun e s => e = .moveBlockToL2 ∧ (Demoted p mmu s ∨ Minor p mmu s)) := by
  unfold moveBlockToL2
  split
  next => exact .inr ⟨.refl p mmu, fun h => by cases h⟩
  next =>
    split
    next => exact .inr ⟨.refl p mmu, fun h => by cases h⟩
    next blockMeta hget =>
      have hvalid : mmu.blockDirectory.isValid p := by
        by_contra hv
        rw [BlockDirectory.get, if_neg hv] at hget
        cases hget
      rw [BlockDirectory.get_eq_some hvalid] at hget
      cases Option.some.inj hget
      split
      next => exact .inr ⟨.refl p mmu, fun h => by cases h⟩
      next =>
        dsimp only
        split
        next hr =>
          have hsync := minor_syncL1ToL2 mmu p
          split
          next heq =>
            rw [heq] at hsync
            exact .inr ⟨hsync, fun h => by cases h⟩
          next mid heq =>
            rw [heq] at hsync
            have hd := demoted_of_minor hsync ((hsync.isValid p).mpr hvalid) hr
            refine (releasePage_lands room _ _ .l1 p).andThen ?_ ?_
            · intro e s hboth
              obtain ⟨he, rfl⟩ := hboth
              exact ⟨he, .inl hd⟩
            · intro _ s hs
              subst hs
              exact .inl ((hd.minor (minor_releasePage _ .l1 p)).minor (minor_tier _ p .l2))
        next hr =>
          refine (releasePage_lands room _ _ .l1 p).andThen ?_ ?_
          · intro e s hboth
            obtain ⟨he, rfl⟩ := hboth
            exact ⟨he, .inr (.refl p _)⟩
          · intro _ s hs
            subst hs
            exact .inr ⟨(minor_releasePage mmu .l1 p).trans (minor_tier _ p .l2),
              fun _ => by simpa using hr⟩

theorem Demoted.tallied (hd : Demoted p mmu mmu') (ht : mmu.Tables) (hv : mmu.blockDirectory.isValid p)
    (h : mmu.Tallied live) : mmu'.Tallied live := by
  have hp := h.live_of_resident hd.before
  have hvalid := ht.meta_inRange.mp hv
  have hpos : 0 < mmu.residentCount := by
    rw [h.count]
    exact Finset.card_pos.mpr ⟨p, mem_residents_iff.mpr ⟨hvalid, hd.before⟩⟩
  refine h.touched hd.toTouches hvalid (.inl hp) (fun _ _ hq => hq) ?_ ?_
  · rw [hd.before, hd.after, hd.count]
    simp
    omega
  · have := h.limit
    have := hd.count
    omega

end Move

section Evict

/-- What evictions for block `p` leave: the block itself as it was, and the tally intact. -/
structure Evicting (p : Int) (mmu mmu' : MmuRuntime) : Prop where
  upkeep : Upkeep mmu mmu'
  self : SameBlock p mmu mmu'
  tallied : ∀ live, mmu.Tallied live → mmu'.Tallied live

theorem evicting_refl (p : Int) (ht : mmu.Tables) : Evicting p mmu mmu := ⟨upkeep_refl ht, .refl p mmu, fun _ h => h⟩

theorem Evicting.trans {a b c : MmuRuntime} (h : Evicting p a b) (h' : Evicting p b c) : Evicting p a c :=
  ⟨h.upkeep.trans h'.upkeep, h.self.trans h'.self, fun live ht => h'.tallied live (h.tallied live ht)⟩

variable {v : Int}

theorem Demoted.evicting (hd : Demoted v mmu mmu') (ht : mmu.Tables) (hv : Victim mmu p v) : Evicting p mmu mmu' :=
  ⟨upkeep_touched ht hd.toTouches (fun _ => hd.allocated), hd.others hv.other.symm, fun _ => hd.tallied ht hv.valid⟩

theorem evicting_minor (hm : Minor v mmu mmu') (ht : mmu.Tables) (hv : Victim mmu p v) : Evicting p mmu mmu' :=
  ⟨upkeep_minor ht hm, hm.others hv.other.symm, fun _ h => h.minor hm (h.live_of_resident hv.resident)⟩

/-- One round of the loop: there is room already, no victim is found, the victim's move fails or throws, or the victim
has left L1 and the loop goes on. -/
theorem evictionLoop_round (room : Room) (mmu : MmuRuntime) (p : Int) (rounds : Nat) :
    (mmu.residentCount < mmu.residentLimit ∧ evictionLoop room p (rounds + 1) mmu = some (.ok (.ok ()), mmu)) ∨
    evictionLoop room p (rounds + 1) mmu = some (.ok (.error .outOfMemory), mmu) ∨
    (∃ v r s, Victim mmu p v ∧ (Demoted v mmu s ∨ Minor v mmu s) ∧
      (r = .error .moveBlockToL2 ∨ ∃ status, r = .ok (.error status)) ∧
      evictionLoop room p (rounds + 1) mmu = some (r, s)) ∨
    ∃ v s, mmu.residentLimit ≤ mmu.residentCount ∧ Victim mmu p v ∧ Demoted v mmu s ∧
      evictionLoop room p (rounds + 1) mmu = evictionLoop room p rounds s := by
  rw [evictionLoop]
  split
  next hroom => exact .inl ⟨hroom, rfl⟩
  next hfull =>
    right
    dsimp only
    split
    next => exact .inl rfl
    next hneg =>
      right
      have hv := pickEvictionCandidate_nonneg hneg
      have hmove := moveBlockToL2_lands room mmu (pickEvictionCandidate mmu p)
      split
      next hm =>
        obtain ⟨rfl, hleft⟩ := hmove.threw hm
        exact .inl ⟨_, _, _, hv, hleft, .inl rfl, rfl⟩
      next hm => exact .inl ⟨_, _, _, hv, (hmove.returned hm).imp_right And.left, .inr ⟨_, rfl⟩, rfl⟩
      next hm =>
        refine .inr ⟨_, _, not_lt.mp hfull, hv, ?_, rfl⟩
        rcases hmove.returned hm with hd | ⟨-, hout⟩
        · exact hd
        -- only a block that was out of L1 before is reported moved without having left it
        · have hres : (mmu.blockDirectory.metas.entry (pickEvictionCandidate mmu p)).residentInL1 = true := hv.resident
          rw [hout rfl] at hres
          cases hres

/-- The eviction loop ends within any budget above the counter, in every state. -/
theorem eviction_terminates (room : Room) (ht : mmu.Tables) (p : Int) {rounds : Nat} (hr : mmu.residentCount < rounds) :
    ∃ x, evictionLoop room p rounds mmu = some x := by
  induction rounds generalizing mmu with
  | zero => omega
  | succ rounds ih =>
    rcases evictionLoop_round room mmu p rounds with
      ⟨-, heq⟩ | heq | ⟨v, r, s, -, -, -, heq⟩ | ⟨v, s, hfull, -, hd, heq⟩
    · exact ⟨_, heq⟩
    · exact ⟨_, heq⟩
    · exact ⟨_, heq⟩
    · have hpos := mmu.config.limit_pos
      have hlimit := ht.limit
      have hcount := hd.count
      rw [heq]
      exact ih (ht.touched hd.toTouches) (by omega)

theorem evictionLoop_lands (room : Room) (ht : mmu.Tables) (p : Int) (rounds : Nat)
    {x : Throwing BadAlloc MmuRuntime (Except MmuError Unit)} (hx : evictionLoop room p rounds mmu = some x) :
    Lands x (fun r s => Evicting p mmu s ∧ (r = .ok () → s.residentCount < s.residentLimit))
      (fun e s => e = .moveBlockToL2 ∧ Evicting p mmu s) := by
  induction rounds generalizing mmu with
  | zero => cases hx
  | succ rounds ih =>
    rcases evictionLoop_round room mmu p rounds with
      ⟨hroom, heq⟩ | heq | ⟨v, r, s, hv, hleft, hr, heq⟩ | ⟨v, s, -, hv, hd, heq⟩
    · cases Option.some.inj (heq.symm.trans hx)
      exact ⟨evicting_refl p ht, fun _ => hroom⟩
    · cases Option.some.inj (heq.symm.trans hx)
      exact ⟨evicting_refl p ht, nofun⟩
    · cases Option.some.inj (heq.symm.trans hx)
      have hev : Evicting p mmu s := hleft.elim (fun hd => hd.evicting ht hv) (fun hm => evicting_minor hm ht hv)
      rcases hr with rfl | ⟨status, rfl⟩
      · exact ⟨rfl, hev⟩
      · exact ⟨hev, nofun⟩
    · have hev := hd.evicting ht hv
      refine (ih (ht.touched hd.toTouches) (heq.symm.trans hx)).mono ?_ ?_
      · intro r s hs
        exact ⟨hev.trans hs.1, hs.2⟩
      · intro e s hs
        exact ⟨hs.1, hev.trans hs.2⟩

theorem evictForRoom_lands (room : Room) (ht : mmu.Tables) (p : Int) :
    Lands (evictForRoom room mmu p) (fun r s => Evicting p mmu s ∧ (r = .ok () → s.residentCount < s.residentLimit))
      (fun e s => e = .moveBlockToL2 ∧ Evicting p mmu s) := by
  obtain ⟨x, hx⟩ := eviction_terminates room ht p (Nat.lt_succ_self mmu.residentCount)
  unfold evictForRoom
  rw [hx]
  exact evictionLoop_lands room ht p _ hx

/-- No block but `v` has left L1. -/
def NoneLeftBut (v : Int) (mmu mmu' : MmuRuntime) : Prop := ∀ q ≠ v, q ∈ mmu.residents → q ∈ mmu'.residents

theorem noneLeft_touched (h : Touches p mmu mmu') : NoneLeftBut p mmu mmu' := by
  intro q hq hres
  rw [mem_residents_iff] at hres ⊢
  rw [h.metas q hq]
  exact ⟨(h.routing.valid q).mpr hres.1, hres.2⟩

/-- With an exact counter one victim makes room enough. -/
theorem evictForRoom_single (room : Room) (ht : mmu.Tables) (h : mmu.Tallied live) (p : Int) :
    Lands (evictForRoom room mmu p) (fun _ s => ∃ v, NoneLeftBut v mmu s) (fun _ s => ∃ v, NoneLeftBut v mmu s) := by
  unfold evictForRoom
  rcases evictionLoop_round room mmu p mmu.residentCount with
    ⟨-, heq⟩ | heq | ⟨v, r, s, -, hleft, hr, heq⟩ | ⟨v, mid, hfull, -, hd, heq⟩
  · rw [heq]
    exact ⟨p, fun _ _ hres => hres⟩
  · rw [heq]
    exact ⟨p, fun _ _ hres => hres⟩
  · rw [heq]
    have hv : NoneLeftBut v mmu s :=
      hleft.elim (fun hd => noneLeft_touched hd.toTouches) (fun hm => noneLeft_touched hm.toTouches)
    rcases hr with rfl | ⟨status, rfl⟩
    · exact ⟨v, hv⟩
    · exact ⟨v, hv⟩
  · -- the counter was at the limit exactly, so that the second round finds room
    have hpos := mmu.config.limit_pos
    have hlimit := ht.limit
    have hle := h.limit
    obtain ⟨n, hn⟩ : ∃ n, mmu.residentCount = n + 1 := ⟨mmu.residentCount - 1, by omega⟩
    have hroom : mid.residentCount < mid.residentLimit := by
      rw [hd.count, hd.routing.limit]
      omega
    rw [heq, hn, evictionLoop, if_pos hroom]
    exact ⟨v, noneLeft_touched hd.toTouches⟩

end Evict

end Escaping

end DsfMmu
