import DsfMmu.Standing

namespace DsfMmu

namespace Escaping

open MmuRuntime Throwing

variable {mmu mmu' : MmuRuntime} {room : Room} {live : Int → Prop} {p : Int}

section Forget

/-- `ReleasePage` throws before it changes anything. -/
theorem releasePage_lands (room : Room) (site : BadAlloc) (mmu : MmuRuntime) (id : PoolId) (p : Int) :
    Lands (releasePage room site mmu id p) (fun _ s => s = DsfMmu.releasePage mmu id p)
      (fun e s => e = site ∧ s = mmu) := by
  unfold releasePage
  split
  next => exact ⟨rfl, rfl⟩
  next => rfl

theorem releasePage_bare (site : BadAlloc) {id : PoolId} (h : (mmu.pool id).ownerPages.entry p = none) :
    releasePage room site mmu id p = (.ok (), mmu) := by
  unfold releasePage
  rw [if_neg (fun hc => hc.2.1 h), releasePage_self (page_eq_none.mpr h)]

/-- Both pages released. -/
theorem releasePages_owner (ht : mmu.Tables) (hv : mmu.Valid p) (id : PoolId) :
    ((DsfMmu.releasePage (DsfMmu.releasePage mmu .l1 p) .l2 p).pool id).ownerPages.entry p = none := by
  have h1 := minor_releasePage mmu .l1 p
  cases id with
  | l1 =>
    rw [releasePage_other (by decide)]
    exact releasePage_owner ((ht.owner_inRange .l1).mpr hv)
  | l2 => exact releasePage_owner (((ht.touched h1.toTouches).owner_inRange .l2).mpr ((h1.routing.valid p).mpr hv))

/-- What a block keeps once its data are reset, and what is left alone. -/
theorem resetBlockData_lands (room : Room) (ht : mmu.Tables) (hv : mmu.Valid p) :
    Lands (resetBlockData room mmu p)
      (fun _ s => Touches p mmu s ∧ s.residentCount = mmu.residentCount ∧ (∀ id, (s.pool id).ownerPages.entry p = none) ∧
        (s.blockDirectory.metas.entry p).allocated = (mmu.blockDirectory.metas.entry p).allocated ∧
        (s.blockDirectory.metas.entry p).residentInL1 = false)
      (fun e s => e = .resetBlockData ∧ Minor p mmu s) := by
  refine (releasePage_lands room _ mmu .l1 p).andThen ?_ ?_
  · intro e s hboth
    obtain ⟨he, rfl⟩ := hboth
    exact ⟨he, .refl p _⟩
  intro _ s1 h1
  have hm1 : Minor p mmu s1 := h1 ▸ minor_releasePage mmu .l1 p
  refine (releasePage_lands room _ s1 .l2 p).andThen ?_ ?_
  · intro e s hboth
    obtain ⟨he, rfl⟩ := hboth
    exact ⟨he, hm1⟩
  intro _ s2 h2
  have hm2 : Minor p mmu s2 := hm1.trans (h2 ▸ minor_releasePage s1 .l2 p)
  have howner : ∀ id, (s2.pool id).ownerPages.entry p = none := by
    intro id
    rw [h2, h1]
    exact releasePages_owner ht hv id
  have hvalid := ((ht.touched hm2.toTouches).meta_inRange (p := p)).mpr ((hm2.routing.valid p).mpr hv)
  refine ⟨hm2.toTouches.trans (touches_mutate s2 p _), hm2.count, ?_, ?_, ?_⟩
  · intro id
    have hid := howner id
    cases id <;> exact hid
  · show ((s2.blockDirectory.mutate p _).metas.entry p).allocated = _
    rw [mutate_entry_self, if_pos hvalid]
    exact hm2.allocated
  · show ((s2.blockDirectory.mutate p _).metas.entry p).residentInL1 = _
    rw [mutate_entry_self, if_pos hvalid]

theorem resetBlockData_bare (h : mmu.Bare p) : resetBlockData room mmu p = (.ok (), mmu) := by
  unfold resetBlockData
  rw [releasePage_bare _ (h.2 .l1)]
  show andThen (releasePage room .resetBlockData mmu .l2 p) _ = _
  rw [releasePage_bare _ (h.2 .l2)]
  show (Except.ok (), mmu.setDirectory (mmu.blockDirectory.mutate p _)) = _
  rw [mutate_self (by rw [h.1]; rfl)]

/-- Forgetting a block of which nothing is kept changes nothing. -/
theorem forgetBlock_bare (h : mmu.Bare p) : forgetBlock room mmu p = (.ok (), mmu) := by
  have hreset : andThen (resetBlockData room mmu p)
      (fun _ mmu => (.ok (), mmu.setDirectory (mmu.blockDirectory.reset p))) = (.ok (), mmu) := by
    rw [resetBlockData_bare h]
    show (Except.ok (), mmu.setDirectory (mmu.blockDirectory.mutate p _)) = _
    rw [mutate_self h.1.symm]
  unfold forgetBlock
  by_cases hv : mmu.blockDirectory.isValid p
  · rw [BlockDirectory.get_eq_some hv, h.1]
    exact hreset
  · rw [BlockDirectory.get, if_neg hv]
    exact hreset

/-- What forgetting a block leaves: nothing of the block, and the counter down by one if it was resident. -/
theorem forgetBlock_lands (room : Room) (ht : mmu.Tables) (hv : mmu.Valid p) :
    Lands (forgetBlock room mmu p)
      (fun _ s => Touches p mmu s ∧ s.Bare p ∧ s.residentCount = mmu.residentCount -
        if (mmu.blockDirectory.metas.entry p).residentInL1 then 1 else 0)
      (fun e s => e = .resetBlockData ∧ Touches p mmu s) := by
  have hstart : ∃ n, n = mmu.residentCount - (if (mmu.blockDirectory.metas.entry p).residentInL1 then 1 else 0) ∧
      (if (mmu.blockDirectory.metas.entry p).residentInL1 then dropResident mmu else mmu) =
        { mmu with residentCount := n } := by
    split
    next =>
      refine ⟨mmu.residentCount - 1, rfl, ?_⟩
      unfold dropResident
      congr 1
      split <;> omega
    next => exact ⟨mmu.residentCount, rfl, rfl⟩
  obtain ⟨n, hn, hstart⟩ := hstart
  have hmid := (Touches.refl p mmu).recounted n
  unfold forgetBlock
  rw [BlockDirectory.get_eq_some (ht.meta_inRange.mpr hv)]
  dsimp only
  rw [hstart]
  refine (resetBlockData_lands room (ht.touched hmid) hv).andThen ?_ ?_
  · intro e s hboth
    exact ⟨hboth.1, hmid.trans hboth.2.toTouches⟩
  · intro _ s hboth
    obtain ⟨hs, hcount, howners, -⟩ := hboth
    have hall := hmid.trans hs
    refine ⟨hall.trans (touches_mutate s p _), ⟨?_, ?_⟩, hcount.trans hn⟩
    · have hvalid := ((ht.touched hall).meta_inRange (p := p)).mpr ((hall.routing.valid p).mpr hv)
      show (s.blockDirectory.mutate p _).metas.entry p = _
      rw [mutate_entry_self, if_pos hvalid]
    · intro id
      have hid := howners id
      cases id <;> exact hid

end Forget

/-- The routing stays, the tables stay sound, and no block in use loses or gains its mark. -/
structure Upkeep (mmu mmu' : MmuRuntime) : Prop where
  routing : SameRouting mmu mmu'
  tables : mmu'.Tables
  allocated : ∀ q, mmu.Live q →
    (mmu'.blockDirectory.metas.entry q).allocated = (mmu.blockDirectory.metas.entry q).allocated

section Upkeep

variable {a b c : MmuRuntime}

theorem upkeep_refl (ht : mmu.Tables) : Upkeep mmu mmu := ⟨.refl mmu, ht, fun _ _ => rfl⟩

theorem Upkeep.trans (h : Upkeep a b) (h' : Upkeep b c) : Upkeep a c := by
  refine ⟨h.routing.trans h'.routing, h'.tables, ?_⟩
  intro q hq
  exact (h'.allocated q ((h.routing.live q).mpr hq)).trans (h.allocated q hq)

theorem Upkeep.isValid (h : Upkeep mmu mmu') (ht : mmu.Tables) (hv : mmu.blockDirectory.isValid p) :
    mmu'.blockDirectory.isValid p :=
  h.tables.meta_inRange.mpr ((h.routing.valid p).mpr (ht.meta_inRange.mp hv))

theorem upkeep_touched (ht : mmu.Tables) (h : Touches p mmu mmu')
    (hself : mmu.Live p →
      (mmu'.blockDirectory.metas.entry p).allocated = (mmu.blockDirectory.metas.entry p).allocated) :
    Upkeep mmu mmu' := by
  refine ⟨h.routing, ht.touched h, ?_⟩
  intro q hq
  by_cases hqp : q = p
  · subst q
    exact hself hq
  · rw [h.metas q hqp]

theorem upkeep_minor (ht : mmu.Tables) (h : Minor p mmu mmu') : Upkeep mmu mmu' :=
  upkeep_touched ht h.toTouches (fun _ => h.allocated)

end Upkeep

section Reclaim

/-- What a scan over `ids` leaves: every block in use as it was, and nothing of the others it visited. -/
structure Swept (ids : List Int) (mmu mmu' : MmuRuntime) : Prop where
  routing : SameRouting mmu mmu'
  tables : mmu'.Tables
  kept : ∀ q, q ∉ ids ∨ mmu.Live q → SameBlock q mmu mmu'
  bare : ∀ q ∈ ids, ¬mmu.Live q → mmu'.Bare q
  tallied : ∀ live, mmu.Tallied live → mmu'.Tallied (fun q => live q ∧ (q ∈ ids → mmu.Live q))

theorem Swept.upkeep {ids : List Int} (h : Swept ids mmu mmu') : Upkeep mmu mmu' := by
  refine ⟨h.routing, h.tables, ?_⟩
  intro q hq
  rw [(h.kept q (.inr hq)).info]

theorem swept_nil (ht : mmu.Tables) : Swept [] mmu mmu := by
  refine ⟨.refl mmu, ht, fun q _ => .refl q mmu, nofun, ?_⟩
  intro live h
  exact h.mono (fun q hq => ⟨hq, nofun⟩)

theorem Swept.cons {ids : List Int} {mid : MmuRuntime} (h : Swept [p] mmu mid) (h' : Swept ids mid mmu') :
    Swept (p :: ids) mmu mmu' := by
  refine ⟨h.routing.trans h'.routing, h'.tables, ?_, ?_, ?_⟩
  · intro q hq
    have hq1 : q ∉ [p] ∨ mmu.Live q := hq.imp_left (fun hn hm => hn (by simp at hm; simp [hm]))
    have hq2 : q ∉ ids ∨ mid.Live q :=
      hq.imp (fun hn hm => hn (List.mem_cons_of_mem p hm)) (h.routing.live q).mpr
    exact (h.kept q hq1).trans (h'.kept q hq2)
  · intro q hq hl
    have hl' : ¬mid.Live q := fun hl' => hl ((h.routing.live q).mp hl')
    by_cases hmem : q ∈ ids
    · exact h'.bare q hmem hl'
    · have hqp : q ∈ [p] := by
        rcases List.mem_cons.mp hq with he | hm
        · simp [he]
        · exact absurd hm hmem
      exact (h.bare q hqp hl).same (h'.kept q (.inl hmem))
  · intro live ht
    refine (h'.tallied _ (h.tallied live ht)).mono ?_
    intro q hq
    obtain ⟨⟨hlive, hself⟩, hrest⟩ := hq
    refine ⟨hlive, ?_⟩
    intro hmem
    rcases List.mem_cons.mp hmem with he | hm
    · exact hself (by simp [he])
    · exact (h.routing.live q).mp (hrest hm)

/-- One round of the scan. -/
theorem reclaimBlock_lands (room : Room) (ha : mmu.l1Allocator.Ok) (ht : mmu.Tables) (hv : mmu.Valid p) :
    Lands (reclaimBlock room mmu p) (fun _ s => Swept [p] mmu s) (fun e s => e = .resetBlockData ∧ Upkeep mmu s) := by
  have hcount : mmu.l1Allocator.refCount p = mmu.l1Allocator.refCounts.entry p :=
    if_pos (ht.refs_inRange.mpr hv)
  have hn := ha.nonneg p
  unfold reclaimBlock
  split
  next hzero =>
    have hl : ¬mmu.Live p := not_live_of_zero (hcount.symm.trans hzero)
    refine (forgetBlock_lands room ht hv).mono ?_ ?_
    · intro _ s hboth
      obtain ⟨hs, hbare, hcounter⟩ := hboth
      refine ⟨hs.routing, ht.touched hs, ?_, ?_, ?_⟩
      · intro q hq
        refine hs.others ?_
        rintro rfl
        exact hq.elim (fun hn => hn (by simp)) hl
      · intro q hq _
        rw [List.mem_singleton.mp hq]
        exact hbare
      · intro live h
        have hresident : (s.blockDirectory.metas.entry p).residentInL1 = false := by
          rw [hbare.1]
          rfl
        refine h.touched hs hv (.inr hbare) ?_ ?_ ?_
        · intro q hq hlive
          exact ⟨hlive, fun hm => absurd (List.mem_singleton.mp hm) hq⟩
        · have hpos : (mmu.blockDirectory.metas.entry p).residentInL1 = true → 0 < mmu.residentCount := by
            intro hr
            rw [h.count]
            exact Finset.card_pos.mpr ⟨p, mem_residents_iff.mpr ⟨hv, hr⟩⟩
          rw [hresident, hcounter]
          split
          next hr =>
            have := hpos hr
            simp
            omega
          next => simp
        · have := h.limit
          omega
    · intro e s hboth
      exact ⟨hboth.1, upkeep_touched ht hboth.2 (fun hlive => absurd hlive hl)⟩
  next hne =>
    have hl : mmu.Live p := by
      show 0 < mmu.l1Allocator.refCounts.entry p
      omega
    refine ⟨.refl mmu, ht, fun q _ => .refl q mmu, ?_, ?_⟩
    · intro q hq hnot
      rw [List.mem_singleton.mp hq] at hnot
      exact absurd hl hnot
    · intro live h
      refine h.mono ?_
      intro q hq
      refine ⟨hq, ?_⟩
      intro hm
      rw [List.mem_singleton.mp hm]
      exact hl

/-- Any part of the scan. -/
theorem reclaimAll_lands (room : Room) (ids : List Int) (ha : mmu.l1Allocator.Ok) (ht : mmu.Tables)
    (hids : ∀ q ∈ ids, mmu.Valid q) :
    Lands (forEach (reclaimBlock room) ids mmu) (fun _ s => Swept ids mmu s)
      (fun e s => e = .resetBlockData ∧ Upkeep mmu s) := by
  induction ids generalizing mmu with
  | nil => exact swept_nil ht
  | cons p rest ih =>
    refine (reclaimBlock_lands room ha ht (hids p (by simp))).andThen (fun _ _ h => h) ?_
    intro _ mid hmid
    have ha' : mid.l1Allocator.Ok := by
      rw [hmid.routing.allocator]
      exact ha
    have hids' : ∀ q ∈ rest, mid.Valid q :=
      fun q hq => (hmid.routing.valid q).mpr (hids q (List.mem_cons_of_mem p hq))
    refine (ih ha' hmid.tables hids').mono ?_ ?_
    · intro _ s hs
      exact hmid.cons hs
    · intro e s hs
      exact ⟨hs.1, hmid.upkeep.trans hs.2⟩

theorem reclaimUnusedResidentBlocks_lands (room : Room) (ha : mmu.l1Allocator.Ok) (ht : mmu.Tables) :
    Lands (reclaimUnusedResidentBlocks room mmu) (fun _ s => Swept (scanIds mmu) mmu s)
      (fun e s => e = .resetBlockData ∧ Upkeep mmu s) :=
  reclaimAll_lands room (scanIds mmu) ha ht (fun _ hq => mem_scanIds.mp hq)

/-- Where nothing is kept of a block without references, the scan has nothing to do and asks for nothing. -/
theorem reclaimUnusedResidentBlocks_tallied (room : Room) (ha : mmu.l1Allocator.Ok) (h : mmu.Tallied mmu.Live) :
    reclaimUnusedResidentBlocks room mmu = (.ok (), mmu) := by
  have hone : ∀ p, reclaimBlock room mmu p = (.ok (), mmu) := by
    intro p
    unfold reclaimBlock
    split
    next hzero =>
      have hl : ¬mmu.Live p := by
        intro hl
        have hpos := ha.refCount_pos.mpr hl
        omega
      exact forgetBlock_bare (h.bare p hl)
    next => rfl
  unfold reclaimUnusedResidentBlocks
  generalize scanIds mmu = ids
  induction ids with
  | nil => rfl
  | cons p rest ih =>
    show andThen (reclaimBlock room mmu p) _ = _
    rw [hone p]
    exact ih

end Reclaim

end Escaping

end DsfMmu
