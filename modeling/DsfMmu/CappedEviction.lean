import DsfMmu.Admission

namespace DsfMmu

open MmuRuntime

/-- The victim of the scan, an unpinned resident touched the longest time ago, cannot be written back: it
has no page in L2, which is at its cap. -/
structure VictimStuck (mmu : MmuRuntime) (v : Int) : Prop where
  resident : v ∈ mmu.residents
  unpinned : (mmu.block v).info.pinCount = 0
  oldest : ∀ q ∈ mmu.residents, (mmu.block q).info.pinCount = 0 →
    (mmu.block v).info.lastAccessEpoch ≤ (mmu.block q).info.lastAccessEpoch
  unbacked : mmu.l2Pool.rawPage v = none
  capped : mmu.l2Pool.committedPages = mmu.config.l2BlockCount

/-- A block outside L1 cannot be brought in: L1 is full, and its residents are all pinned (or carry the largest
epoch there is), or the one block the scan settles on is stuck. -/
structure NoRoomFor (mmu : MmuRuntime) (p : Int) : Prop where
  outside : p ∉ mmu.residents
  full : mmu.residentCount = mmu.config.l1ResidentBlockLimit
  stuck : (∀ q ∈ mmu.residents, 0 < (mmu.block q).info.pinCount ∨ maxEpoch ≤ (mmu.block q).info.lastAccessEpoch) ∨
    VictimStuck mmu (pickEvictionCandidate mmu p)

section Capped

variable {mmu : MmuRuntime} {ctx : CtxHandle} {lb : UInt32} {p : Int}

theorem starved_noRoom (h : mmu.Settled) : Starved mmu p ↔ NoRoomFor mmu p := by
  have hlimit := h.coherent.sound.limit
  have hcapped := h.coherent.sound.l2_capped
  have hmem : ∀ q, q ∈ mmu.residents ↔ (mmu.block q).info.residentInL1 = true := fun q => h.coherent.mem_residents
  have hraw : ∀ q, (mmu.block q).l2 = none ↔ mmu.l2Pool.rawPage q = none := fun q => page_eq_none
  -- any unpinned resident is a victim when the target is outside
  have hvictim : p ∉ mmu.residents → ∀ q, Victim mmu p q ↔ q ∈ mmu.residents ∧ (mmu.block q).info.pinCount = 0 := by
    intro hout q
    rw [victim_iff h.coherent, hmem]
    refine ⟨fun hv => ⟨hv.1, hv.2.2⟩, fun hv => ⟨hv.1, ?_, hv.2⟩⟩
    intro heq
    subst heq
    exact hout ((hmem q).mpr hv.1)
  constructor
  · intro hboth
    obtain ⟨hr, hfull, hstuck⟩ := hboth
    have hout : p ∉ mmu.residents := by
      rw [hmem, hr]
      decide
    refine ⟨hout, by omega, ?_⟩
    rcases pickEvictionCandidate_cases h.coherent.sound p with ⟨_, hmax⟩ | ⟨hpick, hleast⟩
    · left
      intro q hq
      by_cases hpin : (mmu.block q).info.pinCount = 0
      · exact .inr (hmax q ((hvictim hout q).mpr ⟨hq, hpin⟩))
      · exact .inl (by omega)
    · right
      have hnonneg := hpick.nonneg
      rcases hstuck with hneg | ⟨hnone, hcap⟩
      · omega
      · obtain ⟨hin, hpin⟩ := (hvictim hout _).mp hpick
        have hle : (mmu.pool .l2).committedPages = mmu.config.l2BlockCount := by omega
        exact ⟨hin, hpin, fun q hq hzero => hleast q ((hvictim hout q).mpr ⟨hq, hzero⟩), (hraw _).mp hnone, hle⟩
  · intro hboth
    obtain ⟨hout, hfull, hstuck⟩ := hboth
    have hr : (mmu.block p).info.residentInL1 = false := by
      rw [hmem] at hout
      simpa using hout
    refine ⟨hr, by omega, ?_⟩
    rcases hstuck with hall | hvs
    · left
      rcases (scan_least mmu p).kept with he | ⟨_, hpick, hkey, hlow⟩
      · have hnone : pickEvictionCandidate mmu p = -1 := congrArg Prod.fst he
        omega
      · obtain ⟨hin, hpin⟩ := (hvictim hout _).mp hpick
        have hlow' : _ < maxEpoch := hlow
        rw [hkey] at hlow'
        rcases hall _ hin with hpos | hmax
        · omega
        · exact absurd hlow' (Nat.not_lt.mpr hmax)
    · exact .inr ⟨(hraw _).mpr hvs.unbacked, hvs.capped.ge⟩

/-- With a host that grants every chunk a READ map runs out of memory exactly when there is no room for its
block: the scan tries one victim, chosen by age alone. -/
theorem read_map_out_of_memory (h : Reachable mmu) (hhost : ∀ n, mmu.host.reply n = .granted)
    (hroute : routedBlock mmu ctx lb = some p) :
    (mmuMapLogicalBlock mmu ctx lb mapRead).1 = .error .outOfMemory ↔ NoRoomFor mmu p := by
  rw [← starved_noRoom h.settled]
  rcases mapRead_outcome h.settled hhost hroute with ⟨hst, mmu', hm⟩ | ⟨hst, d, mmu', hm⟩
  · rw [hm]
    exact iff_of_true rfl hst
  · rw [hm]
    exact iff_of_false nofun hst

end Capped

/-- Two residents, of which the older one has never been written back; the younger one's copy takes the only
page of L2. -/
@[irreducible] def cappedResidents : MmuRuntime :=
  machine.replay (smallInstance 2 1)
    [.createContext (some 1), .allocateBlocks 1 3, .mapLogicalBlock 1 1 mapWrite,
      .unmapLogicalBlock 1 ⟨⟨0, 3⟩, 4, 1, 1, mapWrite⟩]

theorem cappedResidents_reachable : Reachable cappedResidents := by
  unfold cappedResidents
  exact (smallInstance_reachable 2 1).replay (by decide +kernel)

theorem cappedResidents_granted : ∀ n, cappedResidents.host.reply n = .granted := by
  unfold cappedResidents
  have hsetup := @replay_setup _ [.createContext (some 1), .allocateBlocks 1 3, .mapLogicalBlock 1 1 mapWrite,
    .unmapLogicalBlock 1 ⟨⟨0, 3⟩, 4, 1, 1, mapWrite⟩] (smallInstance_reachable 2 1).settled (by decide +kernel)
  rw [hsetup.replies]
  exact fun _ => rfl

/-- The older resident is stuck, so that the third block cannot be mapped. -/
theorem read_map_out_of_memory_capped : NoRoomFor cappedResidents 2 :=
  (@read_map_out_of_memory _ 1 2 2 cappedResidents_reachable cappedResidents_granted (by decide +kernel)).mp
    (by decide +kernel)

/-- Yet the younger resident is unpinned and has a page in L2. -/
theorem backed_resident_not_evicted :
    Reachable cappedResidents ∧ (∀ n, cappedResidents.host.reply n = .granted) ∧
      routedBlock cappedResidents 1 2 = some 2 ∧
      (mmuMapLogicalBlock cappedResidents 1 2 mapRead).1 = .error .outOfMemory ∧
      1 ∈ cappedResidents.residents ∧ (cappedResidents.block 1).info.pinCount = 0 ∧
      (cappedResidents.l2Pool.rawPage 1).isSome :=
  ⟨cappedResidents_reachable, cappedResidents_granted, by decide +kernel, by decide +kernel, by decide +kernel,
    by decide +kernel, by decide +kernel⟩

end DsfMmu
