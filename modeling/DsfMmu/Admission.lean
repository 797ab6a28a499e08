import DsfMmu.BatchRollback
import DsfMmu.Transparency

namespace DsfMmu

open MmuRuntime Context

/-- The blocks with a pin. -/
def MmuRuntime.pinnedBlocks (mmu : MmuRuntime) : Finset Int :=
  (IntTable.indices mmu.config.l1BlockCount).filter fun p => 0 < (mmu.blockDirectory.metas.entry p).pinCount

/-- The blocks that a list of entries of a context leads to. -/
def requestedBlocks (mmu : MmuRuntime) (ctx : CtxHandle) (lbs : List UInt32) : Finset Int :=
  (lbs.filterMap (routedBlock mmu ctx)).toFinset

/-- What must fit in L1 at once for a batch to go through. -/
def workingSet (mmu : MmuRuntime) (ctx : CtxHandle) (lbs : List UInt32) : Finset Int :=
  mmu.pinnedBlocks ∪ requestedBlocks mmu ctx lbs

/-- The entry cannot be brought to L1, which is full: there is no victim, or the one there is has no page
in L2 to be written back to and can get none. -/
def Starved (mmu : MmuRuntime) (p : Int) : Prop :=
  (mmu.block p).info.residentInL1 = false ∧ mmu.residentCount = mmu.residentLimit ∧
    (pickEvictionCandidate mmu p < 0 ∨ (mmu.block (pickEvictionCandidate mmu p)).l2 = none ∧
      mmu.config.l2BlockCount ≤ (mmu.pool .l2).committedPages)

/-- An item of the batch meets a counter at its maximum: the pin count of its block, or the epoch of a block
in L1. -/
def CounterFull (mmu : MmuRuntime) (ctx : CtxHandle) (lb : UInt32) : Prop :=
  (∃ p ∈ routedBlock mmu ctx lb, 2 ^ 32 ≤ (mmu.block p).info.pinCount + 1) ∨
    ∃ q ∈ mmu.residents, maxEpoch ≤ (mmu.block q).info.lastAccessEpoch

instance (mmu : MmuRuntime) (ctx : CtxHandle) (lb : UInt32) : Decidable (CounterFull mmu ctx lb) :=
  inferInstanceAs (Decidable ((∃ p ∈ routedBlock mmu ctx lb, 2 ^ 32 ≤ (mmu.block p).info.pinCount + 1) ∨
    ∃ q ∈ mmu.residents, maxEpoch ≤ (mmu.block q).info.lastAccessEpoch))

section Admission

variable {mmu mmu' : MmuRuntime} {ctx : CtxHandle} {lb : UInt32} {p : Int}

theorem mem_pinnedBlocks (h : mmu.Settled) : p ∈ mmu.pinnedBlocks ↔ 0 < (mmu.block p).info.pinCount := by
  have hmem : p ∈ mmu.pinnedBlocks ↔ mmu.Valid p ∧ 0 < (mmu.block p).info.pinCount := Finset.mem_filter
  rw [hmem]
  exact ⟨And.right, fun hpin => ⟨h.valid (h.live_of_pinned hpin), hpin⟩⟩

theorem pinned_subset (h : mmu.Settled) : mmu.pinnedBlocks ⊆ mmu.residents := by
  intro q hq
  have hpin := (mem_pinnedBlocks h).mp hq
  exact h.coherent.mem_residents.mpr ((h.coherent.ok (h.live_of_pinned hpin)).pinned_resident hpin)

theorem promotionSupply_granted (h : mmu.Settled) (hg : ∀ n, mmu.host.reply n = .granted)
    (hr : (mmu.block p).info.residentInL1 = false) :
    mmu.promotionSupply p mmu.stock = none ↔ Starved mmu p := by
  have hl1 : ∀ s, mmu.supply s .l1 ≠ none := by
    intro s hnone
    cases ((supply_granted hg s .l1).mp hnone).1
  have hlimit := h.coherent.limit
  unfold promotionSupply Starved
  by_cases hlt : mmu.residentCount < mmu.residentLimit
  · rw [if_pos hlt, Option.bind_some]
    refine iff_of_false (hl1 _) ?_
    intro hboth
    obtain ⟨-, hfull, -⟩ := hboth
    omega
  · have hfull : mmu.residentCount = mmu.residentLimit := by omega
    rw [if_neg hlt]
    by_cases hneg : pickEvictionCandidate mmu p < 0
    · rw [if_pos hneg, Option.bind_none]
      exact iff_of_true rfl ⟨hr, hfull, .inl hneg⟩
    · rw [if_neg hneg]
      unfold evictionSupply writeBackSupply
      cases hl2 : (mmu.block (pickEvictionCandidate mmu p)).l2 with
      | some pg =>
        simp only [Option.isSome_some, if_true, Option.map_some, Option.bind_some]
        refine iff_of_false (hl1 _) ?_
        intro hboth
        obtain ⟨-, -, hno | ⟨hnone, -⟩⟩ := hboth
        · exact hneg hno
        · cases hnone
      | none =>
        simp only [Option.isSome_none, Bool.false_eq_true, if_false]
        cases hsup : mmu.supply mmu.stock .l2 with
        | none =>
          have hcap := ((supply_granted hg _ _).mp hsup).2
          exact iff_of_true rfl ⟨hr, hfull, .inr ⟨trivial, hcap⟩⟩
        | some s =>
          simp only [Option.map_some, Option.bind_some]
          refine iff_of_false (hl1 _) ?_
          intro hboth
          obtain ⟨-, -, hno | ⟨-, hcap⟩⟩ := hboth
          · exact hneg hno
          · have hnone := (supply_granted hg mmu.stock .l2).mpr ⟨rfl, hcap⟩
            rw [hsup] at hnone
            cases hnone

/-- A READ map fails exactly where its block is starved, and for want of memory. -/
theorem mapRead_outcome (h : mmu.Settled) (hg : ∀ n, mmu.host.reply n = .granted)
    (hroute : routedBlock mmu ctx lb = some p) :
    (Starved mmu p ∧ ∃ mmu', mmuMapLogicalBlock mmu ctx lb mapRead = (.error .outOfMemory, mmu')) ∨
      (¬Starved mmu p ∧ ∃ d mmu', mmuMapLogicalBlock mmu ctx lb mapRead = (.ok d, mmu')) := by
  obtain ⟨c, lvid, hc, hlvid, hn⟩ := (routedBlock_eq_some h).mp hroute
  rw [mmuMapLogicalBlock_unwritten (by decide) (by decide) hc hlvid]
  cases hr : (mmu.block p).info.residentInL1 with
  | true =>
    have hsup : mmu.supply mmu.stock .l1 ≠ none := by
      intro hnone
      cases ((supply_granted hg _ _).mp hnone).1
    refine .inr ⟨?_, mapResolved_inside h hn hr hsup lb mapRead⟩
    intro hboth
    obtain ⟨hout, -⟩ := hboth
    rw [hr] at hout
    cases hout
  | false =>
    have hstock := mapResolved_stock h hn hr lb mapRead
    by_cases hst : Starved mmu p
    · rw [(promotionSupply_granted h hg hr).mpr hst] at hstock
      obtain ⟨e, m, heq⟩ := hstock
      cases mapResolved_status h hn heq
      exact .inl ⟨hst, m, heq⟩
    · obtain ⟨s, hs⟩ := Option.ne_none_iff_exists'.mp (mt (promotionSupply_granted h hg hr).mp hst)
      rw [hs] at hstock
      exact .inr ⟨hst, hstock⟩

/-- Where every block can be backed and no epoch is at its maximum, a block starves exactly when it and
the pinned blocks do not fit. -/
theorem starved_iff (h : mmu.Settled) (hl2 : mmu.config.l2BlockCount = mmu.config.l1BlockCount)
    (hclock : ∀ q ∈ mmu.residents, ¬maxEpoch ≤ (mmu.block q).info.lastAccessEpoch) :
    Starved mmu p ↔ mmu.config.l1ResidentBlockLimit < (insert p mmu.pinnedBlocks).card := by
  have hcount := h.coherent.count
  have hlimit := h.coherent.limit
  have hconfig := h.coherent.sound.limit
  have hsub := pinned_subset h
  have hle := Finset.card_le_card hsub
  cases hr : (mmu.block p).info.residentInL1 with
  | true =>
    have hin : insert p mmu.pinnedBlocks ⊆ mmu.residents :=
      Finset.insert_subset (h.coherent.mem_residents.mpr hr) hsub
    have hfits := Finset.card_le_card hin
    refine iff_of_false ?_ (by omega)
    intro hboth
    obtain ⟨hout, -⟩ := hboth
    rw [hr] at hout
    cases hout
  | false =>
    have hnew : p ∉ mmu.pinnedBlocks := by
      intro hp
      have hres := h.coherent.mem_residents.mp (hsub hp)
      rw [hr] at hres
      cases hres
    rw [Finset.card_insert_of_notMem hnew]
    constructor
    · intro hboth
      obtain ⟨-, hfull, hstuck⟩ := hboth
      have hall : mmu.residents ⊆ mmu.pinnedBlocks := by
        intro q hq
        by_contra hpin
        have hres := h.coherent.mem_residents.mp hq
        have hne : q ≠ p := by
          intro heq
          subst heq
          rw [hr] at hres
          cases hres
        rw [mem_pinnedBlocks h] at hpin
        have hvictim : Victim mmu p q := (victim_iff h.coherent).mpr ⟨hres, hne, by omega⟩
        rcases pickEvictionCandidate_cases h.coherent.sound p with ⟨_, hmax⟩ | ⟨hpick, _⟩
        · exact hclock q hq (hmax q hvictim)
        · have hnonneg := hpick.nonneg
          rcases hstuck with hneg | ⟨hnone, hcap⟩
          · omega
          · have hv := h.coherent.sound.meta_inRange.mp hpick.valid
            have hlt := @committedPages_lt mmu .l2 _ h.coherent.sound hv hnone
            omega
      have hcard := Finset.card_le_card hall
      omega
    · intro hover
      refine ⟨hr, by omega, .inl ?_⟩
      have hall : mmu.pinnedBlocks = mmu.residents := Finset.eq_of_subset_of_card_le hsub (by omega)
      rcases pickEvictionCandidate_cases h.coherent.sound p with ⟨hpick, _⟩ | ⟨hpick, _⟩
      · rw [hpick]
        decide
      · have hpinned : pickEvictionCandidate mmu p ∈ mmu.pinnedBlocks := by
          rw [hall]
          exact h.coherent.mem_residents.mpr hpick.resident
        have hpos := (mem_pinnedBlocks h).mp hpinned
        have hzero := hpick.unpinned
        omega

/-- What a READ map that goes through means for the rest of its batch. -/
structure Admitted (mmu mmu' : MmuRuntime) (ctx : CtxHandle) (p : Int) : Prop where
  settled : mmu'.Settled
  setup : SameSetup mmu mmu'
  pinned : mmu'.pinnedBlocks = insert p mmu.pinnedBlocks
  routes : ∀ l b, routedBlock mmu ctx l = some b → routedBlock mmu' ctx l = some b

theorem mapRead_admitted (h : mmu.Settled) (hroute : routedBlock mmu ctx lb = some p) (hno : ¬CounterFull mmu ctx lb)
    {d : MappedBlock} (hm : mmuMapLogicalBlock mmu ctx lb mapRead = (.ok d, mmu')) : Admitted mmu mmu' ctx p := by
  have hstep := map_step h hm
  have hs' := hstep.undisplaced.settled
  obtain ⟨hsame, _⟩ := mmuMapLogicalBlock_read h (by decide) hm
  have hd : d.physicalBlockId = p := Option.some.inj (hsame.symm.trans hroute)
  have hroom : (mmu.block p).info.pinCount + 1 < 2 ^ 32 := by
    by_contra hfull
    exact hno (.inl ⟨p, hroute, by omega⟩)
  refine ⟨hs', (map_clean h hm).setup, ?_, ?_⟩
  · ext q
    have hpins := hstep.pins q
    rw [mem_pinnedBlocks hs', Finset.mem_insert, mem_pinnedBlocks h]
    by_cases hq : q = p
    · have hmaps : MapsBlock (.ok d) q := hd.trans hq.symm
      rw [if_pos hmaps, hq, nextPinCount_lt hroom] at hpins
      rw [hq]
      simp only [true_or, iff_true]
      omega
    · have hmaps : ¬MapsBlock (.ok d) q := fun he => hq (he.symm.trans hd)
      rw [if_neg hmaps] at hpins
      simp only [hq, false_or, hpins]
  · intro l b hl
    exact hstep.undisplaced.routes ctx l b hl fun hw => absurd hw (by decide)

/-- A batch of READ maps goes through exactly when its working set fits. -/
theorem mapBlocksLoop_admission (lbs : List UInt32) {done : List MappedBlock} (h : mmu.Settled)
    (hl2 : mmu.config.l2BlockCount = mmu.config.l1BlockCount) (hg : ∀ n, mmu.host.reply n = .granted)
    (hids : ∀ lb ∈ lbs, ∃ b, routedBlock mmu ctx lb = some b)
    (hno : ¬AtSomeTurn (CounterFull · ctx ·) ctx mapRead lbs mmu) {r : Except MmuError (List MappedBlock)}
    (hm : mapBlocksLoop ctx mapRead lbs done mmu = (r, mmu')) :
    ((workingSet mmu ctx lbs).card ≤ mmu.config.l1ResidentBlockLimit ∧ ∃ ds, r = .ok ds) ∨
      (mmu.config.l1ResidentBlockLimit < (workingSet mmu ctx lbs).card ∧ r = .error .outOfMemory) := by
  induction lbs generalizing mmu done with
  | nil =>
    obtain ⟨rfl, _⟩ := Prod.mk.inj hm
    have hcard := Finset.card_le_card (pinned_subset h)
    have hcount := h.coherent.count
    have hlimit := h.coherent.limit
    have hconfig := h.coherent.sound.limit
    have hset : workingSet mmu ctx [] = mmu.pinnedBlocks := Finset.union_empty _
    rw [hset]
    exact .inl ⟨by omega, done, rfl⟩
  | cons lb rest ih =>
    obtain ⟨b, hroute⟩ := hids lb (by simp)
    have hhere := AtSomeTurn.not_here hno
    have hclock : ∀ q ∈ mmu.residents, ¬maxEpoch ≤ (mmu.block q).info.lastAccessEpoch :=
      fun q hq hmax => hhere (.inr ⟨q, hq, hmax⟩)
    have hset : workingSet mmu ctx (lb :: rest) = insert b mmu.pinnedBlocks ∪ requestedBlocks mmu ctx rest := by
      unfold workingSet requestedBlocks
      rw [List.filterMap_cons_some hroute, List.toFinset_cons, Finset.union_insert, Finset.insert_union]
    rw [hset]
    rcases mapRead_outcome h hg hroute with ⟨hst, m, hone⟩ | ⟨hst, d, m, hone⟩
    · unfold mapBlocksLoop at hm
      rw [hone] at hm
      obtain ⟨rfl, _⟩ := Prod.mk.inj hm
      have hover := (starved_iff h hl2 hclock).mp hst
      have hcard : (insert b mmu.pinnedBlocks).card ≤
          (insert b mmu.pinnedBlocks ∪ requestedBlocks mmu ctx rest).card :=
        Finset.card_le_card Finset.subset_union_left
      exact .inr ⟨by omega, rfl⟩
    · have hadm := mapRead_admitted h hroute hhere hone
      have hconfig := hadm.setup.config
      have hrest : ∀ l ∈ rest, ∃ b, routedBlock m ctx l = some b := by
        intro l hl
        obtain ⟨b', hb'⟩ := hids l (List.mem_cons_of_mem _ hl)
        exact ⟨b', hadm.routes l b' hb'⟩
      have hsame : requestedBlocks m ctx rest = requestedBlocks mmu ctx rest := by
        unfold requestedBlocks
        congr 1
        apply List.filterMap_congr
        intro l hl
        obtain ⟨b', hb'⟩ := hids l (List.mem_cons_of_mem _ hl)
        rw [hb', hadm.routes l b' hb']
      unfold mapBlocksLoop at hm
      rw [hone] at hm
      have hloop := ih hadm.settled (by rw [hconfig]; exact hl2) (by rw [hadm.setup.replies]; exact hg) hrest
        (AtSomeTurn.not_later hno hone) hm
      unfold workingSet at hloop
      rw [hadm.pinned, hsame, hconfig] at hloop
      exact hloop

/-- The exact admission condition of a READ batch: order, repetition, history and residency play no part. -/
theorem read_batch_admission (h : Reachable mmu) (hl2 : mmu.config.l2BlockCount = mmu.config.l1BlockCount)
    (hhost : ∀ n, mmu.host.reply n = .granted) {lbs : List UInt32}
    (hids : ∀ lb ∈ lbs, ∃ b, routedBlock mmu ctx lb = some b)
    (hcounters : ¬AtSomeTurn (CounterFull · ctx ·) ctx mapRead lbs mmu) :
    ((∃ ds, (mmuMapLogicalBlocks mmu ctx lbs mapRead).1 = .ok ds) ↔
        (workingSet mmu ctx lbs).card ≤ mmu.config.l1ResidentBlockLimit) ∧
      (mmu.config.l1ResidentBlockLimit < (workingSet mmu ctx lbs).card →
        (mmuMapLogicalBlocks mmu ctx lbs mapRead).1 = .error .outOfMemory) := by
  obtain ⟨r, mmu', hm⟩ : ∃ r mmu', mmuMapLogicalBlocks mmu ctx lbs mapRead = (r, mmu') := ⟨_, _, rfl⟩
  have hfits := mapBlocksLoop_admission lbs h.settled hl2 hhost hids hcounters hm
  rw [hm]
  rcases hfits with ⟨hle, ds, rfl⟩ | ⟨hlt, rfl⟩
  · refine ⟨iff_of_true ⟨ds, rfl⟩ hle, ?_⟩
    intro hlt
    omega
  · refine ⟨iff_of_false ?_ (by omega), fun _ => rfl⟩
    intro hex
    obtain ⟨ds, hds⟩ := hex
    cases hds

end Admission

/-- Four blocks, all of which L2 can back, and room for two in L1, where block 0 is pinned. -/
@[irreducible] def oneOfTwoPinned : MmuRuntime :=
  machine.replay (smallInstance 2 0) [.createContext (some 1), .allocateBlocks 1 4, .mapLogicalBlock 1 0 mapRead]

theorem oneOfTwoPinned_reachable : Reachable oneOfTwoPinned := by
  unfold oneOfTwoPinned
  exact (smallInstance_reachable 2 0).replay (by decide +kernel)

theorem oneOfTwoPinned_setup : oneOfTwoPinned.config.l2BlockCount = oneOfTwoPinned.config.l1BlockCount ∧
    ∀ n, oneOfTwoPinned.host.reply n = .granted := by
  unfold oneOfTwoPinned
  have hsetup := @replay_setup _ [.createContext (some 1), .allocateBlocks 1 4, .mapLogicalBlock 1 0 mapRead]
    (smallInstance_reachable 2 0).settled (by decide +kernel)
  rw [hsetup.config, hsetup.replies]
  exact ⟨rfl, fun _ => rfl⟩

/-- The pinned block may be asked for again, and one more with it, but not two. -/
theorem read_batch_admission_pinned :
    (∃ ds, (mmuMapLogicalBlocks oneOfTwoPinned 1 [3, 0, 3] mapRead).1 = .ok ds) ∧
      (mmuMapLogicalBlocks oneOfTwoPinned 1 [3, 0, 2] mapRead).1 = .error .outOfMemory := by
  obtain ⟨hl2, hhost⟩ := oneOfTwoPinned_setup
  have hroutes : ∀ lbs : List UInt32, lbs.all (fun lb => (routedBlock oneOfTwoPinned 1 lb).isSome) = true →
      ∀ lb ∈ lbs, ∃ b, routedBlock oneOfTwoPinned 1 lb = some b := by
    intro lbs hall lb hlb
    exact Option.isSome_iff_exists.mp (List.all_eq_true.mp hall lb hlb)
  have hfew := hroutes [3, 0, 3] (by decide +kernel)
  have hmany := hroutes [3, 0, 2] (by decide +kernel)
  constructor
  · exact (read_batch_admission oneOfTwoPinned_reachable hl2 hhost hfew (by decide +kernel)).1.mpr (by decide +kernel)
  · exact (read_batch_admission oneOfTwoPinned_reachable hl2 hhost hmany (by decide +kernel)).2 (by decide +kernel)

end DsfMmu
