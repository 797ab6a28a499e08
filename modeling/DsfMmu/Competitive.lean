import DsfMmu.Paging
import DsfMmu.Retention

namespace DsfMmu

open MmuRuntime BlockManager Context LastUse Paging

section Follows

variable {past touches : List Int} {p b : Int}

/-- The blocks touched since the last touch of a requested block have been requested since its request. -/
def Follows (past touches : List Int) : Prop :=
  ∀ b newer older, past = newer ++ b :: older → ∀ q, lastUse touches b < lastUse touches q → q ∈ newer

theorem lastUse_top (touches : List Int) (p q : Int) : lastUse (p :: touches) q ≤ lastUse (p :: touches) p := by
  rw [lastUse_self]
  exact lastUse_le (p :: touches) q

theorem Follows.request (h : Follows past touches) (p : Int) : Follows (p :: past) (p :: touches) := by
  intro b newer older hsplit q hq
  have hb : p ≠ b := by
    rintro rfl
    have htop := lastUse_top touches p q
    omega
  cases newer with
  | nil => exact absurd (List.cons.inj hsplit).1 hb
  | cons p' newer =>
    obtain ⟨rfl, hrest⟩ := List.cons.inj hsplit
    by_cases hqp : p = q
    · exact hqp ▸ List.mem_cons_self
    · rw [lastUse_of_ne hb, lastUse_of_ne hqp] at hq
      exact List.mem_cons_of_mem _ (h b newer older hrest q hq)

theorem Follows.again (h : Follows (p :: past) touches) : Follows (p :: past) (p :: touches) := by
  intro b newer older hsplit q hq
  have hb : p ≠ b := by
    rintro rfl
    have htop := lastUse_top touches p q
    omega
  by_cases hqp : p = q
  · cases newer with
    | nil => exact absurd (List.cons.inj hsplit).1 hb
    | cons p' newer =>
      obtain ⟨rfl, _⟩ := List.cons.inj hsplit
      exact hqp ▸ List.mem_cons_self
  · rw [lastUse_of_ne hb, lastUse_of_ne hqp] at hq
    exact h b newer older hsplit q hq

end Follows

section Arrivals

variable {mmu mmu' mid : MmuRuntime} {ctx : CtxHandle} {lb flags : UInt32} {p : Int} {d : MappedBlock}

/-- No block but `p` is new in L1. -/
def OnlyArrives (p : Int) (mmu mmu' : MmuRuntime) : Prop :=
  ∀ q, q ≠ p → (mmu'.block q).info.residentInL1 = true → (mmu.block q).info.residentInL1 = true

theorem EvictedAtMostOne.arrives (h : EvictedAtMostOne p mmu mmu') : OnlyArrives p mmu mmu' := by
  intro q _ hq
  rcases h with h | ⟨v, ptr, _, _, h⟩
  · rw [h] at hq
    exact hq
  · rw [h] at hq
    by_cases hqv : q = v
    · subst hqv
      rw [Function.update_self] at hq
      cases hq
    · rw [Function.update_of_ne hqv] at hq
      exact hq

theorem OnlyArrives.update (h : OnlyArrives p mmu mid) {v : BlockView}
    (hb : mmu'.block = Function.update mid.block p v) : OnlyArrives p mmu mmu' := by
  intro q hqp hq
  rw [hb, Function.update_of_ne hqp] at hq
  exact h q hqp hq

theorem mapResolved_arrives (h : mmu.Settled) {c : Context} {lvid : Int}
    (hm : mapResolved mmu c lvid lb flags = (.ok d, mmu')) : OnlyArrives d.physicalBlockId mmu mmu' := by
  obtain ⟨hn, _⟩ := mapResolved_ok h hm
  rw [mapResolved_names h hn] at hm
  split at hm
  next => cases hm
  next m1 hens =>
    obtain ⟨hq1, hres, mid, hev, v, hblock1⟩ := ensureResidentInL1_ok h hn.live hens
    have hs1 := hq1.settled h
    have hp1 := (hq1.routing.live d.physicalBlockId).mpr hn.live
    split at hm
    next => cases hm
    next slot m2 hacq =>
      obtain ⟨_, rfl⟩ := Prod.mk.inj hm
      obtain ⟨hq2, hblock2⟩ := hs1.coherent.materialise hp1 hres hacq
      have hl2 : (m2.block d.physicalBlockId).l1 =
          some ⟨slot, BlockView.pageBytes m1.zeroPage (m1.block d.physicalBlockId).l1⟩ := by
        rw [hblock2, Function.update_self]
        rfl
      have hpin := (pin_touch (hq2.settled hs1) ((hq2.routing.live _).mpr hp1) hl2).2.2
      exact ((hev.arrives.update hblock1).update hblock2).update hpin

/-- What a map brings to L1 is the block it returns. -/
theorem map_arrives (h : mmu.Settled) (hm : mmuMapLogicalBlock mmu ctx lb flags = (.ok d, mmu')) :
    (mmu'.block d.physicalBlockId).info.residentInL1 = true ∧ OnlyArrives d.physicalBlockId mmu mmu' := by
  rcases map_stages h hm with ⟨_, ⟨_, he⟩, _⟩ | ⟨mid, c, lvid, p, hres⟩
  · cases he
  · obtain ⟨_, hmapped, _⟩ := mapResolved_ok hres.settled hres.rest
    have harrives := mapResolved_arrives hres.settled hres.rest
    refine ⟨hmapped.resident, ?_⟩
    rcases hres.before with rfl | ⟨b, hr⟩
    · exact harrives
    · intro q hqp hq
      rw [← prepare_residents h hr]
      exact harrives q hqp hq

theorem OnlyArrives.loads (h : OnlyArrives p mmu mmu') (hs : mmu.Settled) (hs' : mmu'.Settled)
    (hin : (mmu'.block p).info.residentInL1 = true) :
    (mmu'.residents \ mmu.residents).card = if (mmu.block p).info.residentInL1 = true then 0 else 1 := by
  split
  next hr =>
    rw [Finset.card_eq_zero, Finset.sdiff_eq_empty_iff_subset]
    intro q hq
    by_cases hqp : q = p
    · exact hs.coherent.mem_residents.mpr (hqp ▸ hr)
    · exact hs.coherent.mem_residents.mpr (h q hqp (hs'.coherent.mem_residents.mp hq))
  next hr =>
    rw [Finset.card_eq_one]
    refine ⟨p, ?_⟩
    ext q
    rw [Finset.mem_sdiff, Finset.mem_singleton, hs.coherent.mem_residents, hs'.coherent.mem_residents]
    constructor
    · rintro ⟨hq, hout⟩
      by_contra hqp
      exact hout (h q hqp hq)
    · rintro rfl
      exact ⟨hin, hr⟩

end Arrivals

/-- A use of one entry: a map and, once the program is done, the unmap. -/
structure Access where
  ctx : CtxHandle
  logicalBlock : UInt32
  mapFlags : UInt32

/-- The block that a served access was of, and whether it was in L1. -/
def Access.serve (a : Access) (mmu : MmuRuntime) : Option (Int × Bool) × MmuRuntime :=
  match mmuMapLogicalBlock mmu a.ctx a.logicalBlock a.mapFlags with
  | (.error _, mmu') => (none, mmu')
  | (.ok d, mmu') =>
    (some (d.physicalBlockId, (mmu.block d.physicalBlockId).info.residentInL1), (mmuUnmapLogicalBlock mmu' a.ctx d).2)

def serveAll : List Access → MmuRuntime → List (Int × Bool) × MmuRuntime
  | [], mmu => ([], mmu)
  | a :: rest, mmu =>
    ((a.serve mmu).1.toList ++ (serveAll rest (a.serve mmu).2).1, (serveAll rest (a.serve mmu).2).2)

/-- The blocks that the accesses ask for. -/
def requests (mmu : MmuRuntime) (accesses : List Access) : List Int := (serveAll accesses mmu).1.map Prod.fst

/-- How many of them had to be brought to L1. -/
def swapIns (mmu : MmuRuntime) (accesses : List Access) : Nat := (serveAll accesses mmu).1.countP fun x => !x.2

section Serving

variable {mmu mid : MmuRuntime} {a : Access} {d : MappedBlock}

theorem Access.serve_error {e : MmuError}
    (hm : mmuMapLogicalBlock mmu a.ctx a.logicalBlock a.mapFlags = (.error e, mid)) : a.serve mmu = (none, mid) := by
  unfold Access.serve
  rw [hm]

theorem Access.serve_ok (hm : mmuMapLogicalBlock mmu a.ctx a.logicalBlock a.mapFlags = (.ok d, mid)) :
    a.serve mmu = (some (d.physicalBlockId, (mmu.block d.physicalBlockId).info.residentInL1),
      (mmuUnmapLogicalBlock mid a.ctx d).2) := by
  unfold Access.serve
  rw [hm]

theorem requests_error {x : MmuRuntime} (h : a.serve mmu = (none, x)) (rest : List Access) :
    requests mmu (a :: rest) = requests x rest ∧ swapIns mmu (a :: rest) = swapIns x rest := by
  have hall : (serveAll (a :: rest) mmu).1 = (serveAll rest x).1 := by
    rw [serveAll, h]
    rfl
  unfold requests swapIns
  rw [hall]
  exact ⟨rfl, rfl⟩

theorem requests_ok {x : MmuRuntime} {inside : Bool} {p : Int} (h : a.serve mmu = (some (p, inside), x))
    (rest : List Access) : requests mmu (a :: rest) = p :: requests x rest ∧
      swapIns mmu (a :: rest) = (if inside = true then 0 else 1) + swapIns x rest := by
  have hall : (serveAll (a :: rest) mmu).1 = (p, inside) :: (serveAll rest x).1 := by
    rw [serveAll, h]
    rfl
  unfold requests swapIns
  rw [hall, List.map_cons, List.countP_cons]
  refine ⟨rfl, ?_⟩
  cases inside with
  | true => exact (Nat.zero_add _).symm
  | false => exact Nat.add_comm _ _

theorem Access.reach {start : MmuRuntime} (h : machine.Reach Machine.anyStep start mmu) (a : Access) :
    machine.Reach Machine.anyStep start (a.serve mmu).2 := by
  have hmap := @Machine.Reach.next _ _ _ machine Machine.anyStep _ _ (.mapLogicalBlock a.ctx a.logicalBlock a.mapFlags) h
    trivial trivial
  obtain ⟨r, mid, hm⟩ : ∃ r mid, mmuMapLogicalBlock mmu a.ctx a.logicalBlock a.mapFlags = (r, mid) := ⟨_, _, rfl⟩
  simp only [machine, perform, hm] at hmap
  cases r with
  | error e =>
    rw [Access.serve_error hm]
    exact hmap
  | ok d =>
    rw [Access.serve_ok hm]
    exact @Machine.Reach.next _ _ _ machine Machine.anyStep _ _ (.unmapLogicalBlock a.ctx d) hmap trivial trivial

theorem serveAll_reach {start : MmuRuntime} (accesses : List Access) (h : machine.Reach Machine.anyStep start mmu) :
    machine.Reach Machine.anyStep start (serveAll accesses mmu).2 := by
  induction accesses generalizing mmu with
  | nil => exact h
  | cons a rest ih => exact ih (a.reach h)

end Serving

/-- Between two accesses no block is pinned, and all that was requested recently is in L1. -/
structure AtRest (mmu : MmuRuntime) (touches past : List Int) : Prop where
  roomy : Roomy mmu touches
  unpinned : ∀ q, (mmu.block q).info.pinCount = 0
  follows : Follows past touches
  kept : ∀ b, Recent mmu.config.l1ResidentBlockLimit past b → (mmu.block b).info.residentInL1 = true

section Accesses

variable {mmu mmu' mid : MmuRuntime} {ctx : CtxHandle} {lb flags : UInt32} {touches past : List Int} {p b : Int}
  {d : MappedBlock}

theorem Roomy.residents_le (h : Roomy mmu touches) : mmu.residents.card ≤ mmu.config.l1ResidentBlockLimit := by
  have hcount := h.settled.coherent.count
  have hlimit := h.settled.coherent.limit
  have hresolved := h.settled.coherent.sound.limit
  omega

theorem AtRest.not_starved (h : AtRest mmu touches past) (p : Int) (hlen : touches.length < maxEpoch) :
    ¬Starved mmu p := by
  have hs := h.roomy.settled
  have hnone : mmu.pinnedBlocks = ∅ := by
    refine Finset.eq_empty_of_forall_notMem fun q hq => ?_
    have hpos := (mem_pinnedBlocks hs).mp hq
    have hzero := h.unpinned q
    omega
  have hclock : ∀ q ∈ mmu.residents, ¬maxEpoch ≤ (mmu.block q).info.lastAccessEpoch := by
    intro q hq
    have hstamp := h.roomy.clocked.stamp q (hs.coherent.mem_residents.mp hq)
    have hlast := lastUse_le touches q
    have hmod := Nat.mod_le (lastUse touches q) (2 ^ 64)
    omega
  rw [starved_iff hs h.roomy.l2 hclock, hnone]
  have hpos := mmu.config.limit_pos
  have hone : (insert p (∅ : Finset Int)).card = 1 := Finset.card_singleton p
  omega

/-- A preparation brings nothing to L1 and takes nothing out of it. -/
theorem AtRest.prepared (h : AtRest mmu touches past) {r : Except MmuError Int}
    (hr : mmuPrepareBlockForWrite mmu ctx lb = (r, mmu')) : AtRest mmu' touches past := by
  have hs := h.roomy.settled
  refine ⟨h.roomy.prepared hr, ?_, h.follows, ?_⟩
  · intro q
    rw [(prepare_undisplaced hs hr).2]
    exact h.unpinned q
  · intro b hrecent
    rw [(prepare_clean hs hr).setup.config] at hrecent
    rw [prepare_residents hs hr]
    exact h.kept b hrecent

/-- A map that fails has failed before it looked at L1. -/
theorem AtRest.refused (h : AtRest mmu touches past) (hlen : touches.length < maxEpoch) {e : MmuError}
    (hm : mmuMapLogicalBlock mmu ctx lb flags = (.error e, mmu')) :
    AtRest mmu' touches past ∧ mmu'.config = mmu.config ∧ mmu'.residents = mmu.residents := by
  have hs := h.roomy.settled
  rcases map_stages hs hm with ⟨_, _, rfl | ⟨e', hr⟩⟩ | ⟨mid, c, lvid, p, hres⟩
  · exact ⟨h, rfl, rfl⟩
  · have hrest := h.prepared hr
    refine ⟨hrest, (prepare_clean hs hr).setup.config, ?_⟩
    ext q
    rw [hrest.roomy.settled.coherent.mem_residents, hs.coherent.mem_residents, prepare_residents hs hr]
  · have hmid : AtRest mid touches past := by
      rcases hres.before with rfl | ⟨b, hr⟩
      · exact h
      · exact h.prepared hr
    rcases mapResolved_outcome hmid.roomy.settled hmid.roomy.grants hres.names lb flags with
      ⟨hst, _⟩ | ⟨_, d, m, heq⟩
    · exact absurd hst (hmid.not_starved p hlen)
    · cases hres.rest.symm.trans heq

/-- A recent block is still in L1 after the next map, as is the block mapped. -/
theorem AtRest.map_keeps (h : AtRest mmu touches past) (hlen : touches.length + 2 < maxEpoch)
    (hm : mmuMapLogicalBlock mmu ctx lb flags = (.ok d, mid))
    (hrecent : Recent mmu.config.l1ResidentBlockLimit (d.physicalBlockId :: past) b) :
    (mid.block b).info.residentInL1 = true := by
  have hs := h.roomy.settled
  obtain ⟨newer, older, hsplit, hfew⟩ := hrecent
  cases newer with
  | nil =>
    obtain ⟨rfl, _⟩ := List.cons.inj hsplit
    exact (map_arrives hs hm).1
  | cons p newer =>
    obtain ⟨rfl, hpast⟩ := List.cons.inj hsplit
    have hsub : insert b newer.toFinset ⊆ insert b (d.physicalBlockId :: newer).toFinset := by
      rw [List.toFinset_cons]
      exact Finset.insert_subset_insert b (Finset.subset_insert _ _)
    have hwindow : Window b (lastUse touches b) (insert b (d.physicalBlockId :: newer).toFinset) mmu touches := by
      refine ⟨h.roomy, h.kept b ⟨newer, older, hpast, (Finset.card_le_card hsub).trans hfew⟩, le_rfl, ?_⟩
      intro q hq
      have hzero := h.unpinned q
      omega
    refine (hwindow.map (Finset.mem_insert_self ..) hfew ?_ hm).resident
    rw [mapTouches_ok hs hm]
    refine ⟨hlen, fun q hq => ?_⟩
    by_cases hqd : d.physicalBlockId = q
    · subst hqd
      simp
    · rw [List.cons_append, lastUse_of_ne hqd, List.cons_append, lastUse_of_ne hqd] at hq
      exact hsub (Finset.mem_insert_of_mem (List.mem_toFinset.mpr (h.follows b newer older hpast q hq)))

/-- After a map and its unmap the instance is at rest again, one request further on. -/
theorem AtRest.served (h : AtRest mmu touches past) (hlen : touches.length + 3 < maxEpoch)
    (hm : mmuMapLogicalBlock mmu ctx lb flags = (.ok d, mid)) {r : Except MmuError Unit}
    (hu : mmuUnmapLogicalBlock mid ctx d = (r, mmu')) :
    ∃ touches', touches'.length ≤ touches.length + 3 ∧ AtRest mmu' touches' (d.physicalBlockId :: past) ∧
      mmu'.config = mmu.config ∧ mmu'.residents = mid.residents := by
  have hs := h.roomy.settled
  have hmid : Roomy mid (mapTouches mmu ctx lb flags ++ touches) := h.roomy.mapped hm
  rw [mapTouches_ok hs hm] at hmid
  have hroomy := hmid.unmapped ctx d
  rw [hu] at hroomy
  have hstep := map_step hs hm
  obtain ⟨hlb, hroute, _⟩ := hstep.routed d rfl
  have hun := (mmuUnmapLogicalBlock_accepted hmid.settled (hlb ▸ hroute) hu).2
  have hconfig : mmu'.config = mmu.config :=
    (unmap_clean hmid.settled hu).setup.config.trans (map_clean hs hm).setup.config
  have hfollows := (h.follows.request d.physicalBlockId).again
  have htouches : unmapTouches mid ctx d = [] ∨ unmapTouches mid ctx d = [d.physicalBlockId] := by
    unfold unmapTouches touchedBy
    split
    next => exact .inr rfl
    next => exact .inl rfl
  refine ⟨_, ?_, ⟨hroomy, ?_, ?_, ?_⟩, hconfig, ?_⟩
  · rcases htouches with ht | ht <;> rw [ht] <;> simp
  · intro q
    rw [hun.pins, hstep.pins, hstep.pins]
    by_cases hq : q = d.physicalBlockId
    · subst hq
      have hself : MapsBlock (.ok d) d.physicalBlockId := rfl
      rw [if_pos rfl, if_pos hself, h.unpinned]
      rfl
    · have hother : ¬MapsBlock (.ok d) q := fun hmaps => hq hmaps.symm
      rw [if_neg hq, if_neg hother]
      exact h.unpinned q
  · rcases htouches with ht | ht
    · rw [ht]
      exact hfollows
    · rw [ht]
      exact hfollows.again
  · intro b hrecent
    rw [hconfig] at hrecent
    rw [hun.residents]
    exact h.map_keeps (by omega) hm hrecent
  · ext q
    rw [hun.settled.coherent.mem_residents, hmid.settled.coherent.mem_residents, hun.residents]

/-- The residents are a cache that serves the accesses, and it holds on to what is recent. -/
theorem AtRest.serves (accesses : List Access) (h : AtRest mmu touches past)
    (hlen : touches.length + 3 * accesses.length < maxEpoch) :
    Schedule mmu.config.l1ResidentBlockLimit mmu.residents (requests mmu accesses) (swapIns mmu accesses)
        (serveAll accesses mmu).2.residents ∧
      Retains mmu.config.l1ResidentBlockLimit past (requests mmu accesses) (swapIns mmu accesses) := by
  induction accesses generalizing mmu touches past with
  | nil => exact ⟨.done _, .done _⟩
  | cons a rest ih =>
    rw [List.length_cons] at hlen
    obtain ⟨r, mid, hm⟩ : ∃ r mid, mmuMapLogicalBlock mmu a.ctx a.logicalBlock a.mapFlags = (r, mid) := ⟨_, _, rfl⟩
    cases r with
    | error e =>
      have hserve := Access.serve_error hm
      obtain ⟨hrequests, hswaps⟩ := requests_error hserve rest
      obtain ⟨hrest, hconfig, hresidents⟩ := h.refused (by omega) hm
      have hserves := ih hrest (by omega)
      rw [hconfig, hresidents] at hserves
      rw [hrequests, hswaps, serveAll, hserve]
      exact hserves
    | ok d =>
      obtain ⟨r, mmu', hu⟩ : ∃ r m, mmuUnmapLogicalBlock mid a.ctx d = (r, m) := ⟨_, _, rfl⟩
      have hserve := Access.serve_ok hm
      rw [hu] at hserve
      obtain ⟨hrequests, hswaps⟩ := requests_ok hserve rest
      obtain ⟨touches', hle, hrest, hconfig, hresidents⟩ := h.served (by omega) hm hu
      obtain ⟨hschedule, hretains⟩ := ih hrest (by omega)
      have hs := h.roomy.settled
      have hmid := (map_clean hs hm).settled
      obtain ⟨hin, harrives⟩ := map_arrives hs hm
      have hload := harrives.loads hs hmid hin
      have hmem := hmid.coherent.mem_residents.mpr hin
      have hcard := hrest.roomy.residents_le
      rw [← hresidents] at hload hmem
      rw [hconfig] at hschedule hretains hcard
      rw [hrequests, hswaps, serveAll, hserve, ← hload]
      refine ⟨.serve hmem hcard hschedule, ?_⟩
      rw [hload]
      split
      next =>
        rw [Nat.zero_add]
        exact .hit hretains
      next hout =>
        rw [Nat.add_comm]
        exact .miss (mt (h.kept _) hout) hretains

end Accesses

/-- Accesses are calls of the API: L1 serves them as a cache of `l1_resident_block_limit` frames, at one load a swap-in; and however much a
schedule of the same requests on `j` frames knows of the future, the swap-ins are, up to a constant, at most
`limit / (limit - j + 1)` times its loads. -/
structure SwapsCompetitively (mmu : MmuRuntime) (accesses : List Access) : Prop where
  run : machine.Reach Machine.anyStep mmu (serveAll accesses mmu).2
  serves : Schedule mmu.config.l1ResidentBlockLimit mmu.residents (requests mmu accesses) (swapIns mmu accesses)
    (serveAll accesses mmu).2.residents
  competitive : ∀ (j loads : Nat) (cache final : Finset Int), j ≤ mmu.config.l1ResidentBlockLimit → cache.card ≤ j →
    Schedule j cache (requests mmu accesses) loads final →
    (mmu.config.l1ResidentBlockLimit - j + 1) * swapIns mmu accesses ≤
      mmu.config.l1ResidentBlockLimit * loads +
        (mmu.config.l1ResidentBlockLimit - j + 1) * mmu.config.l1ResidentBlockLimit

theorem AtRest.competitive {mmu : MmuRuntime} {touches : List Int} (h : AtRest mmu touches []) {accesses : List Access}
    (hlen : touches.length + 3 * accesses.length < maxEpoch) : SwapsCompetitively mmu accesses := by
  obtain ⟨hserves, hretains⟩ := h.serves accesses hlen
  exact ⟨serveAll_reach accesses .start, hserves, fun j loads cache final hj hcache hschedule => hretains.competitive hschedule hj hcache⟩

/-- From every state of a run in which no block is pinned, the swapping of a list of accesses competes with any
schedule. -/
theorem swapping_competitive {start : MmuRuntime} {s : MmuRuntime × List Int} (hstart : Initial start)
    (hl2 : start.config.l2BlockCount = start.config.l1BlockCount) (hhost : ∀ n, start.host.reply n = .granted)
    (hs : (machine.withGhost touchStep).Reach Machine.anyStep (start, []) s) (hunpinned : s.1.pinnedBlocks = ∅)
    {accesses : List Access} (hlen : s.2.length + 3 * accesses.length < maxEpoch) :
    SwapsCompetitively s.1 accesses := by
  obtain ⟨hroomy, _⟩ := (Roomy.fresh hstart hl2 hhost).reached hs
  have hrest : AtRest s.1 s.2 [] := by
    refine ⟨hroomy, ?_, ?_, ?_⟩
    · intro q
      by_contra hpin
      have hmem := (mem_pinnedBlocks hroomy.settled).mpr (Nat.pos_of_ne_zero hpin)
      rw [hunpinned] at hmem
      cases hmem
    · intro b newer older hsplit
      cases newer <;> cases hsplit
    · rintro b ⟨newer, older, hsplit, _⟩
      cases newer <;> cases hsplit
  exact hrest.competitive hlen

/-- Three blocks in use and room for two of them in L1. -/
def crowdedInstance : MmuRuntime × List Int :=
  (machine.withGhost touchStep).replay (smallInstance 2 0, []) [.createContext (some 1), .allocateBlocks 1 3]

theorem swapping_competitive_crowdedInstance :
    SwapsCompetitively crowdedInstance.1 [⟨1, 0, mapRead⟩, ⟨1, 2, mapRead⟩, ⟨1, 0, mapRead⟩, ⟨1, 1, mapRead⟩] :=
  swapping_competitive (smallInstance_initial 2 0) rfl (fun _ => rfl)
    (@reach_replay _ touchStep _ _ [.createContext (some 1), .allocateBlocks 1 3] .start (by decide +kernel))
    (by decide +kernel) (by decide +kernel)

end DsfMmu
