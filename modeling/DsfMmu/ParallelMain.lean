import DsfMmu.ParallelRuns

namespace DsfMmu

namespace ParallelTest

open Procedure MmuRuntime KvExample Parties

section Bounds

variable {threads : Nat} {contexts : Fin threads → CtxHandle} {iters budget : Nat} {config : ResolvedConfig} {a : Ledger}
  {F : Prop}

theorem finRange_at {i : Nat} {tid : Fin threads} (h : (List.finRange threads)[i]? = some tid) : tid.val = i := by
  obtain ⟨hi, rfl⟩ := List.getElem?_eq_some_iff.mp h
  rw [List.getElem_finRange]
  rfl

/-- Set up for the first `i` workers. -/
structure SetUp (contexts : Fin threads → CtxHandle) (config : ResolvedConfig) (i : Nat) (a : Ledger) : Prop where
  maps : a.maps = []
  clock : a.touches = i
  free : a.free + i = config.l1BlockCount
  page : ∀ j, j.val < i → a.world.slot (contexts j) 0 = some (List.replicate config.blockSizeBytes 0)
  unused : ∀ j, i ≤ j.val → a.world (contexts j) = none
  config : a.config = config

/-- The set-up gives up exactly where there are not enough blocks. -/
theorem setUp_ends (hinj : Function.Injective contexts) (hnull : ∀ tid, contexts tid ≠ nullHandle)
    (hF : config.l1BlockCount < threads → F) :
    Ends (fun s => ∃ a, Serves s a ∧ SetUp contexts config 0 a) (setUp contexts)
      (fun _ s => ∃ a, Serves s a ∧ SetUp contexts config threads a) F := by
  unfold setUp
  refine Ends.forM (fun i s => ∃ a, Serves s a ∧ SetUp contexts config i a) (fun _ h => h) ?_ ?_
  · intro i tid htid
    have hi := finRange_at htid
    subst hi
    refine Ends.bind (Q := fun _ s => ∃ a, Serves s (a.create (contexts tid)) ∧ SetUp contexts config tid a) ?_ fun _ => ?_
    · apply ends_attempt
      intro s hs
      obtain ⟨a, hserves, hset⟩ := hs
      obtain ⟨s', hcreate, hserves'⟩ := hserves.create (hnull tid) (hset.unused tid le_rfl)
      exact .inl ⟨_, s', hcreate, a, hserves', hset⟩
    · apply ends_attempt
      intro s hs
      obtain ⟨a, hserves, hset⟩ := hs
      have hfree := hset.free
      have hsize : (a.world.create (contexts tid)).size (contexts tid) = some 0 := EagerWorld.size_create
      have hempty : (a.create (contexts tid)).world (contexts tid) = some [] := Function.update_self ..
      rcases @Serves.allocate _ _ _ hserves _ hempty 1 (by decide) with ⟨hroom, s', hallocate, hserves'⟩ | ⟨hfull, s', hallocate⟩
      · refine .inl ⟨(), s', hallocate, _, hserves', hset.maps, ?_, ?_, ?_, ?_, hset.config⟩
        · show a.touches + 1 = tid.val + 1
          rw [hset.clock]
        · have hone : (1 : UInt32).toNat = 1 := rfl
          show a.free - 1 + (tid.val + 1) = config.l1BlockCount
          have hroom' : 1 ≤ a.free := hroom
          omega
        · intro j hj
          by_cases hji : j = tid
          · subst hji
            show ((a.world.create (contexts j)).allocate (contexts j) 1 a.zeroPage).slot (contexts j) 0 = _
            rw [EagerWorld.slot_allocate_new _ hsize le_rfl (Nat.zero_lt_one), ← hset.config]
            rfl
          · have hne : contexts j ≠ contexts tid := fun heq => hji (hinj heq)
            have hval : j.val ≠ tid.val := fun heq => hji (Fin.ext heq)
            have hkept : ((a.world.create (contexts tid)).allocate (contexts tid) 1 a.zeroPage).slot (contexts j) 0 =
                a.world.slot (contexts j) 0 :=
              (EagerWorld.slot_update_of_ne _ _ _ hne).trans (EagerWorld.slot_update_of_ne _ _ _ hne)
            exact hkept.trans (hset.page j (by omega))
        · intro j hj
          have hne : contexts j ≠ contexts tid := by
            intro heq
            rw [hinj heq] at hj
            omega
          have hkept : ((a.world.create (contexts tid)).allocate (contexts tid) 1 a.zeroPage) (contexts j) =
              a.world (contexts j) := (Function.update_of_ne hne ..).trans (Function.update_of_ne hne ..)
          exact hkept.trans (hset.unused j (by omega))
      · refine .inr ⟨hF ?_, _, s', hallocate⟩
        have hfull' : a.free < 1 := hfull
        have hlt := tid.isLt
        omega
  · intro s hs
    rw [List.length_finRange] at hs
    exact hs

/-- All turns the workers have in them, and the touches these may make. -/
def turnBudget (threads iters : Nat) : Nat := threads + 2 * (threads * (4 * iters + 1))

theorem launched_turns (mmu : MmuRuntime) :
    turnsLeft (Worker.left iters) (launched mmu : (Fin threads → Worker) × Shared threads) = threads * (4 * iters + 1) := by
  have hconst : ∀ i ∈ Finset.univ, Worker.left iters ((launched mmu : (Fin threads → Worker) × Shared threads).1 i) =
      4 * iters + 1 := fun _ _ => rfl
  unfold turnsLeft
  rw [Finset.sum_const_nat hconst, Finset.card_univ, Fintype.card_fin]

theorem launched_working {mmu : MmuRuntime} (h : Serves mmu a) (hset : SetUp contexts config threads a) :
    Working contexts iters (turnBudget threads iters) config a (launched mmu) := by
  have hout : ∀ i, ¬∃ d, (((launched mmu : (Fin threads → Worker) × Shared threads)).1 i).held = some d := by
    intro i hex
    obtain ⟨d, hd⟩ := hex
    cases hd
  refine ⟨h, hset.config, ?_, rfl, ?_, ?_, ?_, ?_⟩
  · rw [launched_turns, hset.clock]
    exact le_rfl
  · intro i
    refine ⟨fun d hd => absurd ⟨d, hd⟩ (hout i), ⟨_, hset.page i i.isLt, ?_⟩, fun hreturned => ?_⟩
    · exact List.getElem?_replicate_of_lt config.size_pos
    · cases hreturned
  · rw [hset.maps]
    intro x hx
    cases hx
  · rw [hset.maps]
    exact List.nodup_nil
  · rw [hset.maps]
    intro x hx
    cases hx

end Bounds

section Check

variable {threads : Nat} {contexts : Fin threads → CtxHandle} {iters budget touches : Nat} {config : ResolvedConfig}
  {a : Ledger} {world : EagerWorld CtxHandle Bytes} {t : (Fin threads → Worker) × Shared threads}

/-- Nothing is out, and the slots are those of `world`. -/
structure Idle (world : EagerWorld CtxHandle Bytes) (touches : Nat) (a : Ledger) : Prop where
  world : a.world = world
  maps : a.maps = []
  clock : a.touches ≤ touches

/-- What is left when all have returned. -/
theorem Working.idle (h : Working contexts iters budget config a t) (hquiet : (workers contexts iters).Quiet t) :
    Idle a.world budget a := by
  refine ⟨rfl, ?_, ?_⟩
  · refine List.eq_nil_iff_forall_not_mem.mpr fun x hx => ?_
    obtain ⟨i, _, hi⟩ := h.owner x hx
    unfold Worker.held at hi
    rw [quiet_returned hquiet] at hi
    cases hi
  · have hclock := h.clock
    omega

theorem Working.expected (h : Working contexts iters budget config a t) (hquiet : (workers contexts iters).Quiet t)
    (i : Fin threads) : ∃ bytes, a.world.slot (contexts i) 0 = some bytes ∧ bytes[0]? = some (t.2.expectedLast i) := by
  rw [(h.stands i).left (quiet_returned hquiet i)]
  exact (h.stands i).page

/-- The check finds the expected values and goes through. -/
theorem checkLast_ends {expectedLast : Fin threads → UInt8}
    (hshows : ∀ i, ∃ bytes, world.slot (contexts i) 0 = some bytes ∧ bytes[0]? = some (expectedLast i))
    (hclock : touches + 3 * threads < maxEpoch) :
    Ends (fun s => ∃ a, Serves s a ∧ Idle world touches a) (checkLast contexts expectedLast) (fun same _ => same = true)
      False := by
  unfold checkLast
  refine Ends.foldlM (fun k same s => same = true ∧ ∃ a, Serves s a ∧ Idle world (touches + 3 * k) a)
    (fun _ hs => ⟨rfl, hs⟩) ?_ fun _ _ hs => hs.1
  intro k tid same htid
  have hk := finRange_at htid
  subst hk
  have hlt := tid.isLt
  obtain ⟨bytes, hslot, hfirst⟩ := hshows tid
  refine Ends.given fun hsame => ?_
  subst hsame
  refine Ends.bind (Q := fun d s => d.logicalBlockId = 0 ∧ ∃ a, Serves s (a.map (contexts tid) d) ∧
    Idle world (touches + 3 * tid) a) ?_ fun d => Ends.given fun hzero => ?_
  · apply ends_attempt
    intro s hs
    obtain ⟨a, hserves, hidle⟩ := hs
    have hcur : a.world.slot (contexts tid) (0 : UInt32).toNat = some bytes := by
      rw [hidle.world]
      exact hslot
    have htouches := hidle.clock
    have hread : hasWrite mapRead = true → NotHeld a.maps (contexts tid) 0 := fun hw => absurd hw (by decide)
    rcases hserves.map rfl hcur hread (by rw [hidle.maps]; decide) (by omega) with
      ⟨_, d, s', hmap, hgranted, hserves'⟩ | ⟨hfull, _⟩
    · exact .inl ⟨d, s', hmap, hgranted.entry, a, hserves', hidle⟩
    · refine absurd ?_ hfull
      have hnone : a.held = ∅ := by
        unfold Ledger.held
        rw [hidle.maps]
        rfl
      unfold Ledger.Admits
      rw [hnone]
      exact a.config.limit_pos
  refine Ends.bind (Q := fun value s => value = expectedLast tid ∧ ∃ a, Serves s (a.map (contexts tid) d) ∧
    Idle world (touches + 3 * tid) a) ?_ fun value => Ends.given fun hvalue => ?_
  · apply ends_query
    intro s hs
    refine ⟨?_, hs⟩
    obtain ⟨a, hserves, hidle⟩ := hs
    have hheld : (contexts tid, d) ∈ (a.map (contexts tid) d).maps := List.mem_cons_self
    have hread := hserves.read hheld
    have hcur : (a.map (contexts tid) d).world.slot (contexts tid) d.logicalBlockId.toNat = some bytes := by
      rw [hzero, ← hslot, ← hidle.world]
      rfl
    cases hcur.symm.trans hread
    rw [← List.head?_eq_getElem?] at hfirst
    rw [List.headD_eq_head?_getD, hfirst]
    rfl
  subst hvalue
  refine Ends.bind (Q := fun _ s => ∃ a, Serves s a ∧ Idle world (touches + 3 * (tid + 1)) a) ?_ fun _ => ?_
  · apply ends_attempt
    intro s hs
    obtain ⟨a, hserves, hidle⟩ := hs
    have hheld : (contexts tid, d) ∈ (a.map (contexts tid) d).maps := List.mem_cons_self
    obtain ⟨s', hunmap, hserves'⟩ := hserves.unmap hheld
    have htouches := hidle.clock
    refine .inl ⟨(), s', hunmap, _, hserves', hidle.world, ?_, ?_⟩
    · show ((contexts tid, d) :: a.maps).erase (contexts tid, d) = []
      rw [List.erase_cons_head, hidle.maps]
    · show a.touches + 2 + 1 ≤ _
      omega
  · apply Ends.ret
    intro s hs
    exact ⟨by rw [Bool.true_and, beq_self_eq_true], hs⟩

end Check

section Overload

variable {threads : Nat} {contexts : Fin threads → CtxHandle} {iters budget : Nat} {config : ResolvedConfig} {a : Ledger}
  {t : (Fin threads → Worker) × Shared threads} {i : Fin threads}

theorem workerTurn_proceeds {w : Worker} {s : Shared threads} (hphase : w.phase = .checking) (hiter : w.iter < iters)
    (hcalm : s.failed = false) : workerTurn contexts iters i w s = some ({ w with phase := .mapping }, s) := by
  unfold workerTurn
  rw [hphase]
  dsimp only
  rw [if_pos hiter, if_neg (by rw [hcalm]; exact Bool.false_ne_true)]

/-- A worker that has not begun comes to its first map. -/
theorem Working.enters (h : Working contexts iters budget config a t) (hnew : t.1 i = ⟨.checking, 0, 0⟩) (hiters : 0 < iters) :
    ∃ u, (workers contexts iters).Run t 1 u ∧ Working contexts iters budget config a u ∧ (u.1 i).phase = .mapping ∧
      ∀ j, j ≠ i → u.1 j = t.1 j := by
  have hturn : workerTurn contexts iters i (t.1 i) t.2 = some ({ t.1 i with phase := .mapping }, t.2) :=
    workerTurn_proceeds (by rw [hnew]) (by rw [hnew]; exact hiters) h.calm
  have hlow := (workerTurn_turned hturn).lowers
  refine ⟨_, Run.turn hturn, h.moved hlow rfl ?_ rfl h.calm ?_ fun _ _ => rfl, ?_, ?_⟩
  · rw [hnew]
    rfl
  · intro hreturned
    cases hreturned
  · dsimp only
    rw [Function.update_self]
  · intro j hj
    exact Function.update_of_ne hj ..

/-- The first workers can all be in their stores at once, as many as L1 has room for. -/
theorem Working.crowds (h : Working contexts iters budget config a t) (hinj : Function.Injective contexts)
    (hbudget : budget < maxEpoch) (hthreads : threads < 2 ^ 31) (hiters : 0 < iters) (hempty : a.maps = [])
    (hnew : ∀ i, t.1 i = ⟨.checking, 0, 0⟩) {k : Nat} (hk : k ≤ config.l1ResidentBlockLimit) (hlt : k ≤ threads) :
    ∃ n u a', (workers contexts iters).Run t n u ∧ Working contexts iters budget config a' u ∧ a'.maps.length = k ∧
      ∀ i, k ≤ i.val → u.1 i = ⟨.checking, 0, 0⟩ := by
  induction k with
  | zero =>
    refine ⟨0, t, a, .start, h, ?_, fun i _ => hnew i⟩
    rw [hempty]
    rfl
  | succ k ih =>
    obtain ⟨n, u, a', hrun, hworking, hlen, hrest⟩ := ih (by omega) (by omega)
    obtain ⟨v, hrun', hworking', hphase, hothers⟩ := hworking.enters (i := ⟨k, hlt⟩) (hrest _ le_rfl) hiters
    rcases hworking'.mapped hinj hbudget hthreads hphase with ⟨_, d, mmu, hmap, hmapped⟩ | ⟨hfull, _⟩
    · have hturn : workerTurn contexts iters ⟨k, hlt⟩ (v.1 ⟨k, hlt⟩) v.2 =
          some ({ v.1 ⟨k, hlt⟩ with phase := .storing d }, { v.2 with mmu := mmu }) := by
        unfold workerTurn
        rw [hphase]
        dsimp only
        rw [hmap]
      refine ⟨_, _, _, (hrun.trans hrun').trans (Run.turn hturn), hmapped, ?_, ?_⟩
      · show a'.maps.length + 1 = k + 1
        rw [hlen]
      · intro i hi
        have hne : i ≠ ⟨k, hlt⟩ := by
          rintro rfl
          exact absurd hi (Nat.not_succ_le_self k)
        dsimp only
        rw [Function.update_of_ne hne, hothers i hne]
        exact hrest i (by omega)
    · omega

/-- With more workers than that, some schedule fails. -/
theorem Working.overloads (h : Working contexts iters budget config a t) (hinj : Function.Injective contexts)
    (hbudget : budget < maxEpoch) (hthreads : threads < 2 ^ 31) (hiters : 0 < iters) (hempty : a.maps = [])
    (hnew : ∀ i, t.1 i = ⟨.checking, 0, 0⟩) (hmany : config.l1ResidentBlockLimit < threads) :
    ∃ n u, (workers contexts iters).Run t n u ∧ (workers contexts iters).Quiet u ∧ u.2.failed = true := by
  obtain ⟨n, u, a', hrun, hworking, hlen, hrest⟩ := h.crowds hinj hbudget hthreads hiters hempty hnew le_rfl hmany.le
  obtain ⟨v, hrun', hworking', hphase, _⟩ := hworking.enters (i := ⟨_, hmany⟩) (hrest _ le_rfl) hiters
  rcases hworking'.mapped hinj hbudget hthreads hphase with ⟨hroom, _⟩ | ⟨_, e, mmu, hmap⟩
  · omega
  · have hturn : workerTurn contexts iters ⟨_, hmany⟩ (v.1 ⟨_, hmany⟩) v.2 =
        some ({ v.1 ⟨_, hmany⟩ with phase := .returned }, { v.2 with mmu := mmu, failed := true }) := by
      unfold workerTurn
      rw [hphase]
      dsimp only
      rw [hmap]
    obtain ⟨m, w, hends, hquiet⟩ := workers_lowers.completes
      (Function.update v.1 ⟨_, hmany⟩ { v.1 ⟨_, hmany⟩ with phase := .returned }, { v.2 with mmu := mmu, failed := true })
    refine ⟨_, w, ((hrun.trans hrun').trans (Run.turn hturn)).trans hends, hquiet, ?_⟩
    exact hends.invariant (I := fun s => s.2.failed = true) rfl fun s i l r hs hstep => failed_stays (workerTurn_turned hstep) hs

end Overload

section Main

variable {threads : Nat} {contexts : Fin threads → CtxHandle} {iters : Nat} {start : MmuRuntime}

/-- The test passes under every schedule exactly where all its workers fit in L1 together; every schedule comes to its end. -/
theorem parallel_workers_pass_iff (h : Initial start) (hl2 : start.config.l2BlockCount = start.config.l1BlockCount)
    (hhost : ∀ n, start.host.reply n = .granted) (hint : start.config.l1BlockCount < 2 ^ 31)
    (hinj : Function.Injective contexts) (hnull : ∀ tid, contexts tid ≠ nullHandle) (hiters : 0 < iters)
    (hclock : turnBudget threads iters + 3 * threads < maxEpoch) :
    (AlwaysPasses contexts iters start ↔ threads ≤ start.config.l1ResidentBlockLimit) ∧
      ∀ mmu n t, (workers contexts iters).Run (launched mmu) n t → n ≤ threads * (4 * iters + 1) := by
  have hlimit := start.config.limit_le
  have hset : SetUp contexts start.config 0 ⟨start.config, EagerWorld.none, [], start.config.l1BlockCount, 0⟩ :=
    ⟨rfl, rfl, rfl, fun j hj => absurd hj (Nat.not_lt_zero _), fun _ _ => rfl, rfl⟩
  have hends := setUp_ends hinj hnull (F := start.config.l1BlockCount < threads) id start
    ⟨_, Serves.fresh h hl2 hhost hint, hset⟩
  refine ⟨⟨?_, ?_⟩, ?_⟩
  · intro hpasses
    obtain ⟨mmu, hsetUp, hruns⟩ := hpasses
    rw [hsetUp] at hends
    obtain ⟨a, hserves, hset'⟩ := hends
    have hfree := hset'.free
    by_contra hmany
    obtain ⟨n, u, hrun, hquiet, hfailed⟩ := (launched_working hserves hset').overloads hinj (by omega) (by omega) hiters
      hset'.maps (fun _ => rfl) (Nat.lt_of_not_le hmany)
    obtain ⟨hcalm, _⟩ := hruns n u hrun hquiet
    rw [hfailed] at hcalm
    cases hcalm
  · intro hroom
    split at hends
    next _ u mmu hsetUp =>
      obtain ⟨a, hserves, hset'⟩ := hends
      refine ⟨mmu, hsetUp, ?_⟩
      intro n t hrun hquiet
      obtain ⟨a', hworking⟩ := (launched_working hserves hset').run hinj (by omega) (by omega) hroom hrun
      have hcheck := checkLast_ends (hworking.expected hquiet) hclock t.2.mmu ⟨a', hworking.serves, hworking.idle hquiet⟩
      refine ⟨hworking.calm, ?_⟩
      split at hcheck
      next _ same mmu' heq =>
        subst hcheck
        exact ⟨mmu', heq⟩
      next => exact hcheck.elim
    next => omega
  · intro mmu n t hrun
    have hbound := hrun.bounded workers_lowers
    rw [launched_turns] at hbound
    omega

end Main

/-! The test as it stands. -/

def testConfig : MmuConfig :=
  { mmuDefaultConfig with
    l1BlockCount := 32
    l1ResidentBlockLimit := 32
    l2BlockCount := 32
    blockSizeBytes := 64
    chunkBlockCount := 4 }

def kThreadCount : Nat := 8

def kIters : Nat := 200

def testInstance : MmuRuntime := .new (resolveConfig testConfig 0 (by decide)) grantingHost

def testContexts (tid : Fin kThreadCount) : CtxHandle := tid.val + 1

theorem testContexts_injective : Function.Injective testContexts := by
  intro i j h
  exact Fin.ext (Nat.succ.inj h)

theorem parallel_workers_pass_iff_test : AlwaysPasses testContexts kIters testInstance :=
  (parallel_workers_pass_iff ⟨testConfig, grantingHost, rfl⟩ rfl (fun _ => rfl) (by decide) testContexts_injective
    (by decide) (by decide) (by decide)).1.mpr (by decide)

end ParallelTest

end DsfMmu
