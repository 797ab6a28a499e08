import DsfMmu.Ledger
import DsfMmu.ParallelWorkers

namespace DsfMmu

namespace ParallelTest

open Procedure MmuRuntime KvExample Parties

/-- The mapping a worker has out. -/
def Worker.held (w : Worker) : Option MappedBlock :=
  match w.phase with
  | .storing mapped => some mapped
  | .unmapping mapped => some mapped
  | _ => none

/-- Turns a worker can still take. -/
def Worker.left (iters : Nat) (w : Worker) : Nat :=
  match w.phase with
  | .checking => 4 * (iters - w.iter) + 1
  | .mapping => 4 * (iters - (w.iter + 1)) + 4
  | .storing _ => 4 * (iters - (w.iter + 1)) + 3
  | .unmapping _ => 4 * (iters - (w.iter + 1)) + 2
  | .returned => 0

section Turns

variable {threads : Nat} {contexts : Fin threads → CtxHandle} {iters : Nat}

/-- What a turn of a worker can do, phase by phase. -/
inductive Turned (contexts : Fin threads → CtxHandle) (iters : Nat) (tid : Fin threads) (w : Worker) (s : Shared threads) :
    Worker → Shared threads → Prop
  | stops : w.phase = .checking → w.iter < iters → s.failed = true →
      Turned contexts iters tid w s { w with phase := .returned } s
  | proceeds : w.phase = .checking → w.iter < iters → s.failed = false →
      Turned contexts iters tid w s { w with phase := .mapping } s
  | leaves : w.phase = .checking → iters ≤ w.iter → Turned contexts iters tid w s { w with phase := .returned }
      { s with expectedLast := Function.update s.expectedLast tid w.lastValue }
  | mapFails (e : MmuError) (mmu : MmuRuntime) : w.phase = .mapping →
      mmuMapLogicalBlock s.mmu (contexts tid) 0 mapReadWrite = (.error e, mmu) →
      Turned contexts iters tid w s { w with phase := .returned } { s with mmu := mmu, failed := true }
  | maps (d : MappedBlock) (mmu : MmuRuntime) : w.phase = .mapping →
      mmuMapLogicalBlock s.mmu (contexts tid) 0 mapReadWrite = (.ok d, mmu) →
      Turned contexts iters tid w s { w with phase := .storing d } { s with mmu := mmu }
  | stores (d : MappedBlock) : w.phase = .storing d →
      Turned contexts iters tid w s { w with phase := .unmapping d, lastValue := workerValue tid w.iter }
        { s with mmu := hostWrite s.mmu d 0 (workerValue tid w.iter) }
  | unmapFails (d : MappedBlock) (e : MmuError) (mmu : MmuRuntime) : w.phase = .unmapping d →
      mmuUnmapLogicalBlock s.mmu (contexts tid) d = (.error e, mmu) →
      Turned contexts iters tid w s { w with phase := .returned } { s with mmu := mmu, failed := true }
  | unmaps (d : MappedBlock) (mmu : MmuRuntime) : w.phase = .unmapping d →
      mmuUnmapLogicalBlock s.mmu (contexts tid) d = (.ok (), mmu) →
      Turned contexts iters tid w s { w with phase := .checking, iter := w.iter + 1 } { s with mmu := mmu }

variable {tid : Fin threads} {w l : Worker} {s r : Shared threads}

theorem workerTurn_turned (h : workerTurn contexts iters tid w s = some (l, r)) : Turned contexts iters tid w s l r := by
  unfold workerTurn at h
  cases hphase : w.phase with
  | checking =>
    rw [hphase] at h
    dsimp only at h
    split at h
    next hiter =>
      split at h
      next hfailed =>
        cases Option.some.inj h
        exact .stops hphase hiter hfailed
      next hfailed =>
        cases Option.some.inj h
        exact .proceeds hphase hiter (Bool.eq_false_iff.mpr hfailed)
    next hiter =>
      cases Option.some.inj h
      exact .leaves hphase (Nat.le_of_not_lt hiter)
  | mapping =>
    rw [hphase] at h
    dsimp only at h
    split at h
    next e mmu hmap =>
      cases Option.some.inj h
      exact .mapFails e mmu hphase hmap
    next d mmu hmap =>
      cases Option.some.inj h
      exact .maps d mmu hphase hmap
  | storing d =>
    rw [hphase] at h
    cases Option.some.inj h
    exact .stores d hphase
  | unmapping d =>
    rw [hphase] at h
    dsimp only at h
    split at h
    next e mmu hunmap =>
      cases Option.some.inj h
      exact .unmapFails d e mmu hphase hunmap
    next u mmu hunmap =>
      cases Option.some.inj h
      exact .unmaps d mmu hphase hunmap
  | returned =>
    rw [hphase] at h
    cases h

theorem Turned.lowers (h : Turned contexts iters tid w s l r) : l.left iters < w.left iters := by
  unfold Worker.left
  cases h with
  | stops hp | proceeds hp | leaves hp | mapFails _ _ hp | maps _ _ hp | stores _ hp | unmapFails _ _ _ hp | unmaps _ _ hp =>
    rw [hp]
    dsimp only
    omega

theorem workers_lowers : (workers contexts iters).Lowers (Worker.left iters) :=
  fun _ _ _ _ _ h => (workerTurn_turned h).lowers

theorem failed_stays (h : Turned contexts iters tid w s l r) (hf : s.failed = true) : r.failed = true := by
  cases h with
  | stops | proceeds | leaves | maps | stores | unmaps => exact hf
  | mapFails | unmapFails => rfl

theorem quiet_returned {t : (Fin threads → Worker) × Shared threads} (h : (workers contexts iters).Quiet t)
    (i : Fin threads) : (t.1 i).phase = .returned := by
  have hi : workerTurn contexts iters i (t.1 i) t.2 = none := h i
  unfold workerTurn at hi
  cases hphase : (t.1 i).phase with
  | checking =>
    rw [hphase] at hi
    dsimp only at hi
    split at hi
    next => split at hi <;> cases hi
    next => cases hi
  | mapping =>
    rw [hphase] at hi
    dsimp only at hi
    split at hi <;> cases hi
  | storing d =>
    rw [hphase] at hi
    cases hi
  | unmapping d =>
    rw [hphase] at hi
    dsimp only at hi
    split at hi <;> cases hi
  | returned => rfl

end Turns

/-- A worker and its page: what the worker has mapped is out, and the page starts with the value it stored last. -/
structure Standing (a : Ledger) (ctx : CtxHandle) (w : Worker) (last : UInt8) : Prop where
  out : ∀ d, w.held = some d → (ctx, d) ∈ a.maps
  page : ∃ bytes, a.world.slot ctx 0 = some bytes ∧ bytes[0]? = some w.lastValue
  left : w.phase = .returned → last = w.lastValue

/-- All is well: the workers stand by their pages, nothing else is out, and the clock lasts for all turns to come. -/
structure Working {threads : Nat} (contexts : Fin threads → CtxHandle) (iters budget : Nat) (config : ResolvedConfig)
    (a : Ledger) (t : (Fin threads → Worker) × Shared threads) : Prop where
  serves : Serves t.2.mmu a
  config : a.config = config
  clock : a.touches + 2 * turnsLeft (Worker.left iters) t ≤ budget
  calm : t.2.failed = false
  stands : ∀ i, Standing a (contexts i) (t.1 i) (t.2.expectedLast i)
  owner : ∀ x ∈ a.maps, ∃ i, x.1 = contexts i ∧ (t.1 i).held = some x.2
  once : (a.maps.map Prod.fst).Nodup
  given : ∀ x ∈ a.maps, Granted a 0 mapReadWrite x.2

section Working

variable {threads : Nat} {contexts : Fin threads → CtxHandle} {iters budget : Nat} {config : ResolvedConfig} {a a' : Ledger}
  {t : (Fin threads → Worker) × Shared threads} {i : Fin threads} {l : Worker} {r : Shared threads}

theorem Standing.keep {ctx : CtxHandle} {w : Worker} {last : UInt8} (h : Standing a ctx w last)
    (hslot : a'.world.slot ctx 0 = a.world.slot ctx 0) (hmaps : ∀ d, (ctx, d) ∈ a.maps → (ctx, d) ∈ a'.maps) :
    Standing a' ctx w last := by
  refine ⟨fun d hd => hmaps d (h.out d hd), ?_, h.left⟩
  rw [hslot]
  exact h.page

/-- A turn of worker `i`, as long as the others stand as they did. -/
theorem Working.next (h : Working contexts iters budget config a t) (hlow : l.left iters < (t.1 i).left iters)
    (hserves : Serves r.mmu a') (hconfig : a'.config = a.config) (hticks : a'.touches ≤ a.touches + 2)
    (hcalm : r.failed = false) (hown : Standing a' (contexts i) l (r.expectedLast i))
    (hothers : ∀ j, j ≠ i → Standing a' (contexts j) (t.1 j) (r.expectedLast j))
    (howner : ∀ x ∈ a'.maps, ∃ j, x.1 = contexts j ∧ (Function.update t.1 i l j).held = some x.2)
    (honce : (a'.maps.map Prod.fst).Nodup) (hgiven : ∀ x ∈ a'.maps, Granted a' 0 mapReadWrite x.2) :
    Working contexts iters budget config a' (Function.update t.1 i l, r) := by
  refine ⟨hserves, hconfig.trans h.config, ?_, hcalm, ?_, howner, honce, hgiven⟩
  · have hupdate := turnsLeft_update hlow r
    have hclock := h.clock
    omega
  · exact (Function.forall_update_iff t.1 (p := fun j w => Standing a' (contexts j) w (r.expectedLast j))).mpr ⟨hown, hothers⟩

/-- What others hold they still hold. -/
theorem owner_others {x : Holding} {j : Fin threads} (hj : (t.1 j).held = some x.2) (hne : j ≠ i) :
    (Function.update t.1 i l j).held = some x.2 := by
  rw [Function.update_of_ne hne]
  exact hj

/-- A turn that leaves the runtime alone. -/
theorem Working.moved (h : Working contexts iters budget config a t) (hlow : l.left iters < (t.1 i).left iters)
    (hmmu : r.mmu = t.2.mmu) (hheld : l.held = (t.1 i).held) (hvalue : l.lastValue = (t.1 i).lastValue)
    (hcalm : r.failed = false) (hleft : l.phase = .returned → r.expectedLast i = l.lastValue)
    (hothers : ∀ j, j ≠ i → r.expectedLast j = t.2.expectedLast j) :
    Working contexts iters budget config a (Function.update t.1 i l, r) := by
  have hserves : Serves r.mmu a := by
    rw [hmmu]
    exact h.serves
  refine h.next hlow hserves rfl (Nat.le_add_right _ _) hcalm ⟨?_, ?_, hleft⟩ ?_ ?_ h.once h.given
  · rw [hheld]
    exact (h.stands i).out
  · rw [hvalue]
    exact (h.stands i).page
  · intro j hj
    rw [hothers j hj]
    exact h.stands j
  · intro x hx
    obtain ⟨j, hctx, hj⟩ := h.owner x hx
    refine ⟨j, hctx, ?_⟩
    by_cases hji : j = i
    · subst hji
      rw [Function.update_self, hheld]
      exact hj
    · exact owner_others hj hji

/-- A worker about to map holds nothing. -/
theorem Working.notHeld (h : Working contexts iters budget config a t) (hinj : Function.Injective contexts)
    (hheld : (t.1 i).held = none) (x : Holding) (hx : x ∈ a.maps) : x.1 ≠ contexts i := by
  intro heq
  obtain ⟨j, hctx, hj⟩ := h.owner x hx
  rw [hinj (hctx.symm.trans heq), hheld] at hj
  cases hj

theorem contexts_length {ctxs : List CtxHandle} (hnodup : ctxs.Nodup) (hsub : ∀ ctx ∈ ctxs, ∃ j, ctx = contexts j) :
    ctxs.length ≤ threads := by
  have hsubset : ctxs.toFinset ⊆ Finset.univ.image contexts := by
    intro ctx hctx
    obtain ⟨j, rfl⟩ := hsub ctx (List.mem_toFinset.mp hctx)
    exact Finset.mem_image_of_mem _ (Finset.mem_univ j)
  have hcard := (Finset.card_le_card hsubset).trans Finset.card_image_le
  rw [List.toFinset_card_of_nodup hnodup, Finset.card_univ, Fintype.card_fin] at hcard
  exact hcard

/-- While one worker has nothing out, there is less out than there are workers. -/
theorem Working.maps_length (h : Working contexts iters budget config a t) (hinj : Function.Injective contexts)
    (hheld : (t.1 i).held = none) : a.maps.length < threads := by
  have hnew : (contexts i :: a.maps.map Prod.fst).Nodup := by
    refine List.nodup_cons.mpr ⟨?_, h.once⟩
    intro hmem
    obtain ⟨x, hx, heq⟩ := List.mem_map.mp hmem
    exact h.notHeld hinj hheld x hx heq
  have hle := contexts_length hnew fun ctx hctx => by
    rcases List.mem_cons.mp hctx with rfl | hctx
    · exact ⟨i, rfl⟩
    · obtain ⟨x, hx, rfl⟩ := List.mem_map.mp hctx
      obtain ⟨j, hj, _⟩ := h.owner x hx
      exact ⟨j, hj⟩
  rw [List.length_cons, List.length_map] at hle
  exact hle

/-- Each worker out holds an entry of its own. -/
theorem Working.held_card (h : Working contexts iters budget config a t) : a.held.card = a.maps.length := by
  have hfst : (a.maps.map fun x => (x.1, x.2.logicalBlockId)).map Prod.fst = a.maps.map Prod.fst := by
    rw [List.map_map]
    rfl
  unfold Ledger.held
  rw [List.toFinset_card_of_nodup (List.Nodup.of_map Prod.fst (hfst ▸ h.once)), List.length_map]

theorem slot_zero (w : EagerWorld CtxHandle Bytes) (ctx : CtxHandle) : w.slot ctx (0 : UInt32).toNat = w.slot ctx 0 := rfl

/-- A worker's map is granted exactly where one more entry fits beside what the others have out. -/
theorem Working.mapped (h : Working contexts iters budget config a t) (hinj : Function.Injective contexts)
    (hbudget : budget < maxEpoch) (hthreads : threads < 2 ^ 31) (hphase : (t.1 i).phase = .mapping) :
    (a.maps.length < config.l1ResidentBlockLimit ∧
      ∃ d mmu, mmuMapLogicalBlock t.2.mmu (contexts i) 0 mapReadWrite = (.ok d, mmu) ∧
        Working contexts iters budget config (a.map (contexts i) d)
          (Function.update t.1 i { t.1 i with phase := .storing d }, { t.2 with mmu := mmu })) ∨
    (config.l1ResidentBlockLimit ≤ a.maps.length ∧
      ∃ e mmu, mmuMapLogicalBlock t.2.mmu (contexts i) 0 mapReadWrite = (.error e, mmu)) := by
  have hheld : (t.1 i).held = none := by
    unfold Worker.held
    rw [hphase]
  have hnot : NotHeld a.maps (contexts i) 0 := fun x hx hand => h.notHeld hinj hheld x hx hand.1
  have hadmits : a.Admits (contexts i) 0 ↔ a.maps.length < config.l1ResidentBlockLimit := by
    rw [Ledger.admits_iff hnot, h.held_card, h.config]
    exact Nat.succ_le_iff
  obtain ⟨bytes, hslot, hfirst⟩ := (h.stands i).page
  have hlen := h.maps_length hinj hheld
  have hclock := h.clock
  have hflags : validateMapFlags mapReadWrite = true := rfl
  rcases h.serves.map hflags ((slot_zero _ _).trans hslot) (fun _ => hnot) (by omega) (by omega) with
    ⟨hfits, d, mmu, hmap, hgranted, hserves⟩ | ⟨hno, mmu, hmap, _⟩
  · refine .inl ⟨hadmits.mp hfits, d, mmu, hmap, h.next ?_ hserves rfl le_rfl h.calm ⟨?_, ?_, ?_⟩ ?_ ?_ ?_ ?_⟩
    · unfold Worker.left
      rw [hphase]
      dsimp only
      omega
    · intro d' hd'
      cases hd'
      exact List.mem_cons_self
    · exact ⟨bytes, hslot, hfirst⟩
    · intro hreturned
      cases hreturned
    · intro j _
      exact (h.stands j).keep rfl fun d' hd' => List.mem_cons_of_mem _ hd'
    · intro x hx
      rcases List.mem_cons.mp hx with rfl | hx
      · exact ⟨i, rfl, by rw [Function.update_self]; rfl⟩
      · obtain ⟨j, hctx, hj⟩ := h.owner x hx
        refine ⟨j, hctx, owner_others hj ?_⟩
        rintro rfl
        rw [hheld] at hj
        cases hj
    · refine List.nodup_cons.mpr ⟨?_, h.once⟩
      intro hmem
      obtain ⟨x, hx, heq⟩ := List.mem_map.mp hmem
      exact h.notHeld hinj hheld x hx heq
    · intro x hx
      rcases List.mem_cons.mp hx with rfl | hx
      · exact ⟨hgranted.entry, hgranted.flags, hgranted.size⟩
      · have hgiven := h.given x hx
        exact ⟨hgiven.entry, hgiven.flags, hgiven.size⟩
  · have hfull := mt hadmits.mpr hno
    exact .inr ⟨by omega, _, mmu, hmap⟩

/-- A store reaches the worker's own page and nobody else's. -/
theorem Working.stored (h : Working contexts iters budget config a t) (hinj : Function.Injective contexts) {d : MappedBlock}
    (hphase : (t.1 i).phase = .storing d) (value : UInt8) :
    Working contexts iters budget config (a.store (contexts i) d 0 value)
      (Function.update t.1 i { t.1 i with phase := .unmapping d, lastValue := value },
        { t.2 with mmu := hostWrite t.2.mmu d 0 value }) := by
  have hheld : (t.1 i).held = some d := by
    unfold Worker.held
    rw [hphase]
  have hd := (h.stands i).out d hheld
  have hgranted := h.given _ hd
  have hw : hasWrite d.mapFlags = true := by
    rw [hgranted.flags]
    rfl
  have hoff : 0 < d.sizeBytes := by
    rw [hgranted.size]
    exact a.config.size_pos
  have hzero : d.logicalBlockId.toNat = 0 := by
    rw [hgranted.entry]
    rfl
  obtain ⟨bytes, hslot, hfirst⟩ := (h.stands i).page
  have hlen := (List.getElem?_eq_some_iff.mp hfirst).1
  refine h.next ?_ (h.serves.store hd hw hoff value) rfl (Nat.le_add_right _ _) h.calm ⟨?_, ?_, ?_⟩ ?_ ?_ h.once ?_
  · unfold Worker.left
    rw [hphase]
    dsimp only
    omega
  · intro d' hd'
    cases hd'
    exact hd
  · refine ⟨bytes.set 0 value, ?_, List.getElem?_set_self hlen⟩
    unfold Ledger.store
    rw [hzero]
    exact EagerWorld.slot_write_self _ hslot
  · intro hreturned
    cases hreturned
  · intro j hj
    have hother : (a.store (contexts i) d 0 value).world.slot (contexts j) 0 = a.world.slot (contexts j) 0 :=
      EagerWorld.slot_update_of_ne _ _ _ fun heq => hj (hinj heq)
    exact (h.stands j).keep hother fun _ hd' => hd'
  · intro x hx
    obtain ⟨j, hctx, hj⟩ := h.owner x hx
    by_cases hji : j = i
    · subst hji
      refine ⟨j, hctx, ?_⟩
      rw [Function.update_self, ← hj, hheld]
      rfl
    · exact ⟨j, hctx, owner_others hj hji⟩
  · intro x hx
    have hgiven := h.given x hx
    exact ⟨hgiven.entry, hgiven.flags, hgiven.size⟩

/-- A worker can always give its mapping back. -/
theorem Working.unmapped (h : Working contexts iters budget config a t) (hinj : Function.Injective contexts) {d : MappedBlock}
    (hphase : (t.1 i).phase = .unmapping d) : ∃ mmu, mmuUnmapLogicalBlock t.2.mmu (contexts i) d = (.ok (), mmu) ∧
      Working contexts iters budget config (a.unmap (contexts i) d)
        (Function.update t.1 i { t.1 i with phase := .checking, iter := (t.1 i).iter + 1 }, { t.2 with mmu := mmu }) := by
  have hheld : (t.1 i).held = some d := by
    unfold Worker.held
    rw [hphase]
  have hd := (h.stands i).out d hheld
  obtain ⟨mmu, hunmap, hserves⟩ := h.serves.unmap hd
  have hnodup : a.maps.Nodup := .of_map Prod.fst h.once
  refine ⟨mmu, hunmap, h.next ?_ hserves rfl (Nat.add_le_add_left (by omega) _) h.calm ⟨?_, ?_, ?_⟩ ?_ ?_ ?_ ?_⟩
  · unfold Worker.left
    rw [hphase]
    dsimp only
    omega
  · intro d' hd'
    cases hd'
  · exact (h.stands i).page
  · intro hreturned
    cases hreturned
  · intro j hj
    refine (h.stands j).keep rfl fun d' hd' => ?_
    have hne : (contexts j, d') ≠ (contexts i, d) := fun heq => hj (hinj (Prod.mk.inj heq).1)
    exact (List.mem_erase_of_ne hne).mpr hd'
  · intro x hx
    obtain ⟨hne, hx⟩ := hnodup.mem_erase_iff.mp hx
    obtain ⟨j, hctx, hj⟩ := h.owner x hx
    refine ⟨j, hctx, owner_others hj ?_⟩
    rintro rfl
    rw [hheld] at hj
    exact hne (Prod.ext hctx (Option.some.inj hj).symm)
  · exact h.once.sublist (List.Sublist.map _ List.erase_sublist)
  · intro x hx
    have hgiven := h.given x (List.mem_of_mem_erase hx)
    exact ⟨hgiven.entry, hgiven.flags, hgiven.size⟩

/-- Where all workers fit, every turn goes well. -/
theorem Working.turn (h : Working contexts iters budget config a t) (hinj : Function.Injective contexts)
    (hbudget : budget < maxEpoch) (hthreads : threads < 2 ^ 31) (hroom : threads ≤ config.l1ResidentBlockLimit)
    (hturn : Turned contexts iters i (t.1 i) t.2 l r) :
    ∃ a', Working contexts iters budget config a' (Function.update t.1 i l, r) := by
  have hlow := Turned.lowers hturn
  cases hturn with
  | stops hphase hiter hfailed =>
    rw [h.calm] at hfailed
    cases hfailed
  | proceeds hphase hiter hfailed =>
    refine ⟨a, h.moved hlow rfl ?_ rfl h.calm ?_ fun _ _ => rfl⟩
    · unfold Worker.held
      rw [hphase]
    · intro hreturned
      cases hreturned
  | leaves hphase hiter =>
    refine ⟨a, h.moved hlow rfl ?_ rfl h.calm (fun _ => Function.update_self ..) fun j hj => Function.update_of_ne hj ..⟩
    unfold Worker.held
    rw [hphase]
  | mapFails e mmu hphase hmap =>
    have hheld : (t.1 i).held = none := by
      unfold Worker.held
      rw [hphase]
    have hlen := h.maps_length hinj hheld
    rcases h.mapped hinj hbudget hthreads hphase with ⟨_, d, mmu', hok, _⟩ | ⟨hfull, _⟩
    · cases hmap.symm.trans hok
    · omega
  | maps d mmu hphase hmap =>
    rcases h.mapped hinj hbudget hthreads hphase with ⟨_, d', mmu', hok, hworking⟩ | ⟨_, e, mmu', herror⟩
    · cases hmap.symm.trans hok
      exact ⟨_, hworking⟩
    · cases hmap.symm.trans herror
  | stores d hphase => exact ⟨_, h.stored hinj hphase _⟩
  | unmapFails d e mmu hphase hunmap =>
    obtain ⟨mmu', hok, _⟩ := h.unmapped hinj hphase
    cases hunmap.symm.trans hok
  | unmaps d mmu hphase hunmap =>
    obtain ⟨mmu', hok, hworking⟩ := h.unmapped hinj hphase
    cases hunmap.symm.trans hok
    exact ⟨_, hworking⟩

/-- Where all workers fit, all goes well however they are scheduled. -/
theorem Working.run {n : Nat} {u : (Fin threads → Worker) × Shared threads} (h : Working contexts iters budget config a t)
    (hinj : Function.Injective contexts) (hbudget : budget < maxEpoch) (hthreads : threads < 2 ^ 31)
    (hroom : threads ≤ config.l1ResidentBlockLimit) (hrun : (workers contexts iters).Run t n u) :
    ∃ a', Working contexts iters budget config a' u := by
  refine hrun.invariant (I := fun u => ∃ a', Working contexts iters budget config a' u) ⟨a, h⟩ ?_
  intro u i l r hu hturn
  obtain ⟨a', hworking⟩ := hu
  exact hworking.turn hinj hbudget hthreads hroom (workerTurn_turned hturn)

end Working

end ParallelTest

end DsfMmu
