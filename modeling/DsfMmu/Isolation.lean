import DsfMmu.EagerRefinement
import DsfMmu.Statuses

namespace DsfMmu

open MmuRuntime BlockManager Context

/-- The context a call is made in; creating a context counts as its first call. -/
def Call.actor : Call → Option CtxHandle
  | .createContext handle => handle
  | .destroyContext ctx => some ctx
  | .forkContext src _ _ => some src
  | .allocateBlocks ctx _ => some ctx
  | .releaseLogicalBlock ctx _ => some ctx
  | .prepareBlockForWrite ctx _ => some ctx
  | .mapLogicalBlock ctx _ _ => some ctx
  | .mapLogicalBlocks ctx _ _ => some ctx
  | .unmapLogicalBlock ctx _ => some ctx
  | .unmapLogicalBlocks ctx _ => some ctx
  | .hostWrite ctx _ _ _ => some ctx

def Call.isOf (own : CtxHandle → Bool) (call : Call) : Bool := call.actor.any own

/-- A descriptor without the addresses it carries. -/
def MappedBlock.unplaced (d : MappedBlock) : MappedBlock := ⟨⟨0, 0⟩, d.sizeBytes, 0, d.logicalBlockId, d.mapFlags⟩

/-- A call as its context means it: where pages and blocks lie is nothing to it. -/
def Call.unplaced : Call → Call
  | .forkContext src _ handle => .forkContext src (fun _ => true) handle
  | .unmapLogicalBlock ctx d => .unmapLogicalBlock ctx d.unplaced
  | .unmapLogicalBlocks ctx ds => .unmapLogicalBlocks ctx (ds.map MappedBlock.unplaced)
  | .hostWrite ctx d offset byte => .hostWrite ctx d.unplaced offset byte
  | call => call

/-- The error due to a call, from the private lists alone. -/
def dueFault (w : EagerWorld CtxHandle Bytes) : Call → Option MmuError
  | .createContext _ => none
  | .destroyContext _ => none
  | .forkContext src _ _ =>
    if src = nullHandle then some .invalidArgument else if w src = none then some .badHandle else none
  | .allocateBlocks ctx n =>
    if w ctx = none then some .badHandle else if 2 ^ 31 ≤ n.toNat then some .invalidArgument else none
  | .releaseLogicalBlock ctx lb => entryFault w ctx lb
  | .prepareBlockForWrite ctx lb => entryFault w ctx lb
  | .mapLogicalBlock ctx lb flags => mapFault w ctx flags lb
  | .mapLogicalBlocks ctx lbs flags => lbs.findSome? (mapFault w ctx flags)
  | .unmapLogicalBlock ctx d => entryFault w ctx d.logicalBlockId
  | .unmapLogicalBlocks ctx ds => ds.findSome? fun d => entryFault w ctx d.logicalBlockId
  | .hostWrite .. => none

/-- What a call that succeeds does to the private lists. -/
def eagerEffect (zero : Bytes) (w : EagerWorld CtxHandle Bytes) : Call → EagerWorld CtxHandle Bytes
  | .createContext (some ctx) => w.create ctx
  | .destroyContext ctx => w.destroy ctx
  | .forkContext src _ (some ctx) => w.fork src ctx
  | .allocateBlocks ctx n => w.allocate ctx n.toNat zero
  | .releaseLogicalBlock ctx lb => w.release ctx lb.toNat
  | .hostWrite ctx d offset byte => w.write ctx d.logicalBlockId.toNat (·.set offset byte)
  | _ => w

section Calls

variable {mmu : MmuRuntime} {s : Session} {w w' : EagerWorld CtxHandle Bytes} {zero : Bytes} {own : CtxHandle → Prop}
  {call : Call}

theorem dueFault_unplaced (call : Call) : dueFault w call.unplaced = dueFault w call := by
  cases call with
  | unmapLogicalBlocks ctx ds =>
    show (ds.map MappedBlock.unplaced).findSome? _ = ds.findSome? _
    rw [List.findSome?_map]
    rfl
  | _ => rfl

theorem eagerEffect_unplaced (call : Call) : eagerEffect zero w call.unplaced = eagerEffect zero w call := by
  cases call with
  | forkContext src grows handle => cases handle <;> rfl
  | _ => rfl

theorem entryFault_same {ctx : CtxHandle} (h : w ctx = w' ctx) (lb : UInt32) : entryFault w ctx lb = entryFault w' ctx lb := by
  unfold entryFault EagerWorld.slot
  rw [h]

theorem mapFault_same {ctx : CtxHandle} (h : w ctx = w' ctx) (flags lb : UInt32) :
    mapFault w ctx flags lb = mapFault w' ctx flags lb := by
  unfold mapFault
  rw [entryFault_same h]

/-- The error due depends on the list of the context that calls, and on no other. -/
theorem dueFault_same (h : w.SameFor own w') (hown : ∀ k ∈ call.actor, own k) : dueFault w call = dueFault w' call := by
  have hactor : ∀ ctx, call.actor = some ctx → w ctx = w' ctx := fun ctx hc => h ctx (hown ctx hc)
  cases call with
  | createContext handle => rfl
  | destroyContext ctx => rfl
  | forkContext src grows handle =>
    simp only [dueFault, hactor src rfl]
  | allocateBlocks ctx n =>
    simp only [dueFault, hactor ctx rfl]
  | releaseLogicalBlock ctx lb => exact entryFault_same (hactor ctx rfl) lb
  | prepareBlockForWrite ctx lb => exact entryFault_same (hactor ctx rfl) lb
  | mapLogicalBlock ctx lb flags => exact mapFault_same (hactor ctx rfl) flags lb
  | mapLogicalBlocks ctx lbs flags =>
    have hsame : mapFault w ctx flags = mapFault w' ctx flags := funext (mapFault_same (hactor ctx rfl) flags)
    simp only [dueFault, hsame]
  | unmapLogicalBlock ctx d => exact entryFault_same (hactor ctx rfl) d.logicalBlockId
  | unmapLogicalBlocks ctx ds =>
    have hsame : entryFault w ctx = entryFault w' ctx := funext (entryFault_same (hactor ctx rfl))
    simp only [dueFault, hsame]
  | hostWrite ctx d offset byte => rfl

theorem effect_same (h : w.SameFor own w') (hown : ∀ k ∈ call.actor, own k) :
    (eagerEffect zero w call).SameFor own (eagerEffect zero w' call) := by
  have hactor : ∀ ctx, call.actor = some ctx → w ctx = w' ctx := fun ctx hc => h ctx (hown ctx hc)
  cases call with
  | createContext handle =>
    cases handle with
    | none => exact h
    | some ctx => exact h.update fun _ => rfl
  | destroyContext ctx => exact h.update fun _ => rfl
  | forkContext src grows handle =>
    cases handle with
    | none => exact h
    | some ctx => exact h.update fun _ => hactor src rfl
  | allocateBlocks ctx n => exact h.update fun _ => by rw [hactor ctx rfl]
  | releaseLogicalBlock ctx lb => exact h.update fun _ => by rw [hactor ctx rfl]
  | hostWrite ctx d offset byte => exact h.update fun _ => by rw [hactor ctx rfl]
  | prepareBlockForWrite ctx lb => exact h
  | mapLogicalBlock ctx lb flags => exact h
  | mapLogicalBlocks ctx lbs flags => exact h
  | unmapLogicalBlock ctx d => exact h
  | unmapLogicalBlocks ctx ds => exact h

/-- A context of one's own is forked from one's own. -/
def Call.ForksWithin (own : CtxHandle → Prop) : Call → Prop
  | .forkContext src _ (some ctx) => own ctx → own src
  | _ => True

theorem effect_other (h : w.SameFor own w') (hother : ∀ k ∈ call.actor, ¬own k) (hforks : call.ForksWithin own) :
    (eagerEffect zero w call).SameFor own w' := by
  cases call with
  | createContext handle =>
    cases handle with
    | none => exact h
    | some ctx => exact h.update_other (hother ctx rfl) _
  | destroyContext ctx => exact h.update_other (hother ctx rfl) _
  | forkContext src grows handle =>
    cases handle with
    | none => exact h
    | some ctx => exact h.update_other (mt hforks (hother src rfl)) _
  | allocateBlocks ctx n => exact h.update_other (hother ctx rfl) _
  | releaseLogicalBlock ctx lb => exact h.update_other (hother ctx rfl) _
  | hostWrite ctx d offset byte => exact h.update_other (hother ctx rfl) _
  | prepareBlockForWrite ctx lb => exact h
  | mapLogicalBlock ctx lb flags => exact h
  | mapLogicalBlocks ctx lbs flags => exact h
  | unmapLogicalBlock ctx d => exact h
  | unmapLogicalBlocks ctx ds => exact h

end Calls

section Steps

variable {mmu : MmuRuntime} {s : Session} {maps : List Holding} {ctx : CtxHandle} {d : MappedBlock} {call : Call}

/-- The unmap of a mapping that is out is refused only where its entry is. -/
theorem unmapFault_held (h : mmu.Covered) (hout : Outstanding mmu maps) (hx : (ctx, d) ∈ maps) :
    unmapFault mmu ctx d = entryFault mmu.view ctx d.logicalBlockId := by
  have hentry := hout.entry _ hx
  obtain ⟨c, hfind, hb⟩ := entryAt_eq_some.mp hentry
  have hview : mmu.view ctx ≠ none := by
    rw [view_find hfind]
    exact nofun
  have hlive := h.live hfind (List.mem_of_getElem? hb) (hout.block _ hx)
  have hvalid := h.settled.coherent.sound.refs_inRange.mpr (h.settled.valid hlive)
  unfold unmapFault
  rw [if_neg hview, if_neg (not_not.mpr hvalid)]
  have hcases := entry_of h ctx d.logicalBlockId
  generalize entryFault mmu.view ctx d.logicalBlockId = fault at hcases ⊢
  cases hcases with
  | noContext => rfl
  | noIndex => rfl
  | noBlock => rfl
  | names hc hlvid hn =>
    have hsame := (entryAt_names hc hlvid hn).symm.trans hentry
    have hroute := (routedBlock_eq_some h.settled).mpr ⟨_, _, hc, hlvid, hn⟩
    exact if_pos (hroute.trans hsame)

/-- In bracketed use the error due to a call is that of the private lists. -/
theorem Simulates.fault (h : Simulates mmu s) (hb : Bracketed (mmu, s) call (perform mmu call).1) :
    call.fault mmu = dueFault s.world call := by
  have hc := h.provisioned.covered
  rw [← h.world]
  cases call with
  | unmapLogicalBlock ctx d => exact unmapFault_held hc h.maps hb
  | unmapLogicalBlocks ctx ds =>
    have hmem : ∀ d ∈ ds, (ctx, d) ∈ s.maps := UnmapsHeld.mem hb
    show ds.findSome? (unmapFault mmu ctx) = ds.findSome? fun d => entryFault mmu.view ctx d.logicalBlockId
    clear hb
    induction ds with
    | nil => rfl
    | cons d rest ih =>
      rw [List.findSome?_cons, List.findSome?_cons, unmapFault_held hc h.maps (hmem d List.mem_cons_self),
        ih fun x hx => hmem x (List.mem_cons_of_mem d hx)]
  | _ => rfl

/-- Only a call that succeeds has its effect. -/
theorem eagerStep_effect (h : mmu.Settled) (zero : Bytes) (w : EagerWorld CtxHandle Bytes) (call : Call) :
    eagerStep zero w call (perform mmu call).1 =
      if (perform mmu call).1.failure = none then eagerEffect zero w call else w := by
  cases call with
  | createContext handle => cases handle <;> rfl
  | destroyContext ctx => rfl
  | forkContext src grows handle =>
    obtain ⟨r, m, hr⟩ : ∃ r m, mmuForkContext mmu src grows handle = (r, m) := ⟨_, _, rfl⟩
    simp only [perform, hr]
    rcases mmuForkContext_cases h.allocator hr with ⟨⟨e, rfl⟩, _⟩ | ⟨c, ctx, _, rfl, rfl, _⟩ | ⟨c, b, _, _, ⟨e, rfl⟩, _⟩
    · rfl
    · rfl
    · rfl
  | allocateBlocks ctx n =>
    obtain ⟨r, m, hr⟩ : ∃ r m, mmuAllocateBlocks mmu ctx n = (r, m) := ⟨_, _, rfl⟩
    simp only [perform, hr]
    cases r <;> rfl
  | releaseLogicalBlock ctx lb =>
    obtain ⟨r, m, hr⟩ : ∃ r m, mmuReleaseLogicalBlock mmu ctx lb = (r, m) := ⟨_, _, rfl⟩
    simp only [perform, hr]
    cases r <;> rfl
  | hostWrite ctx d offset byte => rfl
  | prepareBlockForWrite ctx lb => exact (ite_self w).symm
  | mapLogicalBlock ctx lb flags => exact (ite_self w).symm
  | mapLogicalBlocks ctx lbs flags => exact (ite_self w).symm
  | unmapLogicalBlock ctx d => exact (ite_self w).symm
  | unmapLogicalBlocks ctx ds => exact (ite_self w).symm

end Steps

/-- What a program knows of its calls: each as it means it, and the status it returned. The last one comes first. -/
abbrev CallLog := List (Call × Option MmuError)

/-- The private lists that the calls of a log have made. -/
def logWorld (zero : Bytes) : CallLog → EagerWorld CtxHandle Bytes
  | [] => EagerWorld.none
  | (call, outcome) :: older =>
    if outcome = none then eagerEffect zero (logWorld zero older) call else logWorld zero older

/-- Each status of the log is the one due by the calls before it, or out of memory. -/
def Accounted (zero : Bytes) : CallLog → Prop
  | [] => True
  | (call, outcome) :: older =>
    (outcome = dueFault (logWorld zero older) call ∨ outcome = some .outOfMemory) ∧ Accounted zero older

/-- So the calls decide the statuses. -/
theorem Accounted.unique {zero : Bytes} {log log' : CallLog} (h : Accounted zero log) (h' : Accounted zero log')
    (hcalls : log'.map Prod.fst = log.map Prod.fst) (hno : ∀ x ∈ log, x.2 ≠ some .outOfMemory)
    (hno' : ∀ x ∈ log', x.2 ≠ some .outOfMemory) : log' = log := by
  induction log generalizing log' with
  | nil => exact List.map_eq_nil_iff.mp hcalls
  | cons x older ih =>
    obtain ⟨call, outcome⟩ := x
    cases log' with
    | nil => cases hcalls
    | cons x' older' =>
      obtain ⟨call', outcome'⟩ := x'
      obtain ⟨rfl, hrest⟩ := List.cons.inj hcalls
      obtain ⟨hdue, hacc⟩ := h
      obtain ⟨hdue', hacc'⟩ := h'
      have hsame := ih hacc hacc' hrest (fun x hx => hno x (List.mem_cons_of_mem _ hx))
        fun x hx => hno' x (List.mem_cons_of_mem _ hx)
      subst hsame
      have heq := hdue.resolve_right (hno _ List.mem_cons_self)
      have heq' := hdue'.resolve_right (hno' _ List.mem_cons_self)
      rw [heq, heq']

/-- A session in which the calls of some of the contexts are logged. -/
structure Observed where
  session : Session
  log : CallLog

def Observed.step (own : CtxHandle → Bool) (mmu : MmuRuntime) (call : Call) (reply : Reply) (g : Observed) : Observed :=
  ⟨g.session.step mmu call reply, if call.isOf own then (call.unplaced, reply.failure) :: g.log else g.log⟩

/-- Bracketed use by every context, where no context of one's own is forked from another's. -/
def Separate (own : CtxHandle → Bool) (s : MmuRuntime × Observed) (call : Call) (reply : Reply) : Prop :=
  Bracketed (s.1, s.2.session) call reply ∧ call.ForksWithin (own · = true)

/-- The log accounts for what its contexts see. -/
structure Accounts (own : CtxHandle → Bool) (zero : Bytes) (mmu : MmuRuntime) (g : Observed) : Prop where
  simulates : Simulates mmu g.session
  zeroPage : mmu.zeroPage = zero
  world : g.session.world.SameFor (own · = true) (logWorld zero g.log)
  statuses : Accounted zero g.log

section Observation

variable {own : CtxHandle → Bool} {zero : Bytes} {mmu : MmuRuntime} {g : Observed} {call : Call}

theorem Accounts.step (h : Accounts own zero mmu g) (hp : Permitted mmu call)
    (hs : Separate own (mmu, g) call (perform mmu call).1) :
    Accounts own zero (perform mmu call).2 (g.step own mmu call (perform mmu call).1) := by
  obtain ⟨hb, hforks⟩ := hs
  have hsim := h.simulates
  have hc := hsim.provisioned.covered
  have hsetup := (perform_kept hc.settled hp trivial (eventsOf_any mmu call)).setup
  have hzero : (perform mmu call).2.zeroPage = zero := by
    unfold MmuRuntime.zeroPage
    rw [hsetup.config]
    exact h.zeroPage
  have heffect := eagerStep_effect hc.settled zero g.session.world call
  have hworld : (g.session.step mmu call (perform mmu call).1).world =
      if (perform mmu call).1.failure = none then eagerEffect zero g.session.world call else g.session.world := by
    unfold Session.step
    rw [h.zeroPage]
    exact heffect
  cases hown : call.isOf own with
  | true =>
    have hmine : ∀ k ∈ call.actor, own k = true := by
      intro k hk
      unfold Call.isOf at hown
      rw [Option.mem_def.mp hk] at hown
      exact hown
    have hlog : (g.step own mmu call (perform mmu call).1).log =
        (call.unplaced, (perform mmu call).1.failure) :: g.log := if_pos hown
    refine ⟨hsim.step hp hb, hzero, ?_, ?_⟩
    · rw [hlog]
      show (g.session.step mmu call (perform mmu call).1).world.SameFor _ _
      rw [hworld, logWorld, eagerEffect_unplaced]
      split
      next => exact effect_same h.world hmine
      next => exact h.world
    · rw [hlog]
      refine ⟨?_, h.statuses⟩
      rw [dueFault_unplaced, ← dueFault_same h.world hmine, ← hsim.fault hb]
      exact (Foretold.of_covered hc call).status
  | false =>
    have hother : ∀ k ∈ call.actor, ¬own k = true := by
      intro k hk htrue
      unfold Call.isOf at hown
      rw [Option.mem_def.mp hk] at hown
      exact Bool.false_ne_true (hown.symm.trans htrue)
    have hlog : (g.step own mmu call (perform mmu call).1).log = g.log := if_neg (by rw [hown]; exact Bool.false_ne_true)
    refine ⟨hsim.step hp hb, hzero, ?_, ?_⟩
    · rw [hlog]
      show (g.session.step mmu call (perform mmu call).1).world.SameFor _ _
      rw [hworld]
      split
      next => exact effect_other h.world hother hforks
      next => exact h.world
    · rw [hlog]
      exact h.statuses

theorem Accounts.reached {start : MmuRuntime} {t : MmuRuntime × Observed} (h : Initial start)
    (hl2 : start.config.l2BlockCount = start.config.l1BlockCount) (hhost : ∀ n, start.host.reply n = .granted)
    (hrun : (machine.withGhost (Observed.step own)).Reach (Separate own) (start, ⟨⟨EagerWorld.none, []⟩, []⟩) t) :
    Accounts own start.zeroPage t.1 t.2 := by
  refine hrun.invariant (I := fun t => Accounts own start.zeroPage t.1 t.2) ?_ ?_
  · exact ⟨.start h hl2 hhost, rfl, fun _ _ => rfl, trivial⟩
  · intro s call hs hp hsep
    exact hs.step hp hsep

end Observation

/-- The log has all calls of its contexts, in their order, and no others. -/
theorem replay_log (own : CtxHandle → Bool) (calls : List Call) (s : MmuRuntime × Observed) :
    ((machine.withGhost (Observed.step own)).replay s calls).2.log.map Prod.fst =
      ((calls.filter (Call.isOf own)).map Call.unplaced).reverse ++ s.2.log.map Prod.fst := by
  induction calls generalizing s with
  | nil => rfl
  | cons call rest ih =>
    rw [Machine.replay, List.foldl_cons]
    refine (ih _).trans ?_
    show _ ++ List.map Prod.fst (Observed.step own s.1 call (perform s.1 call).1 s.2).log = _
    unfold Observed.step
    cases hown : call.isOf own with
    | true =>
      rw [if_pos rfl, List.filter_cons_of_pos hown, List.map_cons, List.map_cons, List.reverse_cons, List.append_assoc]
      rfl
    | false =>
      rw [if_neg Bool.false_ne_true, List.filter_cons_of_neg (by rw [hown]; exact Bool.false_ne_true)]

/-- Two instances in which the contexts of `own` cannot tell the difference. -/
structure SameToOwn (own : CtxHandle → Bool) (t t' : MmuRuntime × Observed) : Prop where
  statuses : t'.2.log = t.2.log
  view : ∀ ctx, own ctx = true → t'.1.view ctx = t.1.view ctx
  held : ∀ ctx d d', own ctx = true → (ctx, d) ∈ t.2.session.maps → (ctx, d') ∈ t'.2.session.maps →
    d'.logicalBlockId = d.logicalBlockId → hostRead t'.1 d' = hostRead t.1 d
  resolve : ∀ ctx lb, own ctx = true →
    failure (mmuResolveRouting t'.1 ctx lb) = failure (mmuResolveRouting t.1 ctx lb)
  map : ∀ ctx lb flags flags' d d' m m', own ctx = true → mmuMapLogicalBlock t.1 ctx lb flags = (.ok d, m) →
    mmuMapLogicalBlock t'.1 ctx lb flags' = (.ok d', m') → hostRead m' d' = hostRead m d

/-- Contexts are isolated: in two runs, under any two configurations with the same block size, in which some of the
contexts make the same calls and none of these runs out of memory, every one of them returns the same status and
these contexts see the same bytes, whatever all other contexts do. -/
theorem contexts_isolated {own : CtxHandle → Bool} {start start' : MmuRuntime} {t t' : MmuRuntime × Observed}
    (h : Initial start) (h' : Initial start') (_ : start.config.l1BlockCount < 2 ^ 31)
    (_ : start'.config.l1BlockCount < 2 ^ 31) (hl2 : start.config.l2BlockCount = start.config.l1BlockCount)
    (hl2' : start'.config.l2BlockCount = start'.config.l1BlockCount) (hhost : ∀ n, start.host.reply n = .granted)
    (hhost' : ∀ n, start'.host.reply n = .granted) (hsize : start'.config.blockSizeBytes = start.config.blockSizeBytes)
    (hrun : (machine.withGhost (Observed.step own)).Reach (Separate own) (start, ⟨⟨EagerWorld.none, []⟩, []⟩) t)
    (hrun' : (machine.withGhost (Observed.step own)).Reach (Separate own) (start', ⟨⟨EagerWorld.none, []⟩, []⟩) t')
    (hcalls : t'.2.log.map Prod.fst = t.2.log.map Prod.fst) (hno : ∀ x ∈ t.2.log, x.2 ≠ some .outOfMemory)
    (hno' : ∀ x ∈ t'.2.log, x.2 ≠ some .outOfMemory) : SameToOwn own t t' := by
  have hacc := Accounts.reached h hl2 hhost hrun
  have hacc' := Accounts.reached h' hl2' hhost' hrun'
  have hzero : start'.zeroPage = start.zeroPage := by
    unfold MmuRuntime.zeroPage
    rw [hsize]
  rw [hzero] at hacc'
  have hlog := hacc.statuses.unique hacc'.statuses hcalls hno hno'
  have hworld : ∀ ctx, own ctx = true → t'.2.session.world ctx = t.2.session.world ctx := by
    intro ctx hown
    rw [hacc.world ctx hown, hacc'.world ctx hown, hlog]
  have hslot : ∀ ctx i, own ctx = true → t'.2.session.world.slot ctx i = t.2.session.world.slot ctx i := by
    intro ctx i hown
    unfold EagerWorld.slot
    rw [hworld ctx hown]
  have href := hacc.simulates.refines
  have href' := hacc'.simulates.refines
  have hview : ∀ ctx, own ctx = true → t'.1.view ctx = t.1.view ctx := by
    intro ctx hown
    rw [href.world, href'.world]
    exact hworld ctx hown
  refine ⟨hlog, hview, ?_, ?_, ?_⟩
  · intro ctx d d' hown hx hx' hlb
    have hread := href.held _ hx
    have hread' := href'.held _ hx'
    dsimp only at hread hread'
    rw [hlb, hslot ctx _ hown] at hread'
    exact Option.some.inj (hread'.symm.trans hread)
  · intro ctx lb hown
    rw [resolve_status hacc.simulates.provisioned.covered, resolve_status hacc'.simulates.provisioned.covered,
      entryFault_same (hview ctx hown)]
  · intro ctx lb flags flags' d d' m m' hown hm hm'
    have hread := href.map _ _ _ _ _ hm
    have hread' := href'.map _ _ _ _ _ hm'
    rw [hslot ctx _ hown] at hread'
    exact Option.some.inj (hread'.symm.trans hread)

/-- A context that has the instance to itself. -/
def aloneCalls : List Call :=
  [.createContext (some 1), .allocateBlocks 1 1, .mapLogicalBlock 1 0 mapWrite, .hostWrite 1 firstMapping 0 7]

/-- The same context beside another one, on another block and with a single page between them. -/
def besideCalls : List Call :=
  [.createContext (some 2), .allocateBlocks 2 1, .createContext (some 1), .allocateBlocks 1 1, .mapLogicalBlock 2 0 mapWrite,
    .hostWrite 2 firstMapping 0 9, .unmapLogicalBlock 2 firstMapping, .mapLogicalBlock 1 0 mapWrite,
    .hostWrite 1 ⟨⟨0, 3⟩, 4, 1, 0, mapWrite⟩ 0 7]

def observe (start : MmuRuntime) (calls : List Call) : MmuRuntime × Observed :=
  (machine.withGhost (Observed.step (· == 1))).replay (start, ⟨⟨EagerWorld.none, []⟩, []⟩) calls

theorem aloneCalls_separate : (machine.withGhost (Observed.step (· == 1))).Meets (Separate (· == 1))
    (smallInstance 2 0, ⟨⟨EagerWorld.none, []⟩, []⟩) aloneCalls := by
  refine ⟨by decide +kernel, ⟨trivial, trivial⟩, trivial, ⟨?_, trivial⟩, trivial, ⟨?_, trivial⟩, trivial,
    ⟨?_, trivial⟩, trivial⟩
  · show _ ≠ Reply.status (.error .outOfMemory)
    decide +kernel
  · show MapBracketed _ _ 1 0 mapWrite
    decide +kernel
  · show _ ∈ _ ∧ hasWrite firstMapping.mapFlags = true ∧ 0 < firstMapping.sizeBytes
    decide +kernel

theorem besideCalls_separate : (machine.withGhost (Observed.step (· == 1))).Meets (Separate (· == 1))
    (smallInstance 1 0, ⟨⟨EagerWorld.none, []⟩, []⟩) besideCalls := by
  refine ⟨by decide +kernel, ⟨trivial, trivial⟩, trivial, ⟨?_, trivial⟩, by decide +kernel, ⟨trivial, trivial⟩, trivial,
    ⟨?_, trivial⟩, trivial, ⟨?_, trivial⟩, trivial, ⟨?_, trivial⟩, trivial, ⟨?_, trivial⟩, trivial, ⟨?_, trivial⟩,
    trivial, ⟨?_, trivial⟩, trivial⟩
  · show _ ≠ Reply.status (.error .outOfMemory)
    decide +kernel
  · show _ ≠ Reply.status (.error .outOfMemory)
    decide +kernel
  · show MapBracketed _ _ 2 0 mapWrite
    decide +kernel
  · show _ ∈ _ ∧ hasWrite firstMapping.mapFlags = true ∧ 0 < firstMapping.sizeBytes
    decide +kernel
  · show _ ∈ _
    decide +kernel
  · show MapBracketed _ _ 1 0 mapWrite
    decide +kernel
  · show _ ∈ _ ∧ hasWrite _ = true ∧ 0 < 4
    decide +kernel

theorem contexts_isolated_beside :
    SameToOwn (· == 1) (observe (smallInstance 2 0) aloneCalls) (observe (smallInstance 1 0) besideCalls) := by
  have halone := Machine.Reach.start.replay aloneCalls_separate
  have hbeside := Machine.Reach.start.replay besideCalls_separate
  refine contexts_isolated (smallInstance_initial 2 0) (smallInstance_initial 1 0) (by decide) (by decide) rfl rfl
    (fun _ => rfl) (fun _ => rfl) rfl halone hbeside ?_ ?_ ?_
  · unfold observe
    rw [replay_log, replay_log]
    rfl
  · decide +kernel
  · decide +kernel

end DsfMmu
