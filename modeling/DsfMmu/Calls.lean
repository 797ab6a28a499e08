import DsfMmu.Api
import DsfMmu.Machine

namespace DsfMmu

/-- A call of the public API together with what the host supplies to it, or a store by the
host program through a mapping it was given. -/
inductive Call
  | createContext (handle : Option CtxHandle)
  | destroyContext (ctx : CtxHandle)
  | forkContext (src : CtxHandle) (grows : Nat → Bool) (handle : Option CtxHandle)
  | allocateBlocks (ctx : CtxHandle) (numBlocks : UInt32)
  | releaseLogicalBlock (ctx : CtxHandle) (logicalBlock : UInt32)
  | prepareBlockForWrite (ctx : CtxHandle) (logicalBlock : UInt32)
  | mapLogicalBlock (ctx : CtxHandle) (logicalBlock mapFlags : UInt32)
  | mapLogicalBlocks (ctx : CtxHandle) (logicalBlocks : List UInt32) (mapFlags : UInt32)
  | unmapLogicalBlock (ctx : CtxHandle) (mapped : MappedBlock)
  | unmapLogicalBlocks (ctx : CtxHandle) (mapped : List MappedBlock)
  | hostWrite (ctx : CtxHandle) (mapped : MappedBlock) (offset : Nat) (byte : UInt8)

inductive Reply
  | done
  | status (result : Except MmuError Unit)
  | handle (result : Except MmuError CtxHandle)
  | block (result : Except MmuError Int)
  | mapped (result : Except MmuError MappedBlock)
  | mappedAll (result : Except MmuError (List MappedBlock))
  deriving DecidableEq

/-- Queries leave the runtime alone and are not steps. -/
def perform (mmu : MmuRuntime) : Call → Reply × MmuRuntime
  | .createContext handle =>
    match mmuCreateContext mmu handle with | (r, mmu) => (.handle r, mmu)
  | .destroyContext ctx => (.done, mmuDestroyContext mmu ctx)
  | .forkContext src grows handle =>
    match mmuForkContext mmu src grows handle with | (r, mmu) => (.handle r, mmu)
  | .allocateBlocks ctx n =>
    match mmuAllocateBlocks mmu ctx n with | (r, mmu) => (.status r, mmu)
  | .releaseLogicalBlock ctx lb =>
    match mmuReleaseLogicalBlock mmu ctx lb with | (r, mmu) => (.status r, mmu)
  | .prepareBlockForWrite ctx lb =>
    match mmuPrepareBlockForWrite mmu ctx lb with | (r, mmu) => (.block r, mmu)
  | .mapLogicalBlock ctx lb flags =>
    match mmuMapLogicalBlock mmu ctx lb flags with | (r, mmu) => (.mapped r, mmu)
  | .mapLogicalBlocks ctx lbs flags =>
    match mmuMapLogicalBlocks mmu ctx lbs flags with | (r, mmu) => (.mappedAll r, mmu)
  | .unmapLogicalBlock ctx d =>
    match mmuUnmapLogicalBlock mmu ctx d with | (r, mmu) => (.status r, mmu)
  | .unmapLogicalBlocks ctx ds =>
    match mmuUnmapLogicalBlocks mmu ctx ds with | (r, mmu) => (.status r, mmu)
  | .hostWrite _ d offset byte => (.done, hostWrite mmu d offset byte)

/-- A new context's address is neither null nor that of a live context. -/
def FreshHandle (mmu : MmuRuntime) : Option CtxHandle → Prop
  | none => True
  | some ctx => ctx ≠ nullHandle ∧ mmu.contexts.find? ctx = none

def Permitted (mmu : MmuRuntime) : Call → Prop
  | .createContext handle => FreshHandle mmu handle
  | .forkContext _ _ handle => FreshHandle mmu handle
  | _ => True

def machine : Machine MmuRuntime Call Reply := ⟨Permitted, perform⟩

/-- The instances `mmu_init` returns. -/
def Initial (mmu : MmuRuntime) : Prop := ∃ cfg env, mmuInit cfg env = .ok mmu

/-- A condition on the steps of a run. -/
abbrev StepCondition := MmuRuntime → Call → Reply → Prop

/-- States reached from a fresh instance by steps that meet `C`. The calls of such a run return: what a `bad_alloc`
leaves behind is in the runs of `Escaping.machine`. -/
def ReachableBy (C : StepCondition) (mmu : MmuRuntime) : Prop :=
  ∃ start, Initial start ∧ machine.Reach C start mmu

/-- States reached through the public API by calls that return, in any order and failing anywhere. -/
def Reachable (mmu : MmuRuntime) : Prop := ReachableBy Machine.anyStep mmu

theorem ReachableBy.reachable {C : StepCondition} {mmu : MmuRuntime} (h : ReachableBy C mmu) :
    Reachable mmu := by
  obtain ⟨start, hi, hr⟩ := h
  exact ⟨start, hi, hr.any⟩

theorem Reachable.step {mmu : MmuRuntime} {call : Call} (h : Reachable mmu) (hp : Permitted mmu call) :
    Reachable (perform mmu call).2 := by
  obtain ⟨start, hi, hr⟩ := h
  exact ⟨start, hi, .next hr hp trivial⟩

/-- An invariant of fresh instances that every step keeps. -/
theorem ReachableBy.invariant {C : StepCondition} {I : MmuRuntime → Prop} {mmu : MmuRuntime}
    (h : ReachableBy C mmu) (start : ∀ s, Initial s → I s)
    (keeps : ∀ s c, I s → Permitted s c → C s c (perform s c).1 → I (perform s c).2) : I mmu := by
  obtain ⟨s, hi, hr⟩ := h
  exact hr.invariant (start s hi) keeps

theorem initial_new {mmu : MmuRuntime} (h : Initial mmu) :
    ∃ config env, mmu = .new config env := by
  obtain ⟨cfg, env, h⟩ := h
  unfold mmuInit at h
  split at h
  next => simp at h
  next =>
    split at h
    next => simp at h
    next hz =>
      split at h
      next => simp at h
      next => exact ⟨_, env, (Except.ok.inj h).symm⟩

instance (mmu : MmuRuntime) (handle : Option CtxHandle) : Decidable (FreshHandle mmu handle) :=
  match handle with
  | none => isTrue trivial
  | some ctx => inferInstanceAs (Decidable (ctx ≠ nullHandle ∧ mmu.contexts.find? ctx = none))

instance (mmu : MmuRuntime) (call : Call) : Decidable (Permitted mmu call) :=
  match call with
  | .createContext handle => inferInstanceAs (Decidable (FreshHandle mmu handle))
  | .forkContext _ _ handle => inferInstanceAs (Decidable (FreshHandle mmu handle))
  | .destroyContext _ => isTrue trivial
  | .allocateBlocks _ _ => isTrue trivial
  | .releaseLogicalBlock _ _ => isTrue trivial
  | .prepareBlockForWrite _ _ => isTrue trivial
  | .mapLogicalBlock _ _ _ => isTrue trivial
  | .mapLogicalBlocks _ _ _ => isTrue trivial
  | .unmapLogicalBlock _ _ => isTrue trivial
  | .unmapLogicalBlocks _ _ => isTrue trivial
  | .hostWrite _ _ _ _ => isTrue trivial

instance (mmu : MmuRuntime) (call : Call) : Decidable (machine.enabled mmu call) :=
  inferInstanceAs (Decidable (Permitted mmu call))

/-- The calls of a list are permitted when their turn comes. -/
def permittedAll : MmuRuntime → List Call → Bool
  | _, [] => true
  | mmu, call :: rest => decide (Permitted mmu call) && permittedAll (perform mmu call).2 rest

theorem Reachable.replay {mmu : MmuRuntime} {calls : List Call} (h : Reachable mmu)
    (hp : permittedAll mmu calls = true) : Reachable (machine.replay mmu calls) := by
  obtain ⟨start, hi, hr⟩ := h
  refine ⟨start, hi, hr.replay ?_⟩
  clear hr
  induction calls generalizing mmu with
  | nil => trivial
  | cons call rest ih =>
    rw [permittedAll, Bool.and_eq_true, decide_eq_true_eq] at hp
    exact ⟨hp.1, trivial, ih hp.2⟩

theorem reach_replay {γ : Type} {update : MmuRuntime → Call → Reply → γ → γ} {s₀ s : MmuRuntime × γ}
    {calls : List Call} (h : (machine.withGhost update).Reach Machine.anyStep s₀ s)
    (hp : permittedAll s.1 calls = true) :
    (machine.withGhost update).Reach Machine.anyStep s₀ ((machine.withGhost update).replay s calls) := by
  refine h.replay ?_
  clear h
  induction calls generalizing s with
  | nil => trivial
  | cons call rest ih =>
    rw [permittedAll, Bool.and_eq_true, decide_eq_true_eq] at hp
    exact ⟨hp.1, trivial, ih hp.2⟩

/-! A ghost keeps the machine from no step. -/

section Ghost

variable {γ : Type} {update : MmuRuntime → Call → Reply → γ → γ} {s₀ : MmuRuntime × γ} {mmu : MmuRuntime} {ghost : γ}

theorem reach_perform {call : Call} (h : (machine.withGhost update).Reach Machine.anyStep s₀ (mmu, ghost))
    (hp : Permitted mmu call) :
    ∃ ghost', (machine.withGhost update).Reach Machine.anyStep s₀ ((perform mmu call).2, ghost') :=
  ⟨_, @Machine.Reach.next _ _ _ _ _ _ (mmu, ghost) call h hp trivial⟩

theorem reach_replay_fst {calls : List Call} (h : (machine.withGhost update).Reach Machine.anyStep s₀ (mmu, ghost))
    (hp : permittedAll mmu calls = true) :
    ∃ ghost', (machine.withGhost update).Reach Machine.anyStep s₀ (machine.replay mmu calls, ghost') := by
  have hrun := reach_replay h hp
  have hstate : ((machine.withGhost update).replay (mmu, ghost) calls).1 = machine.replay mmu calls :=
    Machine.withGhost_replay_fst update (mmu, ghost) calls
  refine ⟨((machine.withGhost update).replay (mmu, ghost) calls).2, ?_⟩
  rw [← hstate]
  exact hrun

end Ghost

/-- What holds whenever a call fails holds of the call that did. -/
theorem of_error {α : Type} {x : Except MmuError α × MmuRuntime} {P : MmuRuntime → Prop} {e : MmuError}
    (hall : ∀ e mmu', x = (.error e, mmu') → P mmu') (he : x.1 = .error e) : P x.2 := by
  obtain ⟨r, mmu'⟩ := x
  have hr : r = .error e := he
  rw [hr] at hall
  exact hall e mmu' rfl

/-- A host that grants every request. -/
def grantingHost : HostEnv := ⟨0, 0, true, fun _ => .granted, fun _ => [], fun _ => []⟩

/-- Four blocks of four bytes. -/
def smallConfig (residentLimit l2Blocks : UInt32) : MmuConfig := ⟨32, 1, 4, residentLimit, l2Blocks, 4, 0⟩

def smallInstance (residentLimit l2Blocks : UInt32) : MmuRuntime :=
  .new (resolveConfig (smallConfig residentLimit l2Blocks) 0 (by simp [smallConfig])) grantingHost

theorem smallInstance_initial (residentLimit l2Blocks : UInt32) :
    Initial (smallInstance residentLimit l2Blocks) := by
  refine ⟨smallConfig residentLimit l2Blocks, grantingHost, ?_⟩
  simp [mmuInit, smallInstance, smallConfig, sizeofMmuConfig, mmuApiVersion, grantingHost,
    queryAvailableHostMemoryBytes]

theorem smallInstance_reachable (residentLimit l2Blocks : UInt32) :
    Reachable (smallInstance residentLimit l2Blocks) :=
  ⟨_, smallInstance_initial _ _, .start⟩

end DsfMmu
