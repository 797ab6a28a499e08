import DsfMmu.EagerSteps
import DsfMmu.Transparency

namespace DsfMmu

open MmuRuntime BlockManager Context

section Stores

variable {mmu : MmuRuntime} {ctx : CtxHandle} {lb : UInt32} {d : MappedBlock}

/-- A store through `d` goes to the page of the block that a context's entry names. -/
def Hits (mmu : MmuRuntime) (ctx : CtxHandle) (lb : UInt32) (d : MappedBlock) : Prop :=
  ∃ b ∈ entryAt mmu ctx lb.toNat, mmu.l1Pool.rawPage b = some d.hostPtr

instance (mmu : MmuRuntime) (ctx : CtxHandle) (lb : UInt32) (d : MappedBlock) : Decidable (Hits mmu ctx lb d) :=
  inferInstanceAs (Decidable (∃ b ∈ entryAt mmu ctx lb.toNat, mmu.l1Pool.rawPage b = some d.hostPtr))

/-- What a watched slot holds after a store. -/
theorem hostWrite_slot (h : mmu.Settled) {bytes : Bytes} (hs : mmu.view.slot ctx lb.toNat = some bytes)
    (offset : Nat) (byte : UInt8) : (hostWrite mmu d offset byte).view.slot ctx lb.toNat =
      some (if Hits mmu ctx lb d then bytes.set offset byte else bytes) := by
  obtain ⟨b, hentry, hun, hbytes⟩ := slot_eq_some.mp hs
  have hhits : Hits mmu ctx lb d ↔ mmu.l1Pool.rawPage b = some d.hostPtr := by
    unfold Hits
    rw [hentry]
    simp
  apply slot_eq_some.mpr
  refine ⟨b, hentry, hun, ?_⟩
  by_cases hhit : mmu.l1Pool.rawPage b = some d.hostPtr
  · rw [if_pos (hhits.mpr hhit), hostWrite_bytes_hit h hhit, hbytes]
  · rw [if_neg (fun hc => hhit (hhits.mp hc)), hostWrite_bytes_missed hhit, hbytes]

end Stores

/-! Watching one logical block in a child and its descendants. -/

/-- What each watched context should read. -/
abbrev Expected := CtxHandle → Option Bytes

/-- Only the child is watched. -/
def watchOnly (child : CtxHandle) (bytes : Bytes) : Expected := Function.update (fun _ => none) child (some bytes)

theorem watchOnly_self (child : CtxHandle) (bytes : Bytes) : watchOnly child bytes child = some bytes := by
  unfold watchOnly
  rw [Function.update_self]

theorem watchOnly_ne {child k : CtxHandle} (h : k ≠ child) (bytes : Bytes) : watchOnly child bytes k = none :=
  Function.update_of_ne h _ _

/-- A fork inherits what its source should read, a store to the context's own page changes it, and it
ends with a release or with the context. -/
def watch (lb : UInt32) (mmu : MmuRuntime) (call : Call) (reply : Reply) (expected : Expected) : Expected :=
  match call, reply with
  | .destroyContext ctx, _ => Function.update expected ctx none
  | .forkContext src _ _, .handle (.ok child) => Function.update expected child (expected src)
  | .releaseLogicalBlock ctx l, .status (.ok _) => if l = lb then Function.update expected ctx none else expected
  | .hostWrite ctx d offset byte, _ =>
    if Hits mmu ctx lb d then Function.update expected ctx ((expected ctx).map (·.set offset byte)) else expected
  | _, _ => expected

/-- Some WRITE map of the batch switches the entry of `lb` and then fails to clone its block. -/
def BatchLosesBlock (ctx : CtxHandle) (lb flags : UInt32) : List UInt32 → MmuRuntime → Prop
  | [], _ => False
  | l :: rest, mmu =>
    (l = lb ∧ PrepareLosesBlock mmu ctx lb) ∨
      ∃ d mmu', mmuMapLogicalBlock mmu ctx l flags = (.ok d, mmu') ∧ BatchLosesBlock ctx lb flags rest mmu'

/-- No store hits a watched entry of another context; no allocation runs dry part of the way; and no
watched entry is lost by a failed clone. -/
def Undisturbed (lb : UInt32) (s : MmuRuntime × Expected) (call : Call) (_ : Reply) : Prop :=
  match call with
  | .hostWrite ctx d _ _ => ∀ k, k ≠ ctx → s.2 k ≠ none → ¬Hits s.1 k lb d
  | .allocateBlocks ctx n => ¬RunsDry s.1 ctx n
  | .prepareBlockForWrite ctx l => l = lb → s.2 ctx ≠ none → ¬PrepareLosesBlock s.1 ctx lb
  | .mapLogicalBlock ctx l flags =>
    hasWrite flags = true → l = lb → s.2 ctx ≠ none → ¬PrepareLosesBlock s.1 ctx lb
  | .mapLogicalBlocks ctx ls flags =>
    hasWrite flags = true → s.2 ctx ≠ none → ¬BatchLosesBlock ctx lb flags ls s.1
  | _ => True

section Watched

variable {mmu mmu' : MmuRuntime} {ctx : CtxHandle} {lb flags : UInt32} {expected : Expected}

/-- Every watched context has in its slot what it should read. -/
def Meets (lb : UInt32) (mmu : MmuRuntime) (expected : Expected) : Prop :=
  ∀ k bytes, expected k = some bytes → mmu.view.slot k lb.toNat = some bytes

theorem Meets.same_view (h : Meets lb mmu expected) (hv : mmu'.view = mmu.view) : Meets lb mmu' expected := by
  intro k bytes hk
  rw [hv]
  exact h k bytes hk

/-- A context that is not there cannot be watched. -/
theorem Meets.ne_fresh (h : Meets lb mmu expected) {k fresh : CtxHandle} {bytes : Bytes}
    (hk : expected k = some bytes) (hfresh : mmu.contexts.find? fresh = none) : k ≠ fresh := by
  intro heq
  subst heq
  obtain ⟨b, hentry, _⟩ := slot_eq_some.mp (h k bytes hk)
  obtain ⟨c, hc, _⟩ := entryAt_eq_some.mp hentry
  rw [hfresh] at hc
  cases hc

/-- Only the slots of one context change, and with them what it should read. -/
theorem Meets.update {expected' : Expected} (h : Meets lb mmu expected) {k : CtxHandle}
    {slots : Option (List (Option Bytes))} (hv : mmu'.view = Function.update mmu.view k slots)
    (hother : ∀ j ≠ k, ∀ bytes, expected' j = some bytes → expected j = some bytes)
    (hself : ∀ bytes, expected' k = some bytes → mmu'.view.slot k lb.toNat = some bytes) :
    Meets lb mmu' expected' := by
  intro j bytes hj
  by_cases hjk : j = k
  · subst j
    exact hself bytes hj
  · rw [hv, ← h j bytes (hother j hjk bytes hj)]
    exact EagerWorld.slot_update_of_ne _ _ _ hjk

/-- A slot zeroed by a failed clone is not a watched one. -/
theorem Meets.lost (h : Meets lb mmu expected) {l : UInt32} {zero : Bytes}
    (hv : mmu'.view = mmu.view.write ctx l.toNat (fun _ => zero))
    (hother : l = lb → expected ctx = none) : Meets lb mmu' expected := by
  refine h.update hv (fun _ _ _ => id) ?_
  intro bytes hk
  rw [hv, ← h ctx bytes hk]
  apply EagerWorld.slot_write_ne
  intro he
  have hl : l = lb := UInt32.toNat_inj.mp he.symm
  rw [hother hl] at hk
  cases hk

theorem not_watched {P : Prop} (hP : P) (h : expected ctx ≠ none → ¬P) : expected ctx = none := by
  by_contra hne
  exact h hne hP

theorem Meets.map (hc : mmu.Covered) (h : Meets lb mmu expected) {l : UInt32} {r : Except MmuError MappedBlock}
    (hm : mmuMapLogicalBlock mmu ctx l flags = (r, mmu'))
    (hno : hasWrite flags = true → l = lb → expected ctx ≠ none → ¬PrepareLosesBlock mmu ctx lb) :
    Meets lb mmu' expected := by
  rcases map_view hc hm with hsame | ⟨_, hw, hlost, hzero⟩
  · exact h.same_view hsame
  · apply h.lost hzero
    intro hl
    exact not_watched (hl ▸ hlost) (hno hw hl)

theorem unmapAll_meets (hc : mmu.Covered) (h : Meets lb mmu expected) (done : List MappedBlock) :
    Meets lb (unmapAll ctx done mmu) expected := by
  induction done generalizing mmu with
  | nil => exact h
  | cons d rest ih =>
    obtain ⟨r, m, hu⟩ : ∃ r m, mmuUnmapLogicalBlock mmu ctx d = (r, m) := ⟨_, _, rfl⟩
    rw [unmapAll_cons hu rest]
    exact ih (unmap_covered hc hu) (h.same_view (unmap_view hc.settled hu))

theorem mapBlocksLoop_meets (ls : List UInt32) (done : List MappedBlock) (hc : mmu.Covered)
    (h : Meets lb mmu expected) {r : Except MmuError (List MappedBlock)}
    (hm : mapBlocksLoop ctx flags ls done mmu = (r, mmu'))
    (hno : hasWrite flags = true → expected ctx ≠ none → ¬BatchLosesBlock ctx lb flags ls mmu) :
    Meets lb mmu' expected := by
  induction ls generalizing mmu done with
  | nil =>
    obtain ⟨_, rfl⟩ := Prod.mk.inj hm
    exact h
  | cons l rest ih =>
    have hhead : hasWrite flags = true → l = lb → expected ctx ≠ none → ¬PrepareLosesBlock mmu ctx lb := by
      intro hw hl hctx hlost
      exact hno hw hctx (.inl ⟨hl, hlost⟩)
    unfold mapBlocksLoop at hm
    split at hm
    next e mid hone =>
      obtain ⟨_, rfl⟩ := Prod.mk.inj hm
      exact unmapAll_meets (map_covered hc hone) (h.map hc hone hhead) done
    next d mid hone =>
      refine ih (done ++ [d]) (map_covered hc hone) (h.map hc hone hhead) hm ?_
      intro hw hctx hlost
      exact hno hw hctx (.inr ⟨d, mid, hone, hlost⟩)

theorem create_meets (hc : mmu.Covered) (h : Meets lb mmu expected) {handle : Option CtxHandle}
    (hp : Permitted mmu (.createContext handle)) {r : Except MmuError CtxHandle}
    (hr : mmuCreateContext mmu handle = (r, mmu')) : Meets lb mmu' expected := by
  have hv := create_view hc hp hr
  rcases mmuCreateContext_cases hr with ⟨_, ⟨e, rfl⟩, _⟩ | ⟨k, rfl, rfl, _⟩
  · exact h.same_view hv
  · refine h.update hv (fun _ _ _ => id) ?_
    intro bytes hk
    exact absurd rfl (h.ne_fresh hk hp.2)

theorem fork_meets (hc : mmu.Covered) (h : Meets lb mmu expected) {src : CtxHandle} {grows : Nat → Bool}
    {handle : Option CtxHandle} (hp : Permitted mmu (.forkContext src grows handle)) {k : CtxHandle}
    (hr : mmuForkContext mmu src grows handle = (.ok k, mmu')) :
    Meets lb mmu' (Function.update expected k (expected src)) := by
  have hv := fork_view hc hp hr
  refine h.update hv ?_ ?_
  · intro j hjk bytes hj
    rwa [Function.update_of_ne hjk] at hj
  · intro bytes hk
    rw [Function.update_self] at hk
    rw [hv, EagerWorld.slot_fork]
    exact h src bytes hk

theorem release_meets (hc : mmu.Covered) (h : Meets lb mmu expected) {k : CtxHandle} {l : UInt32} {u : Unit}
    (hr : mmuReleaseLogicalBlock mmu k l = (.ok u, mmu')) :
    Meets lb mmu' (if l = lb then Function.update expected k none else expected) := by
  have hv := release_view hc hr
  refine h.update hv ?_ ?_
  · intro j hjk bytes hj
    split at hj
    next => rwa [Function.update_of_ne hjk] at hj
    next => exact hj
  · intro bytes hk
    split at hk
    next =>
      rw [Function.update_self] at hk
      cases hk
    next hl =>
      rw [hv, ← h k bytes hk]
      apply EagerWorld.slot_release_ne
      intro he
      exact hl (UInt32.toNat_inj.mp he.symm)

theorem hostWrite_meets (hc : mmu.Covered) (h : Meets lb mmu expected) {k : CtxHandle} {d : MappedBlock}
    {offset : Nat} {byte : UInt8} (hmiss : ∀ j, j ≠ k → expected j ≠ none → ¬Hits mmu j lb d) :
    Meets lb (hostWrite mmu d offset byte) (if Hits mmu k lb d then
      Function.update expected k ((expected k).map (·.set offset byte)) else expected) := by
  intro j bytes hj
  by_cases hjk : j = k
  · subst j
    split at hj
    next hhit =>
      rw [Function.update_self] at hj
      obtain ⟨old, hold, rfl⟩ := Option.map_eq_some_iff.mp hj
      rw [hostWrite_slot hc.settled (h k old hold), if_pos hhit]
    next hhit => rw [hostWrite_slot hc.settled (h k bytes hj), if_neg hhit]
  · have hj' : expected j = some bytes := by
      split at hj
      next => rwa [Function.update_of_ne hjk] at hj
      next => exact hj
    have hne : expected j ≠ none := by
      rw [hj']
      exact Option.some_ne_none bytes
    rw [hostWrite_slot hc.settled (h j bytes hj'), if_neg (hmiss j hjk hne)]

/-- The views follow the watch through every call. -/
theorem Meets.step (hc : mmu.Covered) (h : Meets lb mmu expected) {call : Call} (hp : Permitted mmu call)
    (hu : Undisturbed lb (mmu, expected) call (perform mmu call).1) :
    Meets lb (perform mmu call).2 (watch lb mmu call (perform mmu call).1 expected) := by
  cases call with
  | createContext handle =>
    obtain ⟨r, m, hr⟩ : ∃ r m, mmuCreateContext mmu handle = (r, m) := ⟨_, _, rfl⟩
    simp only [perform, hr, watch]
    exact create_meets hc h hp hr
  | destroyContext k =>
    simp only [perform, watch]
    refine h.update (destroy_view hc k) ?_ ?_
    · intro j hjk bytes hj
      rwa [Function.update_of_ne hjk] at hj
    · intro bytes hk
      rw [Function.update_self] at hk
      cases hk
  | forkContext src grows handle =>
    obtain ⟨r, m, hr⟩ : ∃ r m, mmuForkContext mmu src grows handle = (r, m) := ⟨_, _, rfl⟩
    simp only [perform, hr]
    cases r with
    | error e => exact h.same_view (fork_view hc hp hr)
    | ok k => exact fork_meets hc h hp hr
  | allocateBlocks k n =>
    obtain ⟨r, m, hr⟩ : ∃ r m, mmuAllocateBlocks mmu k n = (r, m) := ⟨_, _, rfl⟩
    have hdry : ¬RunsDry mmu k n := hu
    have hv := allocate_view hc hdry hr
    simp only [perform, hr, watch]
    cases r with
    | error e => exact h.same_view hv
    | ok u =>
      refine h.update hv (fun _ _ _ => id) ?_
      intro bytes hk
      rw [hv]
      exact EagerWorld.slot_allocate _ _ (h k bytes hk)
  | releaseLogicalBlock k l =>
    obtain ⟨r, m, hr⟩ : ∃ r m, mmuReleaseLogicalBlock mmu k l = (r, m) := ⟨_, _, rfl⟩
    simp only [perform, hr]
    cases r with
    | error e => exact h.same_view (release_view hc hr)
    | ok u => exact release_meets hc h hr
  | prepareBlockForWrite k l =>
    obtain ⟨r, m, hr⟩ : ∃ r m, mmuPrepareBlockForWrite mmu k l = (r, m) := ⟨_, _, rfl⟩
    have hno : l = lb → expected k ≠ none → ¬PrepareLosesBlock mmu k lb := hu
    simp only [perform, hr, watch]
    rcases prepare_view hc hr with hsame | ⟨_, hlost, hzero⟩
    · exact h.same_view hsame
    · apply h.lost hzero
      intro hl
      exact not_watched (hl ▸ hlost) (hno hl)
  | mapLogicalBlock k l fl =>
    obtain ⟨r, m, hr⟩ : ∃ r m, mmuMapLogicalBlock mmu k l fl = (r, m) := ⟨_, _, rfl⟩
    simp only [perform, hr, watch]
    exact h.map hc hr hu
  | mapLogicalBlocks k ls fl =>
    obtain ⟨r, m, hr⟩ : ∃ r m, mmuMapLogicalBlocks mmu k ls fl = (r, m) := ⟨_, _, rfl⟩
    simp only [perform, hr, watch]
    exact mapBlocksLoop_meets ls [] hc h hr hu
  | unmapLogicalBlock k d =>
    obtain ⟨r, m, hr⟩ : ∃ r m, mmuUnmapLogicalBlock mmu k d = (r, m) := ⟨_, _, rfl⟩
    simp only [perform, hr, watch]
    exact h.same_view (unmap_view hc.settled hr)
  | unmapLogicalBlocks k ds =>
    rw [perform_unmaps]
    exact unmapAll_meets hc h ds
  | hostWrite k d offset byte => exact hostWrite_meets hc h hu

theorem undisturbed_noDry {call : Call} {reply : Reply} (h : Undisturbed lb (mmu, expected) call reply) :
    NoDryAllocation mmu call reply := by
  cases call with
  | allocateBlocks k n => exact h
  | _ => trivial

/-- Every READ map of a logical block gets these bytes, also from within a batch, unless the batch counts a
pin on the block when its counter is full. -/
structure ReadsAs (mmu : MmuRuntime) (ctx : CtxHandle) (lb : UInt32) (bytes : Bytes) : Prop where
  slot : mmu.view.slot ctx lb.toNat = some bytes
  map : ∀ flags d mmu', hasWrite flags = false → mmuMapLogicalBlock mmu ctx lb flags = (.ok d, mmu') →
    hostRead mmu' d = bytes
  pages : ∀ flags ls ds mmu', hasWrite flags = false → mmuMapLogicalBlocks mmu ctx ls flags = (.ok ds, mmu') →
    List.Forall₂ (fun l d => l = lb → ¬BatchWraps mmu ctx ls flags d.physicalBlockId →
      hostRead mmu' d = bytes) ls ds

theorem readsAs_of_slot (h : Reachable mmu) {bytes : Bytes} (hs : mmu.view.slot ctx lb.toNat = some bytes) :
    ReadsAs mmu ctx lb bytes := by
  have hsettled := h.settled
  refine ⟨hs, ?_, ?_⟩
  · intro flags d mmu' hw hm
    obtain ⟨hroute, hmapped⟩ := mmuMapLogicalBlock_read hsettled hw hm
    rw [hostRead_of_l1 hmapped.page]
    exact routed_slot hsettled hs hroute
  · intro flags ls ds mmu' hw hm
    apply (mapBlocks_read hw hsettled hm).imp
    intro l d hd hl hno
    obtain ⟨hroute, hread⟩ := hd
    subst l
    rw [hread hno]
    exact routed_slot hsettled hs hroute

end Watched

/-- After a fork the child and its descendants read the bytes of fork time, as changed by their own
stores, in every run that does not disturb them. -/
theorem fork_isolates_child {mmu mmu' : MmuRuntime} {ctx child : CtxHandle} {lb : UInt32} {grows : Nat → Bool}
    {bytes : Bytes} {t : MmuRuntime × Expected} (h : ReachableBy NoDryAllocation mmu)
    (hfresh : FreshHandle mmu (some child))
    (hfork : mmuForkContext mmu ctx grows (some child) = (.ok child, mmu'))
    (hslot : mmu.view.slot ctx lb.toNat = some bytes)
    (hrun : (machine.withGhost (watch lb)).Reach (Undisturbed lb)
      (mmu', watchOnly child bytes) t) :
    ∀ k b, t.2 k = some b → ReadsAs t.1 k lb b := by
  have hc : mmu.Covered := reachable_covered h (fun _ _ _ hd => hd)
  have hc' := fork_covered hc hfresh hfork
  have hreach : Reachable mmu' := by
    have hstep := @Reachable.step _ (.forkContext ctx grows (some child)) h.reachable hfresh
    simp only [perform, hfork] at hstep
    exact hstep
  have hstart : Meets lb mmu' (watchOnly child bytes) := by
    intro k b hk
    by_cases hkc : k = child
    · subst k
      rw [watchOnly_self] at hk
      rw [fork_view hc hfresh hfork]
      dsimp only
      rw [EagerWorld.slot_fork, hslot, hk]
    · rw [watchOnly_ne hkc] at hk
      cases hk
  have hinv : t.1.Covered ∧ Meets lb t.1 t.2 := by
    refine hrun.invariant (I := fun s => s.1.Covered ∧ Meets lb s.1 s.2) ⟨hc', hstart⟩ ?_
    intro hex call hboth hp hu
    obtain ⟨m, expected⟩ := hex
    obtain ⟨hm, hmeets⟩ := hboth
    exact ⟨perform_covered hm hp (undisturbed_noDry hu), hmeets.step hm hp hu⟩
  have ht : Reachable t.1 := by
    obtain ⟨start, hi, hr⟩ := hreach
    exact ⟨start, hi, hr.trans (hrun.forget fun _ _ _ _ => trivial)⟩
  intro k b hk
  exact readsAs_of_slot ht (hinv.2 k b hk)

/-- Context 1 has stored a seven through a WRITE mapping that it still holds. -/
def outstandingWrite : MmuRuntime :=
  machine.replay (smallInstance 2 0)
    [.createContext (some 1), .allocateBlocks 1 1, .mapLogicalBlock 1 0 mapWrite, .hostWrite 1 firstMapping 0 7]

/-- Context 2 is its fork. -/
@[irreducible] def forkedWhileMapped : MmuRuntime := (mmuForkContext outstandingWrite 1 (fun _ => true) (some 2)).2

/-- The parent unmaps, maps for writing again and stores a nine; then the child is forked. -/
def remappedWrites : List Call :=
  [.unmapLogicalBlock 1 firstMapping, .mapLogicalBlock 1 0 mapWrite,
    .hostWrite 1 ⟨⟨0, 2⟩, 4, 1, 0, mapWrite⟩ 0 9, .forkContext 2 (fun _ => true) (some 3)]

/-- What the contexts should read at its end. -/
def afterRemappedWrites : MmuRuntime × Expected :=
  (machine.withGhost (watch 0)).replay
    (forkedWhileMapped, watchOnly 2 [7, 0, 0, 0]) remappedWrites

theorem outstandingWrite_reachable : ReachableBy NoDryAllocation outstandingWrite := by
  have hdry : ¬RunsDry (machine.replay (smallInstance 2 0) [.createContext (some 1)]) 1 1 := by decide +kernel
  refine ⟨_, smallInstance_initial 2 0, Machine.Reach.start.replay ?_⟩
  exact ⟨by decide +kernel, trivial, trivial, hdry, trivial, trivial, trivial, trivial, trivial⟩

theorem remappedWrites_undisturbed : (machine.withGhost (watch 0)).Meets (Undisturbed 0)
    (forkedWhileMapped, watchOnly 2 [7, 0, 0, 0]) remappedWrites := by
  have hone : watchOnly 2 [7, 0, 0, 0] 1 = none := watchOnly_ne (by decide) _
  have hmiss : ¬Hits (machine.replay forkedWhileMapped (remappedWrites.take 2)) 2 0
      ⟨⟨0, 2⟩, 4, 1, 0, mapWrite⟩ := by decide +kernel
  have hfresh : FreshHandle (machine.replay forkedWhileMapped (remappedWrites.take 3)) (some 3) := by
    decide +kernel
  refine ⟨trivial, trivial, trivial, ?_, trivial, ?_, hfresh, trivial, trivial⟩
  · intro _ _ hwatched
    exact absurd hone hwatched
  · intro k _ hwatched
    by_cases hk : k = 2
    · rw [hk]
      exact hmiss
    · exact absurd (watchOnly_ne hk [7, 0, 0, 0]) hwatched

/-- The parent's second mapping shows neither in the child nor in the child's child. -/
theorem fork_isolates_child_remapped :
    ReadsAs afterRemappedWrites.1 2 0 [7, 0, 0, 0] ∧ ReadsAs afterRemappedWrites.1 3 0 [7, 0, 0, 0] := by
  have hresult : (mmuForkContext outstandingWrite 1 (fun _ => true) (some 2)).1 = .ok 2 := by decide +kernel
  have hfork : mmuForkContext outstandingWrite 1 (fun _ => true) (some 2) = (.ok 2, forkedWhileMapped) :=
    Prod.ext hresult (by unfold forkedWhileMapped; rfl)
  have hrun := (@Machine.Reach.start _ _ _ (machine.withGhost (watch 0)) (Undisturbed 0) _).replay
    remappedWrites_undisturbed
  have hreads := fork_isolates_child outstandingWrite_reachable (by decide +kernel) hfork (by decide +kernel) hrun
  exact ⟨hreads 2 [7, 0, 0, 0] (by decide +kernel), hreads 3 [7, 0, 0, 0] (by decide +kernel)⟩

/-- A store of the parent through the mapping it held at the fork changes what the child reads. -/
theorem held_mapping_writes_child :
    Reachable (hostWrite forkedWhileMapped firstMapping 0 9) ∧
      (mmuForkContext outstandingWrite 1 (fun _ => true) (some 2)).1 = .ok 2 ∧
      outstandingWrite.view.slot 1 0 = some [7, 0, 0, 0] ∧
      forkedWhileMapped.view.slot 2 0 = some [7, 0, 0, 0] ∧
      (let read := mmuMapLogicalBlock (hostWrite forkedWhileMapped firstMapping 0 9) 2 0 mapRead
       read.1 = .ok ⟨⟨0, 3⟩, 4, 0, 0, mapRead⟩ ∧
       hostRead read.2 ⟨⟨0, 3⟩, 4, 0, 0, mapRead⟩ = [9, 0, 0, 0]) ∧
      ¬ReadsAs (hostWrite forkedWhileMapped firstMapping 0 9) 2 0 [7, 0, 0, 0] := by
  have hreach : Reachable (hostWrite forkedWhileMapped firstMapping 0 9) := by
    have hforked : Reachable forkedWhileMapped := by
      unfold forkedWhileMapped
      exact @Reachable.step _ (.forkContext 1 (fun _ => true) (some 2)) outstandingWrite_reachable.reachable
        (by decide +kernel)
    exact @Reachable.step _ (.hostWrite 1 firstMapping 0 9) hforked trivial
  have hslot : (hostWrite forkedWhileMapped firstMapping 0 9).view.slot 2 0 = some [9, 0, 0, 0] := by decide +kernel
  refine ⟨hreach, by decide +kernel, by decide +kernel, by decide +kernel, by decide +kernel, ?_⟩
  intro hreads
  have hsame := hreads.slot
  have hdiffer := hslot.symm.trans hsame
  revert hdiffer
  decide

end DsfMmu
