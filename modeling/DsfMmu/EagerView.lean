import DsfMmu.CowFailure
import DsfMmu.EagerCopy
import DsfMmu.FailedAllocation
import DsfMmu.RefCounts

namespace DsfMmu

open MmuRuntime BlockManager Context

namespace MmuRuntime

/-- What an entry is worth: nothing when it is released, else the bytes of its block. -/
def slotBytes (mmu : MmuRuntime) (b : Int) : Option Bytes :=
  if b = kUnallocatedBlock then none else some (mmu.logicalBytes b)

/-- The contexts as if each owned its blocks. -/
def view (mmu : MmuRuntime) : EagerWorld CtxHandle Bytes := fun ctx =>
  (mmu.contexts.find? ctx).map fun c => c.pageTable.entries.map mmu.slotBytes

/-- Settled, with a reference behind every entry. -/
structure Covered (mmu : MmuRuntime) : Prop where
  settled : mmu.Settled
  routing : mmu.routing.Ok
  covered : mmu.routing.Covered

end MmuRuntime

section View

variable {mmu mmu' : MmuRuntime} {ctx : CtxHandle} {c : Context}

theorem MmuRuntime.Covered.live (h : mmu.Covered) {b : Int} (hc : mmu.contexts.find? ctx = some c)
    (hb : b ∈ c.pageTable.entries) (hun : b ≠ kUnallocatedBlock) : mmu.Live b := by
  have hpos : 0 < c.pageTable.names b := PageTable.names_pos.mpr hb
  have hle := Routing.names_le mmu.routing hc b
  have hcov := h.covered b hun
  show 0 < mmu.l1Allocator.refCounts.entry b
  have : mmu.routing.allocator.refCounts.entry b = mmu.l1Allocator.refCounts.entry b := rfl
  omega

theorem view_find (hc : mmu.contexts.find? ctx = some c) :
    mmu.view ctx = some (c.pageTable.entries.map mmu.slotBytes) := by
  unfold view
  rw [hc]
  rfl

/-- Blocks in use before and after keep their bytes. -/
def KeepsBytes (mmu mmu' : MmuRuntime) : Prop :=
  ∀ q, mmu.Live q → mmu'.Live q → mmu'.logicalBytes q = mmu.logicalBytes q

/-- The entries of a table are worth what they were. -/
theorem slots_kept {entries : List Int} (hk : KeepsBytes mmu mmu')
    (hl : ∀ b ∈ entries, b ≠ kUnallocatedBlock → mmu.Live b ∧ mmu'.Live b) :
    entries.map mmu'.slotBytes = entries.map mmu.slotBytes := by
  apply List.map_congr_left
  intro b hb
  unfold slotBytes
  split
  next => rfl
  next hun =>
    obtain ⟨h1, h2⟩ := hl b hb hun
    rw [hk b h1 h2]

/-- A context whose table is as before looks as before. -/
theorem view_kept (h : mmu.Covered) (h' : mmu'.Covered) (hk : KeepsBytes mmu mmu')
    (hc : mmu'.contexts.find? ctx = mmu.contexts.find? ctx) : mmu'.view ctx = mmu.view ctx := by
  obtain hnone | ⟨c, hc0⟩ := Option.eq_none_or_eq_some (mmu.contexts.find? ctx)
  · unfold view
    rw [hc, hnone]
    rfl
  · have hc1 := hc.trans hc0
    rw [view_find hc0, view_find hc1, slots_kept hk]
    intro b hb hun
    exact ⟨h.live hc0 hb hun, h'.live hc1 hb hun⟩

/-- One context gets a new table, or none; all others look as before. -/
theorem view_update (h : mmu.Covered) (h' : mmu'.Covered) (hk : KeepsBytes mmu mmu')
    {slots : Option (List (Option Bytes))} (hself : mmu'.view ctx = slots)
    (hother : ∀ k ≠ ctx, mmu'.contexts.find? k = mmu.contexts.find? k) :
    mmu'.view = Function.update mmu.view ctx slots := by
  funext k
  by_cases hk' : k = ctx
  · rw [hk', Function.update_self]
    exact hself
  · rw [Function.update_of_ne hk']
    exact view_kept h h' hk (hother k hk')

/-- A step that keeps routing and every block's bytes shows in no view. -/
theorem view_same (hr : SameRouting mmu mmu') (hb : ∀ q, mmu'.logicalBytes q = mmu.logicalBytes q) :
    mmu'.view = mmu.view := by
  funext ctx
  have hslot : mmu'.slotBytes = mmu.slotBytes := by
    funext b
    simp only [slotBytes, hb]
  unfold view
  rw [hr.contexts, hslot]

theorem MmuRuntime.Covered.run {allowed : Event → Prop} (h : mmu.Covered) (hk : Kept allowed mmu mmu')
    (hallowed : ∀ n, allowed (.blocksExhausted n) → n = 0) : mmu'.Covered := by
  obtain ⟨hok, hcov⟩ := hk.routing.invariant (I := fun r => r.Ok ∧ r.Covered) ⟨h.routing, h.covered⟩
    (fun a m b hi hm hstep => ⟨hi.1.step hstep, hi.2.step hi.1 hstep (fun n hn => hallowed n (hn ▸ hm))⟩)
  exact ⟨hk.settled, hok, hcov⟩

/-- No allocation runs dry part of the way. -/
def NoDryAllocation : StepCondition := fun mmu call _ =>
  match call with
  | .allocateBlocks ctx n => ¬RunsDry mmu ctx n
  | _ => True

/-- Then every entry keeps its reference. -/
theorem perform_covered (h : mmu.Covered) {call : Call} (hp : Permitted mmu call)
    (hc : NoDryAllocation mmu call (perform mmu call).1) : (perform mmu call).2.Covered := by
  have hev : EventsOf (fun m => ∀ n, m = .blocksExhausted n → n = 0) mmu call := by
    cases call with
    | allocateBlocks ctx n =>
      refine ⟨?_, fun _ _ _ he => by cases he⟩
      intro hreply k hk
      cases hk
      obtain ⟨r, m, hr⟩ : ∃ r m, mmuAllocateBlocks mmu ctx n = (r, m) := ⟨_, _, rfl⟩
      simp only [perform, hr] at hreply
      cases Reply.status.inj hreply
      rcases mmuAllocateBlocks_cases h.settled hr with
        ⟨_, ⟨e, he, hne⟩, _⟩ | ⟨c, count, ids, bm, hctx, hcount, ht, hlen, hempty, _, _⟩ |
        ⟨_, _, _, _, _, _, _, _, hok, _⟩
      · cases he
        exact absurd rfl hne
      · have hall := ht.all hempty
        rw [exhausted_none hc hctx hcount ht hlen hempty] at hall
        exact hall.symm
      · cases hok
    | forkContext src grows handle =>
      intro _ n he
      cases he
    | _ => trivial
  have hplain : ∀ n, Event.plain = .blocksExhausted n → n = 0 := by
    intro n he
    cases he
  exact h.run (perform_kept h.settled hp hplain hev) (fun n hn => hn n rfl)

theorem covered_new (config : ResolvedConfig) (env : HostEnv) : (MmuRuntime.new config env).Covered := by
  have hs := new_settled config env
  refine ⟨hs, ⟨hs.allocator, KeyedMap.find?_empty _ _⟩, ?_⟩
  intro p _
  exact le_of_eq rfl

theorem reachable_covered {C : StepCondition} (h : ReachableBy C mmu)
    (hC : ∀ s call r, C s call r → NoDryAllocation s call r) : mmu.Covered := by
  refine h.invariant (I := MmuRuntime.Covered) ?_ ?_
  · intro s hs
    obtain ⟨config, env, rfl⟩ := initial_new hs
    exact covered_new config env
  · intro s call hs hp hc
    exact perform_covered hs hp (hC _ _ _ hc)

end View

end DsfMmu
