import DsfMmu.Calls
import DsfMmu.StreamedOutput

namespace DsfMmu

open StreamedOutput

variable {mmu : MmuRuntime} {ctx : CtxHandle} {c : Context}

/-- The batch loop is the streamed loop over single resolutions. -/
theorem resolveRoutingLoop_eq (hc : findContext mmu ctx = some c) (i : Nat) (logicalBlocks : List UInt32)
    (outRoutes : List PhysicalRoute) :
    resolveRoutingLoop c mmu.blockDirectory i logicalBlocks outRoutes =
      run (mmuResolveRouting mmu ctx) i logicalBlocks outRoutes := by
  induction logicalBlocks generalizing i outRoutes with
  | nil => rfl
  | cons logicalBlock rest ih =>
    cases hl : u32ToInt logicalBlock with
    | none => simp only [resolveRoutingLoop, run, mmuResolveRouting, hc, hl]
    | some lvid =>
      cases hr : c.resolveRouting mmu.blockDirectory lvid with
      | error status => simp only [resolveRoutingLoop, run, mmuResolveRouting, hc, hl, hr]
      | ok route =>
        have hrest := ih (i + 1) (outRoutes.set i route)
        simp only [resolveRoutingLoop, run, mmuResolveRouting, hc, hl, hr]
        exact hrest

theorem mmuResolveRoutingBatch_eq (hc : findContext mmu ctx = some c) (logicalBlocks : List UInt32)
    (outRoutes : List PhysicalRoute) :
    mmuResolveRoutingBatch mmu ctx logicalBlocks outRoutes =
      run (mmuResolveRouting mmu ctx) 0 logicalBlocks outRoutes := by
  rw [mmuResolveRoutingBatch, hc]
  exact resolveRoutingLoop_eq hc 0 logicalBlocks outRoutes

/-- A batch is all-or-nothing exactly when every id resolves, or the array starts with the routes
of the ids in front of the first that does not. -/
theorem resolve_batch_allOrNothing_iff {logicalBlocks : List UInt32} {outRoutes : List PhysicalRoute}
    (hc : findContext mmu ctx = some c) (room : logicalBlocks.length ≤ outRoutes.length) :
    AllOrNothing (mmuResolveRouting mmu ctx) logicalBlocks outRoutes
        (mmuResolveRoutingBatch mmu ctx logicalBlocks outRoutes) ↔
      Succeeds (mmuResolveRouting mmu ctx) logicalBlocks ∨
        leading (mmuResolveRouting mmu ctx) logicalBlocks <+: outRoutes := by
  rw [mmuResolveRoutingBatch_eq hc]
  exact run_allOrNothing_iff room

/-- One context with one block, resident in L1. -/
@[irreducible] def oneRouted : MmuRuntime :=
  machine.replay (smallInstance 2 0) [.createContext (some 1), .allocateBlocks 1 1]

theorem oneRouted_reachable : Reachable oneRouted := by
  unfold oneRouted
  exact (smallInstance_reachable 2 0).replay (by decide +kernel)

theorem oneRouted_context : ∃ c, findContext oneRouted 1 = some c := by
  apply Option.isSome_iff_exists.mp
  unfold oneRouted
  decide +kernel

theorem oneRouted_route : mmuResolveRouting oneRouted 1 0 = .ok ⟨.l1, 0, 0⟩ := by
  unfold oneRouted
  decide +kernel

/-- `physical_route_t{}`. -/
def zeroRoute : PhysicalRoute := ⟨.l0, 0, 0⟩

theorem resolve_batch_twice :
    AllOrNothing (mmuResolveRouting oneRouted 1) [0, 0] [zeroRoute, zeroRoute]
        (mmuResolveRoutingBatch oneRouted 1 [0, 0] [zeroRoute, zeroRoute]) := by
  obtain ⟨c, hc⟩ := oneRouted_context
  refine (resolve_batch_allOrNothing_iff hc (by decide)).mpr (Or.inl ?_)
  intro logicalBlock hmem
  have hzero : logicalBlock = 0 := by simpa using hmem
  rw [hzero]
  exact ⟨_, oneRouted_route⟩

/-- The second id is past the end of the table; the first route has been written by then. -/
theorem resolve_batch_overwrites :
    Reachable oneRouted ∧
      mmuResolveRoutingBatch oneRouted 1 [0, 5] [zeroRoute, zeroRoute] =
        (.error .unallocated, [⟨.l1, 0, 0⟩, zeroRoute]) ∧
      ¬AllOrNothing (mmuResolveRouting oneRouted 1) [0, 5] [zeroRoute, zeroRoute]
        (mmuResolveRoutingBatch oneRouted 1 [0, 5] [zeroRoute, zeroRoute]) := by
  have hout : mmuResolveRoutingBatch oneRouted 1 [0, 5] [zeroRoute, zeroRoute] =
      (.error .unallocated, [⟨.l1, 0, 0⟩, zeroRoute]) := by
    unfold oneRouted
    decide +kernel
  have hfive : mmuResolveRouting oneRouted 1 5 = .error .unallocated := by
    unfold oneRouted
    decide +kernel
  refine ⟨oneRouted_reachable, hout, ?_⟩
  intro h
  have hfirst : Succeeds (mmuResolveRouting oneRouted 1) [0] := by
    intro logicalBlock hmem
    rw [List.mem_singleton.mp hmem]
    exact ⟨_, oneRouted_route⟩
  have hsame := (h.refused [0] 5 [] _ rfl hfirst hfive).symm.trans hout
  exact absurd hsame (by decide)

end DsfMmu
