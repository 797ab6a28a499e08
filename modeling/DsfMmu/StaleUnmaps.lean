import DsfMmu.OutstandingMappings
import DsfMmu.UnmapOutcome

namespace DsfMmu

open MmuRuntime

/-- The entry of a mapping leads to the block that was mapped. -/
def StillRouted (mmu : MmuRuntime) (x : Holding) : Prop :=
  routedBlock mmu x.1 x.2.logicalBlockId = some x.2.physicalBlockId

instance (mmu : MmuRuntime) (x : Holding) : Decidable (StillRouted mmu x) :=
  inferInstanceAs (Decidable (routedBlock mmu x.1 x.2.logicalBlockId = some x.2.physicalBlockId))

/-- What a batch of unmaps leaves out: the items that return OK are taken back. -/
def takenBack (ctx : CtxHandle) : List MappedBlock → MmuRuntime → List Holding → List Holding
  | [], _, maps => maps
  | d :: rest, mmu, maps =>
    match mmuUnmapLogicalBlock mmu ctx d with
    | (.ok _, mmu') => takenBack ctx rest mmu' (maps.erase (ctx, d))
    | (.error _, mmu') => takenBack ctx rest mmu' maps

/-- The mappings that are out: handed out by a successful map, not unmapped with OK since, and not
stale, their logical block having led to the mapped block all along. -/
def mappingStep (mmu : MmuRuntime) (call : Call) (reply : Reply) (maps : List Holding) : List Holding :=
  let maps :=
    match call, reply with
    | .mapLogicalBlock ctx _ _, .mapped r => handedOut ctx r maps
    | .mapLogicalBlocks ctx _ _, .mappedAll r => allHandedOut ctx r maps
    | .unmapLogicalBlock ctx d, .status (.ok _) => maps.erase (ctx, d)
    | .unmapLogicalBlocks ctx ds, _ => takenBack ctx ds mmu maps
    | _, _ => maps
  maps.filter (StillRouted (perform mmu call).2)

/-- A descriptor that is not out is refused, and no pin, dirty flag or page changes. -/
def RefusedUnlessOut (mmu : MmuRuntime) (maps : List Holding) (ctx : CtxHandle) (d : MappedBlock) : Prop :=
  (ctx, d) ∉ maps → ∃ e mmu', mmuUnmapLogicalBlock mmu ctx d = (.error e, mmu') ∧ Unmoved mmu mmu'

/-- The write-back of an unpinned block that is dirty already fails, which shows nowhere. -/
def FailsUnseen (mmu : MmuRuntime) (d : MappedBlock) : Prop :=
  WriteBackFails mmu d.physicalBlockId d.mapFlags ∧ (mmu.block d.physicalBlockId).info.pinCount = 0 ∧
    (mmu.block d.physicalBlockId).info.dirty = true

/-- Unmap looks at the route alone: beside every run, a descriptor that is not out is refused without
a trace exactly where its logical block no longer leads to its physical block. -/
theorem unmap_refuses_all_but_outstanding {start : MmuRuntime} {s : MmuRuntime × List Holding}
    (h : Initial start) (hrun : (machine.withGhost mappingStep).Reach Machine.anyStep (start, []) s)
    (ctx : CtxHandle) (d : MappedBlock) :
    RefusedUnlessOut s.1 s.2 ctx d ↔
      ((ctx, d) ∈ s.2 ∨ ¬StillRouted s.1 (ctx, d) ∨ FailsUnseen s.1 d) := by
  have hreach : Reachable s.1 := ⟨start, h, hrun.forget fun _ _ _ _ => trivial⟩
  have hs := hreach.settled
  constructor
  · intro hrefused
    by_cases hout : (ctx, d) ∈ s.2
    · exact .inl hout
    by_cases hroute : StillRouted s.1 (ctx, d)
    swap
    · exact .inr (.inl hroute)
    obtain ⟨e, mmu', herr, hkept⟩ := hrefused hout
    obtain ⟨_, _, _, _, hn⟩ := (routedBlock_eq_some hs).mp hroute
    by_cases hf : WriteBackFails s.1 d.physicalBlockId d.mapFlags
    · obtain ⟨m, herr', hblock⟩ := mmuUnmapLogicalBlock_fails hs hroute hf
      obtain ⟨_, rfl⟩ := Prod.mk.inj (herr.symm.trans herr')
      exact .inr (.inr ⟨hf, (unmoved_leftDirty hblock).mp hkept⟩)
    · obtain ⟨m, hok⟩ := (unmapPinned_outcome hs hn.live).1 hf
      rw [mmuUnmapLogicalBlock_routed hs hroute, hok] at herr
      cases herr
  · intro hcase hout
    rcases hcase with hin | hroute | ⟨hf, hunseen⟩
    · exact absurd hin hout
    · obtain ⟨e, hrefused⟩ := mmuUnmapLogicalBlock_refused hs hroute
      exact ⟨e, s.1, hrefused, .of_block rfl⟩
    · by_cases hroute : StillRouted s.1 (ctx, d)
      · obtain ⟨m, herr, hblock⟩ := mmuUnmapLogicalBlock_fails hs hroute hf
        exact ⟨_, m, herr, (unmoved_leftDirty hblock).mpr hunseen⟩
      · obtain ⟨e, hrefused⟩ := mmuUnmapLogicalBlock_refused hs hroute
        exact ⟨e, s.1, hrefused, .of_block rfl⟩

/-- A block shared by two contexts, mapped by both, and unmapped by the first. -/
def unmappedSharer : MmuRuntime × List Holding :=
  (machine.withGhost mappingStep).replay (smallInstance 2 0, [])
    [.createContext (some 1), .allocateBlocks 1 1, .forkContext 1 (fun _ => true) (some 2),
      .mapLogicalBlock 1 0 mapRead, .mapLogicalBlock 2 0 mapRead,
      .unmapLogicalBlock 1 ⟨⟨0, 3⟩, 4, 0, 0, mapRead⟩]

theorem unmappedSharer_run :
    (machine.withGhost mappingStep).Reach Machine.anyStep (smallInstance 2 0, []) unmappedSharer :=
  Machine.Reach.start.replay
    ⟨by decide +kernel, trivial, trivial, trivial, by decide +kernel, trivial, trivial, trivial, trivial, trivial,
      trivial, trivial, trivial⟩

/-- A descriptor of another block is refused there. -/
theorem unmap_refuses_all_but_outstanding_foreign :
    RefusedUnlessOut unmappedSharer.1 unmappedSharer.2 1 ⟨⟨0, 3⟩, 4, 3, 0, mapRead⟩ :=
  (unmap_refuses_all_but_outstanding (smallInstance_initial 2 0) unmappedSharer_run 1 _).mpr
    (.inr (.inl (by decide +kernel)))

/-- The first context's second unmap returns OK and takes the pin of the second context's mapping. -/
theorem repeated_unmap_takes_foreign_pin :
    (machine.withGhost mappingStep).Reach Machine.anyStep (smallInstance 2 0, []) unmappedSharer ∧
    (let d : MappedBlock := ⟨⟨0, 3⟩, 4, 0, 0, mapRead⟩
     let again := mmuUnmapLogicalBlock unmappedSharer.1 1 d
     unmappedSharer.2 = [(2, d)] ∧ (unmappedSharer.1.block 0).info.pinCount = 1 ∧
     again.1 = .ok () ∧ (again.2.block 0).info.pinCount = 0 ∧
     ¬RefusedUnlessOut unmappedSharer.1 unmappedSharer.2 1 d) := by
  refine ⟨unmappedSharer_run, by decide +kernel, by decide +kernel, by decide +kernel, by decide +kernel, ?_⟩
  intro hrefused
  obtain ⟨e, mmu', herr, _⟩ := hrefused (by decide +kernel)
  have hok : (mmuUnmapLogicalBlock unmappedSharer.1 1 ⟨⟨0, 3⟩, 4, 0, 0, mapRead⟩).1 = .ok () := by decide +kernel
  rw [herr] at hok
  cases hok

end DsfMmu
