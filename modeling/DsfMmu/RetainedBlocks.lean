import DsfMmu.MapPins

namespace DsfMmu

open MmuRuntime BlockManager Context

/-- Every block in use stays in use and keeps its bytes. -/
structure Retained (mmu mmu' : MmuRuntime) : Prop where
  live : ∀ q, mmu.Live q → mmu'.Live q
  bytes : ∀ q, mmu.Live q → mmu'.logicalBytes q = mmu.logicalBytes q

section Retained

variable {mmu mmu' : MmuRuntime} {ctx : CtxHandle} {lb flags : UInt32}

theorem Retained.refl (mmu : MmuRuntime) : Retained mmu mmu := ⟨fun _ hq => hq, fun _ _ => rfl⟩

theorem Retained.trans {a b c : MmuRuntime} (h : Retained a b) (h' : Retained b c) : Retained a c := by
  refine ⟨fun q hq => h'.live q (h.live q hq), ?_⟩
  intro q hq
  have hmid := h.live q hq
  exact (h'.bytes q hmid).trans (h.bytes q hq)

theorem Retained.keepsBytes (h : Retained mmu mmu') : KeepsBytes mmu mmu' := fun q hq _ => h.bytes q hq

theorem Retained.of_same (hr : SameRouting mmu mmu') (hb : ∀ q, mmu'.logicalBytes q = mmu.logicalBytes q) :
    Retained mmu mmu' := ⟨fun q hq => (hr.live q).mpr hq, fun q _ => hb q⟩

theorem prepare_retained (h : mmu.Settled) {r : Except MmuError Int}
    (hr : mmuPrepareBlockForWrite mmu ctx lb = (r, mmu')) : Retained mmu mmu' := by
  rcases mmuPrepareBlockForWrite_cases h hr with
    ⟨_, rfl, _⟩ | ⟨_, _, _, _, _, _, _, _, rfl⟩ | ⟨c, lvid, b, new, bm, v, _, _, _, hshared, ht, hm, _⟩
  · exact .refl _
  · exact .refl _
  · have halloc : mmu'.l1Allocator = (bm.release b).2 := congrArg Routing.allocator hm.routing
    refine ⟨?_, ?_⟩
    · intro q hq
      show 0 < mmu'.l1Allocator.refCounts.entry q
      rw [halloc]
      exact (remap_live ht hshared q).mpr (.inl hq)
    · intro q hq
      unfold logicalBytes
      rw [hm.setup.zeroPage, hm.blocks, Function.update_of_ne (ht.ne_new hq)]

theorem mapResolved_retained (h : mmu.Settled) {c : Context} {lvid : Int} {r : Except MmuError MappedBlock}
    (hm : mapResolved mmu c lvid lb flags = (r, mmu')) : Retained mmu mmu' := by
  cases r with
  | error e =>
    have hq := (mapResolved_error h hm).1
    exact .of_same hq.routing hq.bytes
  | ok d =>
    have hmapped := (mapResolved_ok h hm).2.1
    exact .of_same hmapped.routing hmapped.bytes

theorem map_retained (h : mmu.Settled) {r : Except MmuError MappedBlock}
    (hm : mmuMapLogicalBlock mmu ctx lb flags = (r, mmu')) : Retained mmu mmu' := by
  rcases mmuMapLogicalBlock_cases h hm with
    ⟨_, rfl⟩ | ⟨_, _, _, hprep⟩ | ⟨mid, c, lvid, _, _, ⟨_, rfl⟩ | ⟨_, b, hprep⟩, hres⟩
  · exact .refl _
  · exact prepare_retained h hprep
  · exact mapResolved_retained h hres
  · have hmid := (prepare_clean h hprep).settled
    exact (prepare_retained h hprep).trans (mapResolved_retained hmid hres)

theorem unmap_retained (h : mmu.Settled) {d : MappedBlock} {r : Except MmuError Unit}
    (hu : mmuUnmapLogicalBlock mmu ctx d = (r, mmu')) : Retained mmu mmu' := by
  rcases mmuUnmapLogicalBlock_cases h hu with ⟨_, rfl⟩ | ⟨_, _, _, _, _, hun⟩
  · exact .refl _
  · exact .of_same hun.routing hun.bytes

/-- No call but a store changes the bytes of a block that was in use before it and is after it. -/
theorem perform_keepsBytes (h : mmu.Settled) {call : Call}
    (hstore : ∀ k d offset byte, call ≠ .hostWrite k d offset byte) : KeepsBytes mmu (perform mmu call).2 := by
  cases call with
  | createContext handle =>
    obtain ⟨r, hr⟩ := mmuCreateContext_routes mmu handle
    show KeepsBytes mmu (mmuCreateContext mmu handle).2
    rw [hr]
    exact keepsBytes_withRouting mmu r
  | destroyContext ctx =>
    obtain ⟨r, hf⟩ := mmuDestroyContext_forgets h ctx
    exact hf.keepsBytes
  | forkContext src grows handle =>
    obtain ⟨r, hr⟩ := mmuForkContext_routes h src grows handle
    show KeepsBytes mmu (mmuForkContext mmu src grows handle).2
    rw [hr]
    exact keepsBytes_withRouting mmu r
  | allocateBlocks ctx n =>
    obtain ⟨r, mmu', hr⟩ : ∃ r m, mmuAllocateBlocks mmu ctx n = (r, m) := ⟨_, _, rfl⟩
    simp only [perform, hr]
    rcases mmuAllocateBlocks_cases h hr with
      ⟨_, _, rfl⟩ | ⟨_, _, _, _, _, _, _, _, _, _, rfl⟩ | ⟨_, _, _, _, _, _, ht, _, _, hreg⟩
    · exact (Retained.refl _).keepsBytes
    · exact keepsBytes_withRouting mmu _
    · exact hreg.keepsBytes ht
  | releaseLogicalBlock ctx lb =>
    obtain ⟨r, hf⟩ := mmuReleaseLogicalBlock_forgets h ctx lb
    exact hf.keepsBytes
  | prepareBlockForWrite ctx lb =>
    obtain ⟨r, mmu', hr⟩ : ∃ r m, mmuPrepareBlockForWrite mmu ctx lb = (r, m) := ⟨_, _, rfl⟩
    simp only [perform, hr]
    exact (prepare_retained h hr).keepsBytes
  | mapLogicalBlock ctx lb flags =>
    obtain ⟨r, mmu', hr⟩ : ∃ r m, mmuMapLogicalBlock mmu ctx lb flags = (r, m) := ⟨_, _, rfl⟩
    simp only [perform, hr]
    exact (map_retained h hr).keepsBytes
  | mapLogicalBlocks ctx lbs flags =>
    obtain ⟨r, mmu', hr⟩ : ∃ r m, mmuMapLogicalBlocks mmu ctx lbs flags = (r, m) := ⟨_, _, rfl⟩
    simp only [perform, hr]
    exact (mapBlocksLoop_rel Retained.refl (fun _ _ _ => Retained.trans) (fun _ _ _ _ hs hm => map_retained hs hm)
      (fun _ _ _ _ hs hu => unmap_retained hs hu) lbs [] h hr).1.keepsBytes
  | unmapLogicalBlock ctx d =>
    obtain ⟨r, mmu', hr⟩ : ∃ r m, mmuUnmapLogicalBlock mmu ctx d = (r, m) := ⟨_, _, rfl⟩
    simp only [perform, hr]
    exact (unmap_retained h hr).keepsBytes
  | unmapLogicalBlocks ctx ds =>
    rw [perform_unmaps]
    exact (unmapAll_rel Retained.refl (fun _ _ _ => Retained.trans) (fun _ _ _ _ hs hu => unmap_retained hs hu)
      ds h).1.keepsBytes
  | hostWrite ctx d offset byte => exact absurd rfl (hstore ctx d offset byte)

end Retained

end DsfMmu
