import DsfMmu.EagerView

namespace DsfMmu

open MmuRuntime BlockManager Context

section Steps

variable {mmu mmu' : MmuRuntime} {ctx : CtxHandle} {lb flags : UInt32}

theorem u32ToInt_index {lvid : Int} (h : u32ToInt lb = some lvid) : lvid.toNat = lb.toNat := by
  have := (u32ToInt_eq_some h).1
  omega

/-! The calls that only change tables and counts. -/

theorem keepsBytes_withRouting (mmu : MmuRuntime) (r : Routing) : KeepsBytes mmu (mmu.withRouting r) :=
  fun _ _ _ => rfl

theorem create_covered (h : mmu.Covered) {handle : Option CtxHandle} (hf : FreshHandle mmu handle)
    {r : Except MmuError CtxHandle} (hr : mmuCreateContext mmu handle = (r, mmu')) : mmu'.Covered := by
  have hc := @perform_covered mmu h (.createContext handle) hf trivial
  simp only [perform, hr] at hc
  exact hc

theorem create_view (h : mmu.Covered) {handle : Option CtxHandle} (hf : FreshHandle mmu handle)
    {r : Except MmuError CtxHandle} (hr : mmuCreateContext mmu handle = (r, mmu')) :
    mmu'.view = match r with
      | .ok k => mmu.view.create k
      | .error _ => mmu.view := by
  have h' := create_covered h hf hr
  rcases mmuCreateContext_cases hr with ⟨_, ⟨e, rfl⟩, rfl⟩ | ⟨k, rfl, rfl, rfl⟩
  · rfl
  · refine view_update h h' (keepsBytes_withRouting _ _) ?_ ?_
    · refine view_find (c := ⟨.empty, mmu.config.blockSizeBytes⟩) ?_
      show (mmu.contexts.insert k _).find? k = _
      rw [KeyedMap.find?_insert, if_pos rfl]
    · intro j hj
      show (mmu.contexts.insert k _).find? j = _
      rw [KeyedMap.find?_insert, if_neg hj]

theorem fork_covered (h : mmu.Covered) {src : CtxHandle} {grows : Nat → Bool} {handle : Option CtxHandle}
    (hf : FreshHandle mmu handle) {r : Except MmuError CtxHandle}
    (hr : mmuForkContext mmu src grows handle = (r, mmu')) : mmu'.Covered := by
  have hc := @perform_covered mmu h (.forkContext src grows handle) hf trivial
  simp only [perform, hr] at hc
  exact hc

theorem fork_view (h : mmu.Covered) {src : CtxHandle} {grows : Nat → Bool} {handle : Option CtxHandle}
    (hf : FreshHandle mmu handle) {r : Except MmuError CtxHandle}
    (hr : mmuForkContext mmu src grows handle = (r, mmu')) :
    mmu'.view = match r with
      | .ok k => mmu.view.fork src k
      | .error _ => mmu.view := by
  have h' := fork_covered h hf hr
  rcases mmuForkContext_cases h.settled.allocator hr with
    ⟨⟨e, rfl⟩, rfl, _⟩ | ⟨c, k, hc, rfl, rfl, rfl⟩ | ⟨c, b, _, _, ⟨e, rfl⟩, rfl⟩
  · rfl
  · have hfind : (mmu.contexts.insert k c).find? k = some c := by
      rw [KeyedMap.find?_insert, if_pos rfl]
    refine view_update h h' (keepsBytes_withRouting _ _) ?_ ?_
    · rw [view_find (findContext_find? hc).2]
      exact view_find hfind
    · intro j hj
      show (mmu.contexts.insert k _).find? j = _
      rw [KeyedMap.find?_insert, if_neg hj]
  · rfl

theorem release_covered (h : mmu.Covered) {r : Except MmuError Unit}
    (hr : mmuReleaseLogicalBlock mmu ctx lb = (r, mmu')) : mmu'.Covered := by
  have hc := @perform_covered mmu h (.releaseLogicalBlock ctx lb) trivial trivial
  simp only [perform, hr] at hc
  exact hc

/-- Blocks that are still in use are as they were. -/
theorem Forgot.keepsBytes {r : Routing} (h : Forgot mmu mmu' r) : KeepsBytes mmu mmu' := by
  intro q _ hq
  simp only [logicalBytes, h.blocks q hq, h.setup.zeroPage]

theorem remapped_entries {c : Context} {lvid b : Int} (hn : c.pageTable.get lvid = some b)
    (hlvid : u32ToInt lb = some lvid) (new : Int) :
    (c.remapped lvid new).pageTable.entries = c.pageTable.entries.set lb.toNat new := by
  show (c.pageTable.set lvid new).entries = _
  rw [PageTable.set_entries (PageTable.get_eq_some.mp hn).1, u32ToInt_index hlvid]

theorem release_view (h : mmu.Covered) {r : Except MmuError Unit}
    (hr : mmuReleaseLogicalBlock mmu ctx lb = (r, mmu')) :
    mmu'.view = match r with
      | .ok _ => mmu.view.release ctx lb.toNat
      | .error _ => mmu.view := by
  have h' := release_covered h hr
  rcases mmuReleaseLogicalBlock_cases h.settled hr with ⟨⟨e, rfl⟩, rfl⟩ | ⟨c, lvid, b, hc, hlvid, hn, rfl, hf⟩
  · rfl
  · have hcontexts : mmu'.contexts = mmu.contexts.insert ctx (c.remapped lvid kUnallocatedBlock) :=
      congrArg Routing.contexts hf.routing
    have hfind : mmu'.contexts.find? ctx = some (c.remapped lvid kUnallocatedBlock) := by
      rw [hcontexts, KeyedMap.find?_insert, if_pos rfl]
    have hfind0 := (findContext_find? hc).2
    refine view_update h h' hf.keepsBytes ?_ ?_
    · rw [view_find hfind, view_find hfind0, Option.map_some]
      have hslots : (c.remapped lvid kUnallocatedBlock).pageTable.entries.map mmu'.slotBytes =
          (c.remapped lvid kUnallocatedBlock).pageTable.entries.map mmu.slotBytes := by
        apply slots_kept hf.keepsBytes
        intro q hq hun
        refine ⟨?_, h'.live hfind hq hun⟩
        rw [remapped_entries hn.entry hlvid] at hq
        rcases List.mem_or_eq_of_mem_set hq with hq | hq
        · exact h.live hfind0 hq hun
        · exact absurd hq hun
      rw [hslots, remapped_entries hn.entry hlvid, List.map_set]
      rfl
    · intro j hj
      rw [hcontexts, KeyedMap.find?_insert, if_neg hj]

theorem destroy_view (h : mmu.Covered) (ctx : CtxHandle) :
    (mmuDestroyContext mmu ctx).view = mmu.view.destroy ctx := by
  obtain hnone | ⟨c, hc⟩ := Option.eq_none_or_eq_some (findContext mmu ctx)
  · have hsame := mmuDestroyContext_none hnone
    have hview : mmu.view ctx = none := by
      have hfind : mmu.contexts.find? ctx = none := by
        by_cases hnull : ctx = nullHandle
        · rw [hnull]
          exact h.routing.handles
        · unfold findContext at hnone
          rwa [if_neg hnull] at hnone
      unfold view
      rw [hfind]
      rfl
    rw [hsame]
    unfold EagerWorld.destroy
    rw [← hview, Function.update_eq_self]
  · have hf := mmuDestroyContext_forgot h.settled hc
    have h' : (mmuDestroyContext mmu ctx).Covered :=
      @perform_covered mmu h (.destroyContext ctx) trivial trivial
    refine view_update h h' hf.keepsBytes ?_ ?_
    · unfold view
      rw [destroy_find h.settled hc, if_pos rfl]
      rfl
    · intro j hj
      rw [destroy_find h.settled hc, if_neg hj]

/-! Allocation. -/

theorem Registered.keepsBytes {ids : List Int} {bm : BlockManager} {r : Routing}
    (ht : Taken mmu.l1Allocator ids bm) (h : Registered mmu mmu' ids r) : KeepsBytes mmu mmu' := by
  intro q hq _
  simp only [logicalBytes, h.blocks q (ht.not_mem hq), h.setup.zeroPage]

/-- New blocks are worth zeros. -/
theorem Registered.slots {ids : List Int} {bm : BlockManager} {r : Routing}
    (ht : Taken mmu.l1Allocator ids bm) (h : Registered mmu mmu' ids r) :
    ids.map mmu'.slotBytes = List.replicate ids.length (some mmu.zeroPage) := by
  apply List.eq_replicate_iff.mpr
  refine ⟨List.length_map _, ?_⟩
  intro slot hslot
  obtain ⟨q, hq, rfl⟩ := List.mem_map.mp hslot
  unfold slotBytes
  rw [if_neg (ht.ne_unallocated hq), logicalBytes, (h.fresh q hq).bytes, h.setup.zeroPage]

theorem allocate_covered (h : mmu.Covered) {n : UInt32} (hdry : ¬RunsDry mmu ctx n) {r : Except MmuError Unit}
    (hr : mmuAllocateBlocks mmu ctx n = (r, mmu')) : mmu'.Covered := by
  have hc := @perform_covered mmu h (.allocateBlocks ctx n) trivial hdry
  simp only [perform, hr] at hc
  exact hc

theorem allocate_view (h : mmu.Covered) {n : UInt32} (hdry : ¬RunsDry mmu ctx n) {r : Except MmuError Unit}
    (hr : mmuAllocateBlocks mmu ctx n = (r, mmu')) :
    mmu'.view = match r with
      | .ok _ => mmu.view.allocate ctx n.toNat mmu.zeroPage
      | .error _ => mmu.view := by
  have h' := allocate_covered h hdry hr
  rcases mmuAllocateBlocks_cases h.settled hr with
    ⟨_, ⟨e, rfl, _⟩, rfl⟩ | ⟨c, count, ids, bm, hc, hcount, ht, hlen, hempty, rfl, rfl⟩ |
    ⟨c, count, ids, bm, hc, hcount, ht, hlen, rfl, hreg⟩
  · rfl
  · -- the allocation found no free block at all
    have hnil := exhausted_none hdry hc hcount ht hlen hempty
    subst hnil
    funext k
    apply view_kept h h' (keepsBytes_withRouting _ _)
    show (mmu.contexts.insert ctx (c.grown [])).find? k = _
    rw [grown_nil, KeyedMap.insert_same (findContext_find? hc).2]
  · have hcontexts : mmu'.contexts = mmu.contexts.insert ctx (c.grown ids) :=
      congrArg Routing.contexts hreg.routing
    have hfind : mmu'.contexts.find? ctx = some (c.grown ids) := by
      rw [hcontexts, KeyedMap.find?_insert, if_pos rfl]
    have hfind0 := (findContext_find? hc).2
    have hk := hreg.keepsBytes ht
    have hlen' : ids.length = n.toNat := by
      have := (u32ToInt_eq_some hcount).1
      omega
    refine view_update h h' hk ?_ ?_
    · have hold : c.pageTable.entries.map mmu'.slotBytes = c.pageTable.entries.map mmu.slotBytes := by
        apply slots_kept hk
        intro q hq hun
        exact ⟨h.live hfind0 hq hun, h'.live hfind (List.mem_append_left _ hq) hun⟩
      rw [view_find hfind, view_find hfind0, Option.map_some]
      unfold grown
      rw [List.map_append, hold, hreg.slots ht, hlen']
    · intro j hj
      rw [hcontexts, KeyedMap.find?_insert, if_neg hj]

/-! Copy-on-write and mapping. -/

theorem prepare_covered (h : mmu.Covered) {r : Except MmuError Int}
    (hr : mmuPrepareBlockForWrite mmu ctx lb = (r, mmu')) : mmu'.Covered := by
  have hc := @perform_covered mmu h (.prepareBlockForWrite ctx lb) trivial trivial
  simp only [perform, hr] at hc
  exact hc

/-- A moved entry is worth what its new block holds; all else is as before. -/
theorem view_moved {c : Context} {lvid b new : Int} {bytes : Bytes} (h : mmu.Covered) (h' : mmu'.Covered)
    (hc : findContext mmu ctx = some c) (hlvid : u32ToInt lb = some lvid) (hn : c.Names mmu.l1Allocator lvid b)
    (hun : new ≠ kUnallocatedBlock) (hcontexts : mmu'.contexts = mmu.contexts.insert ctx (c.remapped lvid new))
    (hk : KeepsBytes mmu mmu') (hbytes : mmu'.logicalBytes new = bytes) :
    mmu'.view = mmu.view.write ctx lb.toNat (fun _ => bytes) := by
  have hfind0 := (findContext_find? hc).2
  have hfind : mmu'.contexts.find? ctx = some (c.remapped lvid new) := by
    rw [hcontexts, KeyedMap.find?_insert, if_pos rfl]
  refine view_update h h' hk ?_ ?_
  · have hget := (PageTable.get_eq_some.mp hn.entry).2
    rw [u32ToInt_index hlvid] at hget
    have hnewslot : mmu'.slotBytes new = some bytes := by
      unfold slotBytes
      rw [if_neg hun, hbytes]
    rw [view_find hfind, view_find hfind0, Option.map_some, remapped_entries hn.entry hlvid]
    congr 1
    apply List.ext_getElem?
    intro i
    rw [List.getElem?_map, List.getElem?_set, List.getElem?_modify, List.getElem?_map]
    by_cases hi : lb.toNat = i
    · subst i
      have hlt := (List.getElem?_eq_some_iff.mp hget).1
      have hold : mmu.slotBytes b = some (mmu.logicalBytes b) := if_neg hn.block
      rw [if_pos rfl, if_pos hlt, hget, Option.map_some, Option.map_some, hnewslot, hold]
      simp
    · rw [if_neg hi]
      cases hentry : c.pageTable.entries[i]? with
      | none => rfl
      | some q =>
        have hslot : mmu'.slotBytes q = mmu.slotBytes q := by
          unfold slotBytes
          split
          next => rfl
          next hq =>
            have hmem : q ∈ (c.remapped lvid new).pageTable.entries := by
              rw [remapped_entries hn.entry hlvid]
              apply List.mem_of_getElem? (i := i)
              rw [List.getElem?_set, if_neg hi]
              exact hentry
            rw [hk q (h.live hfind0 (List.mem_of_getElem? hentry) hq) (h'.live hfind hmem hq)]
        simp [hi, hslot]
  · intro j hj
    rw [hcontexts, KeyedMap.find?_insert, if_neg hj]

/-- The entry that copy-on-write switches. -/
theorem Remapped.view {c : Context} {lvid b new : Int} {bm : BlockManager} {v : BlockView}
    (h : mmu.Covered) (h' : mmu'.Covered) (hc : findContext mmu ctx = some c) (hlvid : u32ToInt lb = some lvid)
    (hn : c.Names mmu.l1Allocator lvid b) (ht : Taken mmu.l1Allocator [new] bm)
    (hm : Remapped mmu mmu' b new v ⟨(bm.release b).2, mmu.contexts.insert ctx (c.remapped lvid new)⟩) :
    mmu'.view = mmu.view.write ctx lb.toNat (fun _ => v.bytes mmu.zeroPage) := by
  refine view_moved h h' hc hlvid hn (ht.ne_unallocated (List.mem_singleton.mpr rfl))
    (congrArg Routing.contexts hm.routing) ?_ ?_
  · intro q hq _
    simp only [logicalBytes, hm.blocks, Function.update_of_ne (ht.ne_new hq), hm.setup.zeroPage]
  · rw [logicalBytes, hm.blocks, Function.update_self, hm.setup.zeroPage]

/-- Writing back the value a slot has. -/
theorem view_write_same (hc : mmu.contexts.find? ctx = some c) {i : Nat} {b : Int}
    (hget : c.pageTable.entries[i]? = some b) (hun : b ≠ kUnallocatedBlock) :
    mmu.view.write ctx i (fun _ => mmu.logicalBytes b) = mmu.view := by
  have hsame : (c.pageTable.entries.map mmu.slotBytes).modify i (Option.map fun _ => mmu.logicalBytes b) =
      c.pageTable.entries.map mmu.slotBytes := by
    apply List.ext_getElem?
    intro j
    rw [List.getElem?_modify, List.getElem?_map]
    by_cases hij : i = j
    · subst j
      simp [hget, slotBytes, hun]
    · simp [hij]
  unfold EagerWorld.write
  rw [view_find hc, Option.map_some, hsame, ← view_find hc, Function.update_eq_self]

/-- A write preparation shows in no view, unless its failed clone leaves zeros in the entry. -/
theorem prepare_view (h : mmu.Covered) {r : Except MmuError Int}
    (hr : mmuPrepareBlockForWrite mmu ctx lb = (r, mmu')) :
    mmu'.view = mmu.view ∨ (∃ e, r = .error e) ∧ PrepareLosesBlock mmu ctx lb ∧
      mmu'.view = mmu.view.write ctx lb.toNat (fun _ => mmu.zeroPage) := by
  have h' := prepare_covered h hr
  rcases mmuPrepareBlockForWrite_cases h.settled hr with
    ⟨_, rfl, _⟩ | ⟨_, _, _, _, _, _, _, _, rfl⟩ | ⟨c, lvid, b, new, bm, v, hc, hlvid, hn, hshared, ht, hm, hcase⟩
  · exact .inl rfl
  · exact .inl rfl
  · have hview := hm.view h h' hc hlvid hn ht
    rcases hcase with ⟨⟨ptr, rfl⟩, _⟩ | ⟨rfl, e, rfl⟩
    · left
      rw [hview, BlockView.cloned_bytes]
      have hget := (PageTable.get_eq_some.mp hn.entry).2
      rw [u32ToInt_index hlvid] at hget
      exact view_write_same (findContext_find? hc).2 hget hn.block
    · right
      refine ⟨⟨e, rfl⟩, ?_, ?_⟩
      · by_contra hno
        have hatomic := (prepare_failure_atomic h.settled ctx lb).mpr hno e mmu' hr
        exact hm.not_atomic h.settled hn.live hshared ht rfl hatomic
      · rw [hview]
        rfl

theorem map_covered (h : mmu.Covered) {r : Except MmuError MappedBlock}
    (hm : mmuMapLogicalBlock mmu ctx lb flags = (r, mmu')) : mmu'.Covered := by
  have hc := @perform_covered mmu h (.mapLogicalBlock ctx lb flags) trivial trivial
  simp only [perform, hm] at hc
  exact hc

theorem mapResolved_view (h : mmu.Settled) {c : Context} {lvid : Int} {r : Except MmuError MappedBlock}
    (hm : mapResolved mmu c lvid lb flags = (r, mmu')) : mmu'.view = mmu.view := by
  cases r with
  | error e =>
    have hq := (mapResolved_error h hm).1
    exact view_same hq.routing hq.bytes
  | ok d =>
    have hmapped := (mapResolved_ok h hm).2.1
    exact view_same hmapped.routing hmapped.bytes

/-- Nor does a map, unless its write preparation does. -/
theorem map_view (h : mmu.Covered) {r : Except MmuError MappedBlock}
    (hm : mmuMapLogicalBlock mmu ctx lb flags = (r, mmu')) :
    mmu'.view = mmu.view ∨ (∃ e, r = .error e) ∧ hasWrite flags = true ∧ PrepareLosesBlock mmu ctx lb ∧
      mmu'.view = mmu.view.write ctx lb.toNat (fun _ => mmu.zeroPage) := by
  rcases mmuMapLogicalBlock_cases h.settled hm with
    ⟨_, rfl⟩ | ⟨hw, e, rfl, hprep⟩ | ⟨mid, c, lvid, _, _, ⟨_, rfl⟩ | ⟨_, b, hprep⟩, hres⟩
  · exact .inl rfl
  · rcases prepare_view h hprep with hsame | ⟨_, hlost, hzero⟩
    · exact .inl hsame
    · exact .inr ⟨⟨e, rfl⟩, hw, hlost, hzero⟩
  · exact .inl (mapResolved_view h.settled hres)
  · rcases prepare_view h hprep with hsame | ⟨⟨e, he⟩, _⟩
    · left
      rw [mapResolved_view (prepare_covered h hprep).settled hres, hsame]
    · cases he

theorem unmap_covered (h : mmu.Covered) {d : MappedBlock} {r : Except MmuError Unit}
    (hu : mmuUnmapLogicalBlock mmu ctx d = (r, mmu')) : mmu'.Covered := by
  have hc := @perform_covered mmu h (.unmapLogicalBlock ctx d) trivial trivial
  simp only [perform, hu] at hc
  exact hc

theorem unmap_view (h : mmu.Settled) {d : MappedBlock} {r : Except MmuError Unit}
    (hu : mmuUnmapLogicalBlock mmu ctx d = (r, mmu')) : mmu'.view = mmu.view := by
  rcases mmuUnmapLogicalBlock_cases h hu with ⟨_, rfl⟩ | ⟨_, _, _, _, _, hun⟩
  · rfl
  · exact view_same hun.routing hun.bytes

end Steps

/-! Entries, slots and stores. -/

section Stores

variable {mmu : MmuRuntime} {ctx : CtxHandle} {lb : UInt32} {d : MappedBlock}

/-- The block that entry `i` of a context names. -/
def entryAt (mmu : MmuRuntime) (ctx : CtxHandle) (i : Nat) : Option Int :=
  (mmu.contexts.find? ctx).bind fun c => c.pageTable.entries[i]?

theorem entryAt_eq_some {i : Nat} {b : Int} : entryAt mmu ctx i = some b ↔
    ∃ c, mmu.contexts.find? ctx = some c ∧ c.pageTable.entries[i]? = some b := Option.bind_eq_some_iff

/-- A store elsewhere leaves a block's bytes alone. -/
theorem hostWrite_bytes_missed {b : Int} (hmiss : mmu.l1Pool.rawPage b ≠ some d.hostPtr) (offset : Nat)
    (byte : UInt8) : (hostWrite mmu d offset byte).logicalBytes b = mmu.logicalBytes b := by
  have hl1 : ((mmu.block b).stored d.hostPtr offset byte).l1 = (mmu.block b).l1 := by
    show (mmu.block b).l1.map _ = _
    cases hpage : mmu.page .l1 b with
    | none =>
      have hl : (mmu.block b).l1 = none := hpage
      rw [hl]
      rfl
    | some pg =>
      have hl : (mmu.block b).l1 = some pg := hpage
      have hne : pg.ptr ≠ d.hostPtr := by
        intro he
        rw [← he] at hmiss
        exact hmiss (page_eq_some.mp hpage).1
      rw [hl, Option.map_some, if_neg hne]
  have hzero : (hostWrite mmu d offset byte).zeroPage = mmu.zeroPage := rfl
  unfold logicalBytes
  rw [hostWrite_block, hzero]
  unfold BlockView.bytes
  rw [hl1]
  rfl

/-- A store to the block's own page changes that one byte. -/
theorem hostWrite_bytes_hit (h : mmu.Settled) {b : Int} (hhit : mmu.l1Pool.rawPage b = some d.hostPtr)
    (offset : Nat) (byte : UInt8) :
    (hostWrite mmu d offset byte).logicalBytes b = (mmu.logicalBytes b).set offset byte := by
  have hpage : (mmu.block b).l1 = some ⟨d.hostPtr, mmu.l1Pool.bytes d.hostPtr⟩ := page_eq_some.mpr ⟨hhit, rfl⟩
  have hr : (mmu.block b).info.residentInL1 = true := (h.coherent.blocks b).l1_resident (by rw [hpage]; rfl)
  have hstored : ((mmu.block b).stored d.hostPtr offset byte).info.residentInL1 = true := hr
  have hl1 : ((mmu.block b).stored d.hostPtr offset byte).l1 =
      some ⟨d.hostPtr, (mmu.l1Pool.bytes d.hostPtr).set offset byte⟩ := by
    show (mmu.block b).l1.map _ = _
    rw [hpage, Option.map_some, if_pos rfl]
  unfold logicalBytes
  rw [hostWrite_block]
  unfold BlockView.bytes
  rw [hstored, hr, if_pos rfl, if_pos rfl, hl1, hpage]
  rfl

theorem slot_eq_some {i : Nat} {bytes : Bytes} : mmu.view.slot ctx i = some bytes ↔
    ∃ b, entryAt mmu ctx i = some b ∧ b ≠ kUnallocatedBlock ∧ mmu.logicalBytes b = bytes := by
  constructor
  · intro hs
    obtain ⟨l, hl, hslot⟩ := Option.bind_eq_some_iff.mp hs
    obtain ⟨c, hc, rfl⟩ := Option.map_eq_some_iff.mp hl
    have hentry := Option.join_eq_some_iff.mp hslot
    rw [List.getElem?_map] at hentry
    obtain ⟨b, hb, hbytes⟩ := Option.map_eq_some_iff.mp hentry
    unfold slotBytes at hbytes
    split at hbytes
    next => cases hbytes
    next hun => exact ⟨b, entryAt_eq_some.mpr ⟨c, hc, hb⟩, hun, Option.some.inj hbytes⟩
  · intro hex
    obtain ⟨b, hentry, hun, rfl⟩ := hex
    obtain ⟨c, hc, hb⟩ := entryAt_eq_some.mp hentry
    unfold EagerWorld.slot
    rw [view_find hc]
    simp [hb, slotBytes, hun]

/-- A route leads to the block of the entry. -/
theorem routed_entry (h : mmu.Settled) {b : Int} (hroute : routedBlock mmu ctx lb = some b) :
    entryAt mmu ctx lb.toNat = some b ∧ b ≠ kUnallocatedBlock := by
  obtain ⟨c, lvid, hc, hlvid, hn⟩ := (routedBlock_eq_some h).mp hroute
  have hget := (PageTable.get_eq_some.mp hn.entry).2
  rw [u32ToInt_index hlvid] at hget
  exact ⟨entryAt_eq_some.mpr ⟨c, (findContext_find? hc).2, hget⟩, hn.block⟩

/-- The block an entry resolves to holds what its slot holds. -/
theorem routed_slot (h : mmu.Settled) {bytes : Bytes} {b : Int} (hs : mmu.view.slot ctx lb.toNat = some bytes)
    (hroute : routedBlock mmu ctx lb = some b) : mmu.logicalBytes b = bytes := by
  obtain ⟨b', hentry, _, hbytes⟩ := slot_eq_some.mp hs
  rw [(routed_entry h hroute).1] at hentry
  rw [Option.some.inj hentry]
  exact hbytes

end Stores

end DsfMmu
