import DsfMmu.MapPins
import DsfMmu.ReferenceCounting

namespace DsfMmu

open MmuRuntime BlockManager Context

/-- An allocation has appended entries for distinct free blocks to the table of a context: the ids from the
old end of the table on lead to these blocks, and every route there was is as before. -/
structure Appended (mmu mmu' : MmuRuntime) (ctx : CtxHandle) (c : Context) (ids : List Int) : Prop where
  table : findContext mmu' ctx = some (c.grown ids)
  distinct : ids.Nodup
  free : ∀ b ∈ ids, b ∈ mmu.l1Allocator.freeList
  resolves : ∀ i b, ids[i]? = some b →
    ∃ tier, mmuResolveRouting mmu' ctx (UInt32.ofNat (c.pageTable.entries.length + i)) =
      .ok ⟨tier, b, b.toNat * c.blockSizeBytes % 2 ^ 64⟩
  kept : ∀ k l route, mmuResolveRouting mmu k l = .ok route → mmuResolveRouting mmu' k l = .ok route

section Appended

variable {mmu mmu' : MmuRuntime} {ctx : CtxHandle} {c : Context}

/-- The count of a context skips its released entries. -/
theorem count_eq_length (hc : findContext mmu ctx = some c) :
    mmuGetLogicalBlockCount mmu ctx = c.pageTable.entries.length ↔ kUnallocatedBlock ∉ c.pageTable.entries := by
  have hcount : mmuGetLogicalBlockCount mmu ctx = (c.pageTable.entries.filter (· ≠ kUnallocatedBlock)).length := by
    unfold mmuGetLogicalBlockCount
    rw [hc]
    rfl
  rw [hcount, List.length_filter_eq_length_iff]
  constructor
  · intro hall hmem
    have hne := hall _ hmem
    simp at hne
  · intro hno b hb
    have hne : b ≠ kUnallocatedBlock := fun he => hno (he ▸ hb)
    simpa using hne

/-- What a route is made of. -/
theorem mmuResolveRouting_ok (h : mmu.Settled) {l : UInt32} {route : PhysicalRoute}
    (hr : mmuResolveRouting mmu ctx l = .ok route) :
    ∃ c lvid, findContext mmu ctx = some c ∧ u32ToInt l = some lvid ∧
      c.Names mmu.l1Allocator lvid route.physicalBlockId ∧
      route = ⟨(mmu.block route.physicalBlockId).info.tier, route.physicalBlockId,
        route.physicalBlockId.toNat * c.blockSizeBytes % 2 ^ 64⟩ := by
  have hroute : routedBlock mmu ctx l = some route.physicalBlockId := by
    unfold routedBlock
    rw [hr]
  obtain ⟨c, lvid, hc, hl, hn⟩ := (routedBlock_eq_some h).mp hroute
  refine ⟨c, lvid, hc, hl, hn, ?_⟩
  exact Except.ok.inj (hr.symm.trans (mmuResolveRouting_names h hc hl hn))

/-- A route survives where its block and the entry that leads to it do. -/
theorem route_kept (h : mmu.Settled) (h' : mmu'.Settled) {k : CtxHandle} {l : UInt32} {route : PhysicalRoute}
    (hsize : ∀ c c', findContext mmu k = some c → findContext mmu' k = some c' →
      c'.blockSizeBytes = c.blockSizeBytes)
    (hblock : (mmu'.block route.physicalBlockId).info.tier = (mmu.block route.physicalBlockId).info.tier)
    (hkept : routedBlock mmu k l = some route.physicalBlockId → routedBlock mmu' k l = some route.physicalBlockId)
    (hr : mmuResolveRouting mmu k l = .ok route) : mmuResolveRouting mmu' k l = .ok route := by
  obtain ⟨c, lvid, hc, hl, hn, hroute⟩ := mmuResolveRouting_ok h hr
  have hrouted := hkept ((routedBlock_eq_some h).mpr ⟨c, lvid, hc, hl, hn⟩)
  obtain ⟨c', lvid', hc', hl', hn'⟩ := (routedBlock_eq_some h').mp hrouted
  rw [mmuResolveRouting_names h' hc' hl' hn', hsize c c' hc hc', hblock]
  exact congrArg Except.ok hroute.symm

theorem Registered.appended {ids : List Int} {bm : BlockManager} (h : mmu.Settled)
    (hc : findContext mmu ctx = some c) (ht : Taken mmu.l1Allocator ids bm)
    (hlen : c.pageTable.entries.length + ids.length < 2 ^ 31)
    (hreg : Registered mmu mmu' ids ⟨bm, mmu.contexts.insert ctx (c.grown ids)⟩) :
    Appended mmu mmu' ctx c ids := by
  have halloc : mmu'.l1Allocator = bm := congrArg Routing.allocator hreg.routing
  have hcontexts : mmu'.contexts = mmu.contexts.insert ctx (c.grown ids) := congrArg Routing.contexts hreg.routing
  have htable : findContext mmu' ctx = some (c.grown ids) :=
    findContext_inserted (findContext_find? hc).1 hcontexts
  have hlive : ∀ b ∈ ids, mmu'.Live b := by
    intro b hb
    have hone := ht.entry b
    rw [if_pos hb] at hone
    show 0 < mmu'.l1Allocator.refCounts.entry b
    rw [halloc, hone]
    decide
  have hold : ∀ b, mmu.Live b → mmu'.Live b := by
    intro b hb
    have hpos : 0 < mmu.l1Allocator.refCounts.entry b := hb
    have hentry := ht.entry b
    show 0 < mmu'.l1Allocator.refCounts.entry b
    rw [halloc, hentry]
    split <;> omega
  refine ⟨htable, ht.nodup, ?_, ?_, ?_⟩
  · intro b hb
    exact (h.allocator.free_iff b).mpr (ht.free b hb)
  · intro i b hi
    have hlt := (List.getElem?_eq_some_iff.mp hi).1
    have hb := hlive b (List.mem_of_getElem? hi)
    have hsize : (c.pageTable.entries ++ ids).length = c.pageTable.entries.length + ids.length := List.length_append
    have hn : (c.grown ids).Names mmu'.l1Allocator (c.pageTable.entries.length + i : Nat) b := by
      refine ⟨?_, hreg.settled.live_ne_unallocated hb, hb⟩
      refine PageTable.get_eq_some.mpr ⟨⟨by omega, ?_⟩, ?_⟩
      · show ((c.pageTable.entries.length + i : Nat) : Int) < staticCastInt (c.pageTable.entries ++ ids).length
        rw [hsize, staticCastInt_of_lt hlen]
        omega
      · show (c.pageTable.entries ++ ids)[c.pageTable.entries.length + i]? = some b
        rw [List.getElem?_append_right (by omega), Nat.add_sub_cancel_left]
        exact hi
    have hres := mmuResolveRouting_names hreg.settled htable (u32ToInt_ofNat (by omega)) hn
    exact ⟨_, hres⟩
  · intro k l route hroute
    have hblock : (mmu'.block route.physicalBlockId).info.tier = (mmu.block route.physicalBlockId).info.tier := by
      obtain ⟨_, _, _, _, hn, _⟩ := mmuResolveRouting_ok h hroute
      rw [hreg.blocks _ (ht.not_mem hn.live)]
    refine route_kept h hreg.settled ?_ hblock ?_ hroute
    · intro a a' ha ha'
      by_cases hk : k = ctx
      · subst k
        cases Option.some.inj (hc.symm.trans ha)
        cases Option.some.inj (htable.symm.trans ha')
        rfl
      · have hfind := (findContext_find? ha').2
        rw [hcontexts, KeyedMap.find?_insert, if_neg hk, (findContext_find? ha).2] at hfind
        rw [Option.some.inj hfind]
    · intro hrouted
      exact routedBlock_grown h hreg.settled hc hcontexts (fun _ => hlen) (hold _ (routed_live h hrouted)) hrouted

/-- The new ids are those from the end of the table on; the count is that end as long as no entry of the
context is released. -/
theorem allocation_appends_at_end (h : Reachable mmu) (_ : mmu.config.l1BlockCount < 2 ^ 31)
    (hc : findContext mmu ctx = some c) {n : UInt32} (hfits : c.pageTable.entries.length + n.toNat < 2 ^ 31)
    (hr : mmuAllocateBlocks mmu ctx n = (.ok (), mmu')) :
    (∃ ids, ids.length = n.toNat ∧ Appended mmu mmu' ctx c ids) ∧
      (mmuGetLogicalBlockCount mmu ctx = c.pageTable.entries.length ↔
        kUnallocatedBlock ∉ c.pageTable.entries) := by
  refine ⟨?_, count_eq_length hc⟩
  rcases mmuAllocateBlocks_cases h.settled hr with
    ⟨_, ⟨_, he, _⟩, _⟩ | ⟨_, _, _, _, _, _, _, _, _, he, _⟩ | ⟨c', count, ids, bm, hc', hcount, ht, hlen, _, hreg⟩
  · cases he
  · cases he
  · cases Option.some.inj (hc.symm.trans hc')
    have hn := (u32ToInt_eq_some hcount).1
    have hids : ids.length = n.toNat := by omega
    exact ⟨ids, hids, hreg.appended h.settled hc ht (by omega)⟩

end Appended

/-- Two blocks, the first one released again. -/
@[irreducible] def firstReleased : MmuRuntime :=
  machine.replay (smallInstance 2 0) [.createContext (some 1), .allocateBlocks 1 2, .releaseLogicalBlock 1 0]

theorem firstReleased_reachable : Reachable firstReleased := by
  unfold firstReleased
  exact (smallInstance_reachable 2 0).replay (by decide +kernel)

theorem firstReleased_context : findContext firstReleased 1 = some ⟨⟨[-1, 1]⟩, 4⟩ := by decide +kernel

/-- There the next block gets logical id 2. -/
theorem allocation_appends_at_end_released :
    ∃ ids, ids.length = 1 ∧
      Appended firstReleased (mmuAllocateBlocks firstReleased 1 1).2 1 ⟨⟨[-1, 1]⟩, 4⟩ ids := by
  have hok : (mmuAllocateBlocks firstReleased 1 1).1 = .ok () := by decide +kernel
  have hsmall : firstReleased.config.l1BlockCount < 2 ^ 31 := by decide +kernel
  exact (allocation_appends_at_end firstReleased_reachable hsmall firstReleased_context (n := 1) (by decide)
    (Prod.ext hok rfl)).1

/-- Yet the count is 1, the id of the block that was there before. -/
theorem count_names_old_block :
    Reachable firstReleased ∧ mmuGetLogicalBlockCount firstReleased 1 = 1 ∧
      (mmuAllocateBlocks firstReleased 1 1).1 = .ok () ∧
      routedBlock firstReleased 1 1 = some 1 ∧ (1 : Int) ∉ firstReleased.l1Allocator.freeList ∧
      routedBlock (mmuAllocateBlocks firstReleased 1 1).2 1 1 = some 1 ∧
      routedBlock (mmuAllocateBlocks firstReleased 1 1).2 1 2 = some 0 :=
  ⟨firstReleased_reachable, by decide +kernel, by decide +kernel, by decide +kernel, by decide +kernel,
    by decide +kernel, by decide +kernel⟩

end DsfMmu
