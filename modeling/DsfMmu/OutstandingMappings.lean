import DsfMmu.EagerSteps
import Mathlib.Data.List.NodupEquivFin

namespace DsfMmu

open MmuRuntime BlockManager Context

section Entries

variable {mmu mmu' : MmuRuntime} {ctx k : CtxHandle} {c : Context} {lb : UInt32} {b new : Int} {i j : Nat}

theorem entryAt_congr (h : mmu'.contexts = mmu.contexts) : entryAt mmu' k i = entryAt mmu k i := by
  unfold entryAt
  rw [h]

theorem entryAt_insert (h : mmu'.contexts = mmu.contexts.insert ctx c) :
    entryAt mmu' k i = if k = ctx then c.pageTable.entries[i]? else entryAt mmu k i := by
  unfold entryAt
  rw [h, KeyedMap.find?_insert]
  split <;> rfl

theorem entryAt_erase (h : mmu'.contexts = mmu.contexts.erase ctx) :
    entryAt mmu' k i = if k = ctx then none else entryAt mmu k i := by
  unfold entryAt
  rw [h, KeyedMap.find?_erase]
  split <;> rfl

/-- One entry of one context leads elsewhere. -/
theorem entryAt_remapped {lvid : Int} (hc : findContext mmu ctx = some c) (hlvid : u32ToInt lb = some lvid)
    (hget : c.pageTable.get lvid = some b) (h : mmu'.contexts = mmu.contexts.insert ctx (c.remapped lvid new)) :
    entryAt mmu' k i = if k = ctx ∧ i = lb.toNat then some new else entryAt mmu k i := by
  have hold := (PageTable.get_eq_some.mp hget).2
  rw [u32ToInt_index hlvid] at hold
  have hlt := (List.getElem?_eq_some_iff.mp hold).1
  rw [entryAt_insert h, remapped_entries hget hlvid, List.getElem?_set]
  by_cases hk : k = ctx
  · rw [if_pos hk, hk]
    by_cases hi : lb.toNat = i
    · rw [if_pos hi, if_pos hlt, if_pos ⟨rfl, hi.symm⟩]
    · rw [if_neg hi, if_neg (fun hc => hi hc.2.symm)]
      unfold entryAt
      rw [(findContext_find? hc).2]
      rfl
  · rw [if_neg hk, if_neg (fun hc => hk hc.1)]

theorem entryAt_names {lvid : Int} (hc : findContext mmu ctx = some c) (hlvid : u32ToInt lb = some lvid)
    (hn : c.Names mmu.l1Allocator lvid b) : entryAt mmu ctx lb.toNat = some b := by
  have hget := (PageTable.get_eq_some.mp hn.entry).2
  rw [u32ToInt_index hlvid] at hget
  exact entryAt_eq_some.mpr ⟨c, (findContext_find? hc).2, hget⟩

theorem MmuRuntime.Covered.entry_live (h : mmu.Covered) (he : entryAt mmu k i = some b)
    (hun : b ≠ kUnallocatedBlock) : mmu.Live b := by
  obtain ⟨c, hc, hb⟩ := entryAt_eq_some.mp he
  exact h.live hc (List.mem_of_getElem? hb) hun

/-- An entry that the narrowed size of its table covers resolves when it names a block. -/
theorem MmuRuntime.Covered.routed (h : mmu.Covered) (hc : findContext mmu ctx = some c)
    (hin : c.pageTable.inBounds lb.toNat) (he : entryAt mmu ctx lb.toNat = some b) (hun : b ≠ kUnallocatedBlock) :
    routedBlock mmu ctx lb = some b := by
  have hlvid : u32ToInt lb = some (lb.toNat : Int) := by
    have hlt := hin.2
    have hint := staticCastInt_lt c.pageTable.entries.length
    exact if_neg (by omega)
  obtain ⟨c', hfind, hb⟩ := entryAt_eq_some.mp he
  cases Option.some.inj ((findContext_find? hc).2.symm.trans hfind)
  exact (routedBlock_eq_some h.settled).mpr
    ⟨c, lb.toNat, hc, hlvid, PageTable.get_eq_some.mpr ⟨hin, hb⟩, hun, h.entry_live he hun⟩

/-- No entry but this one names the block. -/
def SoleEntry (mmu : MmuRuntime) (b : Int) (ctx : CtxHandle) (i : Nat) : Prop :=
  ∀ k j, entryAt mmu k j = some b → k = ctx ∧ j = i

theorem two_le_names {pt : PageTable} (hi : pt.entries[i]? = some b) (hj : pt.entries[j]? = some b)
    (hne : i ≠ j) : 2 ≤ pt.names b := by
  obtain ⟨hi', hib⟩ := List.getElem?_eq_some_iff.mp hi
  obtain ⟨hj', hjb⟩ := List.getElem?_eq_some_iff.mp hj
  apply List.duplicate_iff_two_le_count.mp
  apply List.duplicate_iff_exists_distinct_get.mpr
  rcases Nat.lt_or_gt_of_ne hne with hlt | hlt
  · exact ⟨⟨i, hi'⟩, ⟨j, hj'⟩, hlt, hib.symm, hjb.symm⟩
  · exact ⟨⟨j, hj'⟩, ⟨i, hi'⟩, hlt, hjb.symm, hib.symm⟩

/-- A block with a single reference is named by a single entry. -/
theorem MmuRuntime.Covered.sole (h : mmu.Covered) (hun : b ≠ kUnallocatedBlock)
    (hone : mmu.l1Allocator.refCounts.entry b = 1) (hi : entryAt mmu ctx i = some b) : SoleEntry mmu b ctx i := by
  intro k j hj
  obtain ⟨c, hc, hci⟩ := entryAt_eq_some.mp hi
  obtain ⟨a, ha, haj⟩ := entryAt_eq_some.mp hj
  have hcov : (mmu.routing.names b : Int) ≤ mmu.l1Allocator.refCounts.entry b := h.covered b hun
  have hctx : k = ctx := by
    by_contra hne
    have hfind : (mmu.contexts.erase ctx).find? k = some a := by
      rw [KeyedMap.find?_erase, if_neg hne]
      exact ha
    have hsplit := Routing.names_erase mmu.l1Allocator mmu.l1Allocator b hc
    have hrest := Routing.names_le ⟨mmu.l1Allocator, mmu.contexts.erase ctx⟩ hfind b
    have hpos : 0 < c.pageTable.names b := PageTable.names_pos.mpr (List.mem_of_getElem? hci)
    have hpos' : 0 < a.pageTable.names b := PageTable.names_pos.mpr (List.mem_of_getElem? haj)
    have hroute : Routing.names ⟨mmu.l1Allocator, mmu.contexts⟩ b = mmu.routing.names b := rfl
    omega
  refine ⟨hctx, ?_⟩
  subst k
  cases Option.some.inj (hc.symm.trans ha)
  by_contra hne
  have hle := Routing.names_le mmu.routing hc b
  have htwo := two_le_names hci haj (fun he => hne he.symm)
  omega

end Entries

/-! Mappings handed out and not yet taken back. -/

/-- A mapping and the context it was given to. -/
abbrev Holding := CtxHandle × MappedBlock

/-- How many mappings hold a block. -/
def holders (maps : List Holding) (b : Int) : Nat := maps.countP fun x => x.2.physicalBlockId = b

/-- Every mapping's entry names its block, whose page it points to and which it pins; a block mapped
for writing has no other entry. -/
structure Outstanding (mmu : MmuRuntime) (maps : List Holding) : Prop where
  entry : ∀ x ∈ maps, entryAt mmu x.1 x.2.logicalBlockId.toNat = some x.2.physicalBlockId
  block : ∀ x ∈ maps, x.2.physicalBlockId ≠ kUnallocatedBlock
  page : ∀ x ∈ maps, mmu.l1Pool.rawPage x.2.physicalBlockId = some x.2.hostPtr
  pins : ∀ b, holders maps b ≤ (mmu.block b).info.pinCount
  sole : ∀ x ∈ maps, hasWrite x.2.mapFlags = true →
    SoleEntry mmu x.2.physicalBlockId x.1 x.2.logicalBlockId.toNat

section Holdings

variable {mmu mmu' : MmuRuntime} {maps : List Holding} {ctx : CtxHandle} {lb flags : UInt32}

theorem holders_pos {x : Holding} (hx : x ∈ maps) : 0 < holders maps x.2.physicalBlockId :=
  List.countP_pos_iff.mpr ⟨x, hx, by simp⟩

theorem exists_holder {b : Int} (h : holders maps b ≠ 0) : ∃ x ∈ maps, x.2.physicalBlockId = b := by
  obtain ⟨x, hx, hb⟩ := List.countP_pos_iff.mp (Nat.pos_of_ne_zero h)
  exact ⟨x, hx, by simpa using hb⟩

theorem Outstanding.nil (mmu : MmuRuntime) : Outstanding mmu [] := by
  refine ⟨?_, ?_, ?_, fun _ => Nat.zero_le _, ?_⟩
  all_goals
    intro x hx
    cases hx

theorem Outstanding.pinned (h : Outstanding mmu maps) {x : Holding} (hx : x ∈ maps) :
    0 < (mmu.block x.2.physicalBlockId).info.pinCount :=
  lt_of_lt_of_le (holders_pos hx) (h.pins _)

theorem Outstanding.live (hc : mmu.Covered) (h : Outstanding mmu maps) {x : Holding} (hx : x ∈ maps) :
    mmu.Live x.2.physicalBlockId := hc.entry_live (h.entry x hx) (h.block x hx)

theorem rawPage_block (mmu : MmuRuntime) (b : Int) : mmu.l1Pool.rawPage b = (mmu.block b).l1.map Page.ptr := by
  cases hpage : mmu.page .l1 b with
  | none =>
    have hl1 : (mmu.block b).l1 = none := hpage
    rw [hl1]
    exact page_eq_none.mp hpage
  | some pg =>
    have hl1 : (mmu.block b).l1 = some pg := hpage
    rw [hl1]
    exact (page_eq_some.mp hpage).1

theorem rawPage_congr {b : Int} (h : (mmu'.block b).l1 = (mmu.block b).l1) :
    mmu'.l1Pool.rawPage b = mmu.l1Pool.rawPage b := by
  rw [rawPage_block, h, ← rawPage_block]

/-- What the mapped blocks keep, the mappings keep. -/
theorem Outstanding.kept (h : Outstanding mmu maps)
    (hentry : ∀ x ∈ maps, entryAt mmu' x.1 x.2.logicalBlockId.toNat = entryAt mmu x.1 x.2.logicalBlockId.toNat)
    (hold : ∀ x ∈ maps, hasWrite x.2.mapFlags = true → ∀ k j, entryAt mmu' k j = some x.2.physicalBlockId →
      entryAt mmu k j = some x.2.physicalBlockId)
    (hpage : ∀ x ∈ maps, mmu'.l1Pool.rawPage x.2.physicalBlockId = mmu.l1Pool.rawPage x.2.physicalBlockId)
    (hpins : ∀ x ∈ maps, (mmu'.block x.2.physicalBlockId).info.pinCount =
      (mmu.block x.2.physicalBlockId).info.pinCount) : Outstanding mmu' maps := by
  refine ⟨?_, h.block, ?_, ?_, ?_⟩
  · intro x hx
    rw [hentry x hx]
    exact h.entry x hx
  · intro x hx
    rw [hpage x hx]
    exact h.page x hx
  · intro b
    by_cases hzero : holders maps b = 0
    · omega
    · obtain ⟨x, hx, rfl⟩ := exists_holder hzero
      rw [hpins x hx]
      exact h.pins _
  · intro x hx hw k j hj
    exact h.sole x hx hw k j (hold x hx hw k j hj)

/-- A context that holds a mapping is there. -/
theorem Outstanding.ne_fresh (h : Outstanding mmu maps) {x : Holding} (hx : x ∈ maps) {fresh : CtxHandle}
    (hf : mmu.contexts.find? fresh = none) : x.1 ≠ fresh := by
  intro he
  obtain ⟨c, hc, _⟩ := entryAt_eq_some.mp (h.entry x hx)
  rw [he, hf] at hc
  cases hc

/-- Contexts come and go without touching the storage. -/
theorem Outstanding.withRouting (h : Outstanding mmu maps) {r : Routing}
    (hentry : ∀ x ∈ maps, entryAt (mmu.withRouting r) x.1 x.2.logicalBlockId.toNat =
      entryAt mmu x.1 x.2.logicalBlockId.toNat)
    (hold : ∀ x ∈ maps, hasWrite x.2.mapFlags = true → ∀ k j,
      entryAt (mmu.withRouting r) k j = some x.2.physicalBlockId →
        entryAt mmu k j = some x.2.physicalBlockId) : Outstanding (mmu.withRouting r) maps :=
  h.kept hentry hold (fun _ _ => rfl) (fun _ _ => rfl)

theorem create_outstanding (h : Outstanding mmu maps) {handle : Option CtxHandle} (hf : FreshHandle mmu handle)
    {r : Except MmuError CtxHandle} (hr : mmuCreateContext mmu handle = (r, mmu')) : Outstanding mmu' maps := by
  rcases mmuCreateContext_cases hr with ⟨_, _, rfl⟩ | ⟨fresh, rfl, _, rfl⟩
  · exact h
  · apply h.withRouting
    · intro x hx
      rw [entryAt_insert rfl, if_neg (h.ne_fresh hx hf.2)]
    · intro x _ _ k j hj
      rw [entryAt_insert rfl] at hj
      split at hj
      next => cases hj
      next => exact hj

/-- A fork shares blocks, so its source may hold none for writing. -/
theorem fork_outstanding (hs : mmu.Settled) (h : Outstanding mmu maps) {src : CtxHandle} {grows : Nat → Bool}
    {handle : Option CtxHandle} (hf : FreshHandle mmu handle)
    (hno : ∀ x ∈ maps, x.1 = src → hasWrite x.2.mapFlags = false)
    {r : Except MmuError CtxHandle} (hr : mmuForkContext mmu src grows handle = (r, mmu')) :
    Outstanding mmu' maps := by
  rcases mmuForkContext_cases hs.allocator hr with ⟨_, rfl, _⟩ | ⟨c, fresh, hc, rfl, _, rfl⟩ | ⟨c, b, _, _, _, rfl⟩
  · exact h
  · apply h.withRouting
    · intro x hx
      rw [entryAt_insert rfl, if_neg (h.ne_fresh hx hf.2)]
    · intro x hx hw k j hj
      rw [entryAt_insert rfl] at hj
      split at hj
      next =>
        have hsrc := entryAt_eq_some.mpr ⟨c, (findContext_find? hc).2, hj⟩
        have hread := hno x hx (h.sole x hx hw src j hsrc).1.symm
        rw [hw] at hread
        cases hread
      next => exact hj
  · exact h.withRouting (fun _ _ => rfl) (fun _ _ _ _ _ hj => hj)

/-- What a call that moves entry `lb` of `ctx` must respect: no mapping of that entry is out. -/
def NotHeld (maps : List Holding) (ctx : CtxHandle) (lb : UInt32) : Prop :=
  ∀ x ∈ maps, ¬(x.1 = ctx ∧ x.2.logicalBlockId = lb)

instance (maps : List Holding) (ctx : CtxHandle) (lb : UInt32) : Decidable (NotHeld maps ctx lb) :=
  inferInstanceAs (Decidable (∀ x ∈ maps, ¬(x.1 = ctx ∧ x.2.logicalBlockId = lb)))

theorem NotHeld.entry (h : NotHeld maps ctx lb) {x : Holding} (hx : x ∈ maps) :
    ¬(x.1 = ctx ∧ x.2.logicalBlockId.toNat = lb.toNat) :=
  fun hc => h x hx ⟨hc.1, UInt32.toNat_inj.mp hc.2⟩

theorem release_outstanding (hc : mmu.Covered) (h : Outstanding mmu maps) (hno : NotHeld maps ctx lb)
    {r : Except MmuError Unit} (hr : mmuReleaseLogicalBlock mmu ctx lb = (r, mmu')) : Outstanding mmu' maps := by
  have hc' := release_covered hc hr
  rcases mmuReleaseLogicalBlock_cases hc.settled hr with ⟨_, rfl⟩ | ⟨c, lvid, b, hctx, hlvid, hn, _, hf⟩
  · exact h
  · have hcontexts : mmu'.contexts = mmu.contexts.insert ctx (c.remapped lvid kUnallocatedBlock) :=
      congrArg Routing.contexts hf.routing
    have hentries : ∀ k i, entryAt mmu' k i =
        if k = ctx ∧ i = lb.toNat then some kUnallocatedBlock else entryAt mmu k i :=
      fun _ _ => entryAt_remapped hctx hlvid hn.entry hcontexts
    have hentry : ∀ x ∈ maps, entryAt mmu' x.1 x.2.logicalBlockId.toNat =
        entryAt mmu x.1 x.2.logicalBlockId.toNat := by
      intro x hx
      rw [hentries, if_neg (hno.entry hx)]
    have hblock : ∀ x ∈ maps, mmu'.block x.2.physicalBlockId = mmu.block x.2.physicalBlockId := by
      intro x hx
      apply hf.blocks
      exact hc'.entry_live ((hentry x hx).trans (h.entry x hx)) (h.block x hx)
    refine h.kept hentry ?_ (fun x hx => rawPage_congr (by rw [hblock x hx])) (fun x hx => by rw [hblock x hx])
    intro x hx _ k j hj
    rw [hentries] at hj
    split at hj
    next => exact absurd (Option.some.inj hj).symm (h.block x hx)
    next => exact hj

theorem destroy_outstanding (hc : mmu.Covered) (h : Outstanding mmu maps) (hno : ∀ x ∈ maps, x.1 ≠ ctx) :
    Outstanding (mmuDestroyContext mmu ctx) maps := by
  obtain hnone | ⟨c, hctx⟩ := Option.eq_none_or_eq_some (findContext mmu ctx)
  · have hsame := mmuDestroyContext_none hnone
    rw [hsame]
    exact h
  · have hf := mmuDestroyContext_forgot hc.settled hctx
    have hc' : (mmuDestroyContext mmu ctx).Covered := @perform_covered mmu hc (.destroyContext ctx) trivial trivial
    have hcontexts : (mmuDestroyContext mmu ctx).contexts = mmu.contexts.erase ctx :=
      congrArg Routing.contexts hf.routing
    have hentry : ∀ x ∈ maps, entryAt (mmuDestroyContext mmu ctx) x.1 x.2.logicalBlockId.toNat =
        entryAt mmu x.1 x.2.logicalBlockId.toNat := by
      intro x hx
      rw [entryAt_erase hcontexts, if_neg (hno x hx)]
    have hblock : ∀ x ∈ maps, (mmuDestroyContext mmu ctx).block x.2.physicalBlockId =
        mmu.block x.2.physicalBlockId := by
      intro x hx
      apply hf.blocks
      exact hc'.entry_live ((hentry x hx).trans (h.entry x hx)) (h.block x hx)
    refine h.kept hentry ?_ (fun x hx => rawPage_congr (by rw [hblock x hx])) (fun x hx => by rw [hblock x hx])
    intro x _ _ k j hj
    rw [entryAt_erase hcontexts] at hj
    split at hj
    next => cases hj
    next => exact hj

theorem allocate_outstanding (hc : mmu.Covered) (h : Outstanding mmu maps) {n : UInt32}
    {r : Except MmuError Unit} (hno : r ≠ .error .outOfMemory) (hr : mmuAllocateBlocks mmu ctx n = (r, mmu')) :
    Outstanding mmu' maps := by
  rcases mmuAllocateBlocks_cases hc.settled hr with
    ⟨_, _, rfl⟩ | ⟨_, _, _, _, _, _, _, _, _, hoom, _⟩ | ⟨c, count, ids, bm, hctx, _, ht, _, _, hreg⟩
  · exact h
  · exact absurd hoom hno
  · have hcontexts : mmu'.contexts = mmu.contexts.insert ctx (c.grown ids) :=
      congrArg Routing.contexts hreg.routing
    have hnew : ∀ x ∈ maps, x.2.physicalBlockId ∉ ids := by
      intro x hx hmem
      have hlive : 0 < mmu.l1Allocator.refCounts.entry x.2.physicalBlockId := h.live hc hx
      have hzero := (ht.free _ hmem).2
      omega
    have hblock : ∀ x ∈ maps, mmu'.block x.2.physicalBlockId = mmu.block x.2.physicalBlockId :=
      fun x hx => hreg.blocks _ (hnew x hx)
    refine h.kept ?_ ?_ (fun x hx => rawPage_congr (by rw [hblock x hx])) (fun x hx => by rw [hblock x hx])
    · intro x hx
      rw [entryAt_insert hcontexts]
      split
      next hk =>
        obtain ⟨a, ha, hb⟩ := entryAt_eq_some.mp (h.entry x hx)
        rw [hk, (findContext_find? hctx).2] at ha
        cases Option.some.inj ha
        have hlt := (List.getElem?_eq_some_iff.mp hb).1
        rw [h.entry x hx, grown, List.getElem?_append_left hlt]
        exact hb
      next => rfl
    · intro x hx _ k j hj
      rw [entryAt_insert hcontexts] at hj
      split at hj
      next hk =>
        have hj' : (c.pageTable.entries ++ ids)[j]? = some x.2.physicalBlockId := hj
        rw [List.getElem?_append] at hj'
        split at hj'
        next => exact entryAt_eq_some.mpr ⟨c, by rw [hk]; exact (findContext_find? hctx).2, hj'⟩
        next => exact absurd (List.mem_of_getElem? hj') (hnew x hx)
      next => exact hj

theorem Remapped.pins {b new : Int} {bm : BlockManager} {v : BlockView} {r : Routing} (h : mmu.Settled)
    (ht : Taken mmu.l1Allocator [new] bm) (hm : Remapped mmu mmu' b new v r) (hv : v.info.pinCount = 0) (q : Int) :
    (mmu'.block q).info.pinCount = (mmu.block q).info.pinCount := by
  have hunused : (mmu.block new).info.pinCount = 0 := by
    rw [(taken_new h ht).2]
    rfl
  rw [hm.blocks]
  exact BlockView.update_field (fun v => v.info.pinCount) (hv.trans hunused.symm) q

/-- A write preparation moves no block that is mapped, and counts no pin. -/
theorem prepare_outstanding (hc : mmu.Covered) (h : Outstanding mmu maps) (hno : NotHeld maps ctx lb)
    {r : Except MmuError Int} (hr : mmuPrepareBlockForWrite mmu ctx lb = (r, mmu')) :
    Outstanding mmu' maps ∧ ∀ q, (mmu'.block q).info.pinCount = (mmu.block q).info.pinCount := by
  rcases mmuPrepareBlockForWrite_cases hc.settled hr with
    ⟨_, rfl, _⟩ | ⟨_, _, _, _, _, _, _, _, rfl⟩ | ⟨c, lvid, b, new, bm, v, hctx, hlvid, hn, hshared, ht, hm, hcase⟩
  · exact ⟨h, fun _ => rfl⟩
  · exact ⟨h, fun _ => rfl⟩
  · have hv : v.info.pinCount = 0 := by
      rcases hcase with ⟨⟨ptr, rfl⟩, _⟩ | ⟨rfl, _⟩ <;> rfl
    have hpins := hm.pins hc.settled ht hv
    have hcontexts : mmu'.contexts = mmu.contexts.insert ctx (c.remapped lvid new) :=
      congrArg Routing.contexts hm.routing
    have hentries : ∀ k i, entryAt mmu' k i =
        if k = ctx ∧ i = lb.toNat then some new else entryAt mmu k i :=
      fun _ _ => entryAt_remapped hctx hlvid hn.entry hcontexts
    have hne : ∀ x ∈ maps, x.2.physicalBlockId ≠ new := fun x hx => ht.ne_new (h.live hc hx)
    refine ⟨h.kept ?_ ?_ ?_ (fun x _ => hpins _), hpins⟩
    · intro x hx
      rw [hentries, if_neg (hno.entry hx)]
    · intro x hx _ k j hj
      rw [hentries] at hj
      split at hj
      next => exact absurd (Option.some.inj hj).symm (hne x hx)
      next => exact hj
    · intro x hx
      apply rawPage_congr
      rw [hm.blocks, Function.update_of_ne (hne x hx)]

theorem holders_cons (x : Holding) (maps : List Holding) (b : Int) :
    holders (x :: maps) b = holders maps b + if x.2.physicalBlockId = b then 1 else 0 := by
  unfold holders
  rw [List.countP_cons]
  simp

theorem holders_erase {x : Holding} (hx : x ∈ maps) (b : Int) :
    holders maps b = holders (maps.erase x) b + if x.2.physicalBlockId = b then 1 else 0 := by
  rw [← holders_cons]
  exact (List.perm_cons_erase hx).countP_eq _

/-- A map adds a mapping and the pin that belongs to it. -/
theorem Mapped.outstanding (h : Outstanding mmu maps) {d : MappedBlock}
    (hm : Mapped mmu mmu' d.physicalBlockId d)
    (hentry : entryAt mmu ctx d.logicalBlockId.toNat = some d.physicalBlockId)
    (hun : d.physicalBlockId ≠ kUnallocatedBlock)
    (hroom : (mmu.block d.physicalBlockId).info.pinCount + 1 < 2 ^ 32)
    (hsole : hasWrite d.mapFlags = true → SoleEntry mmu d.physicalBlockId ctx d.logicalBlockId.toNat) :
    Outstanding mmu' ((ctx, d) :: maps) := by
  have hentries : ∀ k i, entryAt mmu' k i = entryAt mmu k i := fun _ _ => entryAt_congr hm.routing.contexts
  refine ⟨?_, ?_, ?_, ?_, ?_⟩
  · intro x hx
    rw [hentries]
    rcases List.mem_cons.mp hx with rfl | hx
    · exact hentry
    · exact h.entry x hx
  · intro x hx
    rcases List.mem_cons.mp hx with rfl | hx
    · exact hun
    · exact h.block x hx
  · intro x hx
    rcases List.mem_cons.mp hx with rfl | hx
    · rw [rawPage_block, hm.page]
      rfl
    · rw [rawPage_congr (hm.kept _ (h.pinned hx))]
      exact h.page x hx
  · intro b
    have hle := h.pins b
    have hpins := hm.pins b
    rw [holders_cons]
    by_cases hb : d.physicalBlockId = b
    · rw [if_pos hb.symm, nextPinCount_lt hroom, hb] at hpins
      rw [if_pos hb]
      omega
    · rw [if_neg (fun he => hb he.symm)] at hpins
      rw [if_neg hb]
      omega
  · intro x hx hw k j hj
    rw [hentries] at hj
    rcases List.mem_cons.mp hx with rfl | hx
    · exact hsole hw k j hj
    · exact h.sole x hx hw k j hj

theorem MmuRuntime.Quiet.outstanding (h : Outstanding mmu maps) (hq : Quiet mmu.Live mmu mmu') :
    Outstanding mmu' maps := by
  refine h.kept ?_ ?_ ?_ (fun x _ => hq.pins _)
  · intro x _
    exact entryAt_congr hq.routing.contexts
  · intro x _ _ k j hj
    rw [entryAt_congr hq.routing.contexts] at hj
    exact hj
  · intro x hx
    exact rawPage_congr (hq.kept _ (h.pinned hx))

/-- The map does not wrap a pin counter. -/
def PinRoom (mmu : MmuRuntime) : Except MmuError MappedBlock → Prop
  | .ok d => (mmu.block d.physicalBlockId).info.pinCount + 1 < 2 ^ 32
  | .error _ => True

instance (mmu : MmuRuntime) (r : Except MmuError MappedBlock) : Decidable (PinRoom mmu r) :=
  match r with
  | .ok d => inferInstanceAs (Decidable ((mmu.block d.physicalBlockId).info.pinCount + 1 < 2 ^ 32))
  | .error _ => isTrue trivial

/-- The mappings out after a single map. -/
def handedOut (ctx : CtxHandle) : Except MmuError MappedBlock → List Holding → List Holding
  | .ok d, maps => (ctx, d) :: maps
  | .error _, maps => maps

/-- A single map: whatever it returns it takes nothing back, and what it returns is one mapping more. -/
theorem map_outstanding (hc : mmu.Covered) (h : Outstanding mmu maps)
    (hno : hasWrite flags = true → NotHeld maps ctx lb) {r : Except MmuError MappedBlock}
    (hroom : PinRoom mmu r) (hr : mmuMapLogicalBlock mmu ctx lb flags = (r, mmu')) :
    Outstanding mmu' (handedOut ctx r maps) := by
  rcases mmuMapLogicalBlock_cases hc.settled hr with
    ⟨⟨e, rfl⟩, rfl⟩ | ⟨hw, e, rfl, hprep⟩ | ⟨mid, c, lvid, hctx, hlvid, hcase, hres⟩
  · exact h
  · exact (prepare_outstanding hc h (hno hw) hprep).1
  · have hmid : mid.Covered ∧ Outstanding mid maps ∧
        (∀ q, (mid.block q).info.pinCount = (mmu.block q).info.pinCount) ∧
        (hasWrite flags = true → ∀ b, c.Names mid.l1Allocator lvid b → SoleEntry mid b ctx lb.toNat) := by
      rcases hcase with ⟨hread, rfl⟩ | ⟨hw, p, hprep⟩
      · refine ⟨hc, h, fun _ => rfl, ?_⟩
        rw [hread]
        exact nofun
      · have hc' := prepare_covered hc hprep
        obtain ⟨h', hpins⟩ := prepare_outstanding hc h (hno hw) hprep
        refine ⟨hc', h', hpins, ?_⟩
        intro _ b hb
        obtain ⟨_, c', lvid', hctx', hlvid', hn', hone⟩ := mmuPrepareBlockForWrite_ok hc.settled hprep
        cases Option.some.inj (hctx.symm.trans hctx')
        cases Option.some.inj (hlvid.symm.trans hlvid')
        cases Option.some.inj (hb.entry.symm.trans hn'.entry)
        exact hc'.sole hb.block hone (entryAt_names hctx hlvid hb)
    obtain ⟨hcov, hout, hpins, hsole⟩ := hmid
    cases r with
    | error e => exact (mapResolved_error hcov.settled hres).1.outstanding hout
    | ok d =>
      obtain ⟨hn, hmapped, hlb, hflags⟩ := mapResolved_ok hcov.settled hres
      have hentry := entryAt_names hctx hlvid hn
      have hroom' : (mmu.block d.physicalBlockId).info.pinCount + 1 < 2 ^ 32 := hroom
      rw [← hpins] at hroom'
      rw [← hlb] at hentry
      refine hmapped.outstanding hout hentry hn.block hroom' ?_
      intro hw
      rw [hlb]
      rw [hflags] at hw
      exact hsole hw _ hn

/-- An unmap gives back its mapping, and its pin if it gets that far. -/
theorem unmap_outstanding (hs : mmu.Settled) (h : Outstanding mmu maps) {d : MappedBlock}
    (hx : (ctx, d) ∈ maps) {r : Except MmuError Unit} (hu : mmuUnmapLogicalBlock mmu ctx d = (r, mmu')) :
    Outstanding mmu' (maps.erase (ctx, d)) := by
  have hmem : ∀ x ∈ maps.erase (ctx, d), x ∈ maps := fun x hx => List.mem_of_mem_erase hx
  have hlow : ∀ b, holders (maps.erase (ctx, d)) b + (if d.physicalBlockId = b then 1 else 0) ≤
      (mmu.block b).info.pinCount := by
    intro b
    rw [← holders_erase hx b]
    exact h.pins b
  have hless : Outstanding mmu (maps.erase (ctx, d)) := by
    refine ⟨fun x hx => h.entry x (hmem x hx), fun x hx => h.block x (hmem x hx),
      fun x hx => h.page x (hmem x hx), ?_, fun x hx => h.sole x (hmem x hx)⟩
    intro b
    have := hlow b
    omega
  rcases mmuUnmapLogicalBlock_cases hs hu with ⟨_, rfl⟩ | ⟨_, _, _, _, _, hun⟩
  · exact hless
  · have hentries : ∀ k i, entryAt mmu' k i = entryAt mmu k i := fun _ _ => entryAt_congr hun.routing.contexts
    refine ⟨?_, hless.block, ?_, ?_, ?_⟩
    · intro x hx
      rw [hentries]
      exact hless.entry x hx
    · intro x hx
      rw [rawPage_congr (hun.pages _)]
      exact hless.page x hx
    · intro b
      have hb := hlow b
      have hpins := hun.pins b
      by_cases he : d.physicalBlockId = b
      · rw [if_pos he] at hb
        rw [if_pos he.symm, he] at hpins
        omega
      · rw [if_neg he] at hb
        rw [if_neg (fun hc => he hc.symm)] at hpins
        omega
    · intro x hx hw k j hj
      rw [hentries] at hj
      exact hless.sole x hx hw k j hj

theorem hostWrite_outstanding (h : Outstanding mmu maps) (d : MappedBlock) (offset : Nat) (byte : UInt8) :
    Outstanding (hostWrite mmu d offset byte) maps := by
  refine h.kept (fun _ _ => rfl) (fun _ _ _ _ _ hj => hj) (fun _ _ => rfl) ?_
  intro x _
  rw [hostWrite_block]
  rfl

/-! Batches: the single calls one after the other, and a rollback that gives back all that was mapped. -/

theorem Outstanding.perm {maps' : List Holding} (h : Outstanding mmu maps) (hp : maps.Perm maps') :
    Outstanding mmu maps' := by
  have hmem : ∀ x ∈ maps', x ∈ maps := fun _ hx => hp.mem_iff.mpr hx
  refine ⟨fun x hx => h.entry x (hmem x hx), fun x hx => h.block x (hmem x hx),
    fun x hx => h.page x (hmem x hx), ?_, fun x hx => h.sole x (hmem x hx)⟩
  intro b
  have hcount : holders maps b = holders maps' b := hp.countP_eq _
  rw [← hcount]
  exact h.pins b

/-- Every unmap of a batch is given a mapping that is out. -/
def UnmapsHeld (ctx : CtxHandle) : List MappedBlock → List Holding → Prop
  | [], _ => True
  | d :: rest, maps => (ctx, d) ∈ maps ∧ UnmapsHeld ctx rest (maps.erase (ctx, d))

theorem UnmapsHeld.mem {ds : List MappedBlock} (h : UnmapsHeld ctx ds maps) : ∀ d ∈ ds, (ctx, d) ∈ maps := by
  induction ds generalizing maps with
  | nil => exact fun _ hd => absurd hd List.not_mem_nil
  | cons d rest ih =>
    obtain ⟨hx, hrest⟩ := h
    intro e he
    rcases List.mem_cons.mp he with rfl | he
    · exact hx
    · exact List.mem_of_mem_erase (ih hrest e he)

/-- What a batch of unmaps leaves out. -/
def givenBack (ctx : CtxHandle) (ds : List MappedBlock) (maps : List Holding) : List Holding :=
  ds.foldl (fun maps d => maps.erase (ctx, d)) maps

/-- A rollback gives back what the batch has mapped, and nothing else. -/
theorem rollback_held (done : List MappedBlock) (maps : List Holding) :
    UnmapsHeld ctx done (done.map (Prod.mk ctx) ++ maps) ∧
      givenBack ctx done (done.map (Prod.mk ctx) ++ maps) = maps := by
  induction done with
  | nil => exact ⟨trivial, rfl⟩
  | cons d rest ih =>
    obtain ⟨hheld, hback⟩ := ih
    have herase : ((d :: rest).map (Prod.mk ctx) ++ maps).erase (ctx, d) = rest.map (Prod.mk ctx) ++ maps :=
      List.erase_cons_head _ _
    refine ⟨⟨List.mem_cons_self, ?_⟩, ?_⟩
    · rw [herase]
      exact hheld
    · show givenBack ctx rest (((d :: rest).map (Prod.mk ctx) ++ maps).erase (ctx, d)) = maps
      rw [herase]
      exact hback

theorem unmapAll_outstanding (ds : List MappedBlock) (hs : mmu.Settled) (h : Outstanding mmu maps)
    (hheld : UnmapsHeld ctx ds maps) : Outstanding (unmapAll ctx ds mmu) (givenBack ctx ds maps) := by
  induction ds generalizing mmu maps with
  | nil => exact h
  | cons d rest ih =>
    obtain ⟨hx, hrest⟩ := hheld
    obtain ⟨r, m, hu⟩ : ∃ r m, mmuUnmapLogicalBlock mmu ctx d = (r, m) := ⟨_, _, rfl⟩
    rw [unmapAll_cons hu rest]
    exact ih (unmap_clean hs hu).settled (unmap_outstanding hs h hx hu) hrest

/-- What a single map must respect: a context maps an entry for writing only while it does not hold it,
and no pin counter is full. -/
def MapBracketed (maps : List Holding) (mmu : MmuRuntime) (ctx : CtxHandle) (lb flags : UInt32) : Prop :=
  (hasWrite flags = true → NotHeld maps ctx lb) ∧ PinRoom mmu (mmuMapLogicalBlock mmu ctx lb flags).1

instance (maps : List Holding) (mmu : MmuRuntime) (ctx : CtxHandle) (lb flags : UInt32) :
    Decidable (MapBracketed maps mmu ctx lb flags) :=
  inferInstanceAs (Decidable ((hasWrite flags = true → NotHeld maps ctx lb) ∧
    PinRoom mmu (mmuMapLogicalBlock mmu ctx lb flags).1))

/-- Every single map of a batch respects it when its turn comes. -/
def MapsBracketed (ctx : CtxHandle) (flags : UInt32) : List UInt32 → List Holding → MmuRuntime → Prop
  | [], _, _ => True
  | lb :: rest, maps, mmu =>
    MapBracketed maps mmu ctx lb flags ∧
      ∀ d mmu', mmuMapLogicalBlock mmu ctx lb flags = (.ok d, mmu') →
        MapsBracketed ctx flags rest ((ctx, d) :: maps) mmu'

/-- The mappings out after a batch. -/
def allHandedOut (ctx : CtxHandle) : Except MmuError (List MappedBlock) → List Holding → List Holding
  | .ok ds, maps => ds.map (Prod.mk ctx) ++ maps
  | .error _, maps => maps

theorem mapBlocksLoop_outstanding (lbs : List UInt32) (done : List MappedBlock) {now : List Holding}
    (hc : mmu.Covered) (h : Outstanding mmu now) (hnow : now.Perm (done.map (Prod.mk ctx) ++ maps))
    (hb : MapsBracketed ctx flags lbs now mmu) {r : Except MmuError (List MappedBlock)}
    (hm : mapBlocksLoop ctx flags lbs done mmu = (r, mmu')) :
    Outstanding mmu' (allHandedOut ctx r maps) := by
  induction lbs generalizing mmu done now with
  | nil =>
    obtain ⟨rfl, rfl⟩ := Prod.mk.inj hm
    exact h.perm hnow
  | cons lb rest ih =>
    obtain ⟨⟨hno, hroom⟩, hrest⟩ := hb
    have hone' : ∀ r m, mmuMapLogicalBlock mmu ctx lb flags = (r, m) →
        Outstanding m (handedOut ctx r now) := by
      intro r m hone
      rw [hone] at hroom
      exact map_outstanding hc h hno hroom hone
    unfold mapBlocksLoop at hm
    split at hm
    next e m1 hone =>
      obtain ⟨rfl, rfl⟩ := Prod.mk.inj hm
      have hout := (hone' _ _ hone).perm hnow
      obtain ⟨hheld, hback⟩ := @rollback_held ctx done maps
      have hend := unmapAll_outstanding done (map_clean hc.settled hone).settled hout hheld
      rw [hback] at hend
      exact hend
    next d m1 hone =>
      refine ih (done ++ [d]) (map_covered hc hone) (hone' _ _ hone) ?_ (hrest d m1 hone) hm
      rw [List.map_append, List.append_assoc]
      exact (hnow.cons (ctx, d)).trans List.perm_middle.symm

/-- A mapping lasts until its unmap returns, whatever that returns. -/
def holdingStep (maps : List Holding) (call : Call) (reply : Reply) : List Holding :=
  match call, reply with
  | .mapLogicalBlock ctx _ _, .mapped r => handedOut ctx r maps
  | .mapLogicalBlocks ctx _ _, .mappedAll r => allHandedOut ctx r maps
  | .unmapLogicalBlock ctx d, _ => maps.erase (ctx, d)
  | .unmapLogicalBlocks ctx ds, _ => givenBack ctx ds maps
  | _, _ => maps

end Holdings

end DsfMmu
