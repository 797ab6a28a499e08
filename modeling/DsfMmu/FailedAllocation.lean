import DsfMmu.Invariants

namespace DsfMmu

open MmuRuntime BlockManager Context

variable {mmu mmu' : MmuRuntime} {ctx : CtxHandle} {n : UInt32}

/-- Page tables, counts, free blocks, records and pages are all as before. -/
structure NoTrace (mmu mmu' : MmuRuntime) : Prop where
  tables : ∀ ctx, findContext mmu' ctx = findContext mmu ctx
  refs : ∀ p, mmuGetRefCount mmu' p = mmuGetRefCount mmu p
  free : ∀ p, p ∈ mmu'.l1Allocator.freeList ↔ p ∈ mmu.l1Allocator.freeList
  metas : ∀ p, mmu'.blockDirectory.get p = mmu.blockDirectory.get p
  pools : ∀ id, mmu'.pool id = mmu.pool id

theorem NoTrace.refl (mmu : MmuRuntime) : NoTrace mmu mmu :=
  ⟨fun _ => rfl, fun _ => rfl, fun _ => Iff.rfl, fun _ => rfl, fun _ => rfl⟩

/-- The free blocks run out after the first append of the loop and before its last. -/
def RunsDry (mmu : MmuRuntime) (ctx : CtxHandle) (n : UInt32) : Prop :=
  findContext mmu ctx ≠ none ∧ n.toNat < 2 ^ 31 ∧
    0 < mmuGetFreeBlockCount mmu ∧ mmuGetFreeBlockCount mmu < n.toNat

instance (mmu : MmuRuntime) (ctx : CtxHandle) (n : UInt32) : Decidable (RunsDry mmu ctx n) :=
  inferInstanceAs (Decidable (findContext mmu ctx ≠ none ∧ n.toNat < 2 ^ 31 ∧
    0 < mmuGetFreeBlockCount mmu ∧ mmuGetFreeBlockCount mmu < n.toNat))

theorem grown_nil (c : Context) : c.grown [] = c := by
  have happend : c.pageTable.entries ++ [] = c.pageTable.entries := List.append_nil _
  simp only [grown, happend]

/-- A refusal that took no block at all changes nothing. -/
theorem exhausted_nil {c : Context} {bm : BlockManager} (hc : findContext mmu ctx = some c)
    (ht : Taken mmu.l1Allocator [] bm) (hempty : bm.freeList = []) :
    NoTrace mmu (mmu.withRouting ⟨bm.releaseAll [], mmu.contexts.insert ctx (c.grown [])⟩) := by
  have hcontexts : mmu.contexts.insert ctx (c.grown []) = mmu.contexts := by
    rw [grown_nil, KeyedMap.insert_same (findContext_find? hc).2]
  have hfree : mmu.l1Allocator.freeList = [] := by
    have hlen := ht.all hempty
    exact List.eq_nil_of_length_eq_zero hlen.symm
  have hentry : ∀ q, bm.refCounts.entry q = mmu.l1Allocator.refCounts.entry q := by
    intro q
    have h := ht.entry q
    simpa using h
  refine ⟨?_, ?_, ?_, fun _ => rfl, fun id => by cases id <;> rfl⟩
  · intro other
    rw [hcontexts]
    rfl
  · intro p
    show bm.refCount p = mmu.l1Allocator.refCount p
    have hvalid : bm.isValid p ↔ mmu.l1Allocator.isValid p := by
      unfold isValid IntTable.InRange
      rw [ht.size]
    unfold refCount
    by_cases hv : mmu.l1Allocator.isValid p
    · rw [if_pos hv, if_pos (hvalid.mpr hv), hentry]
    · rw [if_neg hv, if_neg (fun h => hv (hvalid.mp h))]
  · intro p
    show p ∈ bm.freeList ↔ _
    rw [hempty, hfree]

/-- Any longer prefix leaves its entries behind. -/
theorem exhausted_traced {c : Context} {ids : List Int} {bm : BlockManager}
    (hc : findContext mmu ctx = some c) (hids : 0 < ids.length) :
    ¬NoTrace mmu (mmu.withRouting ⟨bm.releaseAll ids, mmu.contexts.insert ctx (c.grown ids)⟩) := by
  intro ht
  obtain ⟨hne, _⟩ := findContext_find? hc
  have hnew : findContext (mmu.withRouting ⟨bm.releaseAll ids, mmu.contexts.insert ctx (c.grown ids)⟩) ctx =
      some (c.grown ids) :=
    findContext_inserted hne rfl
  have hsame : c.grown ids = c := by
    have htable := ht.tables ctx
    rw [hnew, hc] at htable
    exact Option.some.inj htable
  have hlen := congrArg (fun c : Context => c.pageTable.entries.length) hsame
  simp only [grown, List.length_append] at hlen
  omega

/-- Then the call returns out of memory. -/
theorem RunsDry.exhausts (h : RunsDry mmu ctx n) (hs : mmu.Settled) :
    (perform mmu (.allocateBlocks ctx n)).1 = .status (.error .outOfMemory) := by
  obtain ⟨hctx, hn, hfree, hless⟩ := h
  obtain ⟨r, m, hr⟩ : ∃ r m, mmuAllocateBlocks mmu ctx n = (r, m) := ⟨_, _, rfl⟩
  simp only [perform, hr]
  rcases mmuAllocateBlocks_cases hs hr with
    ⟨hno, _⟩ | ⟨_, _, _, _, _, _, _, _, _, rfl, _⟩ | ⟨c, count, ids, bm, _, hcount, ht, hlen, _⟩
  · rcases hno with hno | hno
    · exact absurd hno hctx
    · unfold u32ToInt at hno
      rw [if_neg (by omega)] at hno
      cases hno
  · rfl
  · have hcount' := (u32ToInt_eq_some hcount).1
    have hle := ht.length
    have hless' : mmu.l1Allocator.freeList.length < n.toNat := hless
    omega

/-- Short of that, the free blocks run out before the first append. -/
theorem exhausted_none {c : Context} {count : Int} {ids : List Int} {bm : BlockManager} (hdry : ¬RunsDry mmu ctx n)
    (hc : findContext mmu ctx = some c) (hcount : u32ToInt n = some count) (ht : Taken mmu.l1Allocator ids bm)
    (hlen : (ids.length : Int) < count) (hempty : bm.freeList = []) : ids = [] := by
  obtain ⟨hcount', hn⟩ := u32ToInt_eq_some hcount
  have hall := ht.all hempty
  by_contra hne
  have hpos : 0 < ids.length := List.length_pos_iff.mpr hne
  refine hdry ⟨by rw [hc]; exact nofun, hn, ?_, ?_⟩
  · show 0 < mmu.l1Allocator.freeList.length
    omega
  · show mmu.l1Allocator.freeList.length < n.toNat
    omega

/-- A failed allocation leaves no trace unless the free blocks run out part of the way. -/
theorem failed_allocation_leaves_no_trace (h : Reachable mmu) (ctx : CtxHandle) (n : UInt32) :
    (∀ e mmu', mmuAllocateBlocks mmu ctx n = (.error e, mmu') → NoTrace mmu mmu') ↔ ¬RunsDry mmu ctx n := by
  have hs := h.settled
  obtain ⟨r, mmu', hr⟩ : ∃ r mmu', mmuAllocateBlocks mmu ctx n = (r, mmu') := ⟨_, _, rfl⟩
  constructor
  · intro hall hboth
    obtain ⟨hctx, hn, hfree, hless⟩ := hboth
    rcases mmuAllocateBlocks_cases hs hr with
      ⟨hno, _⟩ | ⟨c, count, ids, bm, hc, hcount, ht, hlen, hempty, rfl, rfl⟩ |
      ⟨c, count, ids, bm, hc, hcount, ht, hlen, _⟩
    · rcases hno with hno | hno
      · exact hctx hno
      · unfold u32ToInt at hno
        rw [if_neg (by omega)] at hno
        cases hno
    · have htaken := ht.all hempty
      have hpos : 0 < ids.length := by
        rw [htaken]
        exact hfree
      exact exhausted_traced hc hpos (hall _ _ hr)
    · have hcount' := (u32ToInt_eq_some hcount).1
      have hle := ht.length
      have hfree' : mmu.l1Allocator.freeList.length < n.toNat := hless
      omega
  · intro hdry e mmu'' herr
    rcases mmuAllocateBlocks_cases hs herr with
      ⟨_, _, rfl⟩ | ⟨c, count, ids, bm, hc, hcount, ht, hlen, hempty, _, rfl⟩ | ⟨_, _, _, _, _, _, _, _, hok, _⟩
    · exact .refl _
    · have hnil := exhausted_none hdry hc hcount ht hlen hempty
      subst hnil
      exact exhausted_nil hc ht hempty
    · cases hok

/-- Four blocks are free and none is taken when a request is for no more than four. -/
theorem failed_allocation_leaves_no_trace_full :
    let full := machine.replay (smallInstance 1 0) [.createContext (some 1), .allocateBlocks 1 4]
    ∀ e mmu', mmuAllocateBlocks full 1 1 = (.error e, mmu') → NoTrace full mmu' := by
  intro full
  have hfull : Reachable full := (smallInstance_reachable 1 0).replay (by decide +kernel)
  exact (failed_allocation_leaves_no_trace hfull 1 1).mpr (by decide +kernel)

/-- Two contexts over four free blocks. -/
def twoContexts : MmuRuntime :=
  machine.replay (smallInstance 1 0) [.createContext (some 1), .createContext (some 2)]

/-- A request for five of four blocks fails and leaves four entries; the next allocation of the other
context is given a block that one of them names, with a single reference. -/
theorem failed_allocation_aliases :
    Reachable twoContexts ∧
    ¬(∀ e mmu', mmuAllocateBlocks twoContexts 1 5 = (.error e, mmu') → NoTrace twoContexts mmu') ∧
    (let after := machine.replay twoContexts [.allocateBlocks 1 5, .allocateBlocks 2 1]
     mmuResolveRouting after 1 3 = mmuResolveRouting after 2 0 ∧
       mmuResolveRouting after 2 0 = .ok ⟨.l1, 3, 12⟩ ∧ mmuGetRefCount after 3 = 1) := by
  refine ⟨(smallInstance_reachable 1 0).replay (by decide +kernel), ?_, by decide +kernel⟩
  intro hall
  have herr : (mmuAllocateBlocks twoContexts 1 5).1 = .error .outOfMemory := by decide +kernel
  have ht := of_error hall herr
  have hne : findContext (mmuAllocateBlocks twoContexts 1 5).2 1 ≠ findContext twoContexts 1 := by
    decide +kernel
  exact hne (ht.tables 1)

end DsfMmu
