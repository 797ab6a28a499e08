import DsfMmu.Lifecycle

namespace DsfMmu

open MmuRuntime BlockManager Context

section Counts

variable {bm : BlockManager} {p : Int}

theorem retainAll_live (h : bm.Ok) (ids : List Int) (q : Int) :
    0 < (bm.retainAll ids).refCounts.entry q ↔ 0 < bm.refCounts.entry q := by
  rw [h.retainAll_entry]
  split <;> omega

theorem retain_live (h : bm.Ok) (p q : Int) :
    0 < (bm.retain p).2.refCounts.entry q ↔ 0 < bm.refCounts.entry q := by
  rw [h.retain_entry]
  split
  next hc => omega
  next => rfl

theorem exhausted_live {ids : List Int} {bm' : BlockManager} (h : Taken bm ids bm') (q : Int) :
    0 < (bm'.releaseAll ids).refCounts.entry q ↔ 0 < bm.refCounts.entry q := by
  rw [h.releaseAll_entry]
  omega

end Counts

section Contexts

variable {mmu mmu' : MmuRuntime}

theorem mmuCreateContext_cases {handle : Option CtxHandle} {r : Except MmuError CtxHandle}
    (hr : mmuCreateContext mmu handle = (r, mmu')) :
    (handle = none ∧ (∃ e, r = .error e) ∧ mmu' = mmu) ∨
    ∃ ctx, handle = some ctx ∧ r = .ok ctx ∧ mmu' = mmu.withRouting
      ⟨mmu.l1Allocator, mmu.contexts.insert ctx ⟨.empty, mmu.config.blockSizeBytes⟩⟩ := by
  unfold mmuCreateContext at hr
  split at hr
  next => cases hr; exact .inl ⟨rfl, ⟨_, rfl⟩, rfl⟩
  next ctx => cases hr; exact .inr ⟨ctx, rfl, rfl, rfl⟩

theorem Settled.created (h : mmu.Settled) (contexts : KeyedMap CtxHandle Context) :
    (mmu.withRouting ⟨mmu.l1Allocator, contexts⟩).Settled :=
  h.withRouting h.allocator rfl (fun _ => Iff.rfl)

/-- A fork shares every block of the source, or does nothing, or leaves one reference behind. -/
theorem mmuForkContext_cases (h : mmu.l1Allocator.Ok) {src : CtxHandle} {grows : Nat → Bool}
    {handle : Option CtxHandle} {r : Except MmuError CtxHandle}
    (hr : mmuForkContext mmu src grows handle = (r, mmu')) :
    ((∃ e, r = .error e) ∧ mmu' = mmu ∧
      ∀ c b, findContext mmu src = some c → ¬c.ForkLeaks mmu.l1Allocator grows b) ∨
    (∃ c ctx, findContext mmu src = some c ∧ handle = some ctx ∧ r = .ok ctx ∧
      mmu' = mmu.withRouting
        ⟨mmu.l1Allocator.retainAll (namedBlocks c.pageTable), mmu.contexts.insert ctx c⟩) ∨
    ∃ c b, findContext mmu src = some c ∧ c.ForkLeaks mmu.l1Allocator grows b ∧ (∃ e, r = .error e) ∧
      mmu' = mmu.withRouting ⟨(mmu.l1Allocator.retain b).2, mmu.contexts⟩ := by
  unfold mmuForkContext at hr
  split at hr
  next hnull =>
    cases hr
    refine .inl ⟨⟨_, rfl⟩, rfl, ?_⟩
    intro c b hc
    exact absurd hnull (findContext_find? hc).1
  next =>
    split at hr
    next hnone =>
      cases hr
      refine .inl ⟨⟨_, rfl⟩, rfl, ?_⟩
      intro c b hc
      rw [hnone] at hc
      cases hc
    next c hc =>
      rcases fork_cases h c grows with ⟨hall, heq⟩ | ⟨hno, heq⟩ | ⟨b, hleak, heq⟩
      · rw [heq] at hr
        dsimp only at hr
        split at hr
        next =>
          cases hr
          refine .inl ⟨⟨_, rfl⟩, ?_, ?_⟩
          · rw [releaseAllBlocks, h.releaseAll_retainAll]
          · intro c' b hc'
            cases Option.some.inj (hc.symm.trans hc')
            exact hall b
        next ctx =>
          cases hr
          exact .inr (.inl ⟨c, ctx, hc, rfl, rfl, rfl⟩)
      · rw [heq] at hr
        cases hr
        refine .inl ⟨⟨_, rfl⟩, rfl, ?_⟩
        intro c' b hc'
        cases Option.some.inj (hc.symm.trans hc')
        exact hno b
      · rw [heq] at hr
        cases hr
        exact .inr (.inr ⟨c, b, hc, hleak, ⟨_, rfl⟩, rfl⟩)

/-- A new context, forked or not, takes no block and leaves storage alone. -/
theorem mmuCreateContext_routes (mmu : MmuRuntime) (handle : Option CtxHandle) :
    ∃ r, (mmuCreateContext mmu handle).2 = mmu.withRouting r := by
  obtain ⟨r, mmu', hr⟩ : ∃ r m, mmuCreateContext mmu handle = (r, m) := ⟨_, _, rfl⟩
  rw [hr]
  rcases mmuCreateContext_cases hr with ⟨_, _, rfl⟩ | ⟨_, _, _, rfl⟩
  · exact ⟨mmu'.routing, rfl⟩
  · exact ⟨_, rfl⟩

theorem mmuForkContext_routes (h : mmu.Settled) (src : CtxHandle) (grows : Nat → Bool) (handle : Option CtxHandle) :
    ∃ r, (mmuForkContext mmu src grows handle).2 = mmu.withRouting r := by
  obtain ⟨r, mmu', hr⟩ : ∃ r m, mmuForkContext mmu src grows handle = (r, m) := ⟨_, _, rfl⟩
  rw [hr]
  rcases mmuForkContext_cases h.allocator hr with ⟨_, rfl, _⟩ | ⟨_, _, _, _, _, rfl⟩ | ⟨_, _, _, _, _, rfl⟩
  · exact ⟨mmu'.routing, rfl⟩
  · exact ⟨_, rfl⟩
  · exact ⟨_, rfl⟩

theorem Settled.forked (h : mmu.Settled) (ids : List Int) (contexts : KeyedMap CtxHandle Context) :
    (mmu.withRouting ⟨mmu.l1Allocator.retainAll ids, contexts⟩).Settled :=
  h.withRouting (h.allocator.retainAll ids) (retainAll_size _ _) (retainAll_live h.allocator ids)

theorem Settled.leaked (h : mmu.Settled) (b : Int) :
    (mmu.withRouting ⟨(mmu.l1Allocator.retain b).2, mmu.contexts⟩).Settled :=
  h.withRouting (h.allocator.retain b) (retain_size _ _) (retain_live h.allocator b)

end Contexts

section Register

variable {mmu mmu' : MmuRuntime} {live : Int → Prop} {p : Int}

/-- A block nobody has written: no page, no pin, zero bytes. -/
def IsFresh (p : Int) (v : BlockView) : Prop := (∃ e, v = .freshResident p e) ∨ v = .freshSwapped

theorem IsFresh.bytes {v : BlockView} (h : IsFresh p v) (zero : Bytes) : v.bytes zero = zero := by
  rcases h with ⟨e, rfl⟩ | rfl
  · simp [BlockView.bytes, BlockView.freshResident]
  · simp [BlockView.bytes, BlockView.freshSwapped, makeFreshMeta]

theorem registerFreshBlock_coherent (h : mmu.Coherent live) (hp : mmu.Valid p) (hnew : ¬live p) :
    (registerFreshBlock mmu p).Coherent (fun q => live q ∨ q = p) ∧
      SameRouting mmu (registerFreshBlock mmu p) ∧ IsFresh p ((registerFreshBlock mmu p).block p) ∧
      ∀ q ≠ p, (registerFreshBlock mmu p).block q = mmu.block q := by
  have hunused := h.unused hnew
  have hweight : weight (mmu.block p) = 0 := by
    rw [hunused]
    rfl
  have hother : ∀ q ≠ p, (live q ↔ live q ∨ q = p) := by
    intro q hq
    simp [hq]
  obtain ⟨hroom, hfull⟩ := registerFreshBlock_effect h.sound hp
  by_cases hlt : mmu.residentCount < mmu.residentLimit
  · have he := hroom hlt
    refine ⟨?_, he.routing, ?_, ?_⟩
    · apply h.of_update he hp ((BlockView.freshResident_ok _).congr (by simp)) hother
      · rw [hweight]
        rfl
      · omega
    · rw [he.blocks, Function.update_self]
      exact .inl ⟨_, rfl⟩
    · intro q hq
      rw [he.blocks, Function.update_of_ne hq]
  · have he := hfull hlt
    refine ⟨?_, he.routing, ?_, ?_⟩
    · apply h.of_update he hp (BlockView.freshSwapped_ok.congr (by simp)) hother
      · rw [hweight]
        rfl
      · exact h.limit
    · rw [he.blocks, Function.update_self]
      exact .inr rfl
    · intro q hq
      rw [he.blocks, Function.update_of_ne hq]

/-- Registering distinct blocks, none of them in use, one after the other. -/
theorem registerAll_coherent (ids : List Int) (h : mmu.Coherent live) (hnd : ids.Nodup)
    (hids : ∀ q ∈ ids, mmu.Valid q ∧ ¬live q) :
    (ids.foldl registerFreshBlock mmu).Coherent (fun q => live q ∨ q ∈ ids) ∧
      SameRouting mmu (ids.foldl registerFreshBlock mmu) ∧
      (∀ q ∈ ids, IsFresh q ((ids.foldl registerFreshBlock mmu).block q)) ∧
      ∀ q, q ∉ ids → (ids.foldl registerFreshBlock mmu).block q = mmu.block q := by
  induction ids generalizing mmu live with
  | nil =>
    refine ⟨h.congr (by simp), .refl mmu, by simp, fun _ _ => rfl⟩
  | cons p rest ih =>
    obtain ⟨hpr, hrest⟩ := List.nodup_cons.mp hnd
    obtain ⟨hpv, hpl⟩ := hids p (by simp)
    obtain ⟨hc, hr, hfresh, hsame⟩ := registerFreshBlock_coherent h hpv hpl
    have hids' : ∀ q ∈ rest, (registerFreshBlock mmu p).Valid q ∧ ¬(live q ∨ q = p) := by
      intro q hq
      obtain ⟨hv, hl⟩ := hids q (List.mem_cons_of_mem _ hq)
      refine ⟨(hr.valid q).mpr hv, ?_⟩
      rintro (hlq | rfl)
      · exact hl hlq
      · exact hpr hq
    obtain ⟨hc', hr', hfresh', hsame'⟩ := ih hc hrest hids'
    rw [List.foldl_cons]
    refine ⟨hc'.congr (by intro q; rw [List.mem_cons]; tauto), hr.trans hr', ?_, ?_⟩
    · intro q hq
      rcases List.mem_cons.mp hq with rfl | hq'
      · rw [hsame' q hpr]
        exact hfresh
      · exact hfresh' q hq'
    · intro q hq
      have hqp : q ≠ p := fun he => hq (he ▸ List.mem_cons_self)
      rw [hsame' q (fun hm => hq (List.mem_cons_of_mem _ hm)), hsame q hqp]

/-- A successful allocation: the new blocks are fresh, all others as before. -/
structure Registered (mmu mmu' : MmuRuntime) (ids : List Int) (r : Routing) : Prop where
  settled : mmu'.Settled
  setup : SameSetup mmu mmu'
  routing : mmu'.routing = r
  fresh : ∀ q ∈ ids, IsFresh q (mmu'.block q)
  blocks : ∀ q, q ∉ ids → mmu'.block q = mmu.block q

theorem mmuAllocateBlocks_cases (h : mmu.Settled) {ctx : CtxHandle} {n : UInt32} {r : Except MmuError Unit}
    (hr : mmuAllocateBlocks mmu ctx n = (r, mmu')) :
    ((findContext mmu ctx = none ∨ u32ToInt n = none) ∧ (∃ e, r = .error e ∧ e ≠ .outOfMemory) ∧ mmu' = mmu) ∨
    (∃ c count ids bm, findContext mmu ctx = some c ∧ u32ToInt n = some count ∧
      Taken mmu.l1Allocator ids bm ∧ (ids.length : Int) < count ∧ bm.freeList = [] ∧
      r = .error .outOfMemory ∧
      mmu' = mmu.withRouting ⟨bm.releaseAll ids, mmu.contexts.insert ctx (c.grown ids)⟩) ∨
    ∃ c count ids bm, findContext mmu ctx = some c ∧ u32ToInt n = some count ∧
      Taken mmu.l1Allocator ids bm ∧ (ids.length : Int) = count ∧ r = .ok () ∧
      Registered mmu mmu' ids ⟨bm, mmu.contexts.insert ctx (c.grown ids)⟩ := by
  unfold mmuAllocateBlocks at hr
  split at hr
  next hc =>
    cases hr
    exact .inl ⟨.inl hc, ⟨.badHandle, rfl, by decide⟩, rfl⟩
  next c hc =>
    split at hr
    next hn =>
      cases hr
      exact .inl ⟨.inr hn, ⟨.invalidArgument, rfl, by decide⟩, rfl⟩
    next count hcount =>
      rw [reclaimUnusedResidentBlocks_self h] at hr
      dsimp only at hr
      have hpos : 0 ≤ count := by
        have := (u32ToInt_eq_some hcount).1
        omega
      obtain ⟨ids, bm, ht, hcase⟩ := allocateBlocks_spec h.allocator c hpos
      rcases hcase with ⟨hlen, heq⟩ | ⟨hlen, hempty, heq⟩
      · rw [heq] at hr
        cases hr
        refine .inr (.inr ⟨c, count, ids, bm, hc, hcount, ht, hlen, rfl, ?_⟩)
        rw [setContext_eq]
        have hcoh : (mmu.withRouting ⟨bm, mmu.contexts.insert ctx (c.grown ids)⟩).Coherent mmu.Live :=
          h.coherent.withRouting ht.size
        have hids : ∀ q ∈ ids, mmu.Valid q ∧ ¬mmu.Live q := by
          intro q hq
          refine ⟨h.coherent.sound.refs_inRange.mp (ht.free q hq).1, ?_⟩
          intro hl
          exact ht.not_mem hl hq
        obtain ⟨hc', hr', hfresh, hsame⟩ := registerAll_coherent ids hcoh ht.nodup hids
        have hlive : ∀ q, mmu.Live q ∨ q ∈ ids ↔ 0 < bm.refCounts.entry q := by
          intro q
          rw [ht.entry]
          by_cases hq : q ∈ ids
          · simp [hq]
          · simp only [hq, or_false, if_false]
            rfl
        refine ⟨⟨?_, ?_⟩, ⟨hr'.config, hr'.limit, hr'.replies⟩, hr'.routing_eq, hfresh, hsame⟩
        · rw [hr'.allocator]
          exact ht.ok
        · exact hc'.congr (fun q => (hlive q).trans (hr'.live q).symm)
      · rw [heq] at hr
        cases hr
        exact .inr (.inl ⟨c, count, ids, bm, hc, hcount, ht, hlen, hempty, rfl, rfl⟩)

/-- The entries that a call appended to the table of a context. -/
def newBlocks (mmu mmu' : MmuRuntime) (ctx : CtxHandle) : List Int :=
  match findContext mmu ctx, findContext mmu' ctx with
  | some c, some c' => c'.pageTable.entries.drop c.pageTable.entries.length
  | _, _ => []

theorem newBlocks_grown {ctx : CtxHandle} {c : Context} {ids : List Int} (hc : findContext mmu ctx = some c)
    (hcontexts : mmu'.contexts = mmu.contexts.insert ctx (c.grown ids)) : newBlocks mmu mmu' ctx = ids := by
  have htable : findContext mmu' ctx = some (c.grown ids) :=
    findContext_inserted (findContext_find? hc).1 hcontexts
  have hentries : (c.grown ids).pageTable.entries = c.pageTable.entries ++ ids := rfl
  unfold newBlocks
  rw [hc, htable]
  simp only [hentries, List.drop_left]

/-- An allocation that succeeds registers its blocks one after the other. -/
theorem mmuAllocateBlocks_registers (h : mmu.Settled) {ctx : CtxHandle} {n : UInt32} {u : Unit}
    (hr : mmuAllocateBlocks mmu ctx n = (.ok u, mmu')) :
    ∃ c ids bm, findContext mmu ctx = some c ∧ Taken mmu.l1Allocator ids bm ∧
      mmu' = ids.foldl registerFreshBlock (mmu.withRouting ⟨bm, mmu.contexts.insert ctx (c.grown ids)⟩) := by
  unfold mmuAllocateBlocks at hr
  split at hr
  next => cases hr
  next c hc =>
    split at hr
    next => cases hr
    next count hcount =>
      rw [reclaimUnusedResidentBlocks_self h] at hr
      dsimp only at hr
      have hpos : 0 ≤ count := by
        have := (u32ToInt_eq_some hcount).1
        omega
      obtain ⟨ids, bm, ht, hcase⟩ := allocateBlocks_spec h.allocator c hpos
      rcases hcase with ⟨_, heq⟩ | ⟨_, _, heq⟩
      · rw [heq] at hr
        obtain ⟨_, rfl⟩ := Prod.mk.inj hr
        exact ⟨c, ids, bm, hc, ht, rfl⟩
      · rw [heq] at hr
        cases hr

theorem Settled.exhausted (h : mmu.Settled) {ids : List Int} {bm : BlockManager}
    (ht : Taken mmu.l1Allocator ids bm) (contexts : KeyedMap CtxHandle Context) :
    (mmu.withRouting ⟨bm.releaseAll ids, contexts⟩).Settled :=
  h.withRouting (ht.ok.releaseAll ids) ((releaseAll_size _ _).trans ht.size) (exhausted_live ht)

end Register

end DsfMmu
