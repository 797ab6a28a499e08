import DsfMmu.Calls
import DsfMmu.CopyOnWrite
import DsfMmu.Provision

namespace DsfMmu

open MmuRuntime BlockManager Context

section SingleMap

variable {mmu mmu' : MmuRuntime} {ctx : CtxHandle} {lb flags : UInt32}

theorem Remapped.context {b new lvid : Int} {v : BlockView} {bm : BlockManager} {c : Context}
    (h : Remapped mmu mmu' b new v ⟨bm, mmu.contexts.insert ctx (c.remapped lvid new)⟩)
    (hne : ctx ≠ nullHandle) : findContext mmu' ctx = some (c.remapped lvid new) := by
  have hcontexts : mmu'.contexts = mmu.contexts.insert ctx (c.remapped lvid new) :=
    congrArg Routing.contexts h.routing
  exact findContext_inserted hne hcontexts

/-- A prepared entry names a block that no other entry names. -/
theorem mmuPrepareBlockForWrite_ok (h : mmu.Settled) {p : Int}
    (hr : mmuPrepareBlockForWrite mmu ctx lb = (.ok p, mmu')) :
    mmu'.Settled ∧ ∃ c lvid, findContext mmu' ctx = some c ∧ u32ToInt lb = some lvid ∧
      c.Names mmu'.l1Allocator lvid p ∧ mmu'.l1Allocator.refCounts.entry p = 1 := by
  rcases mmuPrepareBlockForWrite_cases h hr with
    ⟨⟨e, he⟩, _⟩ | ⟨c, lvid, b, hc, hlvid, hn, hone, hres, rfl⟩ |
    ⟨c, lvid, b, new, bm, v, hc, hlvid, hn, hshared, ht, hm, hres⟩
  · cases he
  · cases Except.ok.inj hres
    exact ⟨h, c, lvid, hc, hlvid, hn, hone⟩
  · rcases hres with ⟨_, hres⟩ | ⟨_, e, he⟩
    · cases Except.ok.inj hres
      have halloc : mmu'.l1Allocator = (bm.release b).2 := congrArg Routing.allocator hm.routing
      have hentry : mmu'.l1Allocator.refCounts.entry p = 1 := by
        rw [halloc, remap_entry ht hshared, if_pos rfl]
      have hbounds := (PageTable.get_eq_some.mp hn.entry).1
      refine ⟨hm.settled, c.remapped lvid p, lvid, hm.context (findContext_find? hc).1, hlvid, ?_, hentry⟩
      refine ⟨?_, ?_, by omega⟩
      · show (c.pageTable.set lvid p).get lvid = some p
        rw [PageTable.get_set hbounds, if_pos rfl]
      · exact ht.ne_unallocated (List.mem_singleton.mpr rfl)
    · cases he

theorem mmuMapLogicalBlock_invalid (hf : ¬validateMapFlags flags = true) :
    mmuMapLogicalBlock mmu ctx lb flags = (.error .invalidArgument, mmu) := by
  unfold mmuMapLogicalBlock
  rw [if_pos (by simpa using hf)]

/-- A READ map goes straight to the mapping proper. -/
theorem mmuMapLogicalBlock_unwritten {c : Context} {lvid : Int} (hvalid : validateMapFlags flags = true)
    (hread : hasWrite flags = false) (hc : findContext mmu ctx = some c) (hlvid : u32ToInt lb = some lvid) :
    mmuMapLogicalBlock mmu ctx lb flags = mapResolved mmu c lvid lb flags := by
  unfold mmuMapLogicalBlock
  rw [hvalid, if_neg (by simp), hc]
  dsimp only
  rw [hlvid]
  dsimp only
  rw [hread, if_neg (by simp)]

/-- Where a map goes: refused at once, stopped by the write preparation, or on to the mapping proper. -/
theorem mmuMapLogicalBlock_cases (h : mmu.Settled) {r : Except MmuError MappedBlock}
    (hm : mmuMapLogicalBlock mmu ctx lb flags = (r, mmu')) :
    ((∃ e, r = .error e) ∧ mmu' = mmu) ∨
    (hasWrite flags = true ∧ ∃ e, r = .error e ∧ mmuPrepareBlockForWrite mmu ctx lb = (.error e, mmu')) ∨
    ∃ mid c lvid, findContext mid ctx = some c ∧ u32ToInt lb = some lvid ∧
      (hasWrite flags = false ∧ mid = mmu ∨
        hasWrite flags = true ∧ ∃ b, mmuPrepareBlockForWrite mmu ctx lb = (.ok b, mid)) ∧
      mapResolved mid c lvid lb flags = (r, mmu') := by
  unfold mmuMapLogicalBlock at hm
  split at hm
  next => cases hm; exact .inl ⟨⟨_, rfl⟩, rfl⟩
  next =>
    split at hm
    next => cases hm; exact .inl ⟨⟨_, rfl⟩, rfl⟩
    next c hc =>
      split at hm
      next => cases hm; exact .inl ⟨⟨_, rfl⟩, rfl⟩
      next lvid hlvid =>
        split at hm
        next hw =>
          split at hm
          next e m1 hprep =>
            obtain ⟨rfl, rfl⟩ := Prod.mk.inj hm
            exact .inr (.inl ⟨hw, e, rfl, hprep⟩)
          next b m1 hprep =>
            obtain ⟨_, c1, _, hc1, _⟩ := mmuPrepareBlockForWrite_ok h hprep
            rw [hc1] at hm
            exact .inr (.inr ⟨m1, c1, lvid, hc1, hlvid, .inr ⟨hw, b, hprep⟩, hm⟩)
        next hw =>
          exact .inr (.inr ⟨mmu, c, lvid, hc, hlvid, .inl ⟨by simpa using hw, rfl⟩, hm⟩)

end SingleMap

/-! Every call keeps the runtime settled, and changes the routing by the steps of `Routing.Step` only. -/

section Kept

variable {mmu mmu' : MmuRuntime}

/-- What one call may do: the state stays settled, the setup stays, the routing makes clean steps. -/
structure Clean (mmu mmu' : MmuRuntime) : Prop where
  settled : mmu'.Settled
  setup : SameSetup mmu mmu'
  routing : ∀ allowed : Event → Prop, allowed .plain → Routing.Run allowed mmu.routing mmu'.routing

theorem MmuRuntime.Settled.clean_refl (h : mmu.Settled) : Clean mmu mmu :=
  ⟨h, .refl mmu, fun _ _ => .refl⟩

theorem Clean.trans {a b c : MmuRuntime} (h : Clean a b) (h' : Clean b c) : Clean a c :=
  ⟨h'.settled, h.setup.trans h'.setup, fun al hal => (h.routing al hal).trans (h'.routing al hal)⟩

theorem Clean.of_same (hs : mmu'.Settled) (hr : SameRouting mmu mmu') : Clean mmu mmu' := by
  refine ⟨hs, hr.setup, ?_⟩
  intro allowed _
  rw [hr.routing_eq]
  exact .refl

theorem Clean.of_step {r : Routing} (hs : mmu'.Settled) (hset : SameSetup mmu mmu') (hr : mmu'.routing = r)
    (hstep : mmu.routing.Step .plain r) : Clean mmu mmu' := by
  refine ⟨hs, hset, ?_⟩
  intro allowed hnone
  rw [hr]
  exact .single hnone hstep

theorem MmuRuntime.Quiet.clean (hs : mmu.Settled) (h : Quiet mmu.Live mmu mmu') : Clean mmu mmu' :=
  .of_same (h.settled hs) h.routing

theorem Remapped.step {ctx : CtxHandle} {c : Context} {lvid b new : Int} {bm : BlockManager} {v : BlockView}
    (hc : findContext mmu ctx = some c) (hn : c.Names mmu.l1Allocator lvid b)
    (hshared : 1 < mmu.l1Allocator.refCounts.entry b) (ht : Taken mmu.l1Allocator [new] bm)
    (h : Remapped mmu mmu' b new v ⟨(bm.release b).2, mmu.contexts.insert ctx (c.remapped lvid new)⟩) :
    Clean mmu mmu' := by
  refine .of_step h.settled h.setup h.routing ?_
  exact Routing.Step.remapped (r := mmu.routing) (findContext_find? hc).2 hn hshared ht

theorem prepare_clean (h : mmu.Settled) {ctx : CtxHandle} {lb : UInt32} {r : Except MmuError Int}
    (hr : mmuPrepareBlockForWrite mmu ctx lb = (r, mmu')) : Clean mmu mmu' := by
  rcases mmuPrepareBlockForWrite_cases h hr with
    ⟨_, rfl, _⟩ | ⟨_, _, _, _, _, _, _, _, rfl⟩ | ⟨c, lvid, b, new, bm, v, hc, _, hn, hshared, ht, hm, _⟩
  · exact h.clean_refl
  · exact h.clean_refl
  · exact hm.step hc hn hshared ht

theorem mapResolved_clean (h : mmu.Settled) {c : Context} {lvid : Int} {lb flags : UInt32}
    {r : Except MmuError MappedBlock} (hm : mapResolved mmu c lvid lb flags = (r, mmu')) : Clean mmu mmu' := by
  cases r with
  | error e => exact (mapResolved_error h hm).1.clean h
  | ok d =>
    obtain ⟨_, hmap, _⟩ := mapResolved_ok h hm
    exact .of_same hmap.settled hmap.routing

theorem map_clean (h : mmu.Settled) {ctx : CtxHandle} {lb flags : UInt32} {r : Except MmuError MappedBlock}
    (hm : mmuMapLogicalBlock mmu ctx lb flags = (r, mmu')) : Clean mmu mmu' := by
  rcases mmuMapLogicalBlock_cases h hm with
    ⟨_, rfl⟩ | ⟨_, e, _, hprep⟩ | ⟨mid, c, lvid, _, _, ⟨_, rfl⟩ | ⟨_, b, hprep⟩, hmap⟩
  · exact h.clean_refl
  · exact prepare_clean h hprep
  · exact mapResolved_clean h hmap
  · have hp := prepare_clean h hprep
    exact hp.trans (mapResolved_clean hp.settled hmap)

theorem unmap_clean (h : mmu.Settled) {ctx : CtxHandle} {d : MappedBlock} {r : Except MmuError Unit}
    (hu : mmuUnmapLogicalBlock mmu ctx d = (r, mmu')) : Clean mmu mmu' := by
  rcases mmuUnmapLogicalBlock_cases h hu with ⟨_, rfl⟩ | ⟨_, _, _, _, _, hun⟩
  · exact h.clean_refl
  · exact .of_same hun.settled hun.routing

/-! Batches: what every single map and unmap does, a batch does. -/

section Batch

variable {R : MmuRuntime → MmuRuntime → Prop} {ctx : CtxHandle} {flags : UInt32}

theorem unmapAll_cons {d : MappedBlock} {r : Except MmuError Unit} (hu : mmuUnmapLogicalBlock mmu ctx d = (r, mmu'))
    (rest : List MappedBlock) : unmapAll ctx (d :: rest) mmu = unmapAll ctx rest mmu' := by
  simp only [unmapAll, List.foldl_cons, hu]

/-- The state after a batch of unmaps does not depend on the statuses. -/
theorem unmapBlocksLoop_state (ctx : CtxHandle) (ds : List MappedBlock) (first : Except MmuError Unit)
    (mmu : MmuRuntime) : (unmapBlocksLoop ctx ds first mmu).2 = unmapAll ctx ds mmu := by
  induction ds generalizing mmu first with
  | nil => rfl
  | cons d rest ih =>
    unfold unmapBlocksLoop
    split
    next hu =>
      rw [unmapAll_cons hu]
      exact ih _ _
    next hu =>
      rw [unmapAll_cons hu]
      exact ih _ _

theorem unmapAll_rel (refl : ∀ m, R m m) (trans : ∀ a b c, R a b → R b c → R a c)
    (unmap : ∀ m d r m', m.Settled → mmuUnmapLogicalBlock m ctx d = (r, m') → R m m')
    (ds : List MappedBlock) (h : mmu.Settled) : R mmu (unmapAll ctx ds mmu) ∧ (unmapAll ctx ds mmu).Settled := by
  induction ds generalizing mmu with
  | nil => exact ⟨refl mmu, h⟩
  | cons d rest ih =>
    obtain ⟨r, m, hu⟩ : ∃ r m, mmuUnmapLogicalBlock mmu ctx d = (r, m) := ⟨_, _, rfl⟩
    obtain ⟨hrest, hs⟩ := ih (unmap_clean h hu).settled
    rw [unmapAll_cons hu rest]
    exact ⟨trans _ _ _ (unmap _ _ _ _ h hu) hrest, hs⟩

theorem mapBlocksLoop_rel (refl : ∀ m, R m m) (trans : ∀ a b c, R a b → R b c → R a c)
    (map : ∀ m lb r m', m.Settled → mmuMapLogicalBlock m ctx lb flags = (r, m') → R m m')
    (unmap : ∀ m d r m', m.Settled → mmuUnmapLogicalBlock m ctx d = (r, m') → R m m')
    {r : Except MmuError (List MappedBlock)} (lbs : List UInt32) (done : List MappedBlock) (h : mmu.Settled)
    (hm : mapBlocksLoop ctx flags lbs done mmu = (r, mmu')) : R mmu mmu' ∧ mmu'.Settled := by
  induction lbs generalizing mmu done with
  | nil =>
    obtain ⟨_, rfl⟩ := Prod.mk.inj hm
    exact ⟨refl mmu, h⟩
  | cons lb rest ih =>
    unfold mapBlocksLoop at hm
    split at hm
    next e m1 hone =>
      obtain ⟨_, rfl⟩ := Prod.mk.inj hm
      obtain ⟨hback, hs⟩ := unmapAll_rel refl trans unmap done (map_clean h hone).settled
      exact ⟨trans _ _ _ (map _ _ _ _ h hone) hback, hs⟩
    next d m1 hone =>
      obtain ⟨hrest, hs⟩ := ih (done ++ [d]) (map_clean h hone).settled hm
      exact ⟨trans _ _ _ (map _ _ _ _ h hone) hrest, hs⟩

theorem perform_unmaps (mmu : MmuRuntime) (ctx : CtxHandle) (ds : List MappedBlock) :
    (perform mmu (.unmapLogicalBlocks ctx ds)).2 = unmapAll ctx ds mmu :=
  unmapBlocksLoop_state ctx ds (.ok ()) mmu

end Batch

/-- A store through a mapping changes the bytes of the L1 page at that address, if there is one. -/
theorem hostWrite_block (mmu : MmuRuntime) (d : MappedBlock) (offset : Nat) (byte : UInt8) (q : Int) :
    (hostWrite mmu d offset byte).block q = (mmu.block q).stored d.hostPtr offset byte := by
  have hl2 : (hostWrite mmu d offset byte).page .l2 q = mmu.page .l2 q := rfl
  have hmeta : (hostWrite mmu d offset byte).blockDirectory = mmu.blockDirectory := rfl
  simp only [block, hl2, hmeta, BlockView.stored, BlockView.mk.injEq, true_and, and_true]
  cases howner : mmu.l1Pool.ownerPages.entry q with
  | none =>
    have h1 : mmu.page .l1 q = none := page_eq_none.mpr howner
    have h2 : (hostWrite mmu d offset byte).page .l1 q = none := page_eq_none.mpr howner
    rw [h1, h2]
    rfl
  | some ptr =>
    have h1 : mmu.page .l1 q = some ⟨ptr, mmu.l1Pool.bytes ptr⟩ := page_eq_some.mpr ⟨howner, rfl⟩
    have h2 : (hostWrite mmu d offset byte).page .l1 q =
        some ⟨ptr, (hostWrite mmu d offset byte).l1Pool.bytes ptr⟩ := page_eq_some.mpr ⟨howner, rfl⟩
    rw [h1, h2, Option.map_some]
    dsimp only
    congr 1
    by_cases hptr : ptr = d.hostPtr
    · simp [hptr, hostWrite, ChunkPool.write]
    · simp [hptr, hostWrite, ChunkPool.write]

theorem hostWrite_clean (h : mmu.Settled) (d : MappedBlock) (offset : Nat) (byte : UInt8) :
    Clean mmu (hostWrite mmu d offset byte) := by
  have hsound : (hostWrite mmu d offset byte).Sound :=
    write_sound h.coherent.sound .l1 d.hostPtr ((mmu.l1Pool.bytes d.hostPtr).set offset byte)
  have hcoh : (hostWrite mmu d offset byte).Coherent mmu.Live := by
    refine ⟨hsound, h.coherent.valid, ?_, h.coherent.count, h.coherent.limit⟩
    intro q
    rw [hostWrite_block]
    exact BlockView.stored_ok (h.coherent.blocks q) _ _ _
  exact .of_same ⟨h.allocator, hcoh⟩ ⟨rfl, rfl, rfl, rfl, rfl⟩

end Kept

section Calls

variable {mmu mmu' : MmuRuntime}

/-- The fork of `src` leaks a reference. -/
def LeakyFork (mmu : MmuRuntime) (src : CtxHandle) (grows : Nat → Bool) : Prop :=
  ∃ c b, findContext mmu src = some c ∧ c.ForkLeaks mmu.l1Allocator grows b

/-- What a step of a run keeps, the events of its routing steps being allowed. -/
structure Kept (allowed : Event → Prop) (mmu mmu' : MmuRuntime) : Prop where
  settled : mmu'.Settled
  setup : SameSetup mmu mmu'
  routing : Routing.Run allowed mmu.routing mmu'.routing

theorem Clean.kept {allowed : Event → Prop} (h : Clean mmu mmu') (hnone : allowed .plain) :
    Kept allowed mmu mmu' := ⟨h.settled, h.setup, h.routing allowed hnone⟩

theorem Kept.of_step {allowed : Event → Prop} {m : Event} {r : Routing} (hs : mmu'.Settled)
    (hset : SameSetup mmu mmu') (hr : mmu'.routing = r) (hm : allowed m) (hstep : mmu.routing.Step m r) :
    Kept allowed mmu mmu' := by
  refine ⟨hs, hset, ?_⟩
  rw [hr]
  exact .single hm hstep

/-- The events of a call are allowed. -/
def EventsOf (allowed : Event → Prop) (mmu : MmuRuntime) (call : Call) : Prop :=
  match call with
  | .allocateBlocks ctx n =>
    ((perform mmu call).1 = .status (.error .outOfMemory) →
      allowed (.blocksExhausted (mmuGetFreeBlockCount mmu))) ∧
      ∀ c, findContext mmu ctx = some c → allowed (.tableGrown (c.pageTable.entries.length + n.toNat))
  | .forkContext src grows _ => LeakyFork mmu src grows → allowed .appendRefused
  | _ => True

theorem eventsOf_any (mmu : MmuRuntime) (call : Call) : EventsOf (fun _ => True) mmu call := by
  cases call with
  | allocateBlocks => exact ⟨fun _ => trivial, fun _ _ => trivial⟩
  | forkContext => exact fun _ => trivial
  | _ => trivial

theorem fork_kept {allowed : Event → Prop} (h : mmu.Settled) {src : CtxHandle} {grows : Nat → Bool}
    {handle : Option CtxHandle} (hp : Permitted mmu (.forkContext src grows handle)) (hnone : allowed .plain)
    (hleaky : LeakyFork mmu src grows → allowed .appendRefused) {r : Except MmuError CtxHandle}
    (hr : mmuForkContext mmu src grows handle = (r, mmu')) : Kept allowed mmu mmu' := by
  rcases mmuForkContext_cases h.allocator hr with
    ⟨_, rfl, _⟩ | ⟨c, ctx, hc, rfl, _, rfl⟩ | ⟨c, b, hc, hleak, _, rfl⟩
  · exact h.clean_refl.kept hnone
  · exact .of_step (Settled.forked h _ _) (withRouting_setup _ _) rfl hnone
      (.forked (r := mmu.routing) (findContext_find? hc).2 hp)
  · have hallowed : allowed .appendRefused := hleaky ⟨c, b, hc, hleak⟩
    obtain ⟨i, hi, _, _, hun, hpos⟩ := hleak
    have hmem : b ∈ namedBlocks c.pageTable := mem_namedBlocks.mpr ⟨List.mem_of_getElem? hi, hun⟩
    exact .of_step (Settled.leaked h b) (withRouting_setup _ _) rfl hallowed
      (.leaked (r := mmu.routing) (findContext_find? hc).2 hmem hpos)

theorem allocate_kept {allowed : Event → Prop} (h : mmu.Settled) {ctx : CtxHandle} {n : UInt32}
    (hnone : allowed .plain) {r : Except MmuError Unit} (hr : mmuAllocateBlocks mmu ctx n = (r, mmu'))
    (hexhausted : r = .error .outOfMemory → allowed (.blocksExhausted (mmuGetFreeBlockCount mmu)))
    (hgrown : ∀ c, findContext mmu ctx = some c → allowed (.tableGrown (c.pageTable.entries.length + n.toNat))) :
    Kept allowed mmu mmu' := by
  rcases mmuAllocateBlocks_cases h hr with
    ⟨_, _, rfl⟩ | ⟨c, count, ids, bm, hc, _, ht, _, hempty, rfl, rfl⟩ |
    ⟨c, count, ids, bm, hc, hcount, ht, hlen, _, hreg⟩
  · exact h.clean_refl.kept hnone
  · have hallowed := hexhausted rfl
    have htaken : ids.length = mmuGetFreeBlockCount mmu := ht.all hempty
    rw [← htaken] at hallowed
    exact .of_step (Settled.exhausted h ht _) (withRouting_setup _ _) rfl hallowed
      (.exhausted (r := mmu.routing) (findContext_find? hc).2 ht)
  · have hn : ids.length = n.toNat := by
      have := (u32ToInt_eq_some hcount).1
      omega
    have hg := hgrown c hc
    rw [← hn] at hg
    exact .of_step hreg.settled hreg.setup hreg.routing hg
      (.allocated (r := mmu.routing) (findContext_find? hc).2 ht)

/-- Every call keeps the runtime settled, whatever it returns. -/
theorem perform_kept {allowed : Event → Prop} (h : mmu.Settled) {call : Call} (hp : Permitted mmu call)
    (hnone : allowed .plain) (hev : EventsOf allowed mmu call) : Kept allowed mmu (perform mmu call).2 := by
  cases call with
  | createContext handle =>
    obtain ⟨r, m, hr⟩ : ∃ r m, mmuCreateContext mmu handle = (r, m) := ⟨_, _, rfl⟩
    simp only [perform, hr]
    rcases mmuCreateContext_cases hr with ⟨_, _, rfl⟩ | ⟨ctx, rfl, _, rfl⟩
    · exact h.clean_refl.kept hnone
    · exact .of_step (Settled.created h _) (withRouting_setup _ _) rfl hnone
        (.created (r := mmu.routing) hp rfl)
  | destroyContext ctx =>
    show Kept allowed mmu (mmuDestroyContext mmu ctx)
    cases hc : findContext mmu ctx with
    | none =>
      rw [mmuDestroyContext_none hc]
      exact h.clean_refl.kept hnone
    | some c =>
      have hf := mmuDestroyContext_forgot h hc
      exact .of_step hf.settled hf.setup hf.routing hnone
        (.destroyed (r := mmu.routing) (findContext_find? hc).2)
  | forkContext src grows handle =>
    obtain ⟨r, m, hr⟩ : ∃ r m, mmuForkContext mmu src grows handle = (r, m) := ⟨_, _, rfl⟩
    simp only [perform, hr]
    exact fork_kept h hp hnone hev hr
  | allocateBlocks ctx n =>
    obtain ⟨r, m, hr⟩ : ∃ r m, mmuAllocateBlocks mmu ctx n = (r, m) := ⟨_, _, rfl⟩
    obtain ⟨hexhausted, hgrown⟩ : ((perform mmu (.allocateBlocks ctx n)).1 = .status (.error .outOfMemory) →
      allowed (.blocksExhausted (mmuGetFreeBlockCount mmu))) ∧ ∀ c, findContext mmu ctx = some c →
      allowed (.tableGrown (c.pageTable.entries.length + n.toNat)) := hev
    simp only [perform, hr] at hexhausted ⊢
    refine allocate_kept h hnone hr ?_ hgrown
    intro hdry
    rw [hdry] at hexhausted
    exact hexhausted rfl
  | releaseLogicalBlock ctx lb =>
    obtain ⟨r, m, hr⟩ : ∃ r m, mmuReleaseLogicalBlock mmu ctx lb = (r, m) := ⟨_, _, rfl⟩
    simp only [perform, hr]
    rcases mmuReleaseLogicalBlock_cases h hr with ⟨_, rfl⟩ | ⟨c, lvid, b, hc, _, hn, _, hf⟩
    · exact h.clean_refl.kept hnone
    · exact .of_step hf.settled hf.setup hf.routing hnone
        (.released (r := mmu.routing) (findContext_find? hc).2 hn)
  | prepareBlockForWrite ctx lb =>
    obtain ⟨r, m, hr⟩ : ∃ r m, mmuPrepareBlockForWrite mmu ctx lb = (r, m) := ⟨_, _, rfl⟩
    simp only [perform, hr]
    exact (prepare_clean h hr).kept hnone
  | mapLogicalBlock ctx lb flags =>
    obtain ⟨r, m, hr⟩ : ∃ r m, mmuMapLogicalBlock mmu ctx lb flags = (r, m) := ⟨_, _, rfl⟩
    simp only [perform, hr]
    exact (map_clean h hr).kept hnone
  | mapLogicalBlocks ctx lbs flags =>
    obtain ⟨r, m, hr⟩ : ∃ r m, mmuMapLogicalBlocks mmu ctx lbs flags = (r, m) := ⟨_, _, rfl⟩
    simp only [perform, hr]
    obtain ⟨hk, hs⟩ := mapBlocksLoop_rel
      (R := fun a b => SameSetup a b ∧ Routing.Run allowed a.routing b.routing)
      (fun m => ⟨.refl m, .refl⟩) (fun _ _ _ hab hbc => ⟨hab.1.trans hbc.1, hab.2.trans hbc.2⟩)
      (fun _ _ _ _ hm he => ⟨(map_clean hm he).setup, (map_clean hm he).routing allowed hnone⟩)
      (fun _ _ _ _ hm he => ⟨(unmap_clean hm he).setup, (unmap_clean hm he).routing allowed hnone⟩)
      lbs [] h hr
    exact ⟨hs, hk.1, hk.2⟩
  | unmapLogicalBlock ctx d =>
    obtain ⟨r, m, hr⟩ : ∃ r m, mmuUnmapLogicalBlock mmu ctx d = (r, m) := ⟨_, _, rfl⟩
    simp only [perform, hr]
    exact (unmap_clean h hr).kept hnone
  | unmapLogicalBlocks ctx ds =>
    rw [perform_unmaps]
    obtain ⟨hk, hs⟩ := unmapAll_rel
      (R := fun a b => SameSetup a b ∧ Routing.Run allowed a.routing b.routing)
      (fun m => ⟨.refl m, .refl⟩) (fun _ _ _ hab hbc => ⟨hab.1.trans hbc.1, hab.2.trans hbc.2⟩)
      (fun _ _ _ _ hm he => ⟨(unmap_clean hm he).setup, (unmap_clean hm he).routing allowed hnone⟩)
      ds h
    exact ⟨hs, hk.1, hk.2⟩
  | hostWrite ctx d offset byte => exact (hostWrite_clean h d offset byte).kept hnone

/-- A run changes neither the configuration nor what the host will answer. -/
theorem replay_setup {calls : List Call} (h : mmu.Settled) (hp : permittedAll mmu calls = true) :
    SameSetup mmu (machine.replay mmu calls) := by
  induction calls generalizing mmu with
  | nil => exact .refl mmu
  | cons call rest ih =>
    rw [permittedAll, Bool.and_eq_true, decide_eq_true_eq] at hp
    have hk := perform_kept h hp.1 trivial (eventsOf_any mmu call)
    exact hk.setup.trans (ih hk.settled hp.2)

/-- A fresh instance is settled and its tables are empty. -/
theorem new_settled (config : ResolvedConfig) (env : HostEnv) : (MmuRuntime.new config env).Settled := by
  have hblock : ∀ p, (MmuRuntime.new config env).block p = .unused := fun _ => rfl
  have hlive : ∀ p, ¬(MmuRuntime.new config env).Live p := fun p => not_live_of_zero rfl
  have hempty : (MmuRuntime.new config env).residents = ∅ := by
    apply Finset.filter_eq_empty_iff.mpr
    intro p _
    have hr : ((MmuRuntime.new config env).blockDirectory.metas.entry p).residentInL1 = false := rfl
    rw [hr]
    exact Bool.false_ne_true
  have hsound : (MmuRuntime.new config env).Sound := by
    refine ⟨rfl, rfl, ?_, rfl, ?_, Nat.zero_le _, ?_, ?_⟩
    · intro id
      cases id <;> rfl
    · intro id
      cases id <;> exact ChunkPool.new_ok _ _
    · intro _ id
      cases id <;> exact ChunkPool.new_exact _ _
    · intro _ id
      cases id <;> exact Nat.zero_le _
  refine ⟨BlockManager.new_ok _, hsound, fun p hp => absurd hp (hlive p), ?_, ?_, Nat.zero_le _⟩
  · intro p
    rw [hblock]
    exact BlockView.unused_ok.congr (iff_false_intro (hlive p)).symm
  · rw [hempty]
    rfl

/-- In every state reached, each call failing or not, the runtime is settled. -/
theorem Reachable.settled (h : Reachable mmu) : mmu.Settled := by
  refine h.invariant ?_ ?_
  · intro s hs
    obtain ⟨config, env, rfl⟩ := initial_new hs
    exact new_settled config env
  · intro s call hs hp _
    exact (perform_kept hs hp trivial (eventsOf_any s call)).settled

end Calls

end DsfMmu
