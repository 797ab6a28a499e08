import DsfMmu.LruEviction
import DsfMmu.WriteAdmission

namespace DsfMmu

open MmuRuntime BlockManager Context

/-- What is left of `mmu_runtime_t` when pages, residency and the clock are forgotten: page tables, reference
counts and pins. -/
structure FlatRuntime where
  config : ResolvedConfig
  allocator : BlockManager
  contexts : KeyedMap CtxHandle Context
  pins : Int → Nat

namespace FlatRuntime

def findContext (s : FlatRuntime) (ctx : CtxHandle) : Option Context :=
  if ctx = nullHandle then none else s.contexts.find? ctx

def setContext (s : FlatRuntime) (bm : BlockManager) (ctx : CtxHandle) (c : Context) : FlatRuntime :=
  { s with allocator := bm, contexts := s.contexts.insert ctx c }

/-- Blocks without references have no pins. -/
def sweep (s : FlatRuntime) : FlatRuntime :=
  { s with pins := fun p => if 0 < s.allocator.refCounts.entry p then s.pins p else 0 }

/-- The block an entry leads to; one that is not in use is an internal error. -/
def resolve (s : FlatRuntime) (c : Context) (lvid : Int) : Except MmuError Int :=
  match c.pageTable.get lvid with
  | none => .error .unallocated
  | some b =>
    if b = kUnallocatedBlock then .error .unallocated
    else if s.allocator.refCounts.entry b ≤ 0 then .error .internal
    else .ok b

def create (s : FlatRuntime) (handle : Option CtxHandle) : Except MmuError CtxHandle × FlatRuntime :=
  match handle with
  | none => (.error .outOfMemory, s)
  | some ctx => (.ok ctx, s.setContext s.allocator ctx ⟨.empty, s.config.blockSizeBytes⟩)

def destroy (s : FlatRuntime) (ctx : CtxHandle) : FlatRuntime :=
  match s.findContext ctx with
  | none => s
  | some c =>
    sweep { s with
      allocator := Context.releaseAllBlocks c.pageTable s.allocator
      contexts := s.contexts.erase ctx }

def fork (s : FlatRuntime) (src : CtxHandle) (grows : Nat → Bool) (handle : Option CtxHandle) :
    Except MmuError CtxHandle × FlatRuntime :=
  if src = nullHandle then (.error .invalidArgument, s)
  else
    match s.findContext src with
    | none => (.error .badHandle, s)
    | some c =>
      match c.fork s.allocator grows with
      | (none, bm) => (.error .outOfMemory, { s with allocator := bm })
      | (some child, bm) =>
        match handle with
        | none => (.error .outOfMemory, { s with allocator := Context.releaseAllBlocks child.pageTable bm })
        | some ctx => (.ok ctx, s.setContext bm ctx child)

def allocate (s : FlatRuntime) (ctx : CtxHandle) (n : UInt32) : Except MmuError Unit × FlatRuntime :=
  match s.findContext ctx with
  | none => (.error .badHandle, s)
  | some c =>
    match u32ToInt n with
    | none => (.error .invalidArgument, s)
    | some count =>
      match c.allocateBlocks s.allocator count with
      | (.error status, bm, c) => (.error status, s.setContext bm ctx c)
      | (.ok _, bm, c) => (.ok (), s.setContext bm ctx c)

def release (s : FlatRuntime) (ctx : CtxHandle) (lb : UInt32) : Except MmuError Unit × FlatRuntime :=
  match s.findContext ctx with
  | none => (.error .badHandle, s)
  | some c =>
    match u32ToInt lb with
    | none => (.error .invalidArgument, s)
    | some lvid =>
      match s.resolve c lvid with
      | .error status => (.error status, s)
      | .ok _ =>
        match c.releaseLogicalBlock s.allocator lvid with
        | (.error status, bm, c) => (.error status, s.setContext bm ctx c)
        | (.ok _, bm, c) => (.ok (), (s.setContext bm ctx c).sweep)

def prepare (s : FlatRuntime) (ctx : CtxHandle) (lb : UInt32) : Except MmuError Int × FlatRuntime :=
  match s.findContext ctx with
  | none => (.error .badHandle, s)
  | some c =>
    match u32ToInt lb with
    | none => (.error .invalidArgument, s)
    | some lvid =>
      match s.resolve c lvid with
      | .error status => (.error status, s)
      | .ok _ =>
        match c.prepareBlockForWrite s.allocator lvid with
        | (.error status, bm, c) => (.error status, s.setContext bm ctx c)
        | (.ok pbid, bm, c) => (.ok pbid, s.setContext bm ctx c)

def pinnedBlocks (s : FlatRuntime) : Finset Int :=
  (IntTable.indices s.config.l1BlockCount).filter fun p => 0 < s.pins p

/-- Descriptors without their address. -/
def noPage : PagePtr := ⟨0, 0⟩

/-- A map of a routed block: all that is pinned has to fit in L1. -/
def mapEntry (s : FlatRuntime) (c : Context) (lvid : Int) (lb flags : UInt32) :
    Except MmuError MappedBlock × FlatRuntime :=
  match s.resolve c lvid with
  | .error status => (.error status, s)
  | .ok p =>
    if (insert p s.pinnedBlocks).card ≤ s.config.l1ResidentBlockLimit then
      (.ok ⟨noPage, s.config.blockSizeBytes, p, lb, flags⟩,
        { s with pins := Function.update s.pins p (nextPinCount (s.pins p)) })
    else (.error .outOfMemory, s)

def map (s : FlatRuntime) (ctx : CtxHandle) (lb flags : UInt32) : Except MmuError MappedBlock × FlatRuntime :=
  if validateMapFlags flags = false then (.error .invalidArgument, s)
  else
    match s.findContext ctx with
    | none => (.error .badHandle, s)
    | some c =>
      match u32ToInt lb with
      | none => (.error .invalidArgument, s)
      | some lvid =>
        if hasWrite flags then
          match s.prepare ctx lb with
          | (.error status, s) => (.error status, s)
          | (.ok _, s) =>
            match s.findContext ctx with
            | none => (.error .badHandle, s)
            | some c => s.mapEntry c lvid lb flags
        else s.mapEntry c lvid lb flags

def unmap (s : FlatRuntime) (ctx : CtxHandle) (d : MappedBlock) : Except MmuError Unit × FlatRuntime :=
  match s.findContext ctx with
  | none => (.error .badHandle, s)
  | some c =>
    if ¬s.allocator.isValid d.physicalBlockId then (.error .invalidArgument, s)
    else
      match u32ToInt d.logicalBlockId with
      | none => (.error .invalidArgument, s)
      | some lvid =>
        match s.resolve c lvid with
        | .error status => (.error status, s)
        | .ok p =>
          if p ≠ d.physicalBlockId then (.error .badHandle, s)
          else (.ok (), { s with pins := Function.update s.pins p (s.pins p - 1) })

def unmapAll (ctx : CtxHandle) (ds : List MappedBlock) (s : FlatRuntime) : FlatRuntime :=
  ds.foldl (fun s d => (s.unmap ctx d).2) s

def mapsLoop (ctx : CtxHandle) (flags : UInt32) : List UInt32 → List MappedBlock → FlatRuntime →
    Except MmuError (List MappedBlock) × FlatRuntime
  | [], done, s => (.ok done, s)
  | lb :: rest, done, s =>
    match s.map ctx lb flags with
    | (.error status, s) => (.error status, s.unmapAll ctx done)
    | (.ok d, s) => mapsLoop ctx flags rest (done ++ [d]) s

def unmapsLoop (ctx : CtxHandle) : List MappedBlock → Except MmuError Unit → FlatRuntime →
    Except MmuError Unit × FlatRuntime
  | [], firstError, s => (firstError, s)
  | d :: rest, firstError, s =>
    match s.unmap ctx d with
    | (.error status, s) =>
      unmapsLoop ctx rest (if firstError matches .ok _ then .error status else firstError) s
    | (.ok _, s) => unmapsLoop ctx rest firstError s

def perform (s : FlatRuntime) : Call → Reply × FlatRuntime
  | .createContext handle => match s.create handle with | (r, s) => (.handle r, s)
  | .destroyContext ctx => (.done, s.destroy ctx)
  | .forkContext src grows handle => match s.fork src grows handle with | (r, s) => (.handle r, s)
  | .allocateBlocks ctx n => match s.allocate ctx n with | (r, s) => (.status r, s)
  | .releaseLogicalBlock ctx lb => match s.release ctx lb with | (r, s) => (.status r, s)
  | .prepareBlockForWrite ctx lb => match s.prepare ctx lb with | (r, s) => (.block r, s)
  | .mapLogicalBlock ctx lb flags => match s.map ctx lb flags with | (r, s) => (.mapped r, s)
  | .mapLogicalBlocks ctx lbs flags => match mapsLoop ctx flags lbs [] s with | (r, s) => (.mappedAll r, s)
  | .unmapLogicalBlock ctx d => match s.unmap ctx d with | (r, s) => (.status r, s)
  | .unmapLogicalBlocks ctx ds => match unmapsLoop ctx ds (.ok ()) s with | (r, s) => (.status r, s)
  | .hostWrite _ _ _ _ => (.done, s)

def permitted (s : FlatRuntime) : Call → Prop
  | .createContext (some ctx) => ctx ≠ nullHandle ∧ s.contexts.find? ctx = none
  | .forkContext _ _ (some ctx) => ctx ≠ nullHandle ∧ s.contexts.find? ctx = none
  | _ => True

def machine : Machine FlatRuntime Call Reply := ⟨permitted, perform⟩

end FlatRuntime

def MmuRuntime.flat (mmu : MmuRuntime) : FlatRuntime :=
  ⟨mmu.config, mmu.l1Allocator, mmu.contexts, fun p => (mmu.block p).info.pinCount⟩

def MappedBlock.flat (d : MappedBlock) : MappedBlock := { d with hostPtr := FlatRuntime.noPage }

def Reply.flat : Reply → Reply
  | .mapped (.ok d) => .mapped (.ok d.flat)
  | .mappedAll (.ok ds) => .mappedAll (.ok (ds.map MappedBlock.flat))
  | r => r

/-- An instance that never runs out of L2 or of host memory, its clock behind the last epoch. -/
structure Roomy (mmu : MmuRuntime) (touches : List Int) : Prop where
  settled : mmu.Settled
  l2 : mmu.config.l2BlockCount = mmu.config.l1BlockCount
  grants : ∀ n, mmu.host.reply n = .granted
  clocked : Clocked mmu touches

theorem IsFresh.unpinned {b : Int} {v : BlockView} (h : IsFresh b v) : v.info.pinCount = 0 := by
  rcases h with ⟨e, rfl⟩ | rfl
  · rfl
  · rfl

section Flat

variable {mmu mmu' : MmuRuntime} {ctx : CtxHandle} {c : Context} {lvid : Int} {lb flags : UInt32} {touches : List Int}

theorem flat_eq (hconfig : mmu'.config = mmu.config) (hallocator : mmu'.l1Allocator = mmu.l1Allocator)
    (hcontexts : mmu'.contexts = mmu.contexts)
    (hpins : ∀ q, (mmu'.block q).info.pinCount = (mmu.block q).info.pinCount) : mmu'.flat = mmu.flat := by
  unfold MmuRuntime.flat
  rw [hconfig, hallocator, hcontexts, funext hpins]

theorem flat_update {p : Int} {n : Nat} (hr : SameRouting mmu mmu')
    (hpins : ∀ q, (mmu'.block q).info.pinCount = if q = p then n else (mmu.block q).info.pinCount) :
    mmu'.flat = { mmu.flat with pins := Function.update mmu.flat.pins p n } := by
  unfold MmuRuntime.flat
  rw [hr.config, hr.allocator, hr.contexts]
  congr 1
  funext q
  rw [hpins, Function.update_apply]

/-- The directory's answer to a resolution is what the reference counts say. -/
theorem flat_resolve (h : mmu.Settled) (c : Context) (lvid : Int) :
    mmu.flat.resolve c lvid = (c.resolveRouting mmu.blockDirectory lvid).map (·.physicalBlockId) := by
  unfold FlatRuntime.resolve
  cases hget : c.pageTable.get lvid with
  | none =>
    unfold resolveRouting
    rw [hget]
    rfl
  | some b =>
    dsimp only
    split
    next hb =>
      unfold resolveRouting
      rw [hget]
      dsimp only
      rw [if_pos hb]
      rfl
    next hb =>
      split
      next hdead =>
        have hno : ¬mmu.Live b := by
          intro hlive
          have hpos : 0 < mmu.l1Allocator.refCounts.entry b := hlive
          have hle : mmu.l1Allocator.refCounts.entry b ≤ 0 := hdead
          omega
        have hunused := h.coherent.unused hno
        unfold resolveRouting
        rw [hget]
        dsimp only
        rw [if_neg hb]
        have halloc : (mmu.blockDirectory.metas.entry b).allocated = false :=
          congrArg (fun v => v.info.allocated) hunused
        unfold BlockDirectory.get
        by_cases hv : mmu.blockDirectory.isValid b
        · rw [if_pos hv]
          dsimp only
          rw [if_pos halloc]
          rfl
        · rw [if_neg hv]
          rfl
      next hlive =>
        have hn : c.Names mmu.l1Allocator lvid b := ⟨hget, hb, Int.not_le.mp hlive⟩
        rw [resolveRouting_names h hn]
        rfl

theorem flat_resolve_error (h : mmu.Settled) {status : MmuError}
    (hr : c.resolveRouting mmu.blockDirectory lvid = .error status) : mmu.flat.resolve c lvid = .error status := by
  rw [flat_resolve h, hr]
  rfl

theorem flat_resolve_ok (h : mmu.Settled) {route : PhysicalRoute}
    (hr : c.resolveRouting mmu.blockDirectory lvid = .ok route) :
    mmu.flat.resolve c lvid = .ok route.physicalBlockId := by
  rw [flat_resolve h, hr]
  rfl

/-- What forgets the unreferenced blocks sweeps their pins. -/
theorem Forgot.flat {r : Routing} (hf : Forgot mmu mmu' r) :
    mmu'.flat = FlatRuntime.sweep { mmu.flat with allocator := r.allocator, contexts := r.contexts } := by
  have hallocator : mmu'.l1Allocator = r.allocator := congrArg Routing.allocator hf.routing
  have hcontexts : mmu'.contexts = r.contexts := congrArg Routing.contexts hf.routing
  unfold MmuRuntime.flat FlatRuntime.sweep
  rw [hf.setup.config, hallocator, hcontexts]
  congr 1
  funext q
  by_cases hq : mmu'.Live q
  · have hpos : 0 < r.allocator.refCounts.entry q := hallocator ▸ hq
    rw [if_pos hpos, hf.blocks q hq]
  · have hzero : ¬0 < r.allocator.refCounts.entry q := hallocator ▸ hq
    rw [if_neg hzero, hf.settled.coherent.unused hq]
    rfl

theorem flat_create (mmu : MmuRuntime) (handle : Option CtxHandle) :
    mmu.flat.create handle = ((mmuCreateContext mmu handle).1, (mmuCreateContext mmu handle).2.flat) := by
  cases handle <;> rfl

theorem flat_fork (mmu : MmuRuntime) (src : CtxHandle) (grows : Nat → Bool) (handle : Option CtxHandle) :
    mmu.flat.fork src grows handle =
      ((mmuForkContext mmu src grows handle).1, (mmuForkContext mmu src grows handle).2.flat) := by
  unfold FlatRuntime.fork mmuForkContext
  by_cases hnull : src = nullHandle
  · rw [if_pos hnull, if_pos hnull]
  · rw [if_neg hnull, if_neg hnull]
    have hfind : mmu.flat.findContext src = findContext mmu src := rfl
    rw [hfind]
    cases findContext mmu src with
    | none => rfl
    | some c =>
      have hallocator : mmu.flat.allocator = mmu.l1Allocator := rfl
      dsimp only
      rw [hallocator]
      obtain ⟨child, bm⟩ := c.fork mmu.l1Allocator grows
      cases child with
      | none => rfl
      | some child => cases handle <;> rfl

theorem flat_destroy (h : mmu.Settled) (ctx : CtxHandle) :
    mmu.flat.destroy ctx = (mmuDestroyContext mmu ctx).flat := by
  have hfind : mmu.flat.findContext ctx = findContext mmu ctx := rfl
  unfold FlatRuntime.destroy
  rw [hfind]
  cases hc : findContext mmu ctx with
  | none => rw [mmuDestroyContext_none hc]
  | some c => exact (mmuDestroyContext_forgot h hc).flat.symm

theorem flat_release (h : mmu.Settled) (ctx : CtxHandle) (lb : UInt32) :
    mmu.flat.release ctx lb = ((mmuReleaseLogicalBlock mmu ctx lb).1, (mmuReleaseLogicalBlock mmu ctx lb).2.flat) := by
  have hfind : mmu.flat.findContext ctx = findContext mmu ctx := rfl
  obtain ⟨r, mmu', hr⟩ : ∃ r mmu', mmuReleaseLogicalBlock mmu ctx lb = (r, mmu') := ⟨_, _, rfl⟩
  have hcases := mmuReleaseLogicalBlock_cases h hr
  rw [hr]
  unfold mmuReleaseLogicalBlock at hr
  unfold FlatRuntime.release
  rw [hfind]
  cases hc : findContext mmu ctx with
  | none =>
    rw [hc] at hr
    cases hr
    rfl
  | some c =>
    rw [hc] at hr
    dsimp only at hr ⊢
    cases hl : u32ToInt lb with
    | none =>
      rw [hl] at hr
      cases hr
      rfl
    | some lvid =>
      rw [hl] at hr
      dsimp only at hr ⊢
      cases hroute : c.resolveRouting mmu.blockDirectory lvid with
      | error status =>
        rw [hroute] at hr
        rw [flat_resolve_error h hroute]
        cases hr
        rfl
      | ok route =>
        obtain ⟨hn, _⟩ := resolveRouting_ok h c hroute
        have hallocator : mmu.flat.allocator = mmu.l1Allocator := rfl
        rw [flat_resolve_ok h hroute]
        dsimp only
        rw [hallocator]
        rcases releaseLogicalBlock_cases h.allocator c lvid with ⟨_, _, hno⟩ | ⟨b, hnb, heq⟩
        · exact absurd hn (hno _)
        · rw [hroute] at hr
          dsimp only at hr
          rw [heq] at hr ⊢
          rcases hcases with ⟨⟨e, he⟩, _⟩ | ⟨c', lvid', b', hc', hl', hn', he, hf⟩
          · rw [he] at hr
            cases hr
          · cases Option.some.inj (hc.symm.trans hc')
            cases Option.some.inj (hl.symm.trans hl')
            cases Option.some.inj (hnb.entry.symm.trans hn'.entry)
            rw [he, hf.flat]
            rfl

/-- An allocation hands out blocks that nobody had pinned. -/
theorem flat_allocate (h : mmu.Settled) (ctx : CtxHandle) (n : UInt32) :
    mmu.flat.allocate ctx n = ((mmuAllocateBlocks mmu ctx n).1, (mmuAllocateBlocks mmu ctx n).2.flat) := by
  have hfind : mmu.flat.findContext ctx = findContext mmu ctx := rfl
  unfold FlatRuntime.allocate mmuAllocateBlocks
  rw [hfind]
  cases hc : findContext mmu ctx with
  | none => rfl
  | some c =>
    dsimp only
    cases hn : u32ToInt n with
    | none => rfl
    | some count =>
      have hallocator : mmu.flat.allocator = mmu.l1Allocator := rfl
      have hcount : 0 ≤ count := by
        have := (u32ToInt_eq_some hn).1
        omega
      dsimp only
      rw [reclaimUnusedResidentBlocks_self h, hallocator]
      obtain ⟨ids, bm, ht, ⟨_, heq⟩ | ⟨_, _, heq⟩⟩ := allocateBlocks_spec h.allocator c hcount
      · rw [heq]
        have hco : (mmu.setContext bm ctx (c.grown ids)).Coherent mmu.Live :=
          h.coherent.withRouting (r := ⟨bm, mmu.contexts.insert ctx (c.grown ids)⟩) ht.size
        have hids : ∀ q ∈ ids, (mmu.setContext bm ctx (c.grown ids)).Valid q ∧ ¬mmu.Live q := by
          intro q hq
          obtain ⟨hv, hzero⟩ := ht.free q hq
          refine ⟨h.coherent.sound.refs_inRange.mp hv, ?_⟩
          intro hlive
          have hpos : 0 < mmu.l1Allocator.refCounts.entry q := hlive
          omega
        obtain ⟨_, hrouting, hfresh, hother⟩ := registerAll_coherent ids hco ht.nodup hids
        refine Prod.ext rfl (flat_eq hrouting.config hrouting.allocator hrouting.contexts ?_).symm
        intro q
        by_cases hq : q ∈ ids
        · have hunused : (mmu.setContext bm ctx (c.grown ids)).block q = .unused :=
            h.coherent.unused (hids q hq).2
          rw [hunused]
          rcases hfresh q hq with ⟨e, he⟩ | he
          · rw [he]
            rfl
          · rw [he]
            rfl
        · rw [hother q hq]
      · rw [heq]
        rfl

theorem Roomy.allocates_l2 (h : Roomy mmu touches) (hfree : mmu.l1Allocator.freeList ≠ []) :
    mmu.supply mmu.stock .l2 ≠ none := by
  intro hnone
  have hcap := ((supply_granted h.grants _ _).mp hnone).2
  have hlt := committed_l2_lt h.settled hfree
  have hl2 := h.l2
  have hcommitted : mmu.stock.committed = (mmu.pool .l2).committedPages := rfl
  omega

/-- With L2 behind every block a preparation is the remapping of one entry and no more. -/
theorem flat_prepare (h : Roomy mmu touches) (ctx : CtxHandle) (lb : UInt32) :
    mmu.flat.prepare ctx lb = ((mmuPrepareBlockForWrite mmu ctx lb).1, (mmuPrepareBlockForWrite mmu ctx lb).2.flat) := by
  have hs := h.settled
  have hfind : mmu.flat.findContext ctx = findContext mmu ctx := rfl
  have hallocator : mmu.flat.allocator = mmu.l1Allocator := rfl
  unfold FlatRuntime.prepare
  rw [hfind]
  cases hc : findContext mmu ctx with
  | none =>
    unfold mmuPrepareBlockForWrite
    rw [hc]
  | some c =>
    dsimp only
    cases hl : u32ToInt lb with
    | none =>
      unfold mmuPrepareBlockForWrite
      rw [hc]
      dsimp only
      rw [hl]
    | some lvid =>
      dsimp only
      cases hroute : c.resolveRouting mmu.blockDirectory lvid with
      | error status =>
        rw [flat_resolve_error hs hroute]
        unfold mmuPrepareBlockForWrite
        rw [hc]
        dsimp only
        rw [hl]
        dsimp only
        rw [hroute]
      | ok route =>
        obtain ⟨hn, _⟩ := resolveRouting_ok hs c hroute
        rw [flat_resolve_ok hs hroute]
        dsimp only
        rw [hallocator]
        have hsame : mmu.setContext mmu.l1Allocator ctx c = mmu := setContext_same (findContext_find? hc).2
        rcases prepareBlockForWrite_cases hs.allocator c lvid with
          ⟨e, heq, _⟩ | ⟨b, hnb, _, heq⟩ | ⟨b, new, bm, hnb, hshared, ht, heq⟩
        · have hprep : mmuPrepareBlockForWrite mmu ctx lb = (.error e, mmu) := by
            unfold mmuPrepareBlockForWrite
            rw [hc]
            dsimp only
            rw [hl]
            dsimp only
            rw [hroute]
            dsimp only
            rw [heq]
            dsimp only
            rw [hsame]
          rw [heq, hprep]
          exact Prod.ext rfl (congrArg MmuRuntime.flat hsame)
        · have hb : route.physicalBlockId = b := Option.some.inj (hn.entry.symm.trans hnb.entry)
          have hprep : mmuPrepareBlockForWrite mmu ctx lb = (.ok b, mmu) := by
            unfold mmuPrepareBlockForWrite
            rw [hc]
            dsimp only
            rw [hl]
            dsimp only
            rw [hroute]
            dsimp only
            rw [heq]
            dsimp only
            rw [hsame, if_neg (fun hne => hne hb.symm)]
          rw [heq, hprep]
          exact Prod.ext rfl (congrArg MmuRuntime.flat hsame)
        · have hne : new ≠ b := (ht.ne_new hnb.live).symm
          have hstaged := mmuPrepareBlockForWrite_staged hs hc hl hnb hne heq
          have hstock := mmuPrepareBlockForWrite_stock hs hc hl hnb hshared ht.supplied
          obtain ⟨s, hsup⟩ := Option.ne_none_iff_exists'.mp (h.allocates_l2 ht.supplied)
          rw [hsup] at hstock
          obtain ⟨new', mmu', hprep, _⟩ := hstock
          rw [hprep] at hstaged
          obtain ⟨r, m, hclone⟩ : ∃ r m, cloneBlockDataForCow
            (staged mmu ⟨(bm.release b).2, mmu.contexts.insert ctx (c.remapped lvid new)⟩ new)
            b (mmu.block b).info.tier new = (r, m) := ⟨_, _, rfl⟩
          obtain ⟨v, hm, hv⟩ := clone_remapped hs hnb.live hshared ht hclone
          rw [hclone] at hstaged
          rcases hv with ⟨⟨ptr, rfl⟩, rfl⟩ | ⟨_, e, rfl⟩
          · cases hstaged
            rw [heq, hprep]
            have hrouting := hm.routing
            have hpins : ∀ q, (mmu'.block q).info.pinCount = (mmu.block q).info.pinCount := hm.pins hs ht rfl
            have hflat : mmu'.flat = (mmu.setContext (bm.release b).2 ctx (c.remapped lvid new)).flat :=
              flat_eq hm.setup.config (congrArg Routing.allocator hrouting) (congrArg Routing.contexts hrouting) hpins
            exact Prod.ext rfl hflat.symm
          · cases hstaged

theorem Roomy.behind (h : Roomy mmu touches) (hlen : touches.length < maxEpoch) :
    ∀ q ∈ mmu.residents, ¬maxEpoch ≤ (mmu.block q).info.lastAccessEpoch := by
  intro q hq
  obtain ⟨hstamp, hlast⟩ := h.clocked.stamp_eq hlen (h.settled.coherent.mem_residents.mp hq)
  omega

theorem mapResolved_size (h : mmu.Settled) {d : MappedBlock} (hm : mapResolved mmu c lvid lb flags = (.ok d, mmu')) :
    d.sizeBytes = mmu.config.blockSizeBytes := by
  obtain ⟨hn, _, _, _⟩ := mapResolved_ok h hm
  rw [mapResolved_names h hn] at hm
  split at hm
  next => cases hm
  next mid hensure =>
    obtain ⟨hquiet, hresident, _⟩ := ensureResidentInL1_ok h hn.live hensure
    split at hm
    next => cases hm
    next slot m hacquire =>
      obtain ⟨hpage, _⟩ := hquiet.coherent.materialise hn.live hresident hacquire
      have hd := congrArg MappedBlock.sizeBytes (Except.ok.inj (Prod.mk.inj hm).1)
      exact hd.symm.trans (congrArg ResolvedConfig.blockSizeBytes (hpage.routing.config.trans hquiet.routing.config))

theorem flat_mapEntry_routed (h : mmu.Settled) {route : PhysicalRoute}
    (hr : c.resolveRouting mmu.blockDirectory lvid = .ok route) :
    mmu.flat.mapEntry c lvid lb flags =
      if (insert route.physicalBlockId mmu.pinnedBlocks).card ≤ mmu.config.l1ResidentBlockLimit then
        (.ok ⟨FlatRuntime.noPage, mmu.config.blockSizeBytes, route.physicalBlockId, lb, flags⟩,
          { mmu.flat with
            pins := Function.update mmu.flat.pins route.physicalBlockId
              (nextPinCount (mmu.flat.pins route.physicalBlockId)) })
      else (.error .outOfMemory, mmu.flat) := by
  unfold FlatRuntime.mapEntry
  rw [flat_resolve_ok h hr]
  rfl

/-- A routed block is refused exactly where the pins alone leave no room for it. -/
theorem flat_mapEntry (h : Roomy mmu touches) (hlen : touches.length < maxEpoch) (c : Context) (lvid : Int)
    (lb flags : UInt32) :
    mmu.flat.mapEntry c lvid lb flags =
      ((mapResolved mmu c lvid lb flags).1.map MappedBlock.flat, (mapResolved mmu c lvid lb flags).2.flat) := by
  have hs := h.settled
  cases hroute : c.resolveRouting mmu.blockDirectory lvid with
  | error status =>
    unfold FlatRuntime.mapEntry mapResolved
    rw [flat_resolve_error hs hroute, hroute]
    rfl
  | ok route =>
    obtain ⟨hn, _⟩ := resolveRouting_ok hs c hroute
    have hstarved := starved_iff (p := route.physicalBlockId) hs h.l2 (h.behind hlen)
    rw [flat_mapEntry_routed hs hroute]
    rcases mapResolved_outcome hs h.grants hn lb flags with ⟨hst, mmu', heq⟩ | ⟨hst, d, mmu', heq⟩
    · obtain ⟨hq, _⟩ := mapResolved_error hs heq
      rw [if_neg (Nat.not_le.mpr (hstarved.mp hst)), heq]
      exact Prod.ext rfl (flat_eq hq.routing.config hq.routing.allocator hq.routing.contexts hq.pins).symm
    · obtain ⟨hn', hmapped, hlb, hmf⟩ := mapResolved_ok hs heq
      have hp : d.physicalBlockId = route.physicalBlockId := Option.some.inj (hn'.entry.symm.trans hn.entry)
      have hsize := mapResolved_size hs heq
      rw [if_pos (Nat.not_lt.mp (mt hstarved.mpr hst)), heq, ← hp]
      refine Prod.ext ?_ ?_
      · rw [← hsize, ← hlb, ← hmf]
        rfl
      · exact (flat_update hmapped.routing hmapped.pins).symm

/-- A preparation leaves an instance as roomy as it was. -/
theorem Roomy.prepared (h : Roomy mmu touches) {r : Except MmuError Int}
    (hr : mmuPrepareBlockForWrite mmu ctx lb = (r, mmu')) : Roomy mmu' touches := by
  have hkept := @perform_kept mmu (fun m => m = .plain) h.settled (.prepareBlockForWrite ctx lb)
    trivial rfl trivial
  simp only [perform, hr] at hkept
  refine ⟨hkept.settled, ?_, ?_, prepare_clocked h.settled h.clocked hr⟩
  · rw [hkept.setup.config]
    exact h.l2
  · intro n
    rw [hkept.setup.replies]
    exact h.grants n

theorem flat_map (h : Roomy mmu touches) (hlen : touches.length < maxEpoch) (ctx : CtxHandle) (lb flags : UInt32) :
    mmu.flat.map ctx lb flags =
      ((mmuMapLogicalBlock mmu ctx lb flags).1.map MappedBlock.flat, (mmuMapLogicalBlock mmu ctx lb flags).2.flat) := by
  have hfind : mmu.flat.findContext ctx = findContext mmu ctx := rfl
  unfold FlatRuntime.map
  cases hflags : validateMapFlags flags with
  | false =>
    unfold mmuMapLogicalBlock
    rw [if_pos rfl, if_pos hflags]
    rfl
  | true =>
    rw [if_neg (by decide), hfind]
    cases hc : findContext mmu ctx with
    | none =>
      unfold mmuMapLogicalBlock
      rw [if_neg (by simp [hflags]), hc]
      rfl
    | some c =>
      dsimp only
      cases hl : u32ToInt lb with
      | none =>
        unfold mmuMapLogicalBlock
        rw [if_neg (by simp [hflags]), hc]
        dsimp only
        rw [hl]
        rfl
      | some lvid =>
        dsimp only
        cases hw : hasWrite flags with
        | false =>
          rw [mmuMapLogicalBlock_unwritten hflags hw hc hl, if_neg (by decide)]
          exact flat_mapEntry h hlen c lvid lb flags
        | true =>
          rw [mmuMapLogicalBlock_write hflags hw hc hl, if_pos rfl, flat_prepare h]
          obtain ⟨r, mid, hprep⟩ : ∃ r mid, mmuPrepareBlockForWrite mmu ctx lb = (r, mid) := ⟨_, _, rfl⟩
          rw [hprep]
          cases r with
          | error status => rfl
          | ok p =>
            have hfind' : mid.flat.findContext ctx = findContext mid ctx := rfl
            dsimp only
            rw [hfind']
            cases findContext mid ctx with
            | none => rfl
            | some c' => exact flat_mapEntry (h.prepared hprep) hlen c' lvid lb flags

/-- With L2 behind every block a write-back does not fail. -/
theorem Roomy.writes_back (h : Roomy mmu touches) {p : Int} (hp : mmu.Live p) : ¬WriteBackFails mmu p flags := by
  intro hfails
  obtain ⟨_, _, hnone⟩ := hfails
  unfold writeBackSupply at hnone
  split at hnone
  next => cases hnone
  next hback =>
    have hpage : mmu.page .l2 p = none := Option.not_isSome_iff_eq_none.mp hback
    have hcap := ((supply_granted h.grants _ _).mp hnone).2
    have hlt := committedPages_lt h.settled.coherent.sound (h.settled.valid hp) hpage
    have hl2 := h.l2
    have hcommitted : mmu.stock.committed = (mmu.pool .l2).committedPages := rfl
    omega

theorem flat_unmap (h : Roomy mmu touches) (ctx : CtxHandle) (d : MappedBlock) :
    mmu.flat.unmap ctx d = ((mmuUnmapLogicalBlock mmu ctx d).1, (mmuUnmapLogicalBlock mmu ctx d).2.flat) := by
  have hs := h.settled
  have hfind : mmu.flat.findContext ctx = findContext mmu ctx := rfl
  have hallocator : mmu.flat.allocator = mmu.l1Allocator := rfl
  unfold FlatRuntime.unmap mmuUnmapLogicalBlock
  rw [hfind, hallocator]
  cases hc : findContext mmu ctx with
  | none => rfl
  | some c =>
    dsimp only
    by_cases hv : mmu.l1Allocator.isValid d.physicalBlockId
    · rw [if_neg (not_not.mpr hv), if_neg (not_not.mpr hv)]
      cases hl : u32ToInt d.logicalBlockId with
      | none => rfl
      | some lvid =>
        dsimp only
        cases hroute : c.resolveRouting mmu.blockDirectory lvid with
        | error status => rw [flat_resolve_error hs hroute]
        | ok route =>
          obtain ⟨hn, _⟩ := resolveRouting_ok hs c hroute
          rw [flat_resolve_ok hs hroute]
          dsimp only
          by_cases hp : route.physicalBlockId = d.physicalBlockId
          · rw [if_neg (not_not.mpr hp), if_neg (not_not.mpr hp)]
            rw [hp] at hn
            rw [hs.get_meta hn.live]
            dsimp only
            rw [if_neg (by simp [hs.allocated hn.live])]
            obtain ⟨mmu', hu⟩ := (unmapPinned_outcome hs hn.live).1 (h.writes_back hn.live)
            have hunpinned := unmapPinned_unpinned hs hn.live hu
            rw [hu, hp]
            exact Prod.ext rfl (flat_update hunpinned.routing hunpinned.pins).symm
          · rw [if_pos hp, if_pos hp]
    · rw [if_pos hv, if_pos hv]

end Flat

end DsfMmu
