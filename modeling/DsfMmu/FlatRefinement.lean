import DsfMmu.FlatRuntime

namespace DsfMmu

open MmuRuntime BlockManager Context

section Loops

variable {mmu mmu' : MmuRuntime} {ctx : CtxHandle} {flags : UInt32} {touches : List Int}

theorem flat_permitted (mmu : MmuRuntime) (call : Call) : mmu.flat.permitted call ↔ Permitted mmu call := by
  cases call with
  | createContext handle => cases handle <;> rfl
  | forkContext src grows handle => cases handle <;> rfl
  | _ => rfl

theorem Roomy.next (h : Roomy mmu touches) {call : Call} (hp : Permitted mmu call) :
    Roomy (perform mmu call).2 (touchStep mmu call (perform mmu call).1 touches) := by
  have hkept := perform_kept h.settled hp trivial (eventsOf_any mmu call)
  refine ⟨hkept.settled, ?_, ?_, perform_clocked h.settled h.clocked call⟩
  · rw [hkept.setup.config]
    exact h.l2
  · intro n
    rw [hkept.setup.replies]
    exact h.grants n

theorem Roomy.mapped (h : Roomy mmu touches) {lb : UInt32} {r : Except MmuError MappedBlock}
    (hm : mmuMapLogicalBlock mmu ctx lb flags = (r, mmu')) : Roomy mmu' (mapTouches mmu ctx lb flags ++ touches) := by
  have hnext := @Roomy.next _ _ h (.mapLogicalBlock ctx lb flags) trivial
  simp only [perform, hm] at hnext
  exact hnext

theorem Roomy.unmapped (h : Roomy mmu touches) (ctx : CtxHandle) (d : MappedBlock) :
    Roomy (mmuUnmapLogicalBlock mmu ctx d).2 (unmapTouches mmu ctx d ++ touches) :=
  @Roomy.next _ _ h (.unmapLogicalBlock ctx d) trivial

theorem unmapsTouch_suffix (ds : List MappedBlock) (mmu : MmuRuntime) (touches : List Int) :
    touches <:+ unmapsTouch ctx ds mmu touches := by
  induction ds generalizing mmu touches with
  | nil => exact List.suffix_rfl
  | cons d rest ih =>
    rw [unmapsTouch]
    exact (List.suffix_append _ _).trans (ih _ _)

theorem batchTouches_suffix (lbs : List UInt32) (done : List MappedBlock) (mmu : MmuRuntime) (touches : List Int) :
    touches <:+ batchTouches ctx flags lbs done mmu touches := by
  induction lbs generalizing done mmu touches with
  | nil => exact List.suffix_rfl
  | cons lb rest ih =>
    rw [batchTouches]
    split
    next mmu' _ => exact (List.suffix_append _ _).trans (unmapsTouch_suffix done mmu' _)
    next d mmu' _ => exact (List.suffix_append _ _).trans (ih (done ++ [d]) mmu' _)

/-- No touch is ever taken back. -/
theorem touchStep_suffix (mmu : MmuRuntime) (call : Call) (reply : Reply) (touches : List Int) :
    touches <:+ touchStep mmu call reply touches := by
  unfold touchStep
  split
  next => exact List.suffix_append _ _
  next => exact List.suffix_append _ _
  next ctx lbs flags => exact batchTouches_suffix lbs [] mmu touches
  next => exact List.suffix_append _ _
  next => exact unmapsTouch_suffix _ mmu touches
  next => exact List.suffix_rfl

/-- An unmap does not look at the address. -/
theorem flat_unmap_flat (s : FlatRuntime) (ctx : CtxHandle) (d : MappedBlock) : s.unmap ctx d.flat = s.unmap ctx d := rfl

theorem flat_unmapAll (ds : List MappedBlock) (h : Roomy mmu touches) :
    mmu.flat.unmapAll ctx (ds.map MappedBlock.flat) = (unmapAll ctx ds mmu).flat := by
  induction ds generalizing mmu touches with
  | nil => rfl
  | cons d rest ih =>
    have hrest := ih (h.unmapped ctx d)
    unfold FlatRuntime.unmapAll at hrest ⊢
    rw [List.map_cons, List.foldl_cons, flat_unmap_flat, flat_unmap h, unmapAll, List.foldl_cons]
    exact hrest

theorem flat_mapsLoop (lbs : List UInt32) (done : List MappedBlock) (h : Roomy mmu touches)
    (hlen : (batchTouches ctx flags lbs done mmu touches).length < maxEpoch) :
    FlatRuntime.mapsLoop ctx flags lbs (done.map MappedBlock.flat) mmu.flat =
      ((mapBlocksLoop ctx flags lbs done mmu).1.map (List.map MappedBlock.flat),
        (mapBlocksLoop ctx flags lbs done mmu).2.flat) := by
  induction lbs generalizing done mmu touches with
  | nil => rfl
  | cons lb rest ih =>
    have hbefore : touches.length < maxEpoch := (batchTouches_suffix (lb :: rest) done mmu touches).length_le.trans_lt hlen
    obtain ⟨r, mmu', hm⟩ : ∃ r mmu', mmuMapLogicalBlock mmu ctx lb flags = (r, mmu') := ⟨_, _, rfl⟩
    rw [FlatRuntime.mapsLoop, flat_map h hbefore, mapBlocksLoop, hm]
    rw [batchTouches, hm] at hlen
    have hnext := h.mapped hm
    cases r with
    | error status => exact Prod.ext rfl (flat_unmapAll done hnext)
    | ok d =>
      have hrest := ih (done ++ [d]) hnext hlen
      rw [List.map_append] at hrest
      exact hrest

theorem flat_unmapsLoop (ds : List MappedBlock) (firstError : Except MmuError Unit) (h : Roomy mmu touches) :
    FlatRuntime.unmapsLoop ctx ds firstError mmu.flat =
      ((unmapBlocksLoop ctx ds firstError mmu).1, (unmapBlocksLoop ctx ds firstError mmu).2.flat) := by
  induction ds generalizing mmu touches firstError with
  | nil => rfl
  | cons d rest ih =>
    obtain ⟨r, mmu', hu⟩ : ∃ r mmu', mmuUnmapLogicalBlock mmu ctx d = (r, mmu') := ⟨_, _, rfl⟩
    have hnext := h.unmapped ctx d
    rw [hu] at hnext
    unfold FlatRuntime.unmapsLoop unmapBlocksLoop
    rw [flat_unmap h, hu]
    cases r with
    | error status => exact ih _ hnext
    | ok u => exact ih firstError hnext

/-- A call's reply, the addresses aside, and what it leaves of tables, counts and pins are those of the flat runtime. -/
theorem flat_perform (h : Roomy mmu touches) {call : Call}
    (hlen : (touchStep mmu call (perform mmu call).1 touches).length < maxEpoch) :
    mmu.flat.perform call = ((perform mmu call).1.flat, (perform mmu call).2.flat) := by
  have hbefore := (touchStep_suffix mmu call (perform mmu call).1 touches).length_le.trans_lt hlen
  cases call with
  | createContext handle => rw [FlatRuntime.perform, flat_create]; rfl
  | destroyContext ctx => rw [FlatRuntime.perform, flat_destroy h.settled]; rfl
  | forkContext src grows handle => rw [FlatRuntime.perform, flat_fork]; rfl
  | allocateBlocks ctx n => rw [FlatRuntime.perform, flat_allocate h.settled]; rfl
  | releaseLogicalBlock ctx lb => rw [FlatRuntime.perform, flat_release h.settled]; rfl
  | prepareBlockForWrite ctx lb => rw [FlatRuntime.perform, flat_prepare h]; rfl
  | mapLogicalBlock ctx lb flags =>
    obtain ⟨r, mmu', hm⟩ : ∃ r mmu', mmuMapLogicalBlock mmu ctx lb flags = (r, mmu') := ⟨_, _, rfl⟩
    rw [FlatRuntime.perform, flat_map h hbefore]
    simp only [perform, hm]
    cases r <;> rfl
  | mapLogicalBlocks ctx lbs flags =>
    obtain ⟨r, mmu', hm⟩ : ∃ r mmu', mmuMapLogicalBlocks mmu ctx lbs flags = (r, mmu') := ⟨_, _, rfl⟩
    have hloop := flat_mapsLoop lbs [] h hlen
    rw [List.map_nil] at hloop
    rw [FlatRuntime.perform, hloop]
    unfold mmuMapLogicalBlocks at hm
    simp only [perform, mmuMapLogicalBlocks, hm]
    cases r <;> rfl
  | unmapLogicalBlock ctx d => rw [FlatRuntime.perform, flat_unmap h]; rfl
  | unmapLogicalBlocks ctx ds => rw [FlatRuntime.perform, flat_unmapsLoop ds (.ok ()) h]; rfl
  | hostWrite ctx d offset byte => rfl

end Loops

section Runs

variable {mmu start : MmuRuntime} {touches : List Int} {calls : List Call}

/-- A fresh instance with a host that grants and L2 behind every block. -/
theorem Roomy.fresh (h : Initial start) (hl2 : start.config.l2BlockCount = start.config.l1BlockCount)
    (hhost : ∀ n, start.host.reply n = .granted) : Roomy start [] := by
  refine ⟨?_, hl2, hhost, new_clocked h⟩
  obtain ⟨config, env, rfl⟩ := initial_new h
  exact (covered_new config env).settled

/-- The clock has not reached its last epoch once the call is done. -/
def ClockRuns : MmuRuntime × List Int → Call → Reply → Prop := fun s call reply =>
  (touchStep s.1 call reply s.2).length < maxEpoch

theorem replay_touches_length (s : MmuRuntime × List Int) (calls : List Call) :
    s.2.length ≤ ((machine.withGhost touchStep).replay s calls).2.length := by
  induction calls generalizing s with
  | nil => exact le_rfl
  | cons call rest ih =>
    have hstep := touchStep_suffix s.1 call (perform s.1 call).1 s.2
    exact hstep.length_le.trans (ih ((machine.withGhost touchStep).step s call).2)

/-- Touches are only added: if the last call of a run leaves the clock running, so did every one before. -/
theorem meets_clockRuns (s : MmuRuntime × List Int) (hp : permittedAll s.1 calls = true)
    (hclock : ((machine.withGhost touchStep).replay s calls).2.length < maxEpoch) :
    (machine.withGhost touchStep).Meets ClockRuns s calls := by
  induction calls generalizing s with
  | nil => trivial
  | cons call rest ih =>
    rw [permittedAll, Bool.and_eq_true, decide_eq_true_eq] at hp
    have hafter := replay_touches_length ((machine.withGhost touchStep).step s call).2 rest
    exact ⟨hp.1, hafter.trans_lt hclock, ih _ hp.2 hclock⟩

theorem flat_imagesStep : (machine.withGhost touchStep).ImagesStep FlatRuntime.machine (fun s => s.1.flat) Reply.flat
    (fun s => Roomy s.1 s.2) ClockRuns := by
  intro s call h hp hc
  exact ⟨h.next hp, flat_perform h hc⟩

/-- Neither a reply, the addresses aside, nor what a run leaves of page tables, counts and pins depends on tiers,
pages or the clock: they are those of the flat runtime. -/
theorem tiers_invisible_in_replies (h : Initial start) (hl2 : start.config.l2BlockCount = start.config.l1BlockCount)
    (hhost : ∀ n, start.host.reply n = .granted) (hp : permittedAll start calls = true)
    (hclock : ((machine.withGhost touchStep).replay (start, []) calls).2.length < maxEpoch) :
    FlatRuntime.machine.trace start.flat calls = (machine.trace start calls).map Reply.flat ∧
      FlatRuntime.machine.replay start.flat calls = (machine.replay start calls).flat := by
  have himage := (meets_clockRuns (start, []) hp hclock).image flat_imagesStep (Roomy.fresh h hl2 hhost)
  rw [Machine.withGhost_trace, Machine.withGhost_replay_fst] at himage
  exact himage

end Runs

/-- One page of L1 serves two contexts, a write clones, and a second mapping finds no room. -/
def swappedRun : List Call :=
  [.createContext (some 1), .allocateBlocks 1 2, .forkContext 1 (fun _ => true) (some 2), .mapLogicalBlock 1 0 mapRead,
    .unmapLogicalBlock 1 ⟨⟨0, 3⟩, 4, 0, 0, mapRead⟩, .mapLogicalBlock 2 0 mapWrite, .mapLogicalBlocks 1 [0, 1] mapRead,
    .destroyContext 1]

theorem tiers_invisible_in_replies_swapped :
    FlatRuntime.machine.trace (smallInstance 1 0).flat swappedRun =
        (machine.trace (smallInstance 1 0) swappedRun).map Reply.flat ∧
      FlatRuntime.machine.replay (smallInstance 1 0).flat swappedRun =
        (machine.replay (smallInstance 1 0) swappedRun).flat := by
  refine tiers_invisible_in_replies (smallInstance_initial 1 0) rfl (fun _ => rfl) ?_ ?_
  · decide +kernel
  · decide +kernel

namespace FlatRuntime

/-- The same tables, counts and pins under another configuration. -/
def under (s : FlatRuntime) (config : ResolvedConfig) : FlatRuntime := { s with config := config }

/-- As many blocks of the same size, and no less of L1. -/
structure Widens (config config' : ResolvedConfig) : Prop where
  blocks : config'.l1BlockCount = config.l1BlockCount
  size : config'.blockSizeBytes = config.blockSizeBytes
  limit : config.l1ResidentBlockLimit ≤ config'.l1ResidentBlockLimit

end FlatRuntime

/-- A map was refused for want of memory. -/
def MapRefused : Reply → Prop
  | .mapped (.error .outOfMemory) => True
  | .mappedAll (.error .outOfMemory) => True
  | _ => False

namespace FlatRuntime

section Widened

variable {s : FlatRuntime} {config : ResolvedConfig} {ctx : CtxHandle} {lb flags : UInt32}

theorem prepare_under (s : FlatRuntime) (config : ResolvedConfig) (ctx : CtxHandle) (lb : UInt32) :
    (s.under config).prepare ctx lb = ((s.prepare ctx lb).1, (s.prepare ctx lb).2.under config) := by
  have hfind : (s.under config).findContext ctx = s.findContext ctx := rfl
  have hallocator : (s.under config).allocator = s.allocator := rfl
  have hresolve : ∀ c lvid, (s.under config).resolve c lvid = s.resolve c lvid := fun _ _ => rfl
  unfold prepare
  rw [hfind]
  cases s.findContext ctx with
  | none => rfl
  | some c =>
    dsimp only
    cases u32ToInt lb with
    | none => rfl
    | some lvid =>
      dsimp only
      rw [hresolve]
      cases s.resolve c lvid with
      | error status => rfl
      | ok p =>
        dsimp only
        rw [hallocator]
        obtain ⟨r, bm, c'⟩ := c.prepareBlockForWrite s.allocator lvid
        cases r <;> rfl

theorem prepare_config (s : FlatRuntime) (ctx : CtxHandle) (lb : UInt32) : (s.prepare ctx lb).2.config = s.config := by
  unfold prepare
  split
  next => rfl
  next =>
    split
    next => rfl
    next =>
      split
      next => rfl
      next => split <;> rfl

theorem mapEntry_under (h : Widens s.config config) (c : Context) (lvid : Int) (lb flags : UInt32)
    (hno : (s.mapEntry c lvid lb flags).1 ≠ .error .outOfMemory) :
    (s.under config).mapEntry c lvid lb flags =
      ((s.mapEntry c lvid lb flags).1, (s.mapEntry c lvid lb flags).2.under config) := by
  have hresolve : (s.under config).resolve c lvid = s.resolve c lvid := rfl
  have hpinned : (s.under config).pinnedBlocks = s.pinnedBlocks := by
    unfold pinnedBlocks under
    rw [h.blocks]
  unfold mapEntry at hno ⊢
  rw [hresolve, hpinned]
  cases hr : s.resolve c lvid with
  | error status => rfl
  | ok p =>
    rw [hr] at hno
    dsimp only at hno ⊢
    by_cases hfits : (insert p s.pinnedBlocks).card ≤ s.config.l1ResidentBlockLimit
    · have hwide : (insert p s.pinnedBlocks).card ≤ (s.under config).config.l1ResidentBlockLimit := hfits.trans h.limit
      have hsize : (s.under config).config.blockSizeBytes = s.config.blockSizeBytes := h.size
      rw [if_pos hfits, if_pos hwide, hsize]
      rfl
    · rw [if_neg hfits] at hno
      exact absurd rfl hno

theorem map_under (h : Widens s.config config) (hno : (s.map ctx lb flags).1 ≠ .error .outOfMemory) :
    (s.under config).map ctx lb flags = ((s.map ctx lb flags).1, (s.map ctx lb flags).2.under config) := by
  have hfind : (s.under config).findContext ctx = s.findContext ctx := rfl
  unfold map at hno ⊢
  rw [hfind]
  by_cases hflags : validateMapFlags flags = false
  · rw [if_pos hflags, if_pos hflags]
  · rw [if_neg hflags] at hno ⊢
    rw [if_neg hflags]
    cases hc : s.findContext ctx with
    | none => rfl
    | some c =>
      rw [hc] at hno
      dsimp only at hno ⊢
      cases hl : u32ToInt lb with
      | none => rfl
      | some lvid =>
        rw [hl] at hno
        dsimp only at hno ⊢
        by_cases hw : hasWrite flags = true
        · rw [if_pos hw] at hno ⊢
          rw [if_pos hw, prepare_under]
          have hconfig := prepare_config s ctx lb
          obtain ⟨r, mid, hprep⟩ : ∃ r mid, s.prepare ctx lb = (r, mid) := ⟨_, _, rfl⟩
          rw [hprep] at hno hconfig ⊢
          have hmid : Widens mid.config config := by
            have heq : mid.config = s.config := hconfig
            rw [heq]
            exact h
          cases r with
          | error status => rfl
          | ok p =>
            have hfind' : (mid.under config).findContext ctx = mid.findContext ctx := rfl
            dsimp only at hno ⊢
            rw [hfind']
            cases hc' : mid.findContext ctx with
            | none => rfl
            | some c' =>
              rw [hc'] at hno
              exact mapEntry_under hmid c' lvid lb flags hno
        · rw [if_neg hw] at hno ⊢
          rw [if_neg hw]
          exact mapEntry_under h c lvid lb flags hno

theorem unmap_under (s : FlatRuntime) (config : ResolvedConfig) (ctx : CtxHandle) (d : MappedBlock) :
    (s.under config).unmap ctx d = ((s.unmap ctx d).1, (s.unmap ctx d).2.under config) := by
  have hfind : (s.under config).findContext ctx = s.findContext ctx := rfl
  have hvalid : (s.under config).allocator = s.allocator := rfl
  have hresolve : ∀ c lvid, (s.under config).resolve c lvid = s.resolve c lvid := fun _ _ => rfl
  unfold unmap
  rw [hfind, hvalid]
  cases s.findContext ctx with
  | none => rfl
  | some c =>
    dsimp only
    split
    next => rfl
    next =>
      cases u32ToInt d.logicalBlockId with
      | none => rfl
      | some lvid =>
        dsimp only
        rw [hresolve]
        cases s.resolve c lvid with
        | error status => rfl
        | ok p =>
          dsimp only
          split <;> rfl

theorem map_config (s : FlatRuntime) (ctx : CtxHandle) (lb flags : UInt32) : (s.map ctx lb flags).2.config = s.config := by
  have hentry : ∀ (s : FlatRuntime) c lvid, (s.mapEntry c lvid lb flags).2.config = s.config := by
    intro s c lvid
    unfold mapEntry
    split
    next => rfl
    next => split <;> rfl
  unfold map
  split
  next => rfl
  next =>
    split
    next => rfl
    next =>
      split
      next => rfl
      next =>
        split
        next =>
          have hconfig := prepare_config s ctx lb
          obtain ⟨r, mid, hprep⟩ : ∃ r mid, s.prepare ctx lb = (r, mid) := ⟨_, _, rfl⟩
          rw [hprep] at hconfig ⊢
          cases r with
          | error status => exact hconfig
          | ok p =>
            dsimp only
            split
            next => exact hconfig
            next => exact (hentry mid _ _).trans hconfig
        next => exact hentry s _ _

theorem unmapAll_under (s : FlatRuntime) (config : ResolvedConfig) (ds : List MappedBlock) :
    (s.under config).unmapAll ctx ds = (s.unmapAll ctx ds).under config := by
  induction ds generalizing s with
  | nil => rfl
  | cons d rest ih =>
    have hrest := ih (s.unmap ctx d).2
    unfold unmapAll at hrest ⊢
    rw [List.foldl_cons, List.foldl_cons, unmap_under]
    exact hrest

theorem mapsLoop_under (lbs : List UInt32) (done : List MappedBlock) (h : Widens s.config config)
    (hno : (mapsLoop ctx flags lbs done s).1 ≠ .error .outOfMemory) :
    mapsLoop ctx flags lbs done (s.under config) =
      ((mapsLoop ctx flags lbs done s).1, (mapsLoop ctx flags lbs done s).2.under config) := by
  induction lbs generalizing s done with
  | nil => rfl
  | cons lb rest ih =>
    have hconfig := map_config s ctx lb flags
    obtain ⟨r, s', hm⟩ : ∃ r s', s.map ctx lb flags = (r, s') := ⟨_, _, rfl⟩
    rw [mapsLoop, hm] at hno
    rw [hm] at hconfig
    have hwide := @map_under s config ctx lb flags h
    rw [hm] at hwide
    cases r with
    | error status =>
      have hstatus : status ≠ .outOfMemory := fun heq => hno (congrArg Except.error heq)
      rw [mapsLoop, hwide (fun heq => hstatus (Except.error.inj heq)), mapsLoop, hm]
      exact Prod.ext rfl (unmapAll_under s' config done)
    | ok d =>
      have hnext : Widens s'.config config := by
        have heq : s'.config = s.config := hconfig
        rw [heq]
        exact h
      rw [mapsLoop, hwide (by simp), mapsLoop, hm]
      exact ih (done ++ [d]) hnext hno

theorem unmapsLoop_under (ds : List MappedBlock) (firstError : Except MmuError Unit) (s : FlatRuntime)
    (config : ResolvedConfig) :
    unmapsLoop ctx ds firstError (s.under config) =
      ((unmapsLoop ctx ds firstError s).1, (unmapsLoop ctx ds firstError s).2.under config) := by
  induction ds generalizing s firstError with
  | nil => rfl
  | cons d rest ih =>
    unfold unmapsLoop
    rw [unmap_under]
    obtain ⟨r, s'⟩ := s.unmap ctx d
    cases r with
    | error status => exact ih _ s'
    | ok u => exact ih firstError s'

theorem allocate_under (s : FlatRuntime) (config : ResolvedConfig) (ctx : CtxHandle) (n : UInt32) :
    (s.under config).allocate ctx n = ((s.allocate ctx n).1, (s.allocate ctx n).2.under config) := by
  have hfind : (s.under config).findContext ctx = s.findContext ctx := rfl
  have hallocator : (s.under config).allocator = s.allocator := rfl
  unfold allocate
  rw [hfind, hallocator]
  cases s.findContext ctx with
  | none => rfl
  | some c =>
    dsimp only
    cases u32ToInt n with
    | none => rfl
    | some count =>
      dsimp only
      obtain ⟨r, bm, c'⟩ := c.allocateBlocks s.allocator count
      cases r <;> rfl

theorem release_under (s : FlatRuntime) (config : ResolvedConfig) (ctx : CtxHandle) (lb : UInt32) :
    (s.under config).release ctx lb = ((s.release ctx lb).1, (s.release ctx lb).2.under config) := by
  have hfind : (s.under config).findContext ctx = s.findContext ctx := rfl
  have hallocator : (s.under config).allocator = s.allocator := rfl
  have hresolve : ∀ c lvid, (s.under config).resolve c lvid = s.resolve c lvid := fun _ _ => rfl
  unfold release
  rw [hfind, hallocator]
  cases s.findContext ctx with
  | none => rfl
  | some c =>
    dsimp only
    cases u32ToInt lb with
    | none => rfl
    | some lvid =>
      dsimp only
      rw [hresolve]
      cases s.resolve c lvid with
      | error status => rfl
      | ok p =>
        dsimp only
        obtain ⟨r, bm, c'⟩ := c.releaseLogicalBlock s.allocator lvid
        cases r <;> rfl

theorem destroy_under (s : FlatRuntime) (config : ResolvedConfig) (ctx : CtxHandle) :
    (s.under config).destroy ctx = (s.destroy ctx).under config := by
  have hfind : (s.under config).findContext ctx = s.findContext ctx := rfl
  unfold destroy
  rw [hfind]
  cases s.findContext ctx <;> rfl

theorem fork_under (s : FlatRuntime) (config : ResolvedConfig) (src : CtxHandle) (grows : Nat → Bool)
    (handle : Option CtxHandle) :
    (s.under config).fork src grows handle = ((s.fork src grows handle).1, (s.fork src grows handle).2.under config) := by
  have hfind : (s.under config).findContext src = s.findContext src := rfl
  have hallocator : (s.under config).allocator = s.allocator := rfl
  unfold fork
  rw [hfind, hallocator]
  split
  next => rfl
  next =>
    cases s.findContext src with
    | none => rfl
    | some c =>
      dsimp only
      obtain ⟨child, bm⟩ := c.fork s.allocator grows
      cases child with
      | none => rfl
      | some child => cases handle <;> rfl

/-- Under a larger limit a call that was not refused a mapping does what it did. -/
theorem perform_under (h : Widens s.config config) {call : Call} (hno : ¬MapRefused (s.perform call).1) :
    (s.under config).perform call = ((s.perform call).1, (s.perform call).2.under config) := by
  cases call with
  | createContext handle =>
    have hsize : (s.under config).config.blockSizeBytes = s.config.blockSizeBytes := h.size
    cases handle with
    | none => rfl
    | some ctx =>
      unfold perform create
      dsimp only
      rw [hsize]
      rfl
  | destroyContext ctx => rw [perform, destroy_under]; rfl
  | forkContext src grows handle => rw [perform, fork_under]; rfl
  | allocateBlocks ctx n => rw [perform, allocate_under]; rfl
  | releaseLogicalBlock ctx lb => rw [perform, release_under]; rfl
  | prepareBlockForWrite ctx lb => rw [perform, prepare_under]; rfl
  | mapLogicalBlock ctx lb flags =>
    rw [perform, map_under h]
    · rfl
    · intro heq
      simp only [perform] at hno
      rw [heq] at hno
      exact hno trivial
  | mapLogicalBlocks ctx lbs flags =>
    rw [perform, mapsLoop_under lbs [] h]
    · rfl
    · intro heq
      simp only [perform] at hno
      rw [heq] at hno
      exact hno trivial
  | unmapLogicalBlock ctx d => rw [perform, unmap_under]; rfl
  | unmapLogicalBlocks ctx ds => rw [perform, unmapsLoop_under]; rfl
  | hostWrite ctx d offset byte => rfl

end Widened

end FlatRuntime

section Limits

variable {small large : MmuRuntime} {touches touches' : List Int} {calls : List Call}

instance (r : Reply) : Decidable (MapRefused r) := by
  unfold MapRefused
  split <;> infer_instance

theorem mapRefused_flat {r : Reply} : MapRefused r.flat ↔ MapRefused r := by
  cases r with
  | mapped r => cases r <;> rfl
  | mappedAll r => cases r <;> rfl
  | _ => rfl

theorem flat_under_permitted {config : ResolvedConfig} (heq : large.flat = small.flat.under config) (call : Call) :
    Permitted large call ↔ Permitted small call := by
  rw [← flat_permitted, heq, ← flat_permitted]
  rfl

theorem replies_under (hs : Roomy small touches) (hl : Roomy large touches')
    (heq : large.flat = small.flat.under large.config) (hw : FlatRuntime.Widens small.config large.config)
    (hp : permittedAll small calls = true)
    (hclock : ((machine.withGhost touchStep).replay (small, touches) calls).2.length < maxEpoch)
    (hclock' : ((machine.withGhost touchStep).replay (large, touches') calls).2.length < maxEpoch)
    (hno : ∀ r ∈ machine.trace small calls, ¬MapRefused r) :
    permittedAll large calls = true ∧
      (machine.trace large calls).map Reply.flat = (machine.trace small calls).map Reply.flat ∧
      (machine.replay large calls).routing = (machine.replay small calls).routing := by
  induction calls generalizing small large touches touches' with
  | nil =>
    refine ⟨rfl, rfl, ?_⟩
    have hallocator := congrArg FlatRuntime.allocator heq
    have hcontexts := congrArg FlatRuntime.contexts heq
    exact congrArg₂ Routing.mk hallocator hcontexts
  | cons call rest ih =>
    rw [permittedAll, Bool.and_eq_true, decide_eq_true_eq] at hp
    have hperm : Permitted large call := (flat_under_permitted heq call).mpr hp.1
    have hlen := (replay_touches_length ((machine.withGhost touchStep).step (small, touches) call).2 rest).trans_lt hclock
    have hlen' :=
      (replay_touches_length ((machine.withGhost touchStep).step (large, touches') call).2 rest).trans_lt hclock'
    have hflat := flat_perform hs hlen
    have hflat' := flat_perform hl hlen'
    have hhead : ¬MapRefused (small.flat.perform call).1 := by
      rw [hflat]
      exact mt mapRefused_flat.mp (hno (perform small call).1 (List.mem_cons_self ..))
    have hwide := @FlatRuntime.perform_under small.flat large.config hw _ hhead
    rw [← heq, hflat', hflat] at hwide
    obtain ⟨hreply, hstate⟩ := Prod.mk.inj hwide
    have hconfig := (perform_kept hl.settled hperm trivial (eventsOf_any large call)).setup.config
    have hconfig' := (perform_kept hs.settled hp.1 trivial (eventsOf_any small call)).setup.config
    obtain ⟨hrest, htrace, hrouting⟩ := ih (hs.next hp.1) (hl.next hperm) (by rw [hstate, hconfig])
      (by rw [hconfig, hconfig']; exact hw) hp.2 hclock hclock' (fun r hr => hno r (List.mem_cons_of_mem _ hr))
    refine ⟨?_, ?_, hrouting⟩
    · rw [permittedAll, Bool.and_eq_true, decide_eq_true_eq]
      exact ⟨hperm, hrest⟩
    · exact congrArg₂ List.cons hreply htrace

/-- A larger resident limit changes no reply of a run that was refused no mapping, nor where it leads. -/
theorem larger_limit_same_replies (hsmall : Initial small) (hlarge : Initial large)
    (hl2 : small.config.l2BlockCount = small.config.l1BlockCount)
    (hl2' : large.config.l2BlockCount = large.config.l1BlockCount)
    (hhost : ∀ n, small.host.reply n = .granted) (hhost' : ∀ n, large.host.reply n = .granted)
    (hw : FlatRuntime.Widens small.config large.config) (hp : permittedAll small calls = true)
    (hclock : ((machine.withGhost touchStep).replay (small, []) calls).2.length < maxEpoch)
    (hclock' : ((machine.withGhost touchStep).replay (large, []) calls).2.length < maxEpoch)
    (hno : ∀ r ∈ machine.trace small calls, ¬MapRefused r) :
    (machine.trace large calls).map Reply.flat = (machine.trace small calls).map Reply.flat ∧
      (machine.replay large calls).routing = (machine.replay small calls).routing := by
  have hs := Roomy.fresh hsmall hl2 hhost
  have hl := Roomy.fresh hlarge hl2' hhost'
  have heq : large.flat = small.flat.under large.config := by
    obtain ⟨config, env, rfl⟩ := initial_new hsmall
    obtain ⟨config', env', rfl⟩ := initial_new hlarge
    have hblocks : config'.l1BlockCount = config.l1BlockCount := hw.blocks
    show FlatRuntime.mk config' (.new config'.l1BlockCount) (.empty noContext) (fun _ => 0) =
      FlatRuntime.mk config' (.new config.l1BlockCount) (.empty noContext) (fun _ => 0)
    rw [hblocks]
  exact (replies_under hs hl heq hw hp hclock hclock' hno).2

end Limits

/-- Three blocks used in turn: a single page of L1 will do, and two change nothing. -/
def oneAtATime : List Call :=
  [.createContext (some 1), .allocateBlocks 1 3, .mapLogicalBlock 1 0 mapWrite,
    .unmapLogicalBlock 1 ⟨⟨0, 3⟩, 4, 0, 0, mapWrite⟩, .mapLogicalBlock 1 2 mapWrite,
    .unmapLogicalBlock 1 ⟨⟨0, 3⟩, 4, 2, 2, mapWrite⟩, .mapLogicalBlock 1 0 mapRead, .releaseLogicalBlock 1 1]

theorem larger_limit_same_replies_two :
    (machine.trace (smallInstance 2 0) oneAtATime).map Reply.flat =
        (machine.trace (smallInstance 1 0) oneAtATime).map Reply.flat ∧
      (machine.replay (smallInstance 2 0) oneAtATime).routing = (machine.replay (smallInstance 1 0) oneAtATime).routing := by
  refine larger_limit_same_replies (smallInstance_initial 1 0) (smallInstance_initial 2 0) rfl rfl (fun _ => rfl)
    (fun _ => rfl) ⟨rfl, rfl, by decide⟩ ?_ ?_ ?_ ?_
  · decide +kernel
  · decide +kernel
  · decide +kernel
  · decide +kernel

end DsfMmu
