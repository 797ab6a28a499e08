import DsfMmu.OutstandingMappings
import DsfMmu.UnmapOutcome

namespace DsfMmu

open MmuRuntime BlockManager Context

section Single

variable {mmu mmu' : MmuRuntime} {ctx : CtxHandle} {lb flags : UInt32}

/-- The call handed out a mapping of the block. -/
def MapsBlock (r : Except MmuError MappedBlock) (p : Int) : Prop :=
  match r with
  | .ok d => d.physicalBlockId = p
  | .error _ => False

instance (r : Except MmuError MappedBlock) (p : Int) : Decidable (MapsBlock r p) :=
  match r with
  | .ok d => inferInstanceAs (Decidable (d.physicalBlockId = p))
  | .error _ => isFalse id

/-- The map would count one pin more on a block whose counter is full. -/
def MapWraps (mmu : MmuRuntime) (ctx : CtxHandle) (lb flags : UInt32) (p : Int) : Prop :=
  validateMapFlags flags = true ∧ routedBlock mmu ctx lb = some p ∧
    2 ^ 32 ≤ (mmu.block p).info.pinCount + 1 ∧ (hasWrite flags = true → mmuGetRefCount mmu p = 1)

instance (mmu : MmuRuntime) (ctx : CtxHandle) (lb flags : UInt32) (p : Int) :
    Decidable (MapWraps mmu ctx lb flags p) :=
  inferInstanceAs (Decidable (validateMapFlags flags = true ∧ routedBlock mmu ctx lb = some p ∧
    2 ^ 32 ≤ (mmu.block p).info.pinCount + 1 ∧ (hasWrite flags = true → mmuGetRefCount mmu p = 1)))

/-- What a write preparation or a map leaves of what was there before. -/
structure Undisplaced (mmu mmu' : MmuRuntime) (ctx : CtxHandle) (lb : UInt32) (write : Bool) : Prop where
  settled : mmu'.Settled
  kept : ∀ q, 0 < (mmu.block q).info.pinCount → (mmu'.block q).l1 = (mmu.block q).l1
  routes : ∀ k l q, routedBlock mmu k l = some q →
    (write = true → Switches mmu ctx lb → ¬(k = ctx ∧ l = lb)) → routedBlock mmu' k l = some q
  alone : ∀ q, mmu.l1Allocator.refCounts.entry q = 1 → mmu'.l1Allocator.refCounts.entry q = 1

theorem MmuRuntime.Settled.undisplaced (h : mmu.Settled) (write : Bool) : Undisplaced mmu mmu ctx lb write :=
  ⟨h, fun _ _ => rfl, fun _ _ _ hroute _ => hroute, fun _ hq => hq⟩

theorem MmuRuntime.SameRouting.routes (h : mmu.Settled) (h' : mmu'.Settled) (hr : SameRouting mmu mmu') {k : CtxHandle}
    {l : UInt32} {q : Int} (hroute : routedBlock mmu k l = some q) : routedBlock mmu' k l = some q := by
  rw [routedBlock_congr h h' hr]
  exact hroute

/-- A block with a pin is in use. -/
theorem MmuRuntime.Settled.live_of_pinned (h : mmu.Settled) {q : Int} (hq : 0 < (mmu.block q).info.pinCount) :
    mmu.Live q := by
  by_contra hdead
  rw [h.coherent.unused hdead] at hq
  exact absurd hq (by decide)

theorem MmuRuntime.Settled.live_ne_unallocated (h : mmu.Settled) {p : Int} (hp : mmu.Live p) : p ≠ kUnallocatedBlock := by
  have hnonneg := (h.coherent.sound.refs_inRange.mpr (h.valid hp)).1
  intro heq
  subst heq
  exact absurd hnonneg (by decide)

theorem routed_live (h : mmu.Settled) {p : Int} (hroute : routedBlock mmu ctx lb = some p) : mmu.Live p := by
  obtain ⟨_, _, _, _, hn⟩ := (routedBlock_eq_some h).mp hroute
  exact hn.live

theorem refCount_live (h : mmu.Settled) {p : Int} (hp : mmu.Live p) :
    mmuGetRefCount mmu p = mmu.l1Allocator.refCounts.entry p :=
  if_pos (h.coherent.sound.refs_inRange.mpr (h.valid hp))

/-- An entry of a context that is as before leads where it led, if the block is still in use. -/
theorem routedBlock_kept (h : mmu.Settled) (h' : mmu'.Settled) {k : CtxHandle} {l : UInt32} {q : Int}
    (hfind : mmu'.contexts.find? k = mmu.contexts.find? k) (hlive : mmu'.Live q)
    (hroute : routedBlock mmu k l = some q) : routedBlock mmu' k l = some q := by
  obtain ⟨c, i, hc, hi, hn⟩ := (routedBlock_eq_some h).mp hroute
  obtain ⟨hnull, hc'⟩ := findContext_find? hc
  have hctx' : findContext mmu' k = some c := by
    unfold findContext
    rw [if_neg hnull, hfind]
    exact hc'
  exact (routedBlock_eq_some h').mpr ⟨c, i, hctx', hi, hn.entry, hn.block, hlive⟩

/-- So does every other entry when one is set. -/
theorem routedBlock_remapped {c : Context} {lvid b new : Int} (h : mmu.Settled) (h' : mmu'.Settled)
    (hc : findContext mmu ctx = some c) (hlvid : u32ToInt lb = some lvid) (hn : c.Names mmu.l1Allocator lvid b)
    (hcontexts : mmu'.contexts = mmu.contexts.insert ctx (c.remapped lvid new)) {k : CtxHandle} {l : UInt32} {q : Int}
    (hother : ¬(k = ctx ∧ l = lb)) (hlive : mmu'.Live q) (hroute : routedBlock mmu k l = some q) :
    routedBlock mmu' k l = some q := by
  by_cases hk : k = ctx
  · subst k
    obtain ⟨a, i, ha, hi, hna⟩ := (routedBlock_eq_some h).mp hroute
    cases Option.some.inj (hc.symm.trans ha)
    have hctx' : findContext mmu' ctx = some (c.remapped lvid new) :=
      findContext_inserted (findContext_find? hc).1 hcontexts
    refine (routedBlock_eq_some h').mpr ⟨_, i, hctx', hi, ?_, hna.block, hlive⟩
    show (c.pageTable.set lvid new).get i = some q
    have hne : i ≠ lvid := by
      intro heq
      subst heq
      exact hother ⟨rfl, u32ToInt_inj hi hlvid⟩
    rw [PageTable.get_set (PageTable.get_eq_some.mp hn.entry).1, if_neg hne]
    exact hna.entry
  · refine routedBlock_kept h h' ?_ hlive hroute
    rw [hcontexts, KeyedMap.find?_insert, if_neg hk]

/-- And every entry of a table that grows, as long as its positions fit an `int`. -/
theorem routedBlock_grown {c : Context} {ids : List Int} (h : mmu.Settled) (h' : mmu'.Settled)
    (hc : findContext mmu ctx = some c) (hcontexts : mmu'.contexts = mmu.contexts.insert ctx (c.grown ids))
    {k : CtxHandle} {l : UInt32} {q : Int} (hlen : k = ctx → c.pageTable.entries.length + ids.length < 2 ^ 31)
    (hlive : mmu'.Live q) (hroute : routedBlock mmu k l = some q) : routedBlock mmu' k l = some q := by
  by_cases hk : k = ctx
  · subst k
    obtain ⟨a, i, ha, hi, hna⟩ := (routedBlock_eq_some h).mp hroute
    cases Option.some.inj (hc.symm.trans ha)
    have hctx' : findContext mmu' ctx = some (c.grown ids) :=
      findContext_inserted (findContext_find? hc).1 hcontexts
    refine (routedBlock_eq_some h').mpr ⟨_, i, hctx', hi, ?_, hna.block, hlive⟩
    exact PageTable.get_append (hlen rfl) hna.entry
  · refine routedBlock_kept h h' ?_ hlive hroute
    rw [hcontexts, KeyedMap.find?_insert, if_neg hk]

theorem Remapped.undisplaced {c : Context} {lvid b new : Int} {bm : BlockManager} {v : BlockView} (h : mmu.Settled)
    (hc : findContext mmu ctx = some c) (hlvid : u32ToInt lb = some lvid) (hn : c.Names mmu.l1Allocator lvid b)
    (hshared : 1 < mmu.l1Allocator.refCounts.entry b) (ht : Taken mmu.l1Allocator [new] bm)
    (hm : Remapped mmu mmu' b new v ⟨(bm.release b).2, mmu.contexts.insert ctx (c.remapped lvid new)⟩) :
    Undisplaced mmu mmu' ctx lb true := by
  have halloc : mmu'.l1Allocator = (bm.release b).2 := congrArg Routing.allocator hm.routing
  have hcontexts : mmu'.contexts = mmu.contexts.insert ctx (c.remapped lvid new) :=
    congrArg Routing.contexts hm.routing
  have hsw : Switches mmu ctx lb := (switches_iff h).mpr ⟨c, lvid, b, hc, hlvid, hn, hshared, ht.supplied⟩
  refine ⟨hm.settled, ?_, ?_, ?_⟩
  · intro q hq
    rw [hm.blocks, Function.update_of_ne (ht.ne_new (h.live_of_pinned hq))]
  · intro k l q hroute hmoved
    have hlive : mmu'.Live q := by
      have hq : mmu.Live q := routed_live h hroute
      show 0 < mmu'.l1Allocator.refCounts.entry q
      rw [halloc]
      exact (remap_live ht hshared q).mpr (.inl hq)
    exact routedBlock_remapped h hm.settled hc hlvid hn hcontexts (hmoved rfl hsw) hlive hroute
  · intro q hq
    have hne : q ≠ new := ht.ne_new (by omega)
    have hqb : q ≠ b := by
      intro heq
      subst heq
      omega
    rw [halloc, remap_entry ht hshared, if_neg hne, if_neg hqb]
    exact hq

theorem prepare_undisplaced (h : mmu.Settled) {r : Except MmuError Int}
    (hr : mmuPrepareBlockForWrite mmu ctx lb = (r, mmu')) :
    Undisplaced mmu mmu' ctx lb true ∧ ∀ q, (mmu'.block q).info.pinCount = (mmu.block q).info.pinCount := by
  rcases mmuPrepareBlockForWrite_cases h hr with
    ⟨_, rfl, _⟩ | ⟨_, _, _, _, _, _, _, _, rfl⟩ | ⟨c, lvid, b, new, bm, v, hc, hlvid, hn, hshared, ht, hm, hcase⟩
  · exact ⟨h.undisplaced true, fun _ => rfl⟩
  · exact ⟨h.undisplaced true, fun _ => rfl⟩
  · have hv : v.info.pinCount = 0 := by
      rcases hcase with ⟨⟨ptr, rfl⟩, _⟩ | ⟨rfl, _⟩ <;> rfl
    exact ⟨hm.undisplaced h hc hlvid hn hshared ht, hm.pins h ht hv⟩

theorem Undisplaced.then {mid : MmuRuntime} {write : Bool} (h : Undisplaced mmu mid ctx lb write)
    (hpins : ∀ q, (mid.block q).info.pinCount = (mmu.block q).info.pinCount) (hs : mmu'.Settled)
    (hr : SameRouting mid mmu')
    (hkept : ∀ q, 0 < (mid.block q).info.pinCount → (mmu'.block q).l1 = (mid.block q).l1) :
    Undisplaced mmu mmu' ctx lb write := by
  refine ⟨hs, ?_, ?_, ?_⟩
  · intro q hq
    rw [hkept q (by rw [hpins]; exact hq), h.kept q hq]
  · intro k l q hroute hmoved
    exact hr.routes h.settled hs (h.routes k l q hroute hmoved)
  · intro q hq
    rw [hr.allocator]
    exact h.alone q hq

/-- What a single map does: at most one pin more, on the block it hands out. -/
structure MapStep (mmu mmu' : MmuRuntime) (ctx : CtxHandle) (lb flags : UInt32)
    (r : Except MmuError MappedBlock) : Prop where
  undisplaced : Undisplaced mmu mmu' ctx lb (hasWrite flags)
  pins : ∀ q, (mmu'.block q).info.pinCount =
    if MapsBlock r q then nextPinCount (mmu.block q).info.pinCount else (mmu.block q).info.pinCount
  routed : ∀ d, r = .ok d → d.logicalBlockId = lb ∧ routedBlock mmu' ctx lb = some d.physicalBlockId ∧
    (hasWrite flags = true → mmu'.l1Allocator.refCounts.entry d.physicalBlockId = 1)
  room : ∀ d, r = .ok d → ¬MapWraps mmu ctx lb flags d.physicalBlockId →
    (mmu.block d.physicalBlockId).info.pinCount + 1 < 2 ^ 32

theorem MmuRuntime.Quiet.mapStep {mid : MmuRuntime} {e : MmuError} (hq : Quiet mid.Live mid mmu')
    (h : Undisplaced mmu mid ctx lb (hasWrite flags))
    (hpins : ∀ q, (mid.block q).info.pinCount = (mmu.block q).info.pinCount) :
    MapStep mmu mmu' ctx lb flags (.error e) := by
  refine ⟨h.then hpins (hq.settled h.settled) hq.routing hq.kept, ?_, nofun, nofun⟩
  intro q
  rw [hq.pins, hpins]
  rfl

/-- A pin is counted where there is room for it, unless the counter of the block was full before the call. -/
theorem map_room (h : mmu.Settled) {d : MappedBlock} (hr : mmuMapLogicalBlock mmu ctx lb flags = (.ok d, mmu'))
    (hno : ¬MapWraps mmu ctx lb flags d.physicalBlockId) :
    (mmu.block d.physicalBlockId).info.pinCount + 1 < 2 ^ 32 := by
  have hvalid : validateMapFlags flags = true := by
    by_contra hf
    rw [mmuMapLogicalBlock_invalid hf] at hr
    cases hr
  by_contra hfull
  have hwraps : routedBlock mmu ctx lb = some d.physicalBlockId →
      (hasWrite flags = true → mmuGetRefCount mmu d.physicalBlockId = 1) → False :=
    fun hroute hrefs => hno ⟨hvalid, hroute, by omega, hrefs⟩
  rcases mmuMapLogicalBlock_cases h hr with
    ⟨⟨_, he⟩, _⟩ | ⟨_, _, he, _⟩ | ⟨mid, c, lvid, hctx, hlvid, ⟨hread, rfl⟩ | ⟨hw, p, hprep⟩, hres⟩
  · cases he
  · cases he
  · obtain ⟨hn, _⟩ := mapResolved_ok h hres
    apply hwraps ((routedBlock_eq_some h).mpr ⟨c, lvid, hctx, hlvid, hn⟩)
    intro hw
    rw [hread] at hw
    cases hw
  · obtain ⟨hn, _⟩ := mapResolved_ok (prepare_undisplaced h hprep).1.settled hres
    rcases mmuPrepareBlockForWrite_cases h hprep with
      ⟨⟨_, he⟩, _⟩ | ⟨c', lvid', b, hc', hl', hn', hone, _, rfl⟩ |
      ⟨c', lvid', b, new, bm, v, hc', hl', hn', hshared, ht, hm, _⟩
    · cases he
    · cases Option.some.inj (hctx.symm.trans hc')
      cases Option.some.inj (hlvid.symm.trans hl')
      cases Option.some.inj (hn.entry.symm.trans hn'.entry)
      apply hwraps ((routedBlock_eq_some h).mpr ⟨c, lvid, hctx, hlvid, hn⟩)
      intro _
      rw [refCount_live h hn.live]
      exact hone
    · -- a block just taken has no pin yet
      have hnew := hm.names_new hn' hshared ht
      have hctx' := hm.context (findContext_find? hc').1
      cases Option.some.inj (hctx.symm.trans hctx')
      cases Option.some.inj (hlvid.symm.trans hl')
      have hblock : d.physicalBlockId = new := Option.some.inj (hn.entry.symm.trans hnew.entry)
      have hunused := (taken_new h ht).2
      rw [hblock, hunused] at hfull
      exact hfull (by decide)

theorem map_step (h : mmu.Settled) {r : Except MmuError MappedBlock}
    (hr : mmuMapLogicalBlock mmu ctx lb flags = (r, mmu')) : MapStep mmu mmu' ctx lb flags r := by
  rcases mmuMapLogicalBlock_cases h hr with
    ⟨⟨e, rfl⟩, rfl⟩ | ⟨hw, e, rfl, hprep⟩ | ⟨mid, c, lvid, hctx, hlvid, hcase, hres⟩
  · exact h.coherent.quiet_refl.mapStep (h.undisplaced _) fun _ => rfl
  · obtain ⟨hund, hpins⟩ := prepare_undisplaced h hprep
    rw [← hw] at hund
    exact (hund.settled.coherent.quiet_refl).mapStep hund hpins
  · have hmid : Undisplaced mmu mid ctx lb (hasWrite flags) ∧
        ∀ q, (mid.block q).info.pinCount = (mmu.block q).info.pinCount := by
      rcases hcase with ⟨_, rfl⟩ | ⟨hw, _, hprep⟩
      · exact ⟨h.undisplaced _, fun _ => rfl⟩
      · rw [hw]
        exact prepare_undisplaced h hprep
    obtain ⟨hund, hpins⟩ := hmid
    cases r with
    | error e => exact (mapResolved_error hund.settled hres).1.mapStep hund hpins
    | ok d =>
      obtain ⟨hn, hmapped, hlb, hflags⟩ := mapResolved_ok hund.settled hres
      have hroute : routedBlock mid ctx lb = some d.physicalBlockId :=
        (routedBlock_eq_some hund.settled).mpr ⟨c, lvid, hctx, hlvid, hn⟩
      refine ⟨hund.then hpins hmapped.settled hmapped.routing hmapped.kept, ?_, ?_, ?_⟩
      · intro q
        rw [hmapped.pins, hpins, hpins]
        by_cases hq : q = d.physicalBlockId
        · have hmaps : MapsBlock (.ok d) q := hq.symm
          rw [if_pos hq, if_pos hmaps, hq]
        · have hmaps : ¬MapsBlock (.ok d) q := fun he => hq he.symm
          rw [if_neg hq, if_neg hmaps]
      · intro d' hd
        cases Except.ok.inj hd
        refine ⟨hlb, hmapped.routing.routes hund.settled hmapped.settled hroute, ?_⟩
        intro hw
        rcases hcase with ⟨hread, _⟩ | ⟨_, p, hprep⟩
        · rw [hread] at hw
          cases hw
        · obtain ⟨_, c', lvid', hctx', hlvid', hn', hone⟩ := mmuPrepareBlockForWrite_ok h hprep
          cases Option.some.inj (hctx.symm.trans hctx')
          cases Option.some.inj (hlvid.symm.trans hlvid')
          cases Option.some.inj (hn.entry.symm.trans hn'.entry)
          rw [hmapped.routing.allocator]
          exact hone
      · intro d' hd hno
        cases Except.ok.inj hd
        exact map_room h hr hno

end Single

end DsfMmu
