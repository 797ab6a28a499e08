import DsfMmu.PinProtection
import DsfMmu.StaleUnmaps

namespace DsfMmu

open MmuRuntime BlockManager Context

/-- The mappings a holder still has to close: releasing its logical block or destroying its context ends
a mapping, and so does an unmap, whatever it returns. -/
def openStep (_ : MmuRuntime) (call : Call) (reply : Reply) (maps : List Holding) : List Holding :=
  match call, reply with
  | .destroyContext ctx, _ => maps.filter fun x => x.1 ≠ ctx
  | .releaseLogicalBlock ctx lb, .status (.ok _) => maps.filter fun x => ¬(x.1 = ctx ∧ x.2.logicalBlockId = lb)
  | _, _ => holdingStep maps call reply

/-- The unmap gets past the validation and takes one pin. -/
def Closes (mmu : MmuRuntime) (x : Holding) : Prop :=
  ∃ r mmu', mmuUnmapLogicalBlock mmu x.1 x.2 = (r, mmu') ∧ (r = .ok () ∨ r = .error .outOfMemory) ∧
    (mmu'.block x.2.physicalBlockId).info.pinCount + 1 = (mmu.block x.2.physicalBlockId).info.pinCount

/-- A map for writing moves an entry away from the block that a mapping of it holds. -/
def MovesHeld (maps : List Holding) (mmu : MmuRuntime) (ctx : CtxHandle) (lb flags : UInt32) : Prop :=
  validateMapFlags flags = true ∧ hasWrite flags = true ∧ Switches mmu ctx lb ∧ ¬NotHeld maps ctx lb

instance (maps : List Holding) (mmu : MmuRuntime) (ctx : CtxHandle) (lb flags : UInt32) :
    Decidable (MovesHeld maps mmu ctx lb flags) :=
  inferInstanceAs (Decidable (validateMapFlags flags = true ∧ hasWrite flags = true ∧ Switches mmu ctx lb ∧
    ¬NotHeld maps ctx lb))

/-- The pin that the unmap takes belongs to its descriptor, or to none of the mappings. -/
def TakesOwnPin (maps : List Holding) (mmu : MmuRuntime) (ctx : CtxHandle) (d : MappedBlock) : Prop :=
  (ctx, d) ∈ maps ∨ ¬StillRouted mmu (ctx, d) ∨
    holders maps d.physicalBlockId ≤ (mmu.block d.physicalBlockId).info.pinCount - 1

instance (maps : List Holding) (mmu : MmuRuntime) (ctx : CtxHandle) (d : MappedBlock) :
    Decidable (TakesOwnPin maps mmu ctx d) :=
  inferInstanceAs (Decidable ((ctx, d) ∈ maps ∨ ¬StillRouted mmu (ctx, d) ∨
    holders maps d.physicalBlockId ≤ (mmu.block d.physicalBlockId).info.pinCount - 1))

/-- So does every unmap of a batch when its turn comes. -/
def TakeOwnPins (ctx : CtxHandle) : List MappedBlock → List Holding → MmuRuntime → Prop
  | [], _, _ => True
  | d :: rest, maps, mmu =>
    TakesOwnPin maps mmu ctx d ∧ TakeOwnPins ctx rest (maps.erase (ctx, d)) (mmuUnmapLogicalBlock mmu ctx d).2

/-- The entries that an allocation appends leave the table of a context with mappings addressable. -/
def TableFits (maps : List Holding) (mmu : MmuRuntime) (ctx : CtxHandle) (n : UInt32) : Prop :=
  n.toNat < 2 ^ 31 → (∃ x ∈ maps, x.1 = ctx) → ∀ c ∈ findContext mmu ctx,
    c.pageTable.entries.length + min n.toNat (mmuGetFreeBlockCount mmu) < 2 ^ 31

/-- What keeps the mappings that are open closable: no entry of a mapping is moved to another block, no
pin of a mapping is lost and none is taken in its place, and no block of a mapping dies. -/
def KeepsMappings (s : MmuRuntime × List Holding) (call : Call) (_ : Reply) : Prop :=
  match call with
  | .destroyContext ctx => ∀ x ∈ s.2, x.1 ≠ ctx → ¬Unprotects s.1 call x.2.physicalBlockId
  | .releaseLogicalBlock ctx lb =>
    ∀ x ∈ s.2, ¬(x.1 = ctx ∧ x.2.logicalBlockId = lb) → ¬Unprotects s.1 call x.2.physicalBlockId
  | .allocateBlocks ctx n => TableFits s.2 s.1 ctx n
  | .prepareBlockForWrite ctx lb => Switches s.1 ctx lb → NotHeld s.2 ctx lb
  | .mapLogicalBlock ctx lb flags => ¬MovesHeld s.2 s.1 ctx lb flags ∧ ∀ p, ¬Unprotects s.1 call p
  | .mapLogicalBlocks ctx lbs flags =>
    ¬AtSomeTurn (fun mmu lb => MovesHeld s.2 mmu ctx lb flags) ctx flags lbs s.1 ∧ ∀ p, ¬Unprotects s.1 call p
  | .unmapLogicalBlock ctx d => TakesOwnPin s.2 s.1 ctx d
  | .unmapLogicalBlocks ctx ds => TakeOwnPins ctx ds s.2 s.1
  | _ => True

/-- Every open mapping has its route and a pin of its own. -/
structure Closable (mmu : MmuRuntime) (maps : List Holding) : Prop where
  settled : mmu.Settled
  routes : ∀ x ∈ maps, StillRouted mmu x
  pins : ∀ b, holders maps b ≤ (mmu.block b).info.pinCount

section Closable

variable {mmu mmu' : MmuRuntime} {maps maps' : List Holding} {ctx : CtxHandle} {lb flags : UInt32}

theorem MmuRuntime.Settled.closable (h : mmu.Settled) : Closable mmu [] := by
  refine ⟨h, ?_, ?_⟩
  · intro x hx
    cases hx
  · intro b
    exact Nat.zero_le _

theorem Closable.pinned (h : Closable mmu maps) {x : Holding} (hx : x ∈ maps) :
    0 < (mmu.block x.2.physicalBlockId).info.pinCount := by
  have hpos := holders_pos hx
  have hpins := h.pins x.2.physicalBlockId
  omega

theorem Closable.live (h : Closable mmu maps) {x : Holding} (hx : x ∈ maps) :
    mmu.Live x.2.physicalBlockId := h.settled.live_of_pinned (h.pinned hx)

/-- An open mapping can be closed. -/
theorem Closable.closes (h : Closable mmu maps) {x : Holding} (hx : x ∈ maps) : Closes mmu x := by
  obtain ⟨r, mmu', hu⟩ : ∃ r mmu', mmuUnmapLogicalBlock mmu x.1 x.2 = (r, mmu') := ⟨_, _, rfl⟩
  obtain ⟨hr, hun⟩ := mmuUnmapLogicalBlock_accepted h.settled (h.routes x hx) hu
  have hpos := h.pinned hx
  have hpins := hun.pins x.2.physicalBlockId
  rw [if_pos rfl] at hpins
  exact ⟨r, mmu', hu, hr, by omega⟩

/-- Mappings stay closable when their routes stay and their pins do not go down. -/
theorem Closable.kept (h : Closable mmu maps) (hs : mmu'.Settled) (hsub : maps'.Sublist maps)
    (hroutes : ∀ x ∈ maps', StillRouted mmu' x)
    (hpins : ∀ x ∈ maps', (mmu.block x.2.physicalBlockId).info.pinCount ≤
      (mmu'.block x.2.physicalBlockId).info.pinCount) : Closable mmu' maps' := by
  refine ⟨hs, hroutes, ?_⟩
  intro b
  by_cases hzero : holders maps' b = 0
  · omega
  · obtain ⟨x, hx, rfl⟩ := exists_holder hzero
    have hfewer : holders maps' x.2.physicalBlockId ≤ holders maps x.2.physicalBlockId := hsub.countP_le
    have hold := h.pins x.2.physicalBlockId
    have hnew := hpins x hx
    omega

/-- A context that holds a mapping is there. -/
theorem Closable.ne_fresh (h : Closable mmu maps) {x : Holding} (hx : x ∈ maps) {fresh : CtxHandle}
    (hf : mmu.contexts.find? fresh = none) : x.1 ≠ fresh := by
  intro he
  obtain ⟨c, _, hc, _⟩ := (routedBlock_eq_some h.settled).mp (h.routes x hx)
  have hfind := (findContext_find? hc).2
  rw [he, hf] at hfind
  cases hfind

/-- Contexts come and go without touching the storage. -/
theorem Closable.withRouting (h : Closable mmu maps) {r : Routing} (hs : (mmu.withRouting r).Settled)
    (hfind : ∀ x ∈ maps, r.contexts.find? x.1 = mmu.contexts.find? x.1)
    (hlive : ∀ p, mmu.Live p → 0 < r.allocator.refCounts.entry p) : Closable (mmu.withRouting r) maps := by
  refine h.kept hs (List.Sublist.refl _) ?_ (fun _ _ => le_rfl)
  intro x hx
  exact routedBlock_kept h.settled hs (hfind x hx) (hlive _ (h.live hx)) (h.routes x hx)

theorem create_closable (h : Closable mmu maps) {handle : Option CtxHandle} (hf : FreshHandle mmu handle)
    {r : Except MmuError CtxHandle} (hr : mmuCreateContext mmu handle = (r, mmu')) : Closable mmu' maps := by
  rcases mmuCreateContext_cases hr with ⟨_, _, rfl⟩ | ⟨fresh, rfl, _, rfl⟩
  · exact h
  · refine h.withRouting (Settled.created h.settled _) ?_ (fun _ hp => hp)
    intro x hx
    rw [KeyedMap.find?_insert, if_neg (h.ne_fresh hx hf.2)]

theorem fork_closable (h : Closable mmu maps) {src : CtxHandle} {grows : Nat → Bool} {handle : Option CtxHandle}
    (hf : FreshHandle mmu handle) {r : Except MmuError CtxHandle}
    (hr : mmuForkContext mmu src grows handle = (r, mmu')) : Closable mmu' maps := by
  have ha := h.settled.allocator
  rcases mmuForkContext_cases h.settled.allocator hr with
    ⟨_, rfl, _⟩ | ⟨c, fresh, _, rfl, _, rfl⟩ | ⟨_, b, _, _, _, rfl⟩
  · exact h
  · refine h.withRouting (Settled.forked h.settled _ _) ?_ (fun p hp => (retainAll_live ha _ p).mpr hp)
    intro x hx
    rw [KeyedMap.find?_insert, if_neg (h.ne_fresh hx hf.2)]
  · exact h.withRouting (Settled.leaked h.settled b) (fun _ _ => rfl) (fun p hp => (retain_live ha b p).mpr hp)

theorem destroy_closable (h : Closable mmu maps)
    (hno : ∀ x ∈ maps, x.1 ≠ ctx → ¬Unprotects mmu (.destroyContext ctx) x.2.physicalBlockId) :
    Closable (mmuDestroyContext mmu ctx) (maps.filter fun x => x.1 ≠ ctx) := by
  have hmem : ∀ x ∈ maps.filter fun x => x.1 ≠ ctx, x ∈ maps ∧ x.1 ≠ ctx := by
    intro x hx
    simpa using List.mem_filter.mp hx
  have hprot : ∀ x ∈ maps.filter fun x => x.1 ≠ ctx,
      Protected mmu (mmuDestroyContext mmu ctx) x.2.physicalBlockId := by
    intro x hx
    obtain ⟨hx, hne⟩ := hmem x hx
    exact (destroy_protected h.settled (h.pinned hx)).mpr (hno x hx hne)
  obtain hnone | ⟨c, hc⟩ := Option.eq_none_or_eq_some (findContext mmu ctx)
  · have hsame := mmuDestroyContext_none hnone
    rw [hsame]
    exact h.kept h.settled List.filter_sublist (fun x hx => h.routes x (hmem x hx).1) (fun _ _ => le_rfl)
  · have hf := mmuDestroyContext_forgot h.settled hc
    refine h.kept hf.settled List.filter_sublist ?_ (fun x hx => (hprot x hx).pins)
    intro x hx
    obtain ⟨hold, hne⟩ := hmem x hx
    refine routedBlock_kept h.settled hf.settled ?_ ?_ (h.routes x hold)
    · rw [destroy_find h.settled hc, if_neg hne]
    · exact hf.settled.coherent.live_of_resident (hprot x hx).resident

theorem release_closable (h : Closable mmu maps)
    (hno : ∀ x ∈ maps, ¬(x.1 = ctx ∧ x.2.logicalBlockId = lb) →
      ¬Unprotects mmu (.releaseLogicalBlock ctx lb) x.2.physicalBlockId)
    {r : Except MmuError Unit} (hr : mmuReleaseLogicalBlock mmu ctx lb = (r, mmu')) :
    Closable mmu' (openStep mmu (.releaseLogicalBlock ctx lb) (.status r) maps) := by
  rcases mmuReleaseLogicalBlock_cases h.settled hr with ⟨⟨e, rfl⟩, rfl⟩ | ⟨c, lvid, b, hc, hlvid, hn, rfl, hf⟩
  · exact h
  · have hmem : ∀ x ∈ maps.filter fun x => ¬(x.1 = ctx ∧ x.2.logicalBlockId = lb),
        x ∈ maps ∧ ¬(x.1 = ctx ∧ x.2.logicalBlockId = lb) := by
      intro x hx
      obtain ⟨hx, hother⟩ := List.mem_filter.mp hx
      exact ⟨hx, of_decide_eq_true hother⟩
    have hcontexts : mmu'.contexts = mmu.contexts.insert ctx (c.remapped lvid kUnallocatedBlock) :=
      congrArg Routing.contexts hf.routing
    have hprot : ∀ x ∈ maps.filter fun x => ¬(x.1 = ctx ∧ x.2.logicalBlockId = lb),
        Protected mmu mmu' x.2.physicalBlockId := by
      intro x hx
      obtain ⟨hx, hother⟩ := hmem x hx
      exact (release_protected h.settled (h.pinned hx) hr).mpr (hno x hx hother)
    refine h.kept hf.settled List.filter_sublist ?_ (fun x hx => (hprot x hx).pins)
    intro x hx
    obtain ⟨hold, hother⟩ := hmem x hx
    have hlive := hf.settled.coherent.live_of_resident (hprot x hx).resident
    exact routedBlock_remapped h.settled hf.settled hc hlvid hn hcontexts hother hlive (h.routes x hold)

theorem prepare_closable (h : Closable mmu maps) (hno : Switches mmu ctx lb → NotHeld maps ctx lb)
    {r : Except MmuError Int} (hr : mmuPrepareBlockForWrite mmu ctx lb = (r, mmu')) : Closable mmu' maps := by
  obtain ⟨hund, hpins⟩ := prepare_undisplaced h.settled hr
  refine h.kept hund.settled (List.Sublist.refl _) ?_ (fun x _ => (hpins _).ge)
  intro x hx
  exact hund.routes _ _ _ (h.routes x hx) fun _ hsw => hno hsw x hx

/-- A map keeps the routes of the mappings whose entries it does not move. -/
theorem map_routes (h : mmu.Settled) (hroutes : ∀ x ∈ maps, StillRouted mmu x)
    (hno : ¬MovesHeld maps mmu ctx lb flags) {r : Except MmuError MappedBlock}
    (hm : mmuMapLogicalBlock mmu ctx lb flags = (r, mmu')) : ∀ x ∈ maps, StillRouted mmu' x := by
  intro x hx
  by_cases hvalid : validateMapFlags flags = true
  · apply (map_step h hm).undisplaced.routes _ _ _ (hroutes x hx)
    intro hw hsw hsame
    exact hno ⟨hvalid, hw, hsw, fun hfree => hfree x hx hsame⟩
  · rw [mmuMapLogicalBlock_invalid hvalid] at hm
    obtain ⟨_, rfl⟩ := Prod.mk.inj hm
    exact hroutes x hx

theorem map_closable (h : Closable mmu maps) (hno : ¬MovesHeld maps mmu ctx lb flags)
    (hroom : ∀ p, ¬MapWraps mmu ctx lb flags p) {r : Except MmuError MappedBlock}
    (hm : mmuMapLogicalBlock mmu ctx lb flags = (r, mmu')) : Closable mmu' (handedOut ctx r maps) := by
  have hstep := map_step h.settled hm
  have hroutes := map_routes h.settled h.routes hno hm
  cases r with
  | error e =>
    refine h.kept hstep.undisplaced.settled (List.Sublist.refl _) hroutes ?_
    intro x _
    have hpins := hstep.pins x.2.physicalBlockId
    rw [if_neg (show ¬MapsBlock (.error e) _ from id)] at hpins
    omega
  | ok d =>
    obtain ⟨hlb, hroute, _⟩ := hstep.routed d rfl
    refine ⟨hstep.undisplaced.settled, ?_, ?_⟩
    · intro x hx
      rcases List.mem_cons.mp hx with rfl | hx
      · unfold StillRouted
        rw [hlb]
        exact hroute
      · exact hroutes x hx
    · intro b
      have hold := h.pins b
      have hpins := hstep.pins b
      have hnew : holders ((ctx, d) :: maps) b = holders maps b + if d.physicalBlockId = b then 1 else 0 :=
        holders_cons _ _ _
      show holders ((ctx, d) :: maps) b ≤ _
      by_cases hb : d.physicalBlockId = b
      · have hmaps : MapsBlock (.ok d) b := hb
        have hfits := hstep.room d rfl (hroom _)
        rw [hb] at hfits
        rw [if_pos hmaps, nextPinCount_lt hfits] at hpins
        rw [if_pos hb] at hnew
        omega
      · have hmaps : ¬MapsBlock (.ok d) b := hb
        rw [if_neg hmaps] at hpins
        rw [if_neg hb] at hnew
        omega

theorem unmap_routes (h : mmu.Settled) {d : MappedBlock} {r : Except MmuError Unit}
    (hu : mmuUnmapLogicalBlock mmu ctx d = (r, mmu')) {k : CtxHandle} {l : UInt32} {q : Int}
    (hroute : routedBlock mmu k l = some q) : routedBlock mmu' k l = some q := by
  rcases mmuUnmapLogicalBlock_cases h hu with ⟨_, rfl⟩ | ⟨_, _, _, _, _, hun⟩
  · exact hroute
  · exact hun.routing.routes h hun.settled hroute

theorem unmapAll_routes (done : List MappedBlock) (h : mmu.Settled) {k : CtxHandle} {l : UInt32} {q : Int}
    (hroute : routedBlock mmu k l = some q) : routedBlock (unmapAll ctx done mmu) k l = some q := by
  induction done generalizing mmu with
  | nil => exact hroute
  | cons d rest ih =>
    obtain ⟨r, mid, hu⟩ : ∃ r mid, mmuUnmapLogicalBlock mmu ctx d = (r, mid) := ⟨_, _, rfl⟩
    rw [unmapAll_cons hu rest]
    exact ih (unmap_clean h hu).settled (unmap_routes h hu hroute)

theorem mapBlocksLoop_routes (lbs : List UInt32) {done : List MappedBlock} (h : mmu.Settled)
    (hroutes : ∀ x ∈ maps, StillRouted mmu x)
    (hno : ¬AtSomeTurn (fun mmu lb => MovesHeld maps mmu ctx lb flags) ctx flags lbs mmu)
    {r : Except MmuError (List MappedBlock)} (hm : mapBlocksLoop ctx flags lbs done mmu = (r, mmu')) :
    ∀ x ∈ maps, StillRouted mmu' x := by
  induction lbs generalizing mmu done with
  | nil =>
    obtain ⟨_, rfl⟩ := Prod.mk.inj hm
    exact hroutes
  | cons lb rest ih =>
    have hhere := AtSomeTurn.not_here hno
    unfold mapBlocksLoop at hm
    split at hm
    next e mid hone =>
      obtain ⟨_, rfl⟩ := Prod.mk.inj hm
      intro x hx
      exact unmapAll_routes done (map_clean h hone).settled (map_routes h hroutes hhere hone x hx)
    next d mid hone =>
      exact ih (map_clean h hone).settled (map_routes h hroutes hhere hone) (AtSomeTurn.not_later hno hone) hm

theorem holders_append (ds : List MappedBlock) (maps : List Holding) (b : Int) :
    holders (ds.map (Prod.mk ctx) ++ maps) b = pinsTaken ds b + holders maps b := by
  simp only [holders, pinsTaken, List.countP_append, List.countP_map, Function.comp_def]

theorem mapBlocks_closable (h : Closable mmu maps) {lbs : List UInt32}
    (hno : ¬AtSomeTurn (fun mmu lb => MovesHeld maps mmu ctx lb flags) ctx flags lbs mmu)
    (hroom : ∀ p, ¬BatchWraps mmu ctx lbs flags p) {r : Except MmuError (List MappedBlock)}
    (hm : mmuMapLogicalBlocks mmu ctx lbs flags = (r, mmu')) : Closable mmu' (allHandedOut ctx r maps) := by
  have hroutes := mapBlocksLoop_routes lbs h.settled h.routes hno hm
  have hleaves := fun p => mapBlocksLoop_pin lbs (h.settled.batched ctx flags p) (hroom p) hm
  cases r with
  | error e =>
    have hs' : mmu'.Settled := (mapBlocksLoop_rel (R := fun _ _ => True) (fun _ => trivial)
      (fun _ _ _ _ _ => trivial) (fun _ _ _ _ _ _ => trivial) (fun _ _ _ _ _ _ => trivial) lbs [] h.settled hm).2
    exact h.kept hs' (List.Sublist.refl _) hroutes fun x _ => (hleaves x.2.physicalBlockId).ge
  | ok ds =>
    have hb : ∀ p, Batched mmu' ctx flags p (mmu.block p).info.pinCount ds := hleaves
    refine ⟨(hb 0).settled, ?_, ?_⟩
    · intro x hx
      rcases List.mem_append.mp hx with hx | hx
      · obtain ⟨d, hd, rfl⟩ := List.mem_map.mp hx
        exact (hb 0).routes d hd
      · exact hroutes x hx
    · intro b
      have hold := h.pins b
      have hpin := (hb b).pin
      have hnew := @holders_append ctx ds maps b
      show holders (ds.map (Prod.mk ctx) ++ maps) b ≤ _
      omega

theorem unmap_closable (h : Closable mmu maps) {d : MappedBlock} (hown : TakesOwnPin maps mmu ctx d)
    {r : Except MmuError Unit} (hu : mmuUnmapLogicalBlock mmu ctx d = (r, mmu')) :
    Closable mmu' (maps.erase (ctx, d)) := by
  have hsub : (maps.erase (ctx, d)).Sublist maps := List.erase_sublist
  by_cases hroute : StillRouted mmu (ctx, d)
  · obtain ⟨_, hun⟩ := mmuUnmapLogicalBlock_accepted h.settled hroute hu
    refine ⟨hun.settled, ?_, ?_⟩
    · intro x hx
      exact hun.routing.routes h.settled hun.settled (h.routes x (hsub.mem hx))
    · intro b
      have hold := h.pins b
      have hpins := hun.pins b
      have hfewer : holders (maps.erase (ctx, d)) b ≤ holders maps b := hsub.countP_le
      by_cases hb : d.physicalBlockId = b
      · rw [if_pos hb.symm, hb] at hpins
        rcases hown with hin | hgone | hspare
        · have hnew := holders_erase hin b
          rw [if_pos hb] at hnew
          omega
        · exact absurd hroute hgone
        · rw [hb] at hspare
          omega
      · rw [if_neg (fun he => hb he.symm)] at hpins
        omega
  · obtain ⟨e, hrefused⟩ := mmuUnmapLogicalBlock_refused h.settled hroute
    obtain ⟨_, rfl⟩ := Prod.mk.inj (hrefused.symm.trans hu)
    exact h.kept h.settled hsub (fun x hx => h.routes x (hsub.mem hx)) (fun _ _ => le_rfl)

theorem unmapAll_closable (ds : List MappedBlock) (h : Closable mmu maps) (hown : TakeOwnPins ctx ds maps mmu) :
    Closable (unmapAll ctx ds mmu) (givenBack ctx ds maps) := by
  induction ds generalizing mmu maps with
  | nil => exact h
  | cons d rest ih =>
    obtain ⟨hhere, hrest⟩ := hown
    obtain ⟨r, mid, hone⟩ : ∃ r m, mmuUnmapLogicalBlock mmu ctx d = (r, m) := ⟨_, _, rfl⟩
    rw [hone] at hrest
    rw [unmapAll_cons hone rest]
    exact ih (unmap_closable h hhere hone) hrest

theorem allocate_closable (h : Closable mmu maps) {n : UInt32} (hfits : TableFits maps mmu ctx n)
    {r : Except MmuError Unit} (hr : mmuAllocateBlocks mmu ctx n = (r, mmu')) : Closable mmu' maps := by
  have hroom : ∀ {c : Context} {count : Int} {ids : List Int} {bm : BlockManager}, findContext mmu ctx = some c →
      u32ToInt n = some count → Taken mmu.l1Allocator ids bm → (ids.length : Int) ≤ count →
      ∀ x ∈ maps, x.1 = ctx → c.pageTable.entries.length + ids.length < 2 ^ 31 := by
    intro c count ids bm hc hcount ht hle x hx hctx
    obtain ⟨rfl, hsmall⟩ := u32ToInt_eq_some hcount
    have hfit := hfits hsmall ⟨x, hx, hctx⟩ c hc
    have hlen := ht.length
    have hfree : mmuGetFreeBlockCount mmu = mmu.l1Allocator.freeList.length := rfl
    omega
  rcases mmuAllocateBlocks_cases h.settled hr with
    ⟨_, _, rfl⟩ | ⟨c, count, ids, bm, hc, hcount, ht, hlt, _, _, rfl⟩ | ⟨c, count, ids, bm, hc, hcount, ht, heq, _, hreg⟩
  · exact h
  · have hs' := Settled.exhausted h.settled ht (mmu.contexts.insert ctx (c.grown ids))
    refine h.kept hs' (List.Sublist.refl _) ?_ (fun _ _ => le_rfl)
    intro x hx
    have hlen := hroom hc hcount ht (by omega) x hx
    exact routedBlock_grown h.settled hs' hc rfl hlen ((exhausted_live ht _).mpr (h.live hx)) (h.routes x hx)
  · have hnew : ∀ x ∈ maps, x.2.physicalBlockId ∉ ids := by
      intro x hx hmem
      have hlive : 0 < mmu.l1Allocator.refCounts.entry x.2.physicalBlockId := h.live hx
      have hzero := (ht.free _ hmem).2
      omega
    refine h.kept hreg.settled (List.Sublist.refl _) ?_ ?_
    · intro x hx
      have hlen := hroom hc hcount ht (by omega) x hx
      have halloc : mmu'.l1Allocator = bm := congrArg Routing.allocator hreg.routing
      have hlive : mmu'.Live x.2.physicalBlockId := by
        have hold : 0 < mmu.l1Allocator.refCounts.entry x.2.physicalBlockId := h.live hx
        show 0 < mmu'.l1Allocator.refCounts.entry x.2.physicalBlockId
        rw [halloc, ht.entry, if_neg (hnew x hx)]
        exact hold
      exact routedBlock_grown h.settled hreg.settled hc (congrArg Routing.contexts hreg.routing) hlen hlive
        (h.routes x hx)
    · intro x hx
      have hblock := hreg.blocks _ (hnew x hx)
      rw [hblock]

/-- A step that keeps the mappings keeps the open ones closable. -/
theorem Closable.step (h : Closable mmu maps) {call : Call} (hp : Permitted mmu call)
    (hk : KeepsMappings (mmu, maps) call (perform mmu call).1) :
    Closable (perform mmu call).2 (openStep mmu call (perform mmu call).1 maps) := by
  cases call with
  | createContext handle =>
    obtain ⟨r, m, hr⟩ : ∃ r m, mmuCreateContext mmu handle = (r, m) := ⟨_, _, rfl⟩
    simp only [perform, hr]
    exact create_closable h hp hr
  | destroyContext ctx => exact destroy_closable h hk
  | forkContext src grows handle =>
    obtain ⟨r, m, hr⟩ : ∃ r m, mmuForkContext mmu src grows handle = (r, m) := ⟨_, _, rfl⟩
    simp only [perform, hr]
    exact fork_closable h hp hr
  | allocateBlocks ctx n =>
    obtain ⟨r, m, hr⟩ : ∃ r m, mmuAllocateBlocks mmu ctx n = (r, m) := ⟨_, _, rfl⟩
    simp only [perform, hr]
    exact allocate_closable h hk hr
  | releaseLogicalBlock ctx lb =>
    obtain ⟨r, m, hr⟩ : ∃ r m, mmuReleaseLogicalBlock mmu ctx lb = (r, m) := ⟨_, _, rfl⟩
    simp only [perform, hr]
    exact release_closable h hk hr
  | prepareBlockForWrite ctx lb =>
    obtain ⟨r, m, hr⟩ : ∃ r m, mmuPrepareBlockForWrite mmu ctx lb = (r, m) := ⟨_, _, rfl⟩
    simp only [perform, hr]
    exact prepare_closable h hk hr
  | mapLogicalBlock ctx lb flags =>
    obtain ⟨r, m, hr⟩ : ∃ r m, mmuMapLogicalBlock mmu ctx lb flags = (r, m) := ⟨_, _, rfl⟩
    simp only [perform, hr]
    exact map_closable h hk.1 hk.2 hr
  | mapLogicalBlocks ctx lbs flags =>
    obtain ⟨r, m, hr⟩ : ∃ r m, mmuMapLogicalBlocks mmu ctx lbs flags = (r, m) := ⟨_, _, rfl⟩
    simp only [perform, hr]
    exact mapBlocks_closable h hk.1 hk.2 hr
  | unmapLogicalBlock ctx d =>
    obtain ⟨r, m, hr⟩ : ∃ r m, mmuUnmapLogicalBlock mmu ctx d = (r, m) := ⟨_, _, rfl⟩
    simp only [perform, hr]
    exact unmap_closable h hk hr
  | unmapLogicalBlocks ctx ds =>
    rw [perform_unmaps]
    exact unmapAll_closable ds h hk
  | hostWrite ctx d offset byte =>
    have hs' : (hostWrite mmu d offset byte).Settled := (hostWrite_clean h.settled d offset byte).settled
    have hpins : ∀ q, ((hostWrite mmu d offset byte).block q).info.pinCount = (mmu.block q).info.pinCount := by
      intro q
      rw [hostWrite_block]
      rfl
    exact h.kept hs' (List.Sublist.refl _) h.routes fun x _ => (hpins _).ge

/-- In every run whose steps keep the mappings, every mapping handed out can be closed until it has been:
by an unmap, the release of its logical block or the end of its context. -/
theorem open_mappings_close {start : MmuRuntime} {s : MmuRuntime × List Holding} (h : Initial start)
    (hrun : (machine.withGhost openStep).Reach KeepsMappings (start, []) s) : ∀ x ∈ s.2, Closes s.1 x := by
  have hreach : Reachable start := ⟨start, h, .start⟩
  have hend : Closable s.1 s.2 := by
    refine hrun.invariant (I := fun s => Closable s.1 s.2) hreach.settled.closable ?_
    intro s call hc hp hk
    exact hc.step (show Permitted s.1 call from hp) hk
  intro x hx
  exact hend.closes hx

end Closable

/-- The mapping of the only block, which owns the last slot of its chunk. -/
def onlyMapping : MappedBlock := ⟨⟨0, 3⟩, 4, 0, 0, mapRead⟩

def mapThenFork : List Call :=
  [.createContext (some 1), .allocateBlocks 1 1, .mapLogicalBlock 1 0 mapRead,
    .forkContext 1 (fun _ => true) (some 2)]

/-- Context 1 holds a mapping of a block that it shares with its fork, context 2. -/
def heldAndShared : MmuRuntime × List Holding :=
  (machine.withGhost openStep).replay (smallInstance 2 0, []) mapThenFork

theorem mapThenFork_keeps :
    (machine.withGhost openStep).Meets KeepsMappings (smallInstance 2 0, []) mapThenFork := by
  refine ⟨by decide +kernel, trivial, trivial, ?_, trivial, ⟨by decide +kernel, ?_⟩, by decide +kernel, trivial, trivial⟩
  · rintro - ⟨x, hx, -⟩
    cases hx
  · intro p hboth
    obtain ⟨-, hroute, hfull, -⟩ := hboth
    have hp : p = 0 := by
      have hzero : routedBlock (machine.replay (smallInstance 2 0) [.createContext (some 1), .allocateBlocks 1 1])
          1 0 = some 0 := by decide +kernel
      exact Option.some.inj (hroute.symm.trans hzero)
    rw [hp] at hfull
    exact absurd hfull (by decide +kernel)

/-- The fork may take a copy of the block. -/
theorem open_mappings_close_fork_written :
    Closes (perform heldAndShared.1 (.prepareBlockForWrite 2 0)).2 (1, onlyMapping) := by
  have hshared : (machine.withGhost openStep).Reach KeepsMappings (smallInstance 2 0, []) heldAndShared :=
    Machine.Reach.start.replay mapThenFork_keeps
  have hkeeps : KeepsMappings heldAndShared (.prepareBlockForWrite 2 0)
      (perform heldAndShared.1 (.prepareBlockForWrite 2 0)).1 := by
    show Switches heldAndShared.1 2 0 → NotHeld heldAndShared.2 2 0
    decide +kernel
  have hpermitted : (machine.withGhost openStep).enabled heldAndShared (.prepareBlockForWrite 2 0) := by decide +kernel
  have hprepared := Machine.Reach.next hshared hpermitted hkeeps
  exact open_mappings_close (smallInstance_initial 2 0) hprepared (1, onlyMapping) (by decide +kernel)

/-- Where the mapper itself prepares the block for writing, its own unmap is refused as a bad handle and
the block keeps the pin. -/
theorem moved_mapping_stays_open :
    (machine.withGhost openStep).Reach Machine.anyStep (smallInstance 2 0, []) heldAndShared ∧
    (let moved := (perform heldAndShared.1 (.prepareBlockForWrite 1 0)).2
     let unmapped := mmuUnmapLogicalBlock moved 1 onlyMapping
     heldAndShared.2 = [(1, onlyMapping)] ∧
     openStep heldAndShared.1 (.prepareBlockForWrite 1 0) (perform heldAndShared.1 (.prepareBlockForWrite 1 0)).1
       heldAndShared.2 = [(1, onlyMapping)] ∧
     unmapped.1 = .error .badHandle ∧ (unmapped.2.block 0).info.pinCount = 1 ∧ ¬Closes moved (1, onlyMapping)) := by
  refine ⟨(Machine.Reach.start.replay mapThenFork_keeps).any, by decide +kernel, by decide +kernel, by decide +kernel,
    by decide +kernel, ?_⟩
  intro hex
  obtain ⟨r, mmu', hu, hr, -⟩ := hex
  have hbad : (mmuUnmapLogicalBlock (perform heldAndShared.1 (.prepareBlockForWrite 1 0)).2 1 onlyMapping).1 =
      .error .badHandle := by decide +kernel
  rw [hu] at hbad
  rcases hr with hr | hr <;> rw [hr] at hbad <;> cases hbad

end DsfMmu
