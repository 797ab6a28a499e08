import DsfMmu.KvExample
import DsfMmu.KvLayout
import DsfMmu.Ledger

namespace DsfMmu

namespace KvExample

open Procedure MmuRuntime

section Tags

theorem lowByte_ofNat (n : Nat) : (UInt32.ofNat n &&& 0xFF).toUInt8 = UInt8.ofNat n := by
  apply UInt8.toNat_inj.mp
  have hmask : ∀ x : Nat, x &&& 255 = x % 256 := fun x => Nat.and_two_pow_sub_one_eq_mod x 8
  have hlit : (0xFF : UInt32).toNat = 255 := rfl
  rw [UInt32.toNat_toUInt8, UInt32.toNat_and, UInt8.toNat_ofNat', UInt32.toNat_ofNat', hlit, hmask]
  omega

theorem prefillTag_eq (ℓ τ : Nat) : prefillTag (.ofNat ℓ) (.ofNat τ) = .ofNat (37 * ℓ + 13 * τ) := by
  rw [← lowByte_ofNat, UInt32.ofNat_add, UInt32.ofNat_mul, UInt32.ofNat_mul, UInt32.mul_comm (.ofNat 37),
    UInt32.mul_comm (.ofNat 13)]
  rfl

theorem decodeTag_eq (step ℓ : Nat) : decodeTag (.ofNat step) (.ofNat ℓ) = .ofNat (17 * step + 19 * ℓ) := by
  rw [← lowByte_ofNat, UInt32.ofNat_add, UInt32.ofNat_mul, UInt32.ofNat_mul, UInt32.mul_comm (.ofNat 17),
    UInt32.mul_comm (.ofNat 19)]
  rfl

end Tags

/-- The layout a shape and a prompt length come to. -/
structure LaysOut (shape : KvShape) (promptTokens : UInt32) (k : KvLayout) : Prop where
  layers : shape.numLayers.toNat = k.layers
  tokens : shape.tokensPerBlock.toNat = k.tokensPerBlock
  bytes : shape.bytesPerTokenPerLayer.toNat = k.bytesPerToken
  prompt : promptTokens.toNat = k.prompt

/-- The cache as the books have it: `B` blocks a layer, of which layer `ℓ` has filled `written ℓ` tokens. -/
structure Cached (k : KvLayout) (ctx : CtxHandle) (B : Nat) (written : Nat → Nat) (a : Ledger) : Prop where
  size : a.world.size ctx = some (k.layers * B)
  slots : ∀ i < k.layers * B, ∃ bytes, a.world.slot ctx i = some bytes
  page : ∀ ℓ < k.layers, ∀ j < B, a.world.slot ctx (k.index ℓ j) = some (k.page (written ℓ) ℓ j)
  blockSize : a.config.blockSizeBytes = k.blockSize
  free : a.free + k.layers * B = a.config.l1BlockCount

/-- A runtime that keeps such a cache, with `maps` out and at most `touches` ticks on its clock. -/
def Keeps (k : KvLayout) (config : ResolvedConfig) (ctx : CtxHandle) (B : Nat) (written : Nat → Nat)
    (maps : List Holding) (touches : Nat) (mmu : MmuRuntime) : Prop :=
  ∃ a, Serves mmu a ∧ a.config = config ∧ a.maps = maps ∧ a.touches ≤ touches ∧ Cached k ctx B written a

section Keeps

variable {k : KvLayout} {config : ResolvedConfig} {ctx : CtxHandle} {B touches touches' : Nat} {written written' : Nat → Nat}
  {out : List Holding} {mmu : MmuRuntime} {a : Ledger}

theorem Cached.congr (h : Cached k ctx B written a) (hw : ∀ ℓ < k.layers, written ℓ = written' ℓ) :
    Cached k ctx B written' a := by
  refine ⟨h.size, h.slots, ?_, h.blockSize, h.free⟩
  intro ℓ hℓ j hj
  rw [← hw ℓ hℓ]
  exact h.page ℓ hℓ j hj

theorem Keeps.congr (h : Keeps k config ctx B written out touches mmu) (hw : ∀ ℓ < k.layers, written ℓ = written' ℓ) :
    Keeps k config ctx B written' out touches mmu := by
  obtain ⟨a, hserves, hconfig, hmaps, htouches, hcached⟩ := h
  exact ⟨a, hserves, hconfig, hmaps, htouches, hcached.congr hw⟩

theorem Keeps.later (h : Keeps k config ctx B written out touches mmu) (hle : touches ≤ touches') :
    Keeps k config ctx B written out touches' mmu := by
  obtain ⟨a, hserves, hconfig, hmaps, htouches, hcached⟩ := h
  exact ⟨a, hserves, hconfig, hmaps, htouches.trans hle, hcached⟩

/-- The count the program asks for: no entry has been given up. -/
theorem Keeps.count (h : Keeps k config ctx B written out touches mmu) :
    mmuGetLogicalBlockCount mmu ctx = k.layers * B := by
  obtain ⟨a, hserves, _, _, _, hcached⟩ := h
  obtain ⟨l, hl, hlen⟩ := Option.map_eq_some_iff.mp hcached.size
  have hview : mmu.view ctx = some l := by rw [hserves.world, hl]
  obtain ⟨c, hc, rfl⟩ := Option.map_eq_some_iff.mp hview
  rw [List.length_map] at hlen
  have hfound : findContext mmu ctx = some c := (Settled.findContext hserves.covered.routing.handles).mpr hc
  unfold mmuGetLogicalBlockCount
  rw [hfound]
  show (Context.namedBlocks c.pageTable).length = k.layers * B
  rw [← hlen]
  unfold Context.namedBlocks
  rw [List.filter_eq_self.mpr]
  intro b hb
  obtain ⟨i, hi, hbi⟩ := List.getElem_of_mem hb
  obtain ⟨bytes, hslot⟩ := hcached.slots i (hlen ▸ hi)
  rw [← hserves.world] at hslot
  obtain ⟨b', hentry, hun, _⟩ := slot_eq_some.mp hslot
  obtain ⟨c', hc', hb'⟩ := entryAt_eq_some.mp hentry
  cases hc.symm.trans hc'
  have heq : b' = b := Option.some.inj (hb'.symm.trans (List.getElem?_eq_some_iff.mpr ⟨hi, hbi⟩))
  rw [heq] at hun
  exact decide_eq_true hun

theorem Keeps.freeCount (h : Keeps k config ctx B written out touches mmu) :
    mmuGetFreeBlockCount mmu + k.layers * B = config.l1BlockCount := by
  obtain ⟨a, hserves, rfl, _, _, hcached⟩ := h
  rw [hserves.free]
  exact hcached.free

/-- More blocks for every layer, where so many are free. -/
theorem Keeps.allocate (h : Keeps k config ctx B written [] touches mmu) {m : Nat} {n : UInt32}
    (hn : n.toNat = k.layers * m) (hshort : k.layers * (B + m) < 2 ^ 31) (hprompt : k.blocks k.prompt ≤ B + m)
    (hnew : ∀ ℓ < k.layers, ∀ j, B ≤ j → j < B + m → k.layers * B ≤ k.index ℓ j ∧ written ℓ ≤ j * k.tokensPerBlock) :
    (k.layers * (B + m) ≤ config.l1BlockCount ∧ ∃ mmu', mmuAllocateBlocks mmu ctx n = (.ok (), mmu') ∧
        Keeps k config ctx (B + m) written [] (touches + n.toNat) mmu') ∨
      (config.l1BlockCount < k.layers * (B + m) ∧ ∃ mmu', mmuAllocateBlocks mmu ctx n = (.error .outOfMemory, mmu')) := by
  obtain ⟨a, hserves, rfl, hmaps, htouches, hcached⟩ := h
  obtain ⟨l, hl, hlen⟩ := Option.map_eq_some_iff.mp hcached.size
  have hfree := hcached.free
  have hmul : k.layers * (B + m) = k.layers * B + k.layers * m := Nat.mul_add ..
  rcases hserves.allocate hl (n := n) (by omega) with ⟨hroom, mmu', halloc, hserves'⟩ | ⟨hfull, mmu', halloc⟩
  · refine .inl ⟨by omega, mmu', halloc, a.allocate ctx n.toNat, hserves', rfl, hmaps, ?_, ?_, ?_, ?_, hcached.blockSize, ?_⟩
    · exact Nat.add_le_add_right htouches _
    · show (a.world.allocate ctx n.toNat a.zeroPage).size ctx = _
      rw [EagerWorld.size_allocate _ hcached.size, hmul, hn]
    · intro i hi
      by_cases hold : i < k.layers * B
      · obtain ⟨bytes, hslot⟩ := hcached.slots i hold
        exact ⟨bytes, EagerWorld.slot_allocate _ _ hslot⟩
      · exact ⟨a.zeroPage, EagerWorld.slot_allocate_new _ hcached.size (by omega) (by omega)⟩
    · intro ℓ hℓ j hj
      by_cases hold : j < B
      · exact EagerWorld.slot_allocate _ _ (hcached.page ℓ hℓ j hold)
      · have hlt := k.index_lt hprompt hℓ hj
        obtain ⟨hge, hblank⟩ := hnew ℓ hℓ j (by omega) hj
        rw [k.page_blank hblank, ← hcached.blockSize]
        exact EagerWorld.slot_allocate_new _ hcached.size hge (by omega)
    · show a.free - n.toNat + k.layers * (B + m) = a.config.l1BlockCount
      omega
  · exact .inr ⟨by omega, mmu', halloc⟩

/-- What the program holds for a block it has mapped. -/
structure Handed (k : KvLayout) (flags : UInt32) (lb : UInt32) (d : MappedBlock) : Prop where
  entry : d.logicalBlockId = lb
  flags : d.mapFlags = flags
  size : d.sizeBytes = k.blockSize

/-- Different blocks of the cache can be mapped together exactly where they fit in L1. -/
theorem Keeps.maps (h : Keeps k config ctx B written [] touches mmu) {flags : UInt32} {lbs : List UInt32}
    (hflags : validateMapFlags flags = true) (hnodup : lbs.Nodup) (hslots : ∀ lb ∈ lbs, lb.toNat < k.layers * B)
    (hlen : lbs.length < 2 ^ 32) (hclock : touches + 2 * lbs.length < maxEpoch) :
    (lbs.length ≤ config.l1ResidentBlockLimit ∧ ∃ ds mmu', mmuMapLogicalBlocks mmu ctx lbs flags = (.ok ds, mmu') ∧
        List.Forall₂ (Handed k flags) lbs ds ∧
        Keeps k config ctx B written (ds.map (Prod.mk ctx)) (touches + 2 * lbs.length) mmu') ∨
      (config.l1ResidentBlockLimit < lbs.length ∧
        ∃ mmu', mmuMapLogicalBlocks mmu ctx lbs flags = (.error .outOfMemory, mmu')) := by
  obtain ⟨a, hserves, rfl, hmaps, htouches, hcached⟩ := h
  have hnone : a.held.card = 0 := by
    unfold Ledger.held
    rw [hmaps]
    rfl
  have hfree : ∀ lb ∈ lbs, NotHeld a.maps ctx lb := by
    intro lb _ x hx
    rw [hmaps] at hx
    cases hx
  rcases hserves.maps hflags (fun lb hlb => hcached.slots _ (hslots lb hlb)) hfree hnodup (by omega)
    (by rw [hmaps]; simpa using hlen) (by omega) with
    ⟨hroom, ds, mmu', hmap, hall, hserves'⟩ | ⟨hfull, mmu', hmap⟩
  · have hall' : List.Forall₂ (Handed k flags) lbs ds :=
      hall.imp fun _ _ hg => ⟨hg.entry, hg.flags, hg.size.trans hcached.blockSize⟩
    refine .inl ⟨by omega, ds, mmu', hmap, hall', a.mapAll ctx ds, hserves', rfl, ?_, ?_, ?_⟩
    · show ds.map (Prod.mk ctx) ++ a.maps = _
      rw [hmaps, List.append_nil]
    · have hds := hall.length_eq
      show a.touches + 2 * ds.length ≤ touches + 2 * lbs.length
      omega
    · exact ⟨hcached.size, hcached.slots, hcached.page, hcached.blockSize, hcached.free⟩
  · exact .inr ⟨by omega, mmu', hmap⟩

theorem Keeps.unmaps {ds : List MappedBlock} (h : Keeps k config ctx B written (ds.map (Prod.mk ctx)) touches mmu) :
    ∃ mmu', mmuUnmapLogicalBlocks mmu ctx ds = (.ok (), mmu') ∧
      Keeps k config ctx B written [] (touches + ds.length) mmu' := by
  obtain ⟨a, hserves, rfl, hmaps, htouches, hcached⟩ := h
  obtain ⟨mmu', hunmap, hserves'⟩ := @Serves.unmaps _ _ ctx hserves ds [] (by rw [hmaps, List.append_nil])
  refine ⟨mmu', hunmap, _, hserves', rfl, rfl, ?_, ?_⟩
  · exact Nat.add_le_add_right htouches _
  · exact ⟨hcached.size, hcached.slots, hcached.page, hcached.blockSize, hcached.free⟩

/-- A mapping shows the page of its block. -/
theorem Keeps.read (h : Keeps k config ctx B written out touches mmu) {d : MappedBlock} (hd : (ctx, d) ∈ out) {ℓ j : Nat}
    (hℓ : ℓ < k.layers) (hj : j < B) (hindex : d.logicalBlockId.toNat = k.index ℓ j) :
    hostRead mmu d = k.page (written ℓ) ℓ j := by
  obtain ⟨a, hserves, _, hmaps, _, hcached⟩ := h
  have hread := hserves.read (hmaps ▸ hd)
  rw [hindex, hcached.page ℓ hℓ j hj] at hread
  exact (Option.some.inj hread).symm

theorem serves_memset (h : Serves mmu a) {d : MappedBlock} (hd : (ctx, d) ∈ a.maps) (hw : hasWrite d.mapFlags = true)
    {offset len : Nat} (hfits : offset + len ≤ d.sizeBytes) (value : UInt8) :
    Serves (hostMemset mmu d offset value len)
      { a with world := a.world.write ctx d.logicalBlockId.toNat (fill · offset value len) } := by
  induction len with
  | zero =>
    have hid : (fun bytes : Bytes => fill bytes offset value 0) = id := rfl
    rw [hid, EagerWorld.write_id]
    exact h
  | succ len ih =>
    have hlast : offset + len < d.sizeBytes := by omega
    have hstep := (ih (by omega)).store hd hw hlast value
    have hmemset : hostMemset mmu d offset value (len + 1) =
        hostWrite (hostMemset mmu d offset value len) d (offset + len) value := by
      unfold hostMemset
      rw [List.range_succ, List.foldl_append]
      rfl
    have hfill : (fun bytes : Bytes => fill bytes offset value (len + 1)) =
        (fun bytes : Bytes => bytes.set (offset + len) value) ∘ fun bytes => fill bytes offset value len :=
      funext fun bytes => fill_succ bytes offset value len
    rw [hmemset, hfill, ← EagerWorld.write_write]
    exact hstep

/-- A layer's next token goes to the slice of its slot in its block. -/
theorem Keeps.writeToken (h : Keeps k config ctx B written out touches mmu) {d : MappedBlock} (hd : (ctx, d) ∈ out)
    {flags lb : UInt32} (hgiven : Handed k flags lb d) (hw : hasWrite flags = true) {ℓ : Nat} (hℓ : ℓ < k.layers)
    (hj : written ℓ / k.tokensPerBlock < B)
    (hindex : lb.toNat = k.index ℓ (written ℓ / k.tokensPerBlock)) {bytesPerToken slot : UInt32}
    (hbytes : bytesPerToken.toNat = k.bytesPerToken) (hslot : slot.toNat = written ℓ % k.tokensPerBlock) :
    Keeps k config ctx B (Function.update written ℓ (written ℓ + 1)) out touches
      (writeTokenSlice mmu d bytesPerToken slot (k.tag ℓ (written ℓ))) := by
  obtain ⟨a, hserves, hconfig, rfl, htouches, hcached⟩ := h
  have hlt := Nat.mod_lt (written ℓ) k.tokens_pos
  have hend : written ℓ % k.tokensPerBlock * k.bytesPerToken + k.bytesPerToken ≤ d.sizeBytes := by
    have hle := Nat.mul_le_mul_right k.bytesPerToken (Nat.succ_le_of_lt hlt)
    rw [Nat.succ_mul, Nat.mul_comm k.tokensPerBlock] at hle
    rw [hgiven.size]
    exact hle
  have hslice : writeTokenSlice mmu d bytesPerToken slot (k.tag ℓ (written ℓ)) =
      hostMemset mmu d (written ℓ % k.tokensPerBlock * k.bytesPerToken) (k.tag ℓ (written ℓ)) k.bytesPerToken := by
    have hpos := k.bytes_pos
    unfold writeTokenSlice
    rw [hbytes, hslot]
    dsimp only
    rw [if_neg (by omega), if_neg (by omega)]
  have hwd : hasWrite d.mapFlags = true := by rw [hgiven.flags]; exact hw
  have hlb : d.logicalBlockId.toNat = k.index ℓ (written ℓ / k.tokensPerBlock) := by rw [hgiven.entry, hindex]
  rw [hslice]
  refine ⟨_, serves_memset hserves hd hwd hend _, hconfig, rfl, htouches, ?_, ?_, ?_, hcached.blockSize, hcached.free⟩
  · exact EagerWorld.size_write _ |>.trans hcached.size
  · intro i hi
    obtain ⟨bytes, hbytes'⟩ := hcached.slots i hi
    by_cases heq : i = d.logicalBlockId.toNat
    · subst heq
      exact ⟨_, EagerWorld.slot_write_self _ hbytes'⟩
    · exact ⟨bytes, (EagerWorld.slot_write_ne _ _ _ heq).trans hbytes'⟩
  · intro ℓ' hℓ' j' hj'
    show (a.world.write ctx d.logicalBlockId.toNat _).slot ctx (k.index ℓ' j') = _
    rw [hlb]
    by_cases hsame : k.index ℓ' j' = k.index ℓ (written ℓ / k.tokensPerBlock)
    · obtain ⟨rfl, rfl⟩ := k.index_inj hℓ' hℓ hsame
      rw [EagerWorld.slot_write_self _ (hcached.page _ hℓ _ hj), Function.update_self, k.fill_page]
    · rw [EagerWorld.slot_write_ne _ _ _ hsame, hcached.page ℓ' hℓ' j' hj']
      by_cases hrow : ℓ' = ℓ
      · subst hrow
        rw [Function.update_self, k.page_other (fun he => hsame (he ▸ rfl))]
      · rw [Function.update_of_ne hrow]

/-- A single READ mapping is granted, and shows the page. -/
theorem Keeps.mapRead (h : Keeps k config ctx B written [] touches mmu) (hclock : touches < maxEpoch) {ℓ j : Nat}
    (hℓ : ℓ < k.layers) (hj : j < B) {lb : UInt32} (hlb : lb.toNat = k.index ℓ j) :
    ∃ d mmu', mmuMapLogicalBlock mmu ctx lb mapRead = (.ok d, mmu') ∧ hostRead mmu' d = k.page (written ℓ) ℓ j := by
  obtain ⟨a, hserves, _, hmaps, htouches, hcached⟩ := h
  have hflags : validateMapFlags DsfMmu.mapRead = true := rfl
  have hslot : a.world.slot ctx lb.toNat = some (k.page (written ℓ) ℓ j) := by
    rw [hlb]
    exact hcached.page ℓ hℓ j hj
  have hnot : NotHeld a.maps ctx lb := by
    intro x hx
    rw [hmaps] at hx
    cases hx
  have hfits : a.Admits ctx lb := by
    have hpos := a.config.limit_pos
    unfold Ledger.Admits Ledger.held
    rw [hmaps]
    exact hpos
  rcases hserves.map hflags hslot (fun _ => hnot) (by rw [hmaps]; decide) (by omega) with
    ⟨_, d, mmu', hmap, hgranted, hserves'⟩ | ⟨hno, _⟩
  · have hread := hserves'.read (d := d) List.mem_cons_self
    rw [hgranted.entry] at hread
    exact ⟨d, mmu', hmap, Option.some.inj (hread.symm.trans hslot)⟩
  · exact absurd hfits hno

theorem Keeps.route (h : Keeps k config ctx B written out touches mmu) {lb : UInt32} (hlb : lb.toNat < k.layers * B) :
    ∃ route, mmuResolveRouting mmu ctx lb = .ok route := by
  obtain ⟨a, hserves, _, _, _, hcached⟩ := h
  obtain ⟨l, hl, _⟩ := Option.map_eq_some_iff.mp hcached.size
  exact (hserves.simulates.refines.routes ctx l lb hl (hserves.short ctx l hl)).mpr (hcached.slots _ hlb)

/-- Entries below `i` have been given up. -/
def Releasing (k : KvLayout) (config : ResolvedConfig) (ctx : CtxHandle) (B i : Nat) (mmu : MmuRuntime) : Prop :=
  ∃ a, Serves mmu a ∧ a.maps = [] ∧ (∀ m, i ≤ m → m < k.layers * B → ∃ bytes, a.world.slot ctx m = some bytes) ∧
    a.free + (k.layers * B - i) = config.l1BlockCount

theorem Keeps.releasing (h : Keeps k config ctx B written [] touches mmu) : Releasing k config ctx B 0 mmu := by
  obtain ⟨a, hserves, rfl, hmaps, _, hcached⟩ := h
  exact ⟨a, hserves, hmaps, fun m _ hm => hcached.slots m hm, hcached.free⟩

theorem Releasing.release {i : Nat} (h : Releasing k config ctx B i mmu) (hi : i < k.layers * B)
    (hshort : k.layers * B < 2 ^ 31) : ∃ mmu', mmuReleaseLogicalBlock mmu ctx (.ofNat i) = (.ok (), mmu') ∧
      Releasing k config ctx B (i + 1) mmu' := by
  obtain ⟨a, hserves, hmaps, hslots, hfree⟩ := h
  have hindex : (UInt32.ofNat i).toNat = i := by
    rw [UInt32.toNat_ofNat']
    omega
  obtain ⟨bytes, hslot⟩ := hslots i le_rfl hi
  have hnot : NotHeld a.maps ctx (.ofNat i) := by
    intro x hx
    rw [hmaps] at hx
    cases hx
  obtain ⟨mmu', hrelease, hserves'⟩ := hserves.release (by rw [hindex]; exact hslot) hnot
  refine ⟨mmu', hrelease, _, hserves', hmaps, ?_, ?_⟩
  · intro m hm hlt
    obtain ⟨bytes', hslot'⟩ := hslots m (by omega) hlt
    refine ⟨bytes', ?_⟩
    show (a.world.release ctx (UInt32.ofNat i).toNat).slot ctx m = some bytes'
    rw [EagerWorld.slot_release_ne _ _ (by omega)]
    exact hslot'
  · show a.free + 1 + (k.layers * B - (i + 1)) = config.l1BlockCount
    omega

end Keeps

end KvExample

end DsfMmu
