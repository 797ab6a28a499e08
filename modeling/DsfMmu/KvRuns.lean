import DsfMmu.KvCache

namespace DsfMmu

namespace KvExample

open Procedure MmuRuntime

/-- `n` for the first `c` layers, `m` for the others. -/
def firstRows (c n m : Nat) : Nat → Nat := fun ℓ => if ℓ < c then n else m

theorem firstRows_same (c n m : Nat) : Function.update (firstRows c n m) c m = firstRows c n m := by
  apply Function.update_eq_self_iff.mpr
  exact (if_neg (lt_irrefl c)).symm

theorem firstRows_succ (c n m : Nat) : Function.update (firstRows c n m) c n = firstRows (c + 1) n m := by
  funext ℓ
  unfold firstRows
  by_cases hℓ : ℓ = c
  · subst hℓ
    rw [Function.update_self, if_pos (by omega)]
  · rw [Function.update_of_ne hℓ]
    congr 1
    apply propext
    omega

section Words

variable {shape : KvShape} {promptTokens : UInt32} {k : KvLayout}

theorem ofNat_toNat_of_lt {n : Nat} (h : n < 2 ^ 32) : (UInt32.ofNat n).toNat = n := by
  rw [UInt32.toNat_ofNat']
  omega

theorem LaysOut.blocksPerLayer (hk : LaysOut shape promptTokens k) (hsize : k.prompt + k.tokensPerBlock < 2 ^ 32) :
    (shape.blocksPerLayer promptTokens).toNat = k.blocks k.prompt := by
  have hpos := k.tokens_pos
  have hsum : (promptTokens + shape.tokensPerBlock).toNat = k.prompt + k.tokensPerBlock := by
    rw [UInt32.toNat_add, hk.prompt, hk.tokens, Nat.mod_eq_of_lt hsize]
  have hone : (1 : UInt32).toNat = 1 := rfl
  unfold KvShape.blocksPerLayer KvLayout.blocks
  rw [UInt32.toNat_div, hk.tokens, UInt32.toNat_sub_of_le, hsum, hone]
  rw [UInt32.le_iff_toNat_le, hsum, hone]
  omega

/-- The tokens of the prompt's `b`-th block. -/
theorem LaysOut.validTokens (hk : LaysOut shape promptTokens k) (hsize : k.prompt + k.tokensPerBlock < 2 ^ 32) {b : Nat}
    (hb : b < k.blocks k.prompt) :
    (UInt32.ofNat b * shape.tokensPerBlock = .ofNat (b * k.tokensPerBlock)) ∧
      b * k.tokensPerBlock < k.prompt ∧
      (min shape.tokensPerBlock (promptTokens - UInt32.ofNat b * shape.tokensPerBlock)).toNat =
        min k.tokensPerBlock (k.prompt - b * k.tokensPerBlock) := by
  have hstart : UInt32.ofNat b * shape.tokensPerBlock = .ofNat (b * k.tokensPerBlock) := by
    rw [UInt32.ofNat_mul, ← hk.tokens, UInt32.ofNat_toNat]
  have hlt := k.start_lt hb
  have hnat : (UInt32.ofNat (b * k.tokensPerBlock)).toNat = b * k.tokensPerBlock := ofNat_toNat_of_lt (by omega)
  refine ⟨hstart, hlt, ?_⟩
  rw [hstart, UInt32.toNat_min, UInt32.toNat_sub_of_le, hk.tokens, hk.prompt, hnat]
  rw [UInt32.le_iff_toNat_le, hnat, hk.prompt]
  omega

end Words

section Prefill

variable {shape : KvShape} {promptTokens : UInt32} {k : KvLayout} {config : ResolvedConfig} {ctx : CtxHandle}
  {B touches : Nat} {F : Prop}

/-- The blocks of layer `ℓ`. -/
def layerBlocks (k : KvLayout) (B ℓ : Nat) : List UInt32 := (List.range B).map fun j => .ofNat (k.index ℓ j)

theorem layerBlocks_length (k : KvLayout) (B ℓ : Nat) : (layerBlocks k B ℓ).length = B := by
  unfold layerBlocks
  rw [List.length_map, List.length_range]

theorem handed_at {flags : UInt32} {lbs : List UInt32} {ds : List MappedBlock} (hds : List.Forall₂ (Handed k flags) lbs ds)
    {i : Nat} {d : MappedBlock} (hd : ds[i]? = some d) : ∃ lb, lbs[i]? = some lb ∧ Handed k flags lb d := by
  obtain ⟨hi, hdi⟩ := List.getElem?_eq_some_iff.mp hd
  have hlen := hds.length_eq
  have hi' : i < lbs.length := by omega
  refine ⟨lbs[i], List.getElem?_eq_getElem hi', ?_⟩
  have hget := hds.get hi' hi
  rw [List.get_eq_getElem, List.get_eq_getElem, hdi] at hget
  exact hget

/-- The turn that writes a layer's next token. -/
theorem Keeps.tokenTurn {B n : Nat} {f : Nat → Nat} {out : List Holding} {c : Nat} (hc : c < k.layers)
    {d : MappedBlock} {lb : UInt32} (hd : (ctx, d) ∈ out) (hgiven : Handed k mapReadWrite lb d)
    (hlb : lb.toNat = k.index c (n / k.tokensPerBlock)) (hB : n / k.tokensPerBlock < B) {bytesPerToken slot : UInt32}
    (hbytes : bytesPerToken.toNat = k.bytesPerToken) (hslot : slot.toNat = n % k.tokensPerBlock) {mmu : MmuRuntime}
    (h : Keeps k config ctx B (Function.update f c n) out touches mmu) :
    Keeps k config ctx B (Function.update f c (n + 1)) out touches
      (writeTokenSlice mmu d bytesPerToken slot (k.tag c n)) := by
  have hn : Function.update f c n c = n := Function.update_self ..
  have hw : hasWrite mapReadWrite = true := rfl
  have hstep := h.writeToken hd hgiven hw hc (by rw [hn]; exact hB) (by rw [hn]; exact hlb) hbytes (by rw [hn]; exact hslot)
  rw [hn, Function.update_idem] at hstep
  exact hstep

theorem writeBlock_ends (hk : LaysOut shape promptTokens k) (hsize : k.prompt + k.tokensPerBlock < 2 ^ 32) {c b : Nat}
    (hc : c < k.layers) (hb : b < k.blocks k.prompt) {f : Nat → Nat} {out : List Holding} {d : MappedBlock} {lb : UInt32}
    (hd : (ctx, d) ∈ out) (hgiven : Handed k mapReadWrite lb d) (hlb : lb.toNat = k.index c b) :
    Ends (Keeps k config ctx (k.blocks k.prompt) (Function.update f c (b * k.tokensPerBlock)) out touches)
      (writeBlock shape promptTokens (.ofNat c) d b)
      (fun _ => Keeps k config ctx (k.blocks k.prompt) (Function.update f c (min ((b + 1) * k.tokensPerBlock) k.prompt)) out
        touches) F := by
  have hpos := k.tokens_pos
  obtain ⟨hstart, hlt, hvalid⟩ := hk.validTokens hsize hb
  have hrow : (b + 1) * k.tokensPerBlock = b * k.tokensPerBlock + k.tokensPerBlock := Nat.succ_mul ..
  unfold writeBlock
  dsimp only
  rw [hstart] at hvalid ⊢
  rw [hvalid]
  refine Ends.forRange (fun t => Keeps k config ctx (k.blocks k.prompt)
    (Function.update f c (b * k.tokensPerBlock + t)) out touches) (fun _ h => h) ?_ ?_
  · intro t ht
    apply ends_update
    intro s hs
    have htlt : t < k.tokensPerBlock := by omega
    have hdiv : (b * k.tokensPerBlock + t) / k.tokensPerBlock = b := by
      rw [Nat.mul_comm, Nat.mul_add_div hpos, Nat.div_eq_of_lt htlt, Nat.add_zero]
    have hmod : (b * k.tokensPerBlock + t) % k.tokensPerBlock = t := by
      rw [Nat.mul_comm, Nat.mul_add_mod, Nat.mod_eq_of_lt htlt]
    have htag : prefillTag (.ofNat c) (.ofNat (b * k.tokensPerBlock) + .ofNat t) = k.tag c (b * k.tokensPerBlock + t) := by
      unfold KvLayout.tag
      rw [← UInt32.ofNat_add, prefillTag_eq, if_pos (by omega)]
    have hslot : (UInt32.ofNat t).toNat = (b * k.tokensPerBlock + t) % k.tokensPerBlock := by
      rw [hmod]
      exact ofNat_toNat_of_lt (by omega)
    rw [htag]
    exact hs.tokenTurn hc hd hgiven (by rw [hdiv]; exact hlb) (by rw [hdiv]; exact hb) hk.bytes hslot
  · intro s hs
    have hend : b * k.tokensPerBlock + min k.tokensPerBlock (k.prompt - b * k.tokensPerBlock) =
        min ((b + 1) * k.tokensPerBlock) k.prompt := by omega
    rw [hend] at hs
    exact hs

theorem index_toNat (hprompt : k.blocks k.prompt ≤ B) (hshort : k.layers * B < 2 ^ 31) {ℓ j : Nat} (hℓ : ℓ < k.layers)
    (hj : j < B) : (UInt32.ofNat (k.index ℓ j)).toNat = k.index ℓ j := by
  have hlt := k.index_lt hprompt hℓ hj
  exact ofNat_toNat_of_lt (by omega)

theorem layerBlocks_nodup (hprompt : k.blocks k.prompt ≤ B) (hshort : k.layers * B < 2 ^ 31) {ℓ : Nat}
    (hℓ : ℓ < k.layers) : (layerBlocks k B ℓ).Nodup := by
  apply List.Nodup.map_on _ List.nodup_range
  intro i hi j hj heq
  have heq' := congrArg UInt32.toNat heq
  rw [index_toNat hprompt hshort hℓ (List.mem_range.mp hi), index_toNat hprompt hshort hℓ (List.mem_range.mp hj)] at heq'
  exact (k.index_inj hℓ hℓ heq').2

theorem mem_layerBlocks (hprompt : k.blocks k.prompt ≤ B) (hshort : k.layers * B < 2 ^ 31) {ℓ : Nat} (hℓ : ℓ < k.layers)
    {lb : UInt32} (hlb : lb ∈ layerBlocks k B ℓ) : ∃ j < B, lb.toNat = k.index ℓ j := by
  obtain ⟨j, hj, rfl⟩ := List.mem_map.mp hlb
  have hjB := List.mem_range.mp hj
  exact ⟨j, hjB, index_toNat hprompt hshort hℓ hjB⟩

theorem layerBlocks_at {ℓ j : Nat} (hj : j < B) : (layerBlocks k B ℓ)[j]? = some (.ofNat (k.index ℓ j)) := by
  unfold layerBlocks
  rw [List.getElem?_map, List.getElem?_range hj]
  rfl

theorem maps_ends {written : Nat → Nat} {flags : UInt32} {lbs : List UInt32} (hflags : validateMapFlags flags = true)
    (hnodup : lbs.Nodup) (hslots : ∀ lb ∈ lbs, lb.toNat < k.layers * B) (hlen : lbs.length < 2 ^ 32)
    (hclock : touches + 2 * lbs.length < maxEpoch) (hF : config.l1ResidentBlockLimit < lbs.length → F) :
    Ends (Keeps k config ctx B written [] touches) (attempt (mmuMapLogicalBlocks · ctx lbs flags))
      (fun ds s => (lbs.length ≤ config.l1ResidentBlockLimit ∧ List.Forall₂ (Handed k flags) lbs ds) ∧
        Keeps k config ctx B written (ds.map (Prod.mk ctx)) (touches + 2 * lbs.length) s) F := by
  apply ends_attempt
  intro s hs
  rcases hs.maps hflags hnodup hslots hlen hclock with ⟨hroom, ds, s', hmap, hds, hs'⟩ | ⟨hfull, s', hmap⟩
  · exact .inl ⟨ds, s', hmap, ⟨hroom, hds⟩, hs'⟩
  · exact .inr ⟨hF hfull, _, s', hmap⟩

theorem unmaps_ends {written : Nat → Nat} {ds : List MappedBlock} :
    Ends (Keeps k config ctx B written (ds.map (Prod.mk ctx)) touches) (attempt (mmuUnmapLogicalBlocks · ctx ds))
      (fun _ => Keeps k config ctx B written [] (touches + ds.length)) F := by
  apply ends_attempt
  intro s hs
  obtain ⟨s', hunmap, hs'⟩ := hs.unmaps
  exact .inl ⟨(), s', hunmap, hs'⟩

theorem layerBlocks_slots (hprompt : k.blocks k.prompt ≤ B) (hshort : k.layers * B < 2 ^ 31) {ℓ : Nat}
    (hℓ : ℓ < k.layers) {lb : UInt32} (hlb : lb ∈ layerBlocks k B ℓ) : lb.toNat < k.layers * B := by
  obtain ⟨j, hj, heq⟩ := mem_layerBlocks hprompt hshort hℓ hlb
  rw [heq]
  exact k.index_lt hprompt hℓ hj

/-- One layer of the prompt: mapped, written and given back. -/
theorem prefillLayer_ends (hk : LaysOut shape promptTokens k) (hsize : k.prompt + k.tokensPerBlock < 2 ^ 32)
    (hshort : k.layers * k.blocks k.prompt < 2 ^ 31) {c : Nat} (hc : c < k.layers)
    (hclock : touches + 2 * k.blocks k.prompt < maxEpoch) (hF : config.l1ResidentBlockLimit < k.blocks k.prompt → F) :
    Ends (Keeps k config ctx (k.blocks k.prompt) (firstRows c k.prompt 0) [] touches)
      (prefillLayer ctx shape promptTokens (.ofNat c) ⟨layerBlocks k (k.blocks k.prompt) c⟩)
      (fun _ s => k.blocks k.prompt ≤ config.l1ResidentBlockLimit ∧
        Keeps k config ctx (k.blocks k.prompt) (firstRows (c + 1) k.prompt 0) [] (touches + 3 * k.blocks k.prompt) s) F := by
  have hlen := layerBlocks_length k (k.blocks k.prompt) c
  have hrow : k.blocks k.prompt ≤ k.layers * k.blocks k.prompt := Nat.le_mul_of_pos_left _ (by omega)
  have htake : (layerBlocks k (k.blocks k.prompt) c).take (shape.blocksPerLayer promptTokens).toNat =
      layerBlocks k (k.blocks k.prompt) c := by
    rw [hk.blocksPerLayer hsize, List.take_of_length_le hlen.le]
  have hflags : validateMapFlags mapReadWrite = true := rfl
  have hmaps := @maps_ends k config ctx _ touches F (firstRows c k.prompt 0) _ _ hflags
    (layerBlocks_nodup le_rfl hshort hc) (fun lb hlb => layerBlocks_slots le_rfl hshort hc hlb) (by omega) (by omega)
    (by rw [hlen]; exact hF)
  unfold prefillLayer
  dsimp only
  rw [htake]
  refine hmaps.bind fun ds => Ends.given fun hgiven => ?_
  obtain ⟨hroom, hds⟩ := hgiven
  have hdsLen := hds.length_eq
  rw [hlen] at hdsLen hroom ⊢
  refine Ends.bind (Q := fun _ => Keeps k config ctx (k.blocks k.prompt) (firstRows (c + 1) k.prompt 0)
    (ds.map (Prod.mk ctx)) (touches + 2 * k.blocks k.prompt)) ?_ fun _ => ?_
  · refine Ends.forIdx (fun b => Keeps k config ctx (k.blocks k.prompt)
      (Function.update (firstRows c k.prompt 0) c (min (b * k.tokensPerBlock) k.prompt)) (ds.map (Prod.mk ctx))
      (touches + 2 * k.blocks k.prompt)) ?_ ?_ ?_
    · intro s hs
      rw [Nat.zero_mul, Nat.zero_min, firstRows_same]
      exact hs
    · intro b d hd
      obtain ⟨lb, hlb, hgiven⟩ := handed_at hds hd
      have hb : b < k.blocks k.prompt := hdsLen ▸ (List.getElem?_eq_some_iff.mp hd).1
      rw [layerBlocks_at hb] at hlb
      cases Option.some.inj hlb
      have hmem : (ctx, d) ∈ ds.map (Prod.mk ctx) := List.mem_map_of_mem (List.mem_of_getElem? hd)
      rw [Nat.min_eq_left (k.start_lt hb).le]
      exact writeBlock_ends hk hsize hc hb hmem hgiven (index_toNat le_rfl hshort hc hb)
    · intro s hs
      rw [← hdsLen, Nat.min_eq_right (k.le_blocks_mul k.prompt), firstRows_succ] at hs
      exact hs
  · refine unmaps_ends.post fun _ s hs => ⟨hroom, hs.later ?_⟩
    omega

/-- The caches once every layer has `B` blocks. -/
def cachesOf (k : KvLayout) (B : Nat) : List LayerCache := (List.range k.layers).map fun ℓ => ⟨layerBlocks k B ℓ⟩

theorem cachesOf_at {ℓ : Nat} (hℓ : ℓ < k.layers) : (cachesOf k B)[ℓ]? = some ⟨layerBlocks k B ℓ⟩ := by
  unfold cachesOf
  rw [List.getElem?_map, List.getElem?_range hℓ]
  rfl

theorem cachesOf_none {ℓ : Nat} (hℓ : ¬ℓ < k.layers) : (cachesOf k B)[ℓ]? = none := by
  apply List.getElem?_eq_none
  unfold cachesOf
  rw [List.length_map, List.length_range]
  omega

theorem promptCaches (hk : LaysOut shape promptTokens k) (hsize : k.prompt + k.tokensPerBlock < 2 ^ 32) :
    (List.replicate shape.numLayers.toNat (⟨[]⟩ : LayerCache)).mapIdx (fun layer cache =>
      ⟨cache.logicalBlocks ++ (List.range (shape.blocksPerLayer promptTokens).toNat).map fun b =>
        UInt32.ofNat 0 + .ofNat layer * shape.blocksPerLayer promptTokens + .ofNat b⟩) = cachesOf k (k.blocks k.prompt) := by
  have hblocks := hk.blocksPerLayer hsize
  have hword : shape.blocksPerLayer promptTokens = .ofNat (k.blocks k.prompt) := by
    rw [← hblocks, UInt32.ofNat_toNat]
  apply List.ext_getElem?
  intro ℓ
  rw [List.getElem?_mapIdx, hk.layers]
  by_cases hℓ : ℓ < k.layers
  · rw [cachesOf_at hℓ, List.getElem?_replicate_of_lt hℓ, Option.map_some, List.nil_append, hblocks]
    congr 2
    apply List.map_congr_left
    intro j hj
    rw [hword, k.index_prompt (List.mem_range.mp hj), ← UInt32.ofNat_mul, ← UInt32.ofNat_add, ← UInt32.ofNat_add,
      Nat.zero_add]
  · rw [cachesOf_none hℓ, List.getElem?_eq_none (by rw [List.length_replicate]; omega)]
    rfl

/-- What a prefill takes. -/
structure PromptFits (k : KvLayout) (config : ResolvedConfig) : Prop where
  blocks : k.layers * k.blocks k.prompt ≤ config.l1BlockCount
  resident : k.blocks k.prompt ≤ config.l1ResidentBlockLimit

theorem prefill_ends (hk : LaysOut shape promptTokens k) (hsize : k.prompt + k.tokensPerBlock < 2 ^ 32)
    (hshort : k.layers * k.blocks k.prompt < 2 ^ 31) (hlayers : 0 < k.layers)
    (hclock : touches + 4 * (k.layers * k.blocks k.prompt) < maxEpoch) (hF : ¬PromptFits k config → F) :
    Ends (Keeps k config ctx 0 (fun _ => 0) [] touches)
      (prefill ctx shape promptTokens (List.replicate shape.numLayers.toNat ⟨[]⟩))
      (fun caches s => (caches = cachesOf k (k.blocks k.prompt) ∧ PromptFits k config) ∧
        Keeps k config ctx (k.blocks k.prompt) (fun _ => k.prompt) []
          (touches + 4 * (k.layers * k.blocks k.prompt)) s) F := by
  have hblocks := hk.blocksPerLayer hsize
  have htotal : (shape.blocksPerLayer promptTokens * shape.numLayers).toNat = k.layers * k.blocks k.prompt := by
    rw [UInt32.toNat_mul, hblocks, hk.layers, Nat.mul_comm]
    omega
  unfold prefill
  dsimp only
  refine Ends.bind (Q := fun base s => base = UInt32.ofNat 0 ∧ Keeps k config ctx 0 (fun _ => 0) [] touches s) ?_
    fun base => Ends.given fun hbase => ?_
  · apply ends_query
    intro s hs
    rw [hs.count]
    exact ⟨rfl, hs⟩
  subst hbase
  refine Ends.bind (Q := fun _ s => k.layers * k.blocks k.prompt ≤ config.l1BlockCount ∧
    Keeps k config ctx (k.blocks k.prompt) (fun _ => 0) [] (touches + k.layers * k.blocks k.prompt) s) ?_
    fun _ => Ends.given fun hroom => ?_
  · apply ends_attempt
    intro s hs
    have hnew : ∀ ℓ < k.layers, ∀ j, 0 ≤ j → j < 0 + k.blocks k.prompt →
        k.layers * 0 ≤ k.index ℓ j ∧ 0 ≤ j * k.tokensPerBlock := fun ℓ _ j _ _ => ⟨Nat.zero_le _, Nat.zero_le _⟩
    rcases hs.allocate htotal (by rw [Nat.zero_add]; exact hshort) (by rw [Nat.zero_add]) hnew with
      ⟨hroom, s', halloc, hs'⟩ | ⟨hfull, s', halloc⟩
    · rw [Nat.zero_add] at hroom hs'
      rw [htotal] at hs'
      exact .inl ⟨(), s', halloc, hroom, hs'⟩
    · rw [Nat.zero_add] at hfull
      exact .inr ⟨hF fun hfits => absurd hfits.blocks (by omega), _, s', halloc⟩
  rw [promptCaches hk hsize]
  refine Ends.bind (Q := fun _ s => k.blocks k.prompt ≤ config.l1ResidentBlockLimit ∧
    Keeps k config ctx (k.blocks k.prompt) (fun _ => k.prompt) [] (touches + 4 * (k.layers * k.blocks k.prompt)) s) ?_
    fun _ => Ends.given fun hresident => Ends.ret fun s hs => ⟨⟨rfl, hroom, hresident⟩, hs⟩
  refine Ends.forIdx (fun c s => (0 < c → k.blocks k.prompt ≤ config.l1ResidentBlockLimit) ∧
    Keeps k config ctx (k.blocks k.prompt) (firstRows c k.prompt 0) []
      (touches + k.layers * k.blocks k.prompt + 3 * (c * k.blocks k.prompt)) s) ?_ ?_ ?_
  · intro s hs
    refine ⟨fun hpos => absurd hpos (lt_irrefl 0), ?_⟩
    rw [Nat.zero_mul]
    exact hs.congr fun ℓ _ => (if_neg (Nat.not_lt_zero ℓ)).symm
  · intro c cache hcache
    have hc : c < k.layers := by
      by_contra hno
      rw [cachesOf_none hno] at hcache
      cases hcache
    rw [cachesOf_at hc] at hcache
    cases Option.some.inj hcache
    have hrow : (c + 1) * k.blocks k.prompt ≤ k.layers * k.blocks k.prompt := Nat.mul_le_mul_right _ hc
    have hsucc : (c + 1) * k.blocks k.prompt = c * k.blocks k.prompt + k.blocks k.prompt := Nat.succ_mul ..
    have hlayer := @prefillLayer_ends shape promptTokens k config ctx
      (touches + k.layers * k.blocks k.prompt + 3 * (c * k.blocks k.prompt)) F hk hsize hshort c hc (by omega)
      (fun hfull => hF fun hfits => absurd hfits.resident (by omega))
    refine hlayer.conseq (fun s hs => hs.2) fun _ s hs => ⟨fun _ => hs.1, ?_⟩
    rw [hsucc]
    exact hs.2.later (by omega)
  · intro s hs
    have hlen : (cachesOf k (k.blocks k.prompt)).length = k.layers := by
      unfold cachesOf
      rw [List.length_map, List.length_range]
    rw [hlen] at hs
    obtain ⟨hresident, hs⟩ := hs
    refine ⟨hresident hlayers, (hs.later (by omega)).congr fun ℓ hℓ => if_pos hℓ⟩

end Prefill

section Decode

variable {shape : KvShape} {promptTokens : UInt32} {k : KvLayout} {config : ResolvedConfig} {ctx : CtxHandle}
  {B n touches : Nat} {F : Prop}

theorem layerBlocks_succ (k : KvLayout) (B ℓ : Nat) :
    layerBlocks k (B + 1) ℓ = layerBlocks k B ℓ ++ [.ofNat (k.index ℓ B)] := by
  unfold layerBlocks
  rw [List.range_succ, List.map_append]
  rfl

theorem grownCaches (hprompt : k.blocks k.prompt ≤ B) :
    (cachesOf k B).mapIdx (fun layer cache =>
      ⟨cache.logicalBlocks ++ [UInt32.ofNat (k.layers * B) + .ofNat layer]⟩) = cachesOf k (B + 1) := by
  apply List.ext_getElem?
  intro ℓ
  rw [List.getElem?_mapIdx]
  by_cases hℓ : ℓ < k.layers
  · rw [cachesOf_at hℓ, cachesOf_at hℓ, Option.map_some, layerBlocks_succ, k.index_row hprompt, UInt32.ofNat_add]
  · rw [cachesOf_none hℓ, cachesOf_none hℓ]
    rfl

/-- The tail blocks are those of token `n`, new ones if the last are full. -/
theorem extendCaches_ends (hk : LaysOut shape promptTokens k) (hprompt : k.prompt ≤ n)
    (hshort : k.layers * k.blocks (n + 1) < 2 ^ 31) (hF : config.l1BlockCount < k.layers * k.blocks (n + 1) → F)
    {slotInBlock : UInt32} (hslot : slotInBlock.toNat = n % k.tokensPerBlock) :
    Ends (Keeps k config ctx (k.blocks n) (fun _ => n) [] touches)
      (extendCaches ctx shape slotInBlock (cachesOf k (k.blocks n)))
      (fun caches s => (caches = cachesOf k (k.blocks (n + 1)) ∧ k.layers * k.blocks (n + 1) ≤ config.l1BlockCount) ∧
        Keeps k config ctx (k.blocks (n + 1)) (fun _ => n) [] (touches + k.layers) s) F := by
  have hnext := k.blocks_succ n
  have hmono := k.blocks_mono hprompt
  unfold extendCaches
  by_cases hfull : slotInBlock = 0
  · rw [if_pos hfull]
    have hmod : n % k.tokensPerBlock = 0 := by
      rw [← hslot, hfull]
      rfl
    have hblocks := k.blocks_full hmod
    have hsucc : k.blocks (n + 1) = k.blocks n + 1 := by rw [hnext, hblocks]
    have hstart : n ≤ k.blocks n * k.tokensPerBlock := k.le_blocks_mul n
    refine Ends.bind (Q := fun base s => base = UInt32.ofNat (k.layers * k.blocks n) ∧
      Keeps k config ctx (k.blocks n) (fun _ => n) [] touches s) ?_ fun base => Ends.given fun hbase => ?_
    · apply ends_query
      intro s hs
      rw [hs.count]
      exact ⟨rfl, hs⟩
    subst hbase
    rw [hsucc] at hshort hF ⊢
    refine Ends.bind (Q := fun _ s => k.layers * (k.blocks n + 1) ≤ config.l1BlockCount ∧
      Keeps k config ctx (k.blocks n + 1) (fun _ => n) [] (touches + k.layers) s) ?_ fun _ => Ends.given fun hroom => ?_
    · apply ends_attempt
      intro s hs
      have hrows : shape.numLayers.toNat = k.layers * 1 := by rw [hk.layers, Nat.mul_one]
      have hnew : ∀ ℓ < k.layers, ∀ j, k.blocks n ≤ j → j < k.blocks n + 1 →
          k.layers * k.blocks n ≤ k.index ℓ j ∧ n ≤ j * k.tokensPerBlock := by
        intro ℓ _ j hge hlt
        obtain rfl : j = k.blocks n := by omega
        rw [k.index_row hmono]
        exact ⟨Nat.le_add_right _ _, hstart⟩
      rcases hs.allocate hrows hshort (by omega) hnew with ⟨hroom, s', halloc, hs'⟩ | ⟨hless, s', halloc⟩
      · rw [hk.layers] at hs'
        exact .inl ⟨(), s', halloc, hroom, hs'⟩
      · exact .inr ⟨hF hless, _, s', halloc⟩
    · rw [grownCaches hmono]
      exact Ends.ret fun s hs => ⟨⟨rfl, hroom⟩, hs⟩
  · rw [if_neg hfull]
    have hmod : n % k.tokensPerBlock ≠ 0 := by
      intro hzero
      rw [← hslot] at hzero
      exact hfull (UInt32.toNat_inj.mp hzero)
    have hsame : k.blocks (n + 1) = k.blocks n := by rw [hnext, k.blocks_partial hmod]
    rw [hsame]
    apply Ends.ret
    intro s hs
    have hfree := hs.freeCount
    exact ⟨⟨rfl, by omega⟩, hs.later (Nat.le_add_right _ _)⟩

theorem readBlocks_eq (k : KvLayout) (B ℓ : Nat) :
    (layerBlocks k B ℓ).drop (B - min 2 B) = (KvLayout.recent B).map fun j => .ofNat (k.index ℓ j) := by
  unfold layerBlocks KvLayout.recent
  rw [List.map_drop]

/-- What is read through the mappings of one layer. -/
theorem readSum_eq {ℓ : Nat} {ds : List MappedBlock} {s : MmuRuntime} (hℓ : ℓ < k.layers)
    (hprompt : k.blocks k.prompt ≤ B) (hshort : k.layers * B < 2 ^ 31)
    (hds : List.Forall₂ (Handed k mapRead) ((layerBlocks k B ℓ).drop (B - min 2 B)) ds)
    (h : Keeps k config ctx B (fun _ => n) (ds.map (Prod.mk ctx)) touches s) (sum : UInt64) :
    ds.foldl (fun sum d => sum + ((hostRead s d).headD 0).toUInt64) sum = k.layerSum n B sum ℓ := by
  have hbytes : ds.map (fun d => ((hostRead s d).headD 0).toUInt64) =
      (KvLayout.recent B).map fun j => (k.firstByte n ℓ j).toUInt64 := by
    have hlen := hds.length_eq
    rw [readBlocks_eq, List.length_map] at hlen
    apply List.ext_getElem?
    intro i
    rw [List.getElem?_map, List.getElem?_map]
    cases hd : ds[i]? with
    | none =>
      rw [List.getElem?_eq_none_iff] at hd
      rw [List.getElem?_eq_none (by omega)]
      rfl
    | some d =>
      obtain ⟨lb, hlb, hgiven⟩ := handed_at hds hd
      rw [readBlocks_eq, List.getElem?_map] at hlb
      obtain ⟨j, hj, rfl⟩ := Option.map_eq_some_iff.mp hlb
      have hjB := KvLayout.recent_lt (List.mem_of_getElem? hj)
      have hindex : d.logicalBlockId.toNat = k.index ℓ j := by
        rw [hgiven.entry]
        exact index_toNat hprompt hshort hℓ hjB
      rw [hj, Option.map_some, Option.map_some,
        h.read (List.mem_map_of_mem (List.mem_of_getElem? hd)) hℓ hjB hindex, k.page_head]
  unfold KvLayout.layerSum
  rw [← List.foldl_map (f := fun d => ((hostRead s d).headD 0).toUInt64) (g := fun sum byte => sum + byte), hbytes,
    List.foldl_map]

theorem readLayer_ends {ℓ : Nat} (hℓ : ℓ < k.layers) (hprompt : k.blocks k.prompt ≤ B) (hshort : k.layers * B < 2 ^ 31)
    (hclock : touches + 4 < maxEpoch) (hF : config.l1ResidentBlockLimit < min 2 B → F) (sum : UInt64) :
    Ends (Keeps k config ctx B (fun _ => n) [] touches) (readLayer ctx sum ⟨layerBlocks k B ℓ⟩)
      (fun sum' s => (sum' = k.layerSum n B sum ℓ ∧ min 2 B ≤ config.l1ResidentBlockLimit) ∧
        Keeps k config ctx B (fun _ => n) [] (touches + 6) s) F := by
  have hlen : ((layerBlocks k B ℓ).drop (B - min 2 B)).length = min 2 B := by
    rw [List.length_drop, layerBlocks_length]
    omega
  have hflags : validateMapFlags mapRead = true := rfl
  have hmaps := @maps_ends k config ctx B touches F (fun _ => n) _ ((layerBlocks k B ℓ).drop (B - min 2 B)) hflags
    ((layerBlocks_nodup hprompt hshort hℓ).sublist (List.drop_sublist _ _))
    (fun lb hlb => layerBlocks_slots hprompt hshort hℓ (List.mem_of_mem_drop hlb)) (by omega) (by omega)
    (by rw [hlen]; exact hF)
  unfold readLayer
  dsimp only
  rw [layerBlocks_length]
  refine hmaps.bind fun ds => Ends.given fun hgiven => ?_
  obtain ⟨hroom, hds⟩ := hgiven
  have hdsLen := hds.length_eq
  rw [hlen] at hdsLen hroom ⊢
  refine Ends.bind (Q := fun sum' s => sum' = k.layerSum n B sum ℓ ∧
    Keeps k config ctx B (fun _ => n) (ds.map (Prod.mk ctx)) (touches + 2 * min 2 B) s) ?_
    fun sum' => Ends.given fun hsum => ?_
  · apply ends_query
    intro s hs
    exact ⟨readSum_eq hℓ hprompt hshort hds hs sum, hs⟩
  · refine unmaps_ends.bind fun _ => Ends.ret fun s hs => ⟨⟨hsum, hroom⟩, hs.later ?_⟩
    omega

theorem cachesOf_length (k : KvLayout) (B : Nat) : (cachesOf k B).length = k.layers := by
  unfold cachesOf
  rw [List.length_map, List.length_range]

/-- The attention read of a step. -/
theorem readRecent_ends (hprompt : k.blocks k.prompt ≤ B) (hshort : k.layers * B < 2 ^ 31) (hlayers : 0 < k.layers)
    (hclock : touches + 6 * k.layers < maxEpoch) (hF : config.l1ResidentBlockLimit < min 2 B → F) :
    Ends (Keeps k config ctx B (fun _ => n) [] touches) (readRecent ctx (cachesOf k B))
      (fun sum s => (sum = k.readSum n B ∧ min 2 B ≤ config.l1ResidentBlockLimit) ∧
        Keeps k config ctx B (fun _ => n) [] (touches + 6 * k.layers) s) F := by
  unfold readRecent KvLayout.readSum
  refine Ends.foldlM (fun i sum s => (sum = (List.range i).foldl (k.layerSum n B) 0 ∧
    (0 < i → min 2 B ≤ config.l1ResidentBlockLimit)) ∧ Keeps k config ctx B (fun _ => n) [] (touches + 6 * i) s) ?_ ?_ ?_
  · intro s hs
    exact ⟨⟨rfl, fun hpos => absurd hpos (lt_irrefl 0)⟩, hs⟩
  · intro i cache sum hcache
    have hi : i < k.layers := by
      by_contra hno
      rw [cachesOf_none hno] at hcache
      cases hcache
    rw [cachesOf_at hi] at hcache
    cases Option.some.inj hcache
    refine Ends.given fun hsum => ?_
    refine (readLayer_ends hi hprompt hshort (by omega) hF sum).post fun sum' s hs => ?_
    obtain ⟨⟨rfl, hroom⟩, hs⟩ := hs
    refine ⟨⟨?_, fun _ => hroom⟩, hs⟩
    rw [List.range_succ, List.foldl_append, ← hsum.1]
    rfl
  · intro sum s hs
    rw [cachesOf_length] at hs
    exact ⟨⟨hs.1.1, hs.1.2 hlayers⟩, hs.2⟩

/-- The last block of every layer. -/
def tailsOf (k : KvLayout) (j : Nat) : List UInt32 := (List.range k.layers).map fun ℓ => .ofNat (k.index ℓ j)

theorem tailBlocks_eq (k : KvLayout) (j : Nat) :
    (cachesOf k (j + 1)).map (fun cache => cache.logicalBlocks.getLastD 0) = tailsOf k j := by
  unfold cachesOf tailsOf
  rw [List.map_map]
  apply List.map_congr_left
  intro ℓ _
  show (layerBlocks k (j + 1) ℓ).getLastD 0 = _
  rw [layerBlocks_succ, List.getLastD_concat]

theorem tailsOf_length (k : KvLayout) (j : Nat) : (tailsOf k j).length = k.layers := by
  unfold tailsOf
  rw [List.length_map, List.length_range]

theorem tailsOf_at {ℓ : Nat} (hℓ : ℓ < k.layers) (j : Nat) : (tailsOf k j)[ℓ]? = some (.ofNat (k.index ℓ j)) := by
  unfold tailsOf
  rw [List.getElem?_map, List.getElem?_range hℓ]
  rfl

theorem tailsOf_nodup (hprompt : k.blocks k.prompt ≤ B) (hshort : k.layers * B < 2 ^ 31) {j : Nat} (hj : j < B) :
    (tailsOf k j).Nodup := by
  apply List.Nodup.map_on _ List.nodup_range
  intro ℓ hℓ m hm heq
  have heq' := congrArg UInt32.toNat heq
  rw [index_toNat hprompt hshort (List.mem_range.mp hℓ) hj, index_toNat hprompt hshort (List.mem_range.mp hm) hj] at heq'
  exact (k.index_inj (List.mem_range.mp hℓ) (List.mem_range.mp hm) heq').1

theorem tailsOf_slots (hprompt : k.blocks k.prompt ≤ B) (hshort : k.layers * B < 2 ^ 31) {j : Nat} (hj : j < B)
    {lb : UInt32} (hlb : lb ∈ tailsOf k j) : lb.toNat < k.layers * B := by
  obtain ⟨ℓ, hℓ, rfl⟩ := List.mem_map.mp hlb
  rw [index_toNat hprompt hshort (List.mem_range.mp hℓ) hj]
  exact k.index_lt hprompt (List.mem_range.mp hℓ) hj

/-- Every layer gets token `n`. -/
theorem writeTails_ends (hk : LaysOut shape promptTokens k) (hshort : k.layers * k.blocks (n + 1) < 2 ^ 31) {step : Nat}
    (hn : n = k.prompt + step) (hclock : touches + 2 * k.layers < maxEpoch)
    (hF : config.l1ResidentBlockLimit < k.layers → F) {slotInBlock : UInt32}
    (hslot : slotInBlock.toNat = n % k.tokensPerBlock) :
    Ends (Keeps k config ctx (k.blocks (n + 1)) (fun _ => n) [] touches)
      (writeTails ctx shape step slotInBlock (tailsOf k (n / k.tokensPerBlock)))
      (fun _ s => k.layers ≤ config.l1ResidentBlockLimit ∧
        Keeps k config ctx (k.blocks (n + 1)) (fun _ => n + 1) [] (touches + 3 * k.layers) s) F := by
  have hprompt : k.blocks k.prompt ≤ k.blocks (n + 1) := k.blocks_mono (by omega)
  have hlast : n / k.tokensPerBlock < k.blocks (n + 1) := by
    rw [k.blocks_succ]
    exact Nat.lt_succ_self _
  have hrow : k.layers ≤ k.layers * k.blocks (n + 1) := Nat.le_mul_of_pos_right _ (k.blocks_pos (Nat.succ_pos n))
  have hlen := tailsOf_length k (n / k.tokensPerBlock)
  have hflags : validateMapFlags mapReadWrite = true := rfl
  have hmaps := @maps_ends k config ctx _ touches F (fun _ => n) _ _ hflags (tailsOf_nodup hprompt hshort hlast)
    (fun lb hlb => tailsOf_slots hprompt hshort hlast hlb) (by omega) (by omega) (by rw [hlen]; exact hF)
  unfold writeTails
  refine hmaps.bind fun ds => Ends.given fun hgiven => ?_
  obtain ⟨hroom, hds⟩ := hgiven
  have hdsLen := hds.length_eq
  rw [hlen] at hdsLen hroom ⊢
  refine Ends.bind (Q := fun _ => Keeps k config ctx (k.blocks (n + 1)) (fun _ => n + 1) (ds.map (Prod.mk ctx))
    (touches + 2 * k.layers)) ?_ fun _ => ?_
  · refine Ends.forIdx (fun c => Keeps k config ctx (k.blocks (n + 1)) (firstRows c (n + 1) n) (ds.map (Prod.mk ctx))
      (touches + 2 * k.layers)) ?_ ?_ ?_
    · intro s hs
      exact hs.congr fun ℓ _ => (if_neg (Nat.not_lt_zero ℓ)).symm
    · intro c d hd
      obtain ⟨lb, hlb, hgiven⟩ := handed_at hds hd
      have hc : c < k.layers := hdsLen ▸ (List.getElem?_eq_some_iff.mp hd).1
      rw [tailsOf_at hc] at hlb
      cases Option.some.inj hlb
      apply ends_update
      intro s hs
      have htag : decodeTag (.ofNat step) (.ofNat c) = k.tag c n := by
        unfold KvLayout.tag
        rw [decodeTag_eq, if_neg (by omega), hn, Nat.add_sub_cancel_left]
      have hmem : (ctx, d) ∈ ds.map (Prod.mk ctx) := List.mem_map_of_mem (List.mem_of_getElem? hd)
      rw [← firstRows_same c (n + 1) n] at hs
      have hstep := hs.tokenTurn hc hmem hgiven (index_toNat hprompt hshort hc hlast) hlast hk.bytes hslot
      rw [firstRows_succ] at hstep
      rw [htag]
      exact hstep
    · intro s hs
      rw [← hdsLen] at hs
      exact hs.congr fun ℓ hℓ => if_pos hℓ
  · refine unmaps_ends.post fun _ s hs => ⟨hroom, hs.later ?_⟩
    omega

/-- What a sample says of its step. -/
def KvSample.read (x : KvSample) : Nat × UInt64 := (x.step, x.checksum)

/-- The steps sampled among the first `i`, and what they read. -/
def readings (k : KvLayout) (i : Nat) : List (Nat × UInt64) :=
  ((List.range i).filter (· % 8 = 0)).map fun step =>
    (step, k.readSum (k.prompt + step) (k.blocks (k.prompt + step + 1)))

theorem readings_succ (k : KvLayout) (i : Nat) : readings k (i + 1) = readings k i ++
    if i % 8 = 0 then [(i, k.readSum (k.prompt + i) (k.blocks (k.prompt + i + 1)))] else [] := by
  unfold readings
  rw [List.range_succ, List.filter_append, List.map_append]
  congr 1
  by_cases hi : i % 8 = 0
  · simp [hi]
  · simp [hi]

theorem sampleTail_ends {written : Nat → Nat} {lb : UInt32} (hlb : lb.toNat < k.layers * B) (step : Nat)
    (checksum : UInt64) (samples : List KvSample) :
    Ends (Keeps k config ctx B written [] touches) (sampleTail ctx step checksum lb samples)
      (fun samples' s => samples'.map KvSample.read =
        (samples.map KvSample.read ++ if step % 8 = 0 then [(step, checksum)] else []) ∧
        Keeps k config ctx B written [] touches s) F := by
  unfold sampleTail
  by_cases hstep : step % 8 = 0
  · rw [if_pos hstep, if_pos hstep]
    refine Ends.bind (Q := fun _ => Keeps k config ctx B written [] touches) ?_ fun route => ?_
    · apply ends_attempt
      intro s hs
      obtain ⟨route, hroute⟩ := hs.route hlb
      exact .inl ⟨route, s, by rw [hroute], hs⟩
    · apply Ends.ret
      intro s hs
      rw [List.map_append]
      exact ⟨rfl, hs⟩
  · rw [if_neg hstep, if_neg hstep]
    apply Ends.ret
    intro s hs
    rw [List.append_nil]
    exact ⟨rfl, hs⟩

/-- What the first `i` steps of a decode take. -/
structure StepsFit (k : KvLayout) (config : ResolvedConfig) (i : Nat) : Prop where
  blocks : k.layers * k.blocks (k.prompt + i) ≤ config.l1BlockCount
  reads : 0 < i → min 2 (k.blocks (k.prompt + i)) ≤ config.l1ResidentBlockLimit
  tails : 0 < i → k.layers ≤ config.l1ResidentBlockLimit

theorem StepsFit.earlier {i m : Nat} (h : StepsFit k config m) (hle : i ≤ m) : StepsFit k config i := by
  have hmono := k.blocks_mono (Nat.add_le_add_left hle k.prompt)
  refine ⟨(Nat.mul_le_mul_left _ hmono).trans h.blocks, fun hi => ?_, fun hi => h.tails (by omega)⟩
  have hreads := h.reads (by omega)
  omega

/-- Where a decode is after `i` steps. -/
structure Decoded (k : KvLayout) (config : ResolvedConfig) (i : Nat) (state : DecodeState) : Prop where
  tokens : state.totalTokens.toNat = k.prompt + i
  caches : state.caches = cachesOf k (k.blocks (k.prompt + i))
  samples : state.samples.map KvSample.read = readings k i
  fits : StepsFit k config i

theorem decodeStep_ends (hk : LaysOut shape promptTokens k) (hlayers : 0 < k.layers) {i : Nat}
    (hshort : k.layers * k.blocks (k.prompt + i + 1) < 2 ^ 31) (htokens : k.prompt + i + 1 < 2 ^ 32)
    (hclock : touches + 10 * k.layers < maxEpoch) (hF : ¬StepsFit k config (i + 1) → F) {state : DecodeState}
    (hstate : Decoded k config i state) :
    Ends (Keeps k config ctx (k.blocks (k.prompt + i)) (fun _ => k.prompt + i) [] touches) (decodeStep ctx shape state i)
      (fun state' s => Decoded k config (i + 1) state' ∧
        Keeps k config ctx (k.blocks (k.prompt + (i + 1))) (fun _ => k.prompt + (i + 1)) []
          (touches + 10 * k.layers) s) F := by
  have hprompt : k.blocks k.prompt ≤ k.blocks (k.prompt + i + 1) := k.blocks_mono (by omega)
  have hsucc := k.blocks_succ (k.prompt + i)
  have hlast : (k.prompt + i) / k.tokensPerBlock < k.blocks (k.prompt + i + 1) := by
    rw [hsucc]
    exact Nat.lt_succ_self _
  have hslot : (state.totalTokens % shape.tokensPerBlock).toNat = (k.prompt + i) % k.tokensPerBlock := by
    rw [UInt32.toNat_mod, hstate.tokens, hk.tokens]
  have hfits : ∀ {A : Prop}, (StepsFit k config (i + 1) → ¬A) → A → F := fun hno hA => hF fun hfits => hno hfits hA
  unfold decodeStep
  rw [hstate.caches]
  have hextend := @extendCaches_ends shape promptTokens k config ctx (k.prompt + i) touches F hk (Nat.le_add_right _ _)
    hshort (hfits fun h => Nat.not_lt.mpr h.blocks) _ hslot
  refine hextend.bind fun caches => Ends.given fun hcaches => ?_
  obtain ⟨rfl, hblocks⟩ := hcaches
  have hread := @readRecent_ends k config ctx _ (k.prompt + i) (touches + k.layers) F hprompt hshort hlayers (by omega)
    (hfits fun h => Nat.not_lt.mpr (h.reads (Nat.succ_pos i)))
  refine hread.bind fun sum => Ends.given fun hsum => ?_
  obtain ⟨rfl, hreads⟩ := hsum
  have hwrite := @writeTails_ends shape promptTokens k config ctx (k.prompt + i) (touches + k.layers + 6 * k.layers) F hk
    hshort i rfl (by omega) (hfits fun h => Nat.not_lt.mpr (h.tails (Nat.succ_pos i))) _ hslot
  rw [hsucc] at hwrite ⊢
  rw [tailBlocks_eq]
  refine hwrite.bind fun _ => Ends.given fun htails => ?_
  have hhead : (tailsOf k ((k.prompt + i) / k.tokensPerBlock)).headD 0 =
      .ofNat (k.index 0 ((k.prompt + i) / k.tokensPerBlock)) := by
    rw [List.headD_eq_head?_getD, List.head?_eq_getElem?, tailsOf_at hlayers]
    rfl
  rw [hsucc] at hshort hprompt hlast
  have hindex : (UInt32.ofNat (k.index 0 ((k.prompt + i) / k.tokensPerBlock))).toNat <
      k.layers * ((k.prompt + i) / k.tokensPerBlock + 1) := by
    rw [index_toNat hprompt hshort hlayers hlast]
    exact k.index_lt hprompt hlayers hlast
  rw [hhead]
  refine (sampleTail_ends hindex i _ _).bind fun samples => Ends.given fun hsamples => Ends.ret fun s hs => ⟨?_, ?_⟩
  · refine ⟨?_, ?_, ?_, ?_, fun _ => ?_, fun _ => htails⟩
    · have hone : (1 : UInt32).toNat = 1 := rfl
      rw [UInt32.toNat_add, hstate.tokens, hone]
      omega
    · rw [← Nat.add_assoc, hsucc]
    · rw [hsamples, hstate.samples, readings_succ, hsucc]
    · rw [← Nat.add_assoc]
      exact hblocks
    · rw [← Nat.add_assoc]
      exact hreads
  · rw [← Nat.add_assoc, hsucc]
    exact hs.later (by omega)

/-- A decode of `m` tokens. -/
theorem decode_ends (hk : LaysOut shape promptTokens k) (hlayers : 0 < k.layers) {decodeTokens : UInt32} {m : Nat}
    (hm : decodeTokens.toNat = m) (hshort : k.layers * k.blocks (k.prompt + m) < 2 ^ 31) (htokens : k.prompt + m < 2 ^ 32)
    (hclock : touches + 10 * (m * k.layers) < maxEpoch) (hstart : StepsFit k config 0) (hF : ¬StepsFit k config m → F) :
    Ends (Keeps k config ctx (k.blocks k.prompt) (fun _ => k.prompt) [] touches)
      (decode ctx shape promptTokens decodeTokens (cachesOf k (k.blocks k.prompt)))
      (fun state s => Decoded k config m state ∧
        Keeps k config ctx (k.blocks (k.prompt + m)) (fun _ => k.prompt + m) [] (touches + 10 * (m * k.layers)) s) F := by
  unfold decode
  rw [hm]
  refine Ends.foldlRange (fun i state s => Decoded k config i state ∧
    Keeps k config ctx (k.blocks (k.prompt + i)) (fun _ => k.prompt + i) [] (touches + 10 * (i * k.layers)) s) ?_ ?_ ?_
  · intro s hs
    rw [Nat.zero_mul]
    exact ⟨⟨hk.prompt, rfl, rfl, hstart⟩, hs⟩
  · intro i state hi
    refine Ends.given fun hstate => ?_
    have hmono := k.blocks_mono (show k.prompt + i + 1 ≤ k.prompt + m by omega)
    have hrow := Nat.mul_le_mul_left k.layers hmono
    have hturns : (i + 1) * k.layers ≤ m * k.layers := Nat.mul_le_mul_right _ hi
    have hsucc : (i + 1) * k.layers = i * k.layers + k.layers := Nat.succ_mul ..
    have hstep := @decodeStep_ends shape promptTokens k config ctx (touches + 10 * (i * k.layers)) F hk hlayers i
      (by omega) (by omega) (by omega) (fun hno => hF fun hfits => hno (hfits.earlier hi)) state hstate
    refine hstep.post fun state' s hs => ⟨hs.1, ?_⟩
    rw [hsucc]
    exact hs.2.later (by omega)
  · intro state s hs
    exact hs

end Decode

end KvExample

end DsfMmu
