import DsfMmu.KvRuns

namespace DsfMmu

namespace KvExample

open Procedure MmuRuntime

section Main

variable {shape : KvShape} {promptTokens decodeTokens : UInt32} {k : KvLayout} {config : ResolvedConfig} {ctx : CtxHandle}
  {B m touches : Nat} {F : Prop}

theorem releaseAllBlocks_ends {written : Nat → Nat} (hshort : k.layers * B < 2 ^ 31) :
    Ends (Keeps k config ctx B written [] touches) (releaseAllBlocks ctx)
      (fun _ s => mmuGetFreeBlockCount s = config.l1BlockCount) F := by
  unfold releaseAllBlocks
  refine Ends.bind (Q := fun total s => total = k.layers * B ∧ Releasing k config ctx B 0 s) ?_
    fun total => Ends.given fun htotal => ?_
  · apply ends_query
    intro s hs
    exact ⟨hs.count, hs.releasing⟩
  subst htotal
  refine Ends.forRange (Releasing k config ctx B) (fun _ h => h) ?_ ?_
  · intro i hi
    apply ends_attempt
    intro s hs
    obtain ⟨s', hrelease, hs'⟩ := hs.release hi hshort
    refine .inl ⟨(), s', ?_, hs'⟩
    rw [hrelease]
  · intro s hs
    obtain ⟨a, hserves, _, _, hfree⟩ := hs
    rw [Nat.sub_self, Nat.add_zero] at hfree
    rw [hserves.free]
    exact hfree

/-- What the example takes to run through: its prompt resident a layer at a time, and its steps. -/
structure KvFits (k : KvLayout) (config : ResolvedConfig) (m : Nat) : Prop where
  prompt : k.blocks k.prompt ≤ config.l1ResidentBlockLimit
  steps : StepsFit k config m

theorem KvFits.promptFits (h : KvFits k config m) : PromptFits k config :=
  ⟨(h.steps.earlier (Nat.zero_le m)).blocks, h.prompt⟩

/-- Sizes that fit the words they are kept in, and a clock that does not run out. -/
structure Sized (k : KvLayout) (m : Nat) : Prop where
  layers : 0 < k.layers
  page : k.blockSize < 2 ^ 32
  prompt : k.prompt + k.tokensPerBlock < 2 ^ 32
  tokens : k.prompt + m < 2 ^ 32
  blocks : k.layers * k.blocks (k.prompt + m) < 2 ^ 31
  clock : 4 * (k.layers * k.blocks k.prompt) + 10 * (m * k.layers) + 2 < maxEpoch

/-- The report of a run that went through. -/
structure Reports (k : KvLayout) (config : ResolvedConfig) (m : Nat) (report : KvReport) : Prop where
  prefillBlocks : report.prefillBlocks = k.layers * k.blocks k.prompt
  prefillFree : report.prefillFree + k.layers * k.blocks k.prompt = config.l1BlockCount
  samples : report.samples.map KvSample.read = readings k m
  decodeBlocks : report.decodeBlocks = k.layers * k.blocks (k.prompt + m)
  decodeFree : report.decodeFree + k.layers * k.blocks (k.prompt + m) = config.l1BlockCount
  releasedFree : report.releasedFree = config.l1BlockCount

theorem Sized.promptBlocks (h : Sized k m) : k.layers * k.blocks k.prompt < 2 ^ 31 :=
  (Nat.mul_le_mul_left _ (k.blocks_mono (Nat.le_add_right _ _))).trans_lt h.blocks

/-- The cache `main` starts with, prefilled. -/
theorem emptyPrefill_ends (hk : LaysOut shape promptTokens k) (hsized : Sized k m) (hF : ¬KvFits k config m → F) :
    Ends (Keeps k config ctx 0 (fun _ => 0) [] 0)
      (prefill ctx shape promptTokens (List.replicate shape.numLayers.toNat ⟨[]⟩))
      (fun caches s => (caches = cachesOf k (k.blocks k.prompt) ∧ PromptFits k config) ∧
        Keeps k config ctx (k.blocks k.prompt) (fun _ => k.prompt) [] (4 * (k.layers * k.blocks k.prompt)) s) F := by
  have hclock := hsized.clock
  have hprefill := @prefill_ends shape promptTokens k config ctx 0 F hk hsized.prompt hsized.promptBlocks hsized.layers
    (by omega) (fun hno => hF fun hfits => hno hfits.promptFits)
  rw [Nat.zero_add] at hprefill
  exact hprefill

theorem promptDecode_ends (hk : LaysOut shape promptTokens k) (hm : decodeTokens.toNat = m) (hsized : Sized k m)
    (hF : ¬KvFits k config m → F) (hfits : PromptFits k config) :
    Ends (Keeps k config ctx (k.blocks k.prompt) (fun _ => k.prompt) [] (4 * (k.layers * k.blocks k.prompt)))
      (decode ctx shape promptTokens decodeTokens (cachesOf k (k.blocks k.prompt)))
      (fun state s => Decoded k config m state ∧ Keeps k config ctx (k.blocks (k.prompt + m)) (fun _ => k.prompt + m) []
        (4 * (k.layers * k.blocks k.prompt) + 10 * (m * k.layers)) s) F := by
  have hclock := hsized.clock
  have hzero : StepsFit k config 0 := ⟨hfits.blocks, fun h => absurd h (lt_irrefl 0), fun h => absurd h (lt_irrefl 0)⟩
  exact decode_ends hk hsized.layers hm hsized.blocks hsized.tokens (by omega) hzero
    (fun hno => hF fun hfit => hno hfit.steps)

theorem fill_ends (hk : LaysOut shape promptTokens k) (hm : decodeTokens.toNat = m) (hsized : Sized k m)
    (hF : ¬KvFits k config m → F) :
    Ends (Keeps k config ctx 0 (fun _ => 0) [] 0)
      (prefill ctx shape promptTokens (List.replicate shape.numLayers.toNat ⟨[]⟩) >>=
        decode ctx shape promptTokens decodeTokens)
      (fun state s => Decoded k config m state ∧ Keeps k config ctx (k.blocks (k.prompt + m)) (fun _ => k.prompt + m) []
        (4 * (k.layers * k.blocks k.prompt) + 10 * (m * k.layers)) s) F := by
  refine (emptyPrefill_ends hk hsized hF).bind fun caches => Ends.given fun hcaches => ?_
  obtain ⟨rfl, hfits⟩ := hcaches
  exact promptDecode_ends hk hm hsized hF hfits

theorem kvPhases_ends (hk : LaysOut shape promptTokens k) (hm : decodeTokens.toNat = m) (hsized : Sized k m)
    (hF : ¬KvFits k config m → F) :
    Ends (Keeps k config ctx 0 (fun _ => 0) [] 0) (kvPhases ctx shape promptTokens decodeTokens)
      (fun report _ => KvFits k config m ∧ Reports k config m report) F := by
  unfold kvPhases
  refine (emptyPrefill_ends hk hsized hF).bind fun caches => Ends.given fun hcaches => ?_
  obtain ⟨rfl, hfits⟩ := hcaches
  refine Ends.bind (Q := fun blocks s => blocks = k.layers * k.blocks k.prompt ∧ Keeps k config ctx (k.blocks k.prompt)
    (fun _ => k.prompt) [] (4 * (k.layers * k.blocks k.prompt)) s) (ends_query fun s hs => ⟨hs.count, hs⟩)
    fun prefillBlocks => Ends.given fun hblocks => ?_
  refine Ends.bind (Q := fun free s => free + k.layers * k.blocks k.prompt = config.l1BlockCount ∧
    Keeps k config ctx (k.blocks k.prompt) (fun _ => k.prompt) [] (4 * (k.layers * k.blocks k.prompt)) s)
    (ends_query fun s hs => ⟨hs.freeCount, hs⟩) fun prefillFree => Ends.given fun hfree => ?_
  refine (promptDecode_ends hk hm hsized hF hfits).bind fun state => Ends.given fun hstate => ?_
  refine Ends.bind (Q := fun blocks s => blocks = k.layers * k.blocks (k.prompt + m) ∧
    Keeps k config ctx (k.blocks (k.prompt + m)) (fun _ => k.prompt + m) []
      (4 * (k.layers * k.blocks k.prompt) + 10 * (m * k.layers)) s) (ends_query fun s hs => ⟨hs.count, hs⟩)
    fun decodeBlocks => Ends.given fun hblocks' => ?_
  refine Ends.bind (Q := fun free s => free + k.layers * k.blocks (k.prompt + m) = config.l1BlockCount ∧
    Keeps k config ctx (k.blocks (k.prompt + m)) (fun _ => k.prompt + m) []
      (4 * (k.layers * k.blocks k.prompt) + 10 * (m * k.layers)) s) (ends_query fun s hs => ⟨hs.freeCount, hs⟩)
    fun decodeFree => Ends.given fun hfree' => ?_
  refine (releaseAllBlocks_ends hsized.blocks).bind fun _ => ?_
  refine Ends.bind (Q := fun free _ => free = config.l1BlockCount) (ends_query fun s hs => hs) fun released => ?_
  apply Ends.ret
  intro s hreleased
  exact ⟨⟨hfits.resident, hstate.fits⟩, hblocks, hfree, hstate.samples, hblocks', hfree', hreleased⟩

/-- The instance `main` starts from. -/
structure Started (shape : KvShape) (cfg : MmuConfig) (env : HostEnv) (start : MmuRuntime) : Prop where
  init : mmuInit cfg env = .ok start
  block : cfg.blockSizeBytes = shape.computeBlockSizeBytes
  l2 : start.config.l2BlockCount = start.config.l1BlockCount
  blocks : start.config.l1BlockCount < 2 ^ 31
  grants : ∀ n, start.host.reply n = .granted

variable {cfg : MmuConfig} {env : HostEnv} {start : MmuRuntime}

theorem init_blockSize (h : mmuInit cfg env = .ok start) : start.config.blockSizeBytes = cfg.blockSizeBytes.toNat := by
  unfold mmuInit at h
  split at h
  next => cases h
  next =>
    split at h
    next => cases h
    next =>
      split at h
      next => cases h
      next =>
        cases Except.ok.inj h
        rfl

/-- A fresh instance with one context keeps an empty cache. -/
theorem Started.keeps (h : Started shape cfg env start) (hk : LaysOut shape promptTokens k) (hsized : Sized k m)
    (hctx : ctx ≠ nullHandle) : ∃ mmu, mmuCreateContext start (some ctx) = (.ok ctx, mmu) ∧
      Keeps k start.config ctx 0 (fun _ => 0) [] 0 mmu := by
  have hserves := Serves.fresh ⟨cfg, env, h.init⟩ h.l2 h.grants h.blocks
  obtain ⟨mmu, hcreate, hserves'⟩ := hserves.create hctx rfl
  have hsize : start.config.blockSizeBytes = k.blockSize := by
    rw [init_blockSize h.init, h.block]
    unfold KvShape.computeBlockSizeBytes KvLayout.blockSize
    rw [UInt32.toNat_mul, hk.bytes, hk.tokens]
    exact Nat.mod_eq_of_lt hsized.page
  have hnew : ((EagerWorld.none : EagerWorld CtxHandle Bytes).create ctx).size ctx = some 0 := EagerWorld.size_create
  refine ⟨mmu, hcreate, _, hserves', rfl, rfl, le_rfl, hnew, ?_, ?_, hsize, rfl⟩
  · intro i hi
    omega
  · intro ℓ _ j hj
    omega

/-- The example returns 0 exactly where its blocks, its largest read and its widest write fit, for any shape and any
number of tokens; what it reports then is what the layout says, and every block is free again. -/
theorem example_exit_code (h : Started shape cfg env start) (hk : LaysOut shape promptTokens k)
    (hm : decodeTokens.toNat = m) (hsized : Sized k m) (hctx : ctx ≠ nullHandle) :
    ((kvMain shape promptTokens decodeTokens cfg env (some ctx)).1 = 0 ↔ KvFits k start.config m) ∧
      ∀ report, (kvMain shape promptTokens decodeTokens cfg env (some ctx)).2 = some report →
        Reports k start.config m report := by
  obtain ⟨mmu, hcreate, hkeeps⟩ := h.keeps hk hsized hctx
  have hends := kvPhases_ends hk hm hsized (fun hno => hno) mmu hkeeps
  unfold kvMain
  rw [h.init]
  dsimp only
  rw [hcreate]
  dsimp only
  split at hends
  next _ report s' heq =>
    rw [heq]
    refine ⟨iff_of_true rfl hends.1, ?_⟩
    intro report' hreport
    cases hreport
    exact hends.2
  next _ s' heq =>
    rw [heq]
    refine ⟨iff_of_false one_ne_zero hends, ?_⟩
    intro report' hreport
    cases hreport

end Main

/-! The program as it stands. -/

def mainLayout : KvLayout := ⟨12, 16, 512, 96, by decide, by decide⟩

def mainInstance : MmuRuntime := .new (resolveConfig mainConfig 0 (by decide)) grantingHost

theorem mainInstance_started : Started mainShape mainConfig grantingHost mainInstance :=
  ⟨rfl, rfl, rfl, by decide, fun _ => rfl⟩

theorem mainShape_laysOut : LaysOut mainShape mainPromptTokens mainLayout := ⟨rfl, rfl, rfl, rfl⟩

theorem mainDecodeTokens_toNat : mainDecodeTokens.toNat = 32 := rfl

theorem mainLayout_sized : Sized mainLayout 32 := by
  constructor <;> decide

theorem mainLayout_fits : KvFits mainLayout mainInstance.config 32 := by
  refine ⟨by decide, by decide, fun _ => ?_, fun _ => ?_⟩
  · decide
  · decide

theorem example_exit_code_main :
    (kvMain mainShape mainPromptTokens mainDecodeTokens mainConfig grantingHost (some 1)).1 = 0 :=
  (example_exit_code mainInstance_started mainShape_laysOut mainDecodeTokens_toNat mainLayout_sized
    (by decide)).1.mpr mainLayout_fits

section Contents

variable {shape : KvShape} {promptTokens decodeTokens : UInt32} {k : KvLayout} {ctx : CtxHandle} {m : Nat}
  {cfg : MmuConfig} {env : HostEnv} {start : MmuRuntime}

/-- Once prompt and decode are done, each token of each layer is found where the caches say: a READ mapping of its block
is granted and shows its tag in all bytes of its slot. -/
theorem example_cache_contents (h : Started shape cfg env start) (hk : LaysOut shape promptTokens k)
    (hm : decodeTokens.toNat = m) (hsized : Sized k m) (hctx : ctx ≠ nullHandle) {mmu mmu' : MmuRuntime}
    (hcreate : mmuCreateContext start (some ctx) = (.ok ctx, mmu)) {state : DecodeState}
    (hrun : (prefill ctx shape promptTokens (List.replicate shape.numLayers.toNat ⟨[]⟩) >>=
      decode ctx shape promptTokens decodeTokens) mmu = (some state, mmu')) {ℓ τ : Nat} (hℓ : ℓ < k.layers)
    (hτ : τ < k.prompt + m) :
    ∃ cache lb d mmu'', state.caches[ℓ]? = some cache ∧ cache.logicalBlocks[τ / k.tokensPerBlock]? = some lb ∧
      mmuMapLogicalBlock mmu' ctx lb mapRead = (.ok d, mmu'') ∧
      ∀ i < k.bytesPerToken, (hostRead mmu'' d)[τ % k.tokensPerBlock * k.bytesPerToken + i]? = some (k.tag ℓ τ) := by
  obtain ⟨mmu₀, hcreate', hkeeps⟩ := h.keeps hk hsized hctx
  cases hcreate.symm.trans hcreate'
  have hend := @fill_ends shape promptTokens decodeTokens k start.config ctx m True hk hm hsized (fun _ => trivial) mmu hkeeps
  rw [hrun] at hend
  obtain ⟨hstate, hfilled⟩ := hend
  have hprompt : k.blocks k.prompt ≤ k.blocks (k.prompt + m) := k.blocks_mono (Nat.le_add_right _ _)
  have hj := k.lt_blocks_of_token hτ
  have hclock := hsized.clock
  obtain ⟨d, mmu'', hmap, hread⟩ := hfilled.mapRead (by omega) hℓ hj (index_toNat hprompt hsized.blocks hℓ hj)
  refine ⟨⟨layerBlocks k (k.blocks (k.prompt + m)) ℓ⟩, _, d, mmu'', ?_, layerBlocks_at hj, hmap, ?_⟩
  · rw [hstate.caches, cachesOf_at hℓ]
  · intro i hi
    rw [hread]
    exact k.page_token hτ hi

/-- Where everything fits, prefill and decode go through. -/
theorem example_fills (h : Started shape cfg env start) (hk : LaysOut shape promptTokens k)
    (hm : decodeTokens.toNat = m) (hsized : Sized k m) (hctx : ctx ≠ nullHandle) (hfits : KvFits k start.config m) :
    ∃ mmu state mmu', mmuCreateContext start (some ctx) = (.ok ctx, mmu) ∧
      (prefill ctx shape promptTokens (List.replicate shape.numLayers.toNat ⟨[]⟩) >>=
        decode ctx shape promptTokens decodeTokens) mmu = (some state, mmu') := by
  obtain ⟨mmu, hcreate, hkeeps⟩ := h.keeps hk hsized hctx
  have hend := @fill_ends shape promptTokens decodeTokens k start.config ctx m False hk hm hsized (fun hno => hno hfits) mmu
    hkeeps
  split at hend
  next _ state mmu' heq => exact ⟨mmu, state, mmu', hcreate, heq⟩
  next => exact hend.elim

end Contents

/-- The last token of the last layer, where the run has left it. -/
theorem example_cache_contents_main : ∃ mmu state mmu' lb d mmu'',
    mmuCreateContext mainInstance (some 1) = (.ok 1, mmu) ∧
    (prefill 1 mainShape mainPromptTokens (List.replicate mainShape.numLayers.toNat ⟨[]⟩) >>=
      decode 1 mainShape mainPromptTokens mainDecodeTokens) mmu = (some state, mmu') ∧
    mmuMapLogicalBlock mmu' 1 lb mapRead = (.ok d, mmu'') ∧
    ∀ i < 512, (hostRead mmu'' d)[15 * 512 + i]? = some (.ofNat (17 * 31 + 19 * 11)) := by
  have hfills := @example_fills mainShape mainPromptTokens mainDecodeTokens mainLayout 1 32 mainConfig grantingHost
    mainInstance mainInstance_started mainShape_laysOut mainDecodeTokens_toNat mainLayout_sized (by decide) mainLayout_fits
  obtain ⟨mmu, state, mmu', hcreate, hrun⟩ := hfills
  obtain ⟨cache, lb, d, mmu'', _, _, hmap, hbytes⟩ := example_cache_contents mainInstance_started mainShape_laysOut
    mainDecodeTokens_toNat mainLayout_sized (by decide) hcreate hrun (show 11 < mainLayout.layers by decide)
    (show 127 < mainLayout.prompt + 32 by decide)
  exact ⟨mmu, state, mmu', lb, d, mmu'', hcreate, hrun, hmap, hbytes⟩

end KvExample

end DsfMmu
