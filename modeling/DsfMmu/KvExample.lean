import DsfMmu.Api
import DsfMmu.Procedure

namespace DsfMmu

namespace KvExample

open Procedure

structure KvShape where
  numLayers : UInt32
  numHeads : UInt32
  headDim : UInt32
  bytesPerScalar : UInt32
  tokensPerBlock : UInt32

structure LayerCache where
  logicalBlocks : List UInt32

namespace KvShape

def bytesPerTokenPerLayer (shape : KvShape) : UInt32 := shape.numHeads * shape.headDim * 2 * shape.bytesPerScalar

def computeBlockSizeBytes (shape : KvShape) : UInt32 := shape.bytesPerTokenPerLayer * shape.tokensPerBlock

def blocksPerLayer (shape : KvShape) (promptTokens : UInt32) : UInt32 :=
  (promptTokens + shape.tokensPerBlock - 1) / shape.tokensPerBlock

end KvShape

def mapReadWrite : UInt32 := mapRead ||| mapWrite

/-- `std::memset` from `offset` on in a mapped page. -/
def hostMemset (mmu : MmuRuntime) (mapped : MappedBlock) (offset : Nat) (value : UInt8) (len : Nat) : MmuRuntime :=
  (List.range len).foldl (fun mmu i => hostWrite mmu mapped (offset + i) value) mmu

def writeTokenSlice (mmu : MmuRuntime) (mapped : MappedBlock) (bytesPerToken tokenSlot : UInt32) (value : UInt8) :
    MmuRuntime :=
  let offset := tokenSlot.toNat * bytesPerToken.toNat
  if offset ≥ mapped.sizeBytes then mmu
  else
    let len := if offset + bytesPerToken.toNat > mapped.sizeBytes then mapped.sizeBytes - offset else bytesPerToken.toNat
    hostMemset mmu mapped offset value len

def prefillTag (layer absoluteToken : UInt32) : UInt8 := ((layer * 37 + absoluteToken * 13) &&& 0xFF).toUInt8

def decodeTag (step layer : UInt32) : UInt8 := ((step * 17 + layer * 19) &&& 0xFF).toUInt8

section Prefill

variable (ctx : CtxHandle) (shape : KvShape) (promptTokens : UInt32)

/-- The tokens of one block of the prompt. -/
def writeBlock (layer : UInt32) (mapped : MappedBlock) (b : Nat) : Procedure MmuRuntime Unit :=
  let blockStartToken := UInt32.ofNat b * shape.tokensPerBlock
  let validTokens := min shape.tokensPerBlock (promptTokens - blockStartToken)
  (List.range validTokens.toNat).forM fun t => update fun mmu =>
    writeTokenSlice mmu mapped shape.bytesPerTokenPerLayer (.ofNat t) (prefillTag layer (blockStartToken + .ofNat t))

/-- One turn of the second loop over the layers. -/
def prefillLayer (layer : UInt32) (cache : LayerCache) : Procedure MmuRuntime Unit := do
  let blocks := cache.logicalBlocks.take (shape.blocksPerLayer promptTokens).toNat
  let mapped ← attempt (mmuMapLogicalBlocks · ctx blocks mapReadWrite)
  mapped.zipIdx.forM fun (d, b) => writeBlock shape promptTokens layer d b
  attempt (mmuUnmapLogicalBlocks · ctx mapped)

/-- `Prefill`; one cache for each layer. -/
def prefill (caches : List LayerCache) : Procedure MmuRuntime (List LayerCache) := do
  let blocksPerLayer := shape.blocksPerLayer promptTokens
  let totalBlocks := blocksPerLayer * shape.numLayers
  let baseLogical ← query fun mmu => UInt32.ofNat (mmuGetLogicalBlockCount mmu ctx)
  attempt (mmuAllocateBlocks · ctx totalBlocks)
  let caches := caches.mapIdx fun layer cache =>
    ⟨cache.logicalBlocks ++ (List.range blocksPerLayer.toNat).map fun b =>
      baseLogical + .ofNat layer * blocksPerLayer + .ofNat b⟩
  caches.zipIdx.forM fun (cache, layer) => prefillLayer ctx shape promptTokens (.ofNat layer) cache
  pure caches

end Prefill

/-- What a step prints. -/
structure KvSample where
  step : Nat
  checksum : UInt64
  physicalBlockId : Int
  tier : MmuTier
  deriving DecidableEq

structure DecodeState where
  totalTokens : UInt32
  caches : List LayerCache
  samples : List KvSample

section Decode

variable (ctx : CtxHandle) (shape : KvShape)

/-- A new block for every layer once the last ones are full. -/
def extendCaches (slotInBlock : UInt32) (caches : List LayerCache) : Procedure MmuRuntime (List LayerCache) :=
  if slotInBlock = 0 then do
    let baseLogical ← query fun mmu => UInt32.ofNat (mmuGetLogicalBlockCount mmu ctx)
    attempt (mmuAllocateBlocks · ctx shape.numLayers)
    pure (caches.mapIdx fun layer cache => ⟨cache.logicalBlocks ++ [baseLogical + .ofNat layer]⟩)
  else pure caches

/-- The attention read of one layer: its last two blocks, if it has two. -/
def readLayer (checksum : UInt64) (cache : LayerCache) : Procedure MmuRuntime UInt64 := do
  let readCount := min 2 cache.logicalBlocks.length
  let offset := cache.logicalBlocks.length - readCount
  let mapped ← attempt (mmuMapLogicalBlocks · ctx (cache.logicalBlocks.drop offset) mapRead)
  let checksum ← query fun mmu => mapped.foldl (fun sum d => sum + ((hostRead mmu d).headD 0).toUInt64) checksum
  attempt (mmuUnmapLogicalBlocks · ctx mapped)
  pure checksum

def readRecent (caches : List LayerCache) : Procedure MmuRuntime UInt64 := caches.foldlM (readLayer ctx) 0

/-- The token of this step goes to the tail block of every layer. -/
def writeTails (step : Nat) (slotInBlock : UInt32) (tailBlocks : List UInt32) : Procedure MmuRuntime Unit := do
  let mappedTail ← attempt (mmuMapLogicalBlocks · ctx tailBlocks mapReadWrite)
  mappedTail.zipIdx.forM fun (d, layer) => update fun mmu =>
    writeTokenSlice mmu d shape.bytesPerTokenPerLayer slotInBlock (decodeTag (.ofNat step) (.ofNat layer))
  attempt (mmuUnmapLogicalBlocks · ctx mappedTail)

def sampleTail (step : Nat) (checksum : UInt64) (tailBlock : UInt32) (samples : List KvSample) :
    Procedure MmuRuntime (List KvSample) :=
  if step % 8 = 0 then do
    let route ← attempt fun mmu => (mmuResolveRouting mmu ctx tailBlock, mmu)
    pure (samples ++ [⟨step, checksum, route.physicalBlockId, route.tier⟩])
  else pure samples

def decodeStep (state : DecodeState) (step : Nat) : Procedure MmuRuntime DecodeState := do
  let slotInBlock := state.totalTokens % shape.tokensPerBlock
  let caches ← extendCaches ctx shape slotInBlock state.caches
  let readChecksum ← readRecent ctx caches
  let tailBlocks := caches.map fun cache => cache.logicalBlocks.getLastD 0
  writeTails ctx shape step slotInBlock tailBlocks
  let samples ← sampleTail ctx step readChecksum (tailBlocks.headD 0) state.samples
  pure ⟨state.totalTokens + 1, caches, samples⟩

/-- `Decode`. -/
def decode (promptTokens decodeTokens : UInt32) (caches : List LayerCache) : Procedure MmuRuntime DecodeState :=
  (List.range decodeTokens.toNat).foldlM (decodeStep ctx shape) ⟨promptTokens, caches, []⟩

end Decode

/-- `ReleaseAllBlocks`: an entry released before is passed over. -/
def releaseAllBlocks (ctx : CtxHandle) : Procedure MmuRuntime Unit := do
  let total ← query (mmuGetLogicalBlockCount · ctx)
  (List.range total).forM fun lvid => attempt fun mmu =>
    match mmuReleaseLogicalBlock mmu ctx (.ofNat lvid) with
    | (.error .unallocated, mmu) => (.ok (), mmu)
    | outcome => outcome

/-- What `main` prints. -/
structure KvReport where
  prefillBlocks : Nat
  prefillFree : Nat
  samples : List KvSample
  decodeBlocks : Nat
  decodeFree : Nat
  releasedFree : Nat

/-- `main` between `mmu_create_context` and the teardown. -/
def kvPhases (ctx : CtxHandle) (shape : KvShape) (promptTokens decodeTokens : UInt32) : Procedure MmuRuntime KvReport := do
  let caches ← prefill ctx shape promptTokens (List.replicate shape.numLayers.toNat ⟨[]⟩)
  let prefillBlocks ← query (mmuGetLogicalBlockCount · ctx)
  let prefillFree ← query mmuGetFreeBlockCount
  let state ← decode ctx shape promptTokens decodeTokens caches
  let decodeBlocks ← query (mmuGetLogicalBlockCount · ctx)
  let decodeFree ← query mmuGetFreeBlockCount
  releaseAllBlocks ctx
  let releasedFree ← query mmuGetFreeBlockCount
  pure ⟨prefillBlocks, prefillFree, state.samples, decodeBlocks, decodeFree, releasedFree⟩

/-- `main`: its exit code, with what it printed if it got to the end. -/
def kvMain (shape : KvShape) (promptTokens decodeTokens : UInt32) (cfg : MmuConfig) (env : HostEnv)
    (handle : Option CtxHandle) : Nat × Option KvReport :=
  match mmuInit cfg env with
  | .error _ => (1, none)
  | .ok mmu =>
    match mmuCreateContext mmu handle with
    | (.error _, _) => (1, none)
    | (.ok ctx, mmu) =>
      match kvPhases ctx shape promptTokens decodeTokens mmu with
      | (none, _) => (1, none)
      | (some report, _) => (0, some report)

/-- `mmu_default_config`. -/
def mmuDefaultConfig : MmuConfig := ⟨sizeofMmuConfig, mmuApiVersion, 1024, 0, 0, 4096, 4096⟩

/-! The constants of `main`. -/

def mainShape : KvShape := ⟨12, 8, 16, 2, 16⟩

def mainPromptTokens : UInt32 := 96

def mainDecodeTokens : UInt32 := 32

def mainConfig : MmuConfig :=
  { mmuDefaultConfig with
    blockSizeBytes := mainShape.computeBlockSizeBytes
    l1BlockCount := 512
    l1ResidentBlockLimit := 64
    l2BlockCount := 512
    chunkBlockCount := 32 }

end KvExample

end DsfMmu
