import DsfMmu.Runtime

namespace DsfMmu

/-- `sizeof(mmu_config_t)`: eight four-byte fields. -/
def sizeofMmuConfig : UInt32 := 32

def mmuApiVersion : UInt32 := 1
def kDefaultChunkBlockCount : Nat := 4096
def kAutoResidentBudgetDivisor : Nat := 2

/-- `QueryAvailableHostMemoryBytes` on the two values `sysconf` returns. -/
def queryAvailableHostMemoryBytes (pageCount pageSize : Int) : Nat :=
  if pageCount ≤ 0 ∨ pageSize ≤ 0 then 0
  else if pageCount.toNat > (2 ^ 64 - 1) / pageSize.toNat then 0
  else pageCount.toNat * pageSize.toNat

/-- `ResolveAutoResidentLimit`, given the available bytes. -/
def resolveAutoResidentLimit (cfg : MmuConfig) (availableBytes : Nat) : Nat :=
  if cfg.l1BlockCount.toNat = 0 ∨ cfg.blockSizeBytes.toNat = 0 then 0
  else if availableBytes = 0 then cfg.l1BlockCount.toNat
  else
    let budgetBytes := availableBytes / kAutoResidentBudgetDivisor
    let blocks := budgetBytes / cfg.blockSizeBytes.toNat
    let blocks := if blocks = 0 then 1 else blocks
    if blocks > cfg.l1BlockCount.toNat then cfg.l1BlockCount.toNat else blocks

/-- The resident limit `mmu_init` settles on. -/
def resolveResidentLimit (cfg : MmuConfig) (availableBytes : Nat) : Nat :=
  let limit :=
    if cfg.l1ResidentBlockLimit.toNat = 0 then resolveAutoResidentLimit cfg availableBytes
    else cfg.l1ResidentBlockLimit.toNat
  if limit = 0 ∨ limit > cfg.l1BlockCount.toNat then cfg.l1BlockCount.toNat else limit

def resolveL2BlockCount (cfg : MmuConfig) : Nat :=
  if cfg.l2BlockCount.toNat = 0 ∨ cfg.l2BlockCount.toNat > cfg.l1BlockCount.toNat then
    cfg.l1BlockCount.toNat
  else cfg.l2BlockCount.toNat

def resolveChunkBlockCount (cfg : MmuConfig) : Nat :=
  let chunk :=
    if cfg.chunkBlockCount.toNat = 0 then kDefaultChunkBlockCount else cfg.chunkBlockCount.toNat
  if chunk > cfg.l1BlockCount.toNat then cfg.l1BlockCount.toNat else chunk

/-- The configuration `mmu_init` stores in the runtime. -/
def resolveConfig (cfg : MmuConfig) (availableBytes : Nat)
    (h : ¬(cfg.l1BlockCount.toNat = 0 ∨ cfg.blockSizeBytes.toNat = 0)) : ResolvedConfig where
  l1BlockCount := cfg.l1BlockCount.toNat
  l1ResidentBlockLimit := resolveResidentLimit cfg availableBytes
  l2BlockCount := resolveL2BlockCount cfg
  blockSizeBytes := cfg.blockSizeBytes.toNat
  chunkBlockCount := resolveChunkBlockCount cfg
  l1_fits := cfg.l1BlockCount.toNat_lt
  limit_pos := by simp only [resolveResidentLimit]; split_ifs <;> omega
  limit_le := by simp only [resolveResidentLimit]; split_ifs <;> omega
  l2_pos := by simp only [resolveL2BlockCount]; split_ifs <;> omega
  l2_le := by simp only [resolveL2BlockCount]; split_ifs <;> omega
  size_pos := by omega
  size_fits := cfg.blockSizeBytes.toNat_lt
  chunk_pos := by
    simp only [resolveChunkBlockCount, kDefaultChunkBlockCount]
    split_ifs <;> omega
  chunk_le := by simp only [resolveChunkBlockCount]; split_ifs <;> omega

/-- What the host supplies to `mmu_init`: the two `sysconf` values, whether the runtime's vectors
fit, the replies to later chunk requests, and what fresh memory holds. -/
structure HostEnv where
  pageCount : Int
  pageSize : Int
  fits : Bool
  reply : Nat → ChunkReply
  staleL1 : PagePtr → Bytes
  staleL2 : PagePtr → Bytes

/-- A default-constructed context, never reached through a live handle. -/
def noContext : Context := ⟨.empty, 0⟩

/-- `mmu_runtime_t`'s constructor. -/
def MmuRuntime.new (config : ResolvedConfig) (env : HostEnv) : MmuRuntime where
  config := config
  l1Allocator := .new config.l1BlockCount
  blockDirectory := .new config.l1BlockCount
  contexts := .empty noContext
  l1Pool := .new config.l1BlockCount env.staleL1
  l2Pool := .new config.l1BlockCount env.staleL2
  residentLimit := config.l1ResidentBlockLimit
  residentCount := 0
  epoch := 0
  host := ⟨env.reply, 0⟩

/-- `mmu_init`. -/
def mmuInit (cfg : MmuConfig) (env : HostEnv) : Except MmuError MmuRuntime :=
  if cfg.size < sizeofMmuConfig ∨ cfg.apiVersion ≠ mmuApiVersion then .error .versionMismatch
  else if h : cfg.l1BlockCount.toNat = 0 ∨ cfg.blockSizeBytes.toNat = 0 then .error .invalidArgument
  else if env.fits = false then .error .outOfMemory
  else
    let available := queryAvailableHostMemoryBytes env.pageCount env.pageSize
    .ok (.new (resolveConfig cfg available h) env)

/-- `FindContext`. -/
def findContext (mmu : MmuRuntime) (ctx : CtxHandle) : Option Context :=
  if ctx = nullHandle then none else mmu.contexts.find? ctx

/-- The allocator and one context, written back after a `Context` method. -/
def MmuRuntime.setContext (mmu : MmuRuntime) (bm : BlockManager) (ctx : CtxHandle) (c : Context) :
    MmuRuntime :=
  { mmu with l1Allocator := bm, contexts := mmu.contexts.insert ctx c }

/-- `mmu_create_context`; `handle` is the address `make_unique` returns, `none` when it throws. -/
def mmuCreateContext (mmu : MmuRuntime) (handle : Option CtxHandle) :
    Except MmuError CtxHandle × MmuRuntime :=
  match handle with
  | none => (.error .outOfMemory, mmu)
  | some ctx => (.ok ctx, mmu.setContext mmu.l1Allocator ctx ⟨.empty, mmu.config.blockSizeBytes⟩)

/-- `mmu_destroy_context`: the erased context's destructor, then the scan. -/
def mmuDestroyContext (mmu : MmuRuntime) (ctx : CtxHandle) : MmuRuntime :=
  match findContext mmu ctx with
  | none => mmu
  | some context =>
    let mmu := { mmu with
      l1Allocator := Context.releaseAllBlocks context.pageTable mmu.l1Allocator
      contexts := mmu.contexts.erase ctx }
    reclaimUnusedResidentBlocks mmu

/-- `mmu_fork_context`. -/
def mmuForkContext (mmu : MmuRuntime) (src : CtxHandle) (grows : Nat → Bool)
    (handle : Option CtxHandle) : Except MmuError CtxHandle × MmuRuntime :=
  if src = nullHandle then (.error .invalidArgument, mmu)
  else
    match findContext mmu src with
    | none => (.error .badHandle, mmu)
    | some context =>
      match context.fork mmu.l1Allocator grows with
      | (none, bm) => (.error .outOfMemory, { mmu with l1Allocator := bm })
      | (some child, bm) =>
        match handle with
        | none =>
          (.error .outOfMemory,
            { mmu with l1Allocator := Context.releaseAllBlocks child.pageTable bm })
        | some ctx => (.ok ctx, mmu.setContext bm ctx child)

/-- `mmu_allocate_blocks`. -/
def mmuAllocateBlocks (mmu : MmuRuntime) (ctx : CtxHandle) (numBlocks : UInt32) :
    Except MmuError Unit × MmuRuntime :=
  match findContext mmu ctx with
  | none => (.error .badHandle, mmu)
  | some context =>
    match u32ToInt numBlocks with
    | none => (.error .invalidArgument, mmu)
    | some count =>
      let mmu := reclaimUnusedResidentBlocks mmu
      match context.allocateBlocks mmu.l1Allocator count with
      | (.error status, bm, context) => (.error status, mmu.setContext bm ctx context)
      | (.ok newBlocks, bm, context) =>
        (.ok (), newBlocks.foldl registerFreshBlock (mmu.setContext bm ctx context))

/-- `mmu_release_logical_block`. -/
def mmuReleaseLogicalBlock (mmu : MmuRuntime) (ctx : CtxHandle) (logicalBlock : UInt32) :
    Except MmuError Unit × MmuRuntime :=
  match findContext mmu ctx with
  | none => (.error .badHandle, mmu)
  | some context =>
    match u32ToInt logicalBlock with
    | none => (.error .invalidArgument, mmu)
    | some lvid =>
      match context.resolveRouting mmu.blockDirectory lvid with
      | .error status => (.error status, mmu)
      | .ok route =>
        match context.releaseLogicalBlock mmu.l1Allocator lvid with
        | (.error status, bm, context) => (.error status, mmu.setContext bm ctx context)
        | (.ok _, bm, context) =>
          (.ok (), reclaimBlock (mmu.setContext bm ctx context) route.physicalBlockId)

/-- `mmu_resolve_routing`. -/
def mmuResolveRouting (mmu : MmuRuntime) (ctx : CtxHandle) (logicalBlock : UInt32) :
    Except MmuError PhysicalRoute :=
  match findContext mmu ctx with
  | none => .error .badHandle
  | some context =>
    match u32ToInt logicalBlock with
    | none => .error .invalidArgument
    | some lvid => context.resolveRouting mmu.blockDirectory lvid

/-- The loop of `mmu_resolve_routing_batch` from index `i` on. Each route goes straight to its place
in the caller's array, as `ResolveRouting` writes nothing when it fails. -/
def resolveRoutingLoop (context : Context) (d : BlockDirectory) :
    Nat → List UInt32 → List PhysicalRoute → Except MmuError Unit × List PhysicalRoute
  | _, [], outRoutes => (.ok (), outRoutes)
  | i, logicalBlock :: rest, outRoutes =>
    match u32ToInt logicalBlock with
    | none => (.error .invalidArgument, outRoutes)
    | some lvid =>
      match context.resolveRouting d lvid with
      | .error status => (.error status, outRoutes)
      | .ok route => resolveRoutingLoop context d (i + 1) rest (outRoutes.set i route)

/-- `mmu_resolve_routing_batch`; `outRoutes` is the caller's array, of `num_blocks` places or more. -/
def mmuResolveRoutingBatch (mmu : MmuRuntime) (ctx : CtxHandle) (logicalBlocks : List UInt32)
    (outRoutes : List PhysicalRoute) : Except MmuError Unit × List PhysicalRoute :=
  match findContext mmu ctx with
  | none => (.error .badHandle, outRoutes)
  | some context => resolveRoutingLoop context mmu.blockDirectory 0 logicalBlocks outRoutes

/-- `mmu_prepare_block_for_write`. -/
def mmuPrepareBlockForWrite (mmu : MmuRuntime) (ctx : CtxHandle) (logicalBlock : UInt32) :
    Except MmuError Int × MmuRuntime :=
  match findContext mmu ctx with
  | none => (.error .badHandle, mmu)
  | some context =>
    match u32ToInt logicalBlock with
    | none => (.error .invalidArgument, mmu)
    | some lvid =>
      match context.resolveRouting mmu.blockDirectory lvid with
      | .error status => (.error status, mmu)
      | .ok before =>
        match context.prepareBlockForWrite mmu.l1Allocator lvid with
        | (.error status, bm, context) => (.error status, mmu.setContext bm ctx context)
        | (.ok pbid, bm, context) =>
          let mmu := mmu.setContext bm ctx context
          if pbid ≠ before.physicalBlockId then
            let mmu := mmu.setDirectory (mmu.blockDirectory.initializeFreshBlock pbid)
            let mmu := mmu.setDirectory (mmu.blockDirectory.setTier pbid .l2)
            match cloneBlockDataForCow mmu before.physicalBlockId before.tier pbid with
            | (.error status, mmu) => (.error status, mmu)
            | (.ok _, mmu) => (.ok pbid, mmu)
          else (.ok pbid, mmu)

/-- The part of `mmu_map_logical_block` after the write preparation. -/
def mapResolved (mmu : MmuRuntime) (context : Context) (lvid : Int) (logicalBlock mapFlags : UInt32) :
    Except MmuError MappedBlock × MmuRuntime :=
  match context.resolveRouting mmu.blockDirectory lvid with
  | .error status => (.error status, mmu)
  | .ok route =>
    let pbid := route.physicalBlockId
    match ensureResidentInL1 mmu pbid with
    | (.error status, mmu) => (.error status, mmu)
    | (.ok _, mmu) =>
      match acquirePage mmu .l1 pbid with
      | (.error status, mmu) => (.error status, mmu)
      | (.ok l1Page, mmu) =>
        match mmu.blockDirectory.incrementPinCount pbid with
        | (false, _) => (.error .internal, mmu)
        | (true, d) =>
          (.ok ⟨l1Page, mmu.config.blockSizeBytes, pbid, logicalBlock, mapFlags⟩,
            touchBlock (mmu.setDirectory d) pbid)

/-- `mmu_map_logical_block`. -/
def mmuMapLogicalBlock (mmu : MmuRuntime) (ctx : CtxHandle) (logicalBlock mapFlags : UInt32) :
    Except MmuError MappedBlock × MmuRuntime :=
  if validateMapFlags mapFlags = false then (.error .invalidArgument, mmu)
  else
    match findContext mmu ctx with
    | none => (.error .badHandle, mmu)
    | some context =>
      match u32ToInt logicalBlock with
      | none => (.error .invalidArgument, mmu)
      | some lvid =>
        if hasWrite mapFlags then
          match mmuPrepareBlockForWrite mmu ctx logicalBlock with
          | (.error status, mmu) => (.error status, mmu)
          | (.ok _, mmu) =>
            match findContext mmu ctx with
            | none => (.error .badHandle, mmu)
            | some context => mapResolved mmu context lvid logicalBlock mapFlags
        else mapResolved mmu context lvid logicalBlock mapFlags

/-- `mmu_unmap_logical_block`. -/
def mmuUnmapLogicalBlock (mmu : MmuRuntime) (ctx : CtxHandle) (mapped : MappedBlock) :
    Except MmuError Unit × MmuRuntime :=
  match findContext mmu ctx with
  | none => (.error .badHandle, mmu)
  | some context =>
    let pbid := mapped.physicalBlockId
    if ¬mmu.l1Allocator.isValid pbid then (.error .invalidArgument, mmu)
    else
      match u32ToInt mapped.logicalBlockId with
      | none => (.error .invalidArgument, mmu)
      | some lvid =>
        match context.resolveRouting mmu.blockDirectory lvid with
        | .error status => (.error status, mmu)
        | .ok route =>
          if route.physicalBlockId ≠ pbid then (.error .badHandle, mmu)
          else
            match mmu.blockDirectory.get pbid with
            | none => (.error .internal, mmu)
            | some blockMeta =>
              if blockMeta.allocated = false then (.error .internal, mmu)
              else unmapPinned mmu pbid blockMeta mapped.mapFlags
where
  /-- The part after the validation. -/
  unmapPinned (mmu : MmuRuntime) (pbid : Int) (blockMeta : BlockMeta) (mapFlags : UInt32) :
      Except MmuError Unit × MmuRuntime :=
    match
      (if blockMeta.pinCount > 0 then mmu.blockDirectory.decrementPinCount pbid
      else (true, mmu.blockDirectory)) with
    | (false, _) => (.error .internal, mmu)
    | (true, d) =>
      let mmu := mmu.setDirectory d
      if hasWrite mapFlags then
        let mmu := mmu.setDirectory (mmu.blockDirectory.setDirty pbid true)
        if blockMeta.residentInL1 then
          match syncL1ToL2 mmu pbid with
          | (.error status, mmu) => (.error status, mmu)
          | (.ok _, mmu) =>
            let mmu := mmu.setDirectory (mmu.blockDirectory.setDirty pbid false)
            (.ok (), touchBlock mmu pbid)
        else (.ok (), touchBlock mmu pbid)
      else (.ok (), touchBlock mmu pbid)

/-- The rollback of `mmu_map_logical_blocks`: the statuses of the unmaps are dropped. -/
def unmapAll (ctx : CtxHandle) (mapped : List MappedBlock) (mmu : MmuRuntime) : MmuRuntime :=
  mapped.foldl (fun mmu d => (mmuUnmapLogicalBlock mmu ctx d).2) mmu

/-- The loop of `mmu_map_logical_blocks`; `done` is the part of the output already written. -/
def mapBlocksLoop (ctx : CtxHandle) (mapFlags : UInt32) : List UInt32 → List MappedBlock → MmuRuntime →
    Except MmuError (List MappedBlock) × MmuRuntime
  | [], done, mmu => (.ok done, mmu)
  | logicalBlock :: rest, done, mmu =>
    match mmuMapLogicalBlock mmu ctx logicalBlock mapFlags with
    | (.error status, mmu) => (.error status, unmapAll ctx done mmu)
    | (.ok mapped, mmu) => mapBlocksLoop ctx mapFlags rest (done ++ [mapped]) mmu

/-- `mmu_map_logical_blocks`. -/
def mmuMapLogicalBlocks (mmu : MmuRuntime) (ctx : CtxHandle) (logicalBlocks : List UInt32)
    (mapFlags : UInt32) : Except MmuError (List MappedBlock) × MmuRuntime :=
  mapBlocksLoop ctx mapFlags logicalBlocks [] mmu

/-- The loop of `mmu_unmap_logical_blocks`. -/
def unmapBlocksLoop (ctx : CtxHandle) : List MappedBlock → Except MmuError Unit → MmuRuntime →
    Except MmuError Unit × MmuRuntime
  | [], firstError, mmu => (firstError, mmu)
  | d :: rest, firstError, mmu =>
    match mmuUnmapLogicalBlock mmu ctx d with
    | (.error status, mmu) =>
      unmapBlocksLoop ctx rest (if firstError matches .ok _ then .error status else firstError) mmu
    | (.ok _, mmu) => unmapBlocksLoop ctx rest firstError mmu

/-- `mmu_unmap_logical_blocks`. -/
def mmuUnmapLogicalBlocks (mmu : MmuRuntime) (ctx : CtxHandle) (mapped : List MappedBlock) :
    Except MmuError Unit × MmuRuntime :=
  unmapBlocksLoop ctx mapped (.ok ()) mmu

/-- `mmu_get_free_block_count`. -/
def mmuGetFreeBlockCount (mmu : MmuRuntime) : Nat := mmu.l1Allocator.freeBlocks

/-- `mmu_get_ref_count`. -/
def mmuGetRefCount (mmu : MmuRuntime) (physicalBlockId : Int) : Int :=
  mmu.l1Allocator.refCount physicalBlockId

/-- `mmu_get_logical_block_count`. -/
def mmuGetLogicalBlockCount (mmu : MmuRuntime) (ctx : CtxHandle) : Nat :=
  match findContext mmu ctx with
  | none => 0
  | some context => context.allocatedLogicalBlocks

/-- A byte stored through a mapping's `host_ptr`. -/
def hostWrite (mmu : MmuRuntime) (mapped : MappedBlock) (offset : Nat) (byte : UInt8) : MmuRuntime :=
  { mmu with
    l1Pool := mmu.l1Pool.write mapped.hostPtr ((mmu.l1Pool.bytes mapped.hostPtr).set offset byte) }

/-- What is read through a mapping's `host_ptr`. -/
def hostRead (mmu : MmuRuntime) (mapped : MappedBlock) : Bytes := mmu.l1Pool.bytes mapped.hostPtr

end DsfMmu
