import DsfMmu.ChunkPool
import DsfMmu.Context
import DsfMmu.KeyedMap

namespace DsfMmu

/-- `mmu_config_t` as the caller passes it. -/
structure MmuConfig where
  size : UInt32
  apiVersion : UInt32
  l1BlockCount : UInt32
  l1ResidentBlockLimit : UInt32
  l2BlockCount : UInt32
  blockSizeBytes : UInt32
  chunkBlockCount : UInt32

/-- The configuration after `mmu_init` has resolved its defaults. -/
structure ResolvedConfig where
  l1BlockCount : Nat
  l1ResidentBlockLimit : Nat
  l2BlockCount : Nat
  blockSizeBytes : Nat
  chunkBlockCount : Nat
  l1_fits : l1BlockCount < 2 ^ 32
  limit_pos : 0 < l1ResidentBlockLimit
  limit_le : l1ResidentBlockLimit ≤ l1BlockCount
  l2_pos : 0 < l2BlockCount
  l2_le : l2BlockCount ≤ l1BlockCount
  size_pos : 0 < blockSizeBytes
  size_fits : blockSizeBytes < 2 ^ 32
  chunk_pos : 0 < chunkBlockCount
  chunk_le : chunkBlockCount ≤ l1BlockCount

/-- What the host answers to the allocations of one `AllocateChunk`. `refused`: the chunk or its
place in `chunks` could not be had. `listFull k`: `free_blocks` could not grow after `k` pushes. -/
inductive ChunkReply
  | granted
  | refused
  | listFull (pushed : Nat)
  deriving DecidableEq, Repr

/-- The host's replies, and how many have been asked for. -/
structure Host where
  reply : Nat → ChunkReply
  requests : Nat

inductive PoolId
  | l1
  | l2
  deriving DecidableEq, Repr

/-- `mmu_runtime_t`. -/
structure MmuRuntime where
  config : ResolvedConfig
  l1Allocator : BlockManager
  blockDirectory : BlockDirectory
  contexts : KeyedMap CtxHandle Context
  l1Pool : ChunkPool
  l2Pool : ChunkPool
  residentLimit : Nat
  residentCount : Nat
  epoch : Nat
  host : Host

namespace MmuRuntime

def pool (mmu : MmuRuntime) : PoolId → ChunkPool
  | .l1 => mmu.l1Pool
  | .l2 => mmu.l2Pool

def setPool (mmu : MmuRuntime) (id : PoolId) (pool : ChunkPool) : MmuRuntime :=
  match id with
  | .l1 => { mmu with l1Pool := pool }
  | .l2 => { mmu with l2Pool := pool }

/-- `memset(_, 0, block_size_bytes)`. -/
def zeroPage (mmu : MmuRuntime) : Bytes := List.replicate mmu.config.blockSizeBytes 0

def setDirectory (mmu : MmuRuntime) (d : BlockDirectory) : MmuRuntime :=
  { mmu with blockDirectory := d }

/-- A write through `MutableBlockMeta`. -/
def mutateMeta (mmu : MmuRuntime) (p : Int) (f : BlockMeta → BlockMeta) : MmuRuntime :=
  mmu.setDirectory (mmu.blockDirectory.mutate p f)

def askHost (mmu : MmuRuntime) : ChunkReply × MmuRuntime :=
  (mmu.host.reply mmu.host.requests,
    { mmu with host := { mmu.host with requests := mmu.host.requests + 1 } })

end MmuRuntime

/-- `AllocateChunk`. -/
def allocateChunk (mmu : MmuRuntime) (id : PoolId) (blocksPerChunk : Nat) :
    Except MmuError Unit × MmuRuntime :=
  let blockSize := mmu.config.blockSizeBytes
  if blocksPerChunk = 0 ∨ blockSize = 0 then (.error .invalidArgument, mmu)
  else if blocksPerChunk * blockSize % 2 ^ 64 / blocksPerChunk ≠ blockSize then
    (.error .invalidArgument, mmu)
  else
    match mmu.askHost with
    | (.granted, mmu) =>
      (.ok (), mmu.setPool id ((mmu.pool id).addChunk blocksPerChunk blocksPerChunk))
    | (.refused, mmu) => (.error .outOfMemory, mmu)
    | (.listFull pushed, mmu) =>
      (.error .outOfMemory,
        mmu.setPool id ((mmu.pool id).addChunk blocksPerChunk (min pushed blocksPerChunk)))

/-- The blocks `AcquirePage` asks for when a pool's free list is empty: the L2 pool never asks
for more than it may still commit. -/
def chunkRequest (mmu : MmuRuntime) (id : PoolId) : Nat :=
  if id = .l2 ∧ 0 < mmu.config.l2BlockCount then
    let remaining := mmu.config.l2BlockCount - (mmu.pool id).committedPages
    if remaining < mmu.config.chunkBlockCount then remaining else mmu.config.chunkBlockCount
  else mmu.config.chunkBlockCount

/-- `AcquirePage`'s `if (pool->free_blocks.empty())`. A `remaining` of zero is refused here as
in the source; the cap has already been tested there. -/
def refill (mmu : MmuRuntime) (id : PoolId) : Except MmuError Unit × MmuRuntime :=
  if (mmu.pool id).freeBlocks ≠ [] then (.ok (), mmu)
  else if id = .l2 ∧ 0 < mmu.config.l2BlockCount ∧
      mmu.config.l2BlockCount - (mmu.pool id).committedPages = 0 then
    (.error .outOfMemory, mmu)
  else allocateChunk mmu id (chunkRequest mmu id)

/-- `AcquirePage`. -/
def acquirePage (mmu : MmuRuntime) (id : PoolId) (physicalBlockId : Int) :
    Except MmuError PagePtr × MmuRuntime :=
  if ¬(mmu.pool id).ownerPages.InRange physicalBlockId then (.error .invalidArgument, mmu)
  else
    match (mmu.pool id).ownerPages.entry physicalBlockId with
    | some slot => (.ok slot, mmu)
    | none =>
      if id = .l2 ∧ 0 < mmu.config.l2BlockCount ∧
          mmu.config.l2BlockCount ≤ (mmu.pool id).committedPages then
        (.error .outOfMemory, mmu)
      else
        match refill mmu id with
        | (.error status, mmu) => (.error status, mmu)
        | (.ok _, mmu) =>
          match (mmu.pool id).freeBlocks.getLast? with
          | none => (.error .outOfMemory, mmu)
          | some slot =>
            (.ok slot, mmu.setPool id ((mmu.pool id).takeFree physicalBlockId slot mmu.zeroPage))

/-- `ReleasePage`. -/
def releasePage (mmu : MmuRuntime) (id : PoolId) (physicalBlockId : Int) : MmuRuntime :=
  mmu.setPool id ((mmu.pool id).releasePage physicalBlockId)

/-- `CopyOrZero` from a slot of one pool, or from nothing, to a slot of the other. -/
def copyOrZero (mmu : MmuRuntime) (src : Option (PoolId × PagePtr)) (dst : PoolId)
    (dstSlot : PagePtr) : MmuRuntime :=
  match src with
  | none => mmu.setPool dst ((mmu.pool dst).write dstSlot mmu.zeroPage)
  | some (srcPool, srcSlot) =>
    mmu.setPool dst ((mmu.pool dst).write dstSlot ((mmu.pool srcPool).bytes srcSlot))

/-- `RawPage` of a pool, as a source for a copy. -/
def rawPage (mmu : MmuRuntime) (id : PoolId) (physicalBlockId : Int) : Option (PoolId × PagePtr) :=
  ((mmu.pool id).rawPage physicalBlockId).map (id, ·)

/-- `++mmu->epoch` on a `uint64_t`. -/
def nextEpoch (epoch : Nat) : Nat := (epoch + 1) % 2 ^ 64

/-- `TouchBlock`. -/
def touchBlock (mmu : MmuRuntime) (physicalBlockId : Int) : MmuRuntime :=
  let epoch := nextEpoch mmu.epoch
  { mmu with
    epoch := epoch
    blockDirectory := mmu.blockDirectory.setLastAccessEpoch physicalBlockId epoch }

/-- `SyncL1ToL2`. -/
def syncL1ToL2 (mmu : MmuRuntime) (physicalBlockId : Int) : Except MmuError Unit × MmuRuntime :=
  match acquirePage mmu .l2 physicalBlockId with
  | (.error status, mmu) => (.error status, mmu)
  | (.ok dstL2, mmu) =>
    let mmu := copyOrZero mmu (rawPage mmu .l1 physicalBlockId) .l2 dstL2
    let mmu := mmu.setDirectory (mmu.blockDirectory.setHasL2Backing physicalBlockId true)
    let mmu := mmu.setDirectory (mmu.blockDirectory.setL2SlotId physicalBlockId physicalBlockId)
    (.ok (), mmu)

/-- `SyncL2ToL1`. -/
def syncL2ToL1 (mmu : MmuRuntime) (physicalBlockId : Int) : Except MmuError Unit × MmuRuntime :=
  match acquirePage mmu .l1 physicalBlockId with
  | (.error status, mmu) => (.error status, mmu)
  | (.ok dstL1, mmu) =>
    let mmu := copyOrZero mmu (rawPage mmu .l2 physicalBlockId) .l1 dstL1
    let mmu := mmu.setDirectory (mmu.blockDirectory.setL1FrameId physicalBlockId physicalBlockId)
    (.ok (), mmu)

/-- `ResetBlockData`. -/
def resetBlockData (mmu : MmuRuntime) (physicalBlockId : Int) : MmuRuntime :=
  let mmu := releasePage mmu .l1 physicalBlockId
  let mmu := releasePage mmu .l2 physicalBlockId
  mmu.mutateMeta physicalBlockId fun m =>
    { m with
      residentInL1 := false
      dirty := false
      pinCount := 0
      lastAccessEpoch := 0
      l1FrameId := kInvalidFrameId
      l2SlotId := kInvalidSlotId
      hasL2Backing := false }

/-- The guarded `--resident_count`. -/
def dropResident (mmu : MmuRuntime) : MmuRuntime :=
  { mmu with
    residentCount := if mmu.residentCount > 0 then mmu.residentCount - 1 else mmu.residentCount }

/-- What the source does to a block without references, in `ReclaimUnusedResidentBlocks` and in
`mmu_release_logical_block`. -/
def forgetBlock (mmu : MmuRuntime) (physicalBlockId : Int) : MmuRuntime :=
  let mmu :=
    match mmu.blockDirectory.get physicalBlockId with
    | none => mmu
    | some blockMeta => if blockMeta.residentInL1 then dropResident mmu else mmu
  let mmu := resetBlockData mmu physicalBlockId
  mmu.setDirectory (mmu.blockDirectory.reset physicalBlockId)

/-- The body of `ReclaimUnusedResidentBlocks`'s loop. -/
def reclaimBlock (mmu : MmuRuntime) (pbid : Int) : MmuRuntime :=
  if mmu.l1Allocator.refCount pbid = 0 then forgetBlock mmu pbid else mmu

/-- The ids of `for (int pbid = 0; pbid < (int)l1_block_count; ++pbid)`. -/
def scanIds (mmu : MmuRuntime) : List Int :=
  (List.range (staticCastInt mmu.config.l1BlockCount).toNat).map Int.ofNat

/-- `ReclaimUnusedResidentBlocks`. -/
def reclaimUnusedResidentBlocks (mmu : MmuRuntime) : MmuRuntime :=
  (scanIds mmu).foldl reclaimBlock mmu

/-- The body of `PickEvictionCandidate`'s loop, on the pair of victim and oldest epoch. -/
def considerVictim (mmu : MmuRuntime) (protectedPbid : Int) (best : Int × Nat) (pbid : Int) :
    Int × Nat :=
  match mmu.blockDirectory.get pbid with
  | none => best
  | some blockMeta =>
    if blockMeta.allocated = false ∨ blockMeta.residentInL1 = false then best
    else if pbid = protectedPbid then best
    else if blockMeta.pinCount > 0 then best
    else if blockMeta.lastAccessEpoch < best.2 then (pbid, blockMeta.lastAccessEpoch)
    else best

/-- `std::numeric_limits<uint64_t>::max()`. -/
def maxEpoch : Nat := 2 ^ 64 - 1

/-- `PickEvictionCandidate`; `-1` when there is no victim. -/
def pickEvictionCandidate (mmu : MmuRuntime) (protectedPbid : Int) : Int :=
  ((scanIds mmu).foldl (considerVictim mmu protectedPbid) (-1, maxEpoch)).1

/-- `MoveBlockToL2`. -/
def moveBlockToL2 (mmu : MmuRuntime) (physicalBlockId : Int) : Except MmuError Unit × MmuRuntime :=
  if ¬mmu.l1Allocator.isValid physicalBlockId then (.error .invalidArgument, mmu)
  else
    match mmu.blockDirectory.get physicalBlockId with
    | none => (.error .invalidArgument, mmu)
    | some blockMeta =>
      if blockMeta.allocated = false then (.error .invalidArgument, mmu)
      else
        let finish (mmu : MmuRuntime) : MmuRuntime :=
          (releasePage mmu .l1 physicalBlockId).mutateMeta physicalBlockId fun m =>
            { m with tier := .l2 }
        if blockMeta.residentInL1 then
          match syncL1ToL2 mmu physicalBlockId with
          | (.error status, mmu) => (.error status, mmu)
          | (.ok _, mmu) =>
            let mmu := mmu.mutateMeta physicalBlockId fun m =>
              { m with residentInL1 := false, l1FrameId := kInvalidFrameId }
            (.ok (), finish (dropResident mmu))
        else (.ok (), finish mmu)

/-- The loop of `EnsureResidentInL1`; `none` when the budget of rounds runs out. -/
def evictionLoop (physicalBlockId : Int) : Nat → MmuRuntime → Option (Except MmuError Unit × MmuRuntime)
  | 0, _ => none
  | rounds + 1, mmu =>
    if mmu.residentCount < mmu.residentLimit then some (.ok (), mmu)
    else
      let victim := pickEvictionCandidate mmu physicalBlockId
      if victim < 0 then some (.error .outOfMemory, mmu)
      else
        match moveBlockToL2 mmu victim with
        | (.error status, mmu) => some (.error status, mmu)
        | (.ok _, mmu) => evictionLoop physicalBlockId rounds mmu

/-- Each round lowers `resident_count`, so this budget is never used up: `evictionLoop_total`. -/
def evictForRoom (mmu : MmuRuntime) (physicalBlockId : Int) : Except MmuError Unit × MmuRuntime :=
  (evictionLoop physicalBlockId (mmu.residentCount + 1) mmu).getD (.error .internal, mmu)

/-- The end of `EnsureResidentInL1`, once there is room. -/
def promoteToL1 (mmu : MmuRuntime) (physicalBlockId : Int) : Except MmuError Unit × MmuRuntime :=
  match syncL2ToL1 mmu physicalBlockId with
  | (.error status, mmu) => (.error status, mmu)
  | (.ok _, mmu) =>
    let mmu := mmu.mutateMeta physicalBlockId fun m =>
      { m with residentInL1 := true, l1FrameId := physicalBlockId, tier := .l1 }
    let mmu := { mmu with residentCount := mmu.residentCount + 1 }
    (.ok (), touchBlock mmu physicalBlockId)

/-- `EnsureResidentInL1`. -/
def ensureResidentInL1 (mmu : MmuRuntime) (physicalBlockId : Int) :
    Except MmuError Unit × MmuRuntime :=
  if ¬mmu.l1Allocator.isValid physicalBlockId then (.error .invalidArgument, mmu)
  else
    let mmu := reclaimUnusedResidentBlocks mmu
    match mmu.blockDirectory.get physicalBlockId with
    | none => (.error .invalidArgument, mmu)
    | some blockMeta =>
      if blockMeta.allocated = false then (.error .invalidArgument, mmu)
      else if blockMeta.residentInL1 then
        let mmu := touchBlock mmu physicalBlockId
        (.ok (), mmu.mutateMeta physicalBlockId fun m => { m with tier := .l1 })
      else
        match evictForRoom mmu physicalBlockId with
        | (.error status, mmu) => (.error status, mmu)
        | (.ok _, mmu) => promoteToL1 mmu physicalBlockId

/-- `RegisterFreshBlock`. -/
def registerFreshBlock (mmu : MmuRuntime) (physicalBlockId : Int) : MmuRuntime :=
  let mmu := mmu.setDirectory (mmu.blockDirectory.initializeFreshBlock physicalBlockId)
  let mmu := resetBlockData mmu physicalBlockId
  match mmu.blockDirectory.get physicalBlockId with
  | none => mmu
  | some blockMeta =>
    if mmu.residentCount < mmu.residentLimit then
      let mmu :=
        if blockMeta.residentInL1 = false then
          let mmu := mmu.mutateMeta physicalBlockId fun m =>
            { m with residentInL1 := true, l1FrameId := physicalBlockId }
          { mmu with residentCount := mmu.residentCount + 1 }
        else mmu
      touchBlock (mmu.mutateMeta physicalBlockId fun m => { m with tier := .l1 }) physicalBlockId
    else
      mmu.mutateMeta physicalBlockId fun m =>
        { m with
          residentInL1 := false
          l1FrameId := kInvalidFrameId
          lastAccessEpoch := 0
          tier := .l2 }

/-- The page `CloneBlockDataForCow` copies from. -/
def cowSource (mmu : MmuRuntime) (srcPhysicalBlock : Int) (srcTier : MmuTier) (srcMeta : BlockMeta) :
    Option (PoolId × PagePtr) :=
  let fromTier := if srcTier = .l1 ∧ srcMeta.residentInL1 then rawPage mmu .l1 srcPhysicalBlock else none
  (fromTier.or (rawPage mmu .l2 srcPhysicalBlock)).or (rawPage mmu .l1 srcPhysicalBlock)

/-- `CloneBlockDataForCow`. -/
def cloneBlockDataForCow (mmu : MmuRuntime) (srcPhysicalBlock : Int) (srcTier : MmuTier)
    (dstPhysicalBlock : Int) : Except MmuError Unit × MmuRuntime :=
  if ¬mmu.l1Allocator.isValid srcPhysicalBlock ∨ ¬mmu.l1Allocator.isValid dstPhysicalBlock then
    (.error .invalidArgument, mmu)
  else
    match mmu.blockDirectory.get srcPhysicalBlock, mmu.blockDirectory.get dstPhysicalBlock with
    | some srcMeta, some dstMeta =>
      let src := cowSource mmu srcPhysicalBlock srcTier srcMeta
      match acquirePage mmu .l2 dstPhysicalBlock with
      | (.error status, mmu) => (.error status, mmu)
      | (.ok dstL2, mmu) =>
        let mmu := copyOrZero mmu src .l2 dstL2
        let mmu := mmu.setDirectory (mmu.blockDirectory.setHasL2Backing dstPhysicalBlock true)
        let mmu := mmu.setDirectory (mmu.blockDirectory.setL2SlotId dstPhysicalBlock dstPhysicalBlock)
        if dstMeta.residentInL1 then
          match acquirePage mmu .l1 dstPhysicalBlock with
          | (.error status, mmu) => (.error status, mmu)
          | (.ok dstL1, mmu) => (.ok (), copyOrZero mmu (some (.l2, dstL2)) .l1 dstL1)
        else (.ok (), releasePage mmu .l1 dstPhysicalBlock)
    | _, _ => (.error .invalidArgument, mmu)

end DsfMmu
