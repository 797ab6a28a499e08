import DsfMmu.Calls
import DsfMmu.Throwing

namespace DsfMmu

namespace Escaping

open Throwing

/-- The requests for memory that the API makes outside any `try`: the three of `mmu_allocate_blocks`, and
`free_blocks.push_back` in `ReleasePage`, by the function that calls it. -/
inductive BadAlloc
  | reserve
  | append
  | insert
  | resetBlockData
  | moveBlockToL2
  | cloneBlockDataForCow
  deriving DecidableEq

/-- Whether `free_blocks` of a pool has room for the page of a block. -/
abbrev Room := PoolId → Int → Bool

/-- What the host grants during one call: `allocated.reserve`, the `i`-th `page_table_.append`,
`out_new_block_ids->insert`, and room in the free lists while the call works on its `i`-th item. No item asks for
the page of a block twice. -/
structure Grants where
  reserve : Bool
  append : Nat → Bool
  insert : Bool
  push : Nat → Room

/-- `ReleasePage`; the push comes first. -/
def releasePage (room : Room) (site : BadAlloc) (mmu : MmuRuntime) (id : PoolId) (physicalBlockId : Int) :
    Throwing BadAlloc MmuRuntime Unit :=
  if (mmu.pool id).ownerPages.InRange physicalBlockId ∧ (mmu.pool id).ownerPages.entry physicalBlockId ≠ none ∧
      room id physicalBlockId = false then (.error site, mmu)
  else (.ok (), DsfMmu.releasePage mmu id physicalBlockId)

/-- `ResetBlockData`. -/
def resetBlockData (room : Room) (mmu : MmuRuntime) (physicalBlockId : Int) : Throwing BadAlloc MmuRuntime Unit :=
  andThen (releasePage room .resetBlockData mmu .l1 physicalBlockId) fun _ mmu =>
    andThen (releasePage room .resetBlockData mmu .l2 physicalBlockId) fun _ mmu =>
      (.ok (), mmu.mutateMeta physicalBlockId fun m =>
        { m with
          residentInL1 := false
          dirty := false
          pinCount := 0
          lastAccessEpoch := 0
          l1FrameId := kInvalidFrameId
          l2SlotId := kInvalidSlotId
          hasL2Backing := false })

/-- What the source does to a block without references. -/
def forgetBlock (room : Room) (mmu : MmuRuntime) (physicalBlockId : Int) : Throwing BadAlloc MmuRuntime Unit :=
  let mmu :=
    match mmu.blockDirectory.get physicalBlockId with
    | none => mmu
    | some blockMeta => if blockMeta.residentInL1 then dropResident mmu else mmu
  andThen (resetBlockData room mmu physicalBlockId) fun _ mmu =>
    (.ok (), mmu.setDirectory (mmu.blockDirectory.reset physicalBlockId))

/-- The body of `ReclaimUnusedResidentBlocks`'s loop. -/
def reclaimBlock (room : Room) (mmu : MmuRuntime) (pbid : Int) : Throwing BadAlloc MmuRuntime Unit :=
  if mmu.l1Allocator.refCount pbid = 0 then forgetBlock room mmu pbid else (.ok (), mmu)

/-- `ReclaimUnusedResidentBlocks`. -/
def reclaimUnusedResidentBlocks (room : Room) (mmu : MmuRuntime) : Throwing BadAlloc MmuRuntime Unit :=
  forEach (reclaimBlock room) (scanIds mmu) mmu

/-- `MoveBlockToL2`. -/
def moveBlockToL2 (room : Room) (mmu : MmuRuntime) (physicalBlockId : Int) :
    Throwing BadAlloc MmuRuntime (Except MmuError Unit) :=
  if ¬mmu.l1Allocator.isValid physicalBlockId then (.ok (.error .invalidArgument), mmu)
  else
    match mmu.blockDirectory.get physicalBlockId with
    | none => (.ok (.error .invalidArgument), mmu)
    | some blockMeta =>
      if blockMeta.allocated = false then (.ok (.error .invalidArgument), mmu)
      else
        let finish (mmu : MmuRuntime) : Throwing BadAlloc MmuRuntime (Except MmuError Unit) :=
          andThen (releasePage room .moveBlockToL2 mmu .l1 physicalBlockId) fun _ mmu =>
            (.ok (.ok ()), mmu.mutateMeta physicalBlockId fun m => { m with tier := .l2 })
        if blockMeta.residentInL1 then
          match syncL1ToL2 mmu physicalBlockId with
          | (.error status, mmu) => (.ok (.error status), mmu)
          | (.ok _, mmu) =>
            let mmu := mmu.mutateMeta physicalBlockId fun m =>
              { m with residentInL1 := false, l1FrameId := kInvalidFrameId }
            finish (dropResident mmu)
        else finish mmu

/-- The loop of `EnsureResidentInL1`; `none` when the budget of rounds runs out. -/
def evictionLoop (room : Room) (physicalBlockId : Int) :
    Nat → MmuRuntime → Option (Throwing BadAlloc MmuRuntime (Except MmuError Unit))
  | 0, _ => none
  | rounds + 1, mmu =>
    if mmu.residentCount < mmu.residentLimit then some (.ok (.ok ()), mmu)
    else
      let victim := pickEvictionCandidate mmu physicalBlockId
      if victim < 0 then some (.ok (.error .outOfMemory), mmu)
      else
        match moveBlockToL2 room mmu victim with
        | (.error site, mmu) => some (.error site, mmu)
        | (.ok (.error status), mmu) => some (.ok (.error status), mmu)
        | (.ok (.ok _), mmu) => evictionLoop room physicalBlockId rounds mmu

/-- Each round lowers `resident_count`, so this budget is never used up: `eviction_terminates`. -/
def evictForRoom (room : Room) (mmu : MmuRuntime) (physicalBlockId : Int) :
    Throwing BadAlloc MmuRuntime (Except MmuError Unit) :=
  (evictionLoop room physicalBlockId (mmu.residentCount + 1) mmu).getD (.ok (.error .internal), mmu)

/-- `EnsureResidentInL1`. -/
def ensureResidentInL1 (room : Room) (mmu : MmuRuntime) (physicalBlockId : Int) :
    Throwing BadAlloc MmuRuntime (Except MmuError Unit) :=
  if ¬mmu.l1Allocator.isValid physicalBlockId then (.ok (.error .invalidArgument), mmu)
  else
    andThen (reclaimUnusedResidentBlocks room mmu) fun _ mmu =>
      match mmu.blockDirectory.get physicalBlockId with
      | none => (.ok (.error .invalidArgument), mmu)
      | some blockMeta =>
        if blockMeta.allocated = false then (.ok (.error .invalidArgument), mmu)
        else if blockMeta.residentInL1 then
          let mmu := touchBlock mmu physicalBlockId
          (.ok (.ok ()), mmu.mutateMeta physicalBlockId fun m => { m with tier := .l1 })
        else
          andThen (evictForRoom room mmu physicalBlockId) fun evicted mmu =>
            match evicted with
            | .error status => (.ok (.error status), mmu)
            | .ok _ =>
              match promoteToL1 mmu physicalBlockId with
              | (promoted, mmu) => (.ok promoted, mmu)

/-- `RegisterFreshBlock`. -/
def registerFreshBlock (room : Room) (mmu : MmuRuntime) (physicalBlockId : Int) : Throwing BadAlloc MmuRuntime Unit :=
  let mmu := mmu.setDirectory (mmu.blockDirectory.initializeFreshBlock physicalBlockId)
  andThen (resetBlockData room mmu physicalBlockId) fun _ mmu =>
    match mmu.blockDirectory.get physicalBlockId with
    | none => (.ok (), mmu)
    | some blockMeta =>
      if mmu.residentCount < mmu.residentLimit then
        let mmu :=
          if blockMeta.residentInL1 = false then
            let mmu := mmu.mutateMeta physicalBlockId fun m =>
              { m with residentInL1 := true, l1FrameId := physicalBlockId }
            { mmu with residentCount := mmu.residentCount + 1 }
          else mmu
        (.ok (), touchBlock (mmu.mutateMeta physicalBlockId fun m => { m with tier := .l1 }) physicalBlockId)
      else
        (.ok (), mmu.mutateMeta physicalBlockId fun m =>
          { m with
            residentInL1 := false
            l1FrameId := kInvalidFrameId
            lastAccessEpoch := 0
            tier := .l2 })

/-- `CloneBlockDataForCow`. -/
def cloneBlockDataForCow (room : Room) (mmu : MmuRuntime) (srcPhysicalBlock : Int) (srcTier : MmuTier)
    (dstPhysicalBlock : Int) : Throwing BadAlloc MmuRuntime (Except MmuError Unit) :=
  if ¬mmu.l1Allocator.isValid srcPhysicalBlock ∨ ¬mmu.l1Allocator.isValid dstPhysicalBlock then
    (.ok (.error .invalidArgument), mmu)
  else
    match mmu.blockDirectory.get srcPhysicalBlock, mmu.blockDirectory.get dstPhysicalBlock with
    | some srcMeta, some dstMeta =>
      let src := cowSource mmu srcPhysicalBlock srcTier srcMeta
      match acquirePage mmu .l2 dstPhysicalBlock with
      | (.error status, mmu) => (.ok (.error status), mmu)
      | (.ok dstL2, mmu) =>
        let mmu := copyOrZero mmu src .l2 dstL2
        let mmu := mmu.setDirectory (mmu.blockDirectory.setHasL2Backing dstPhysicalBlock true)
        let mmu := mmu.setDirectory (mmu.blockDirectory.setL2SlotId dstPhysicalBlock dstPhysicalBlock)
        if dstMeta.residentInL1 then
          match acquirePage mmu .l1 dstPhysicalBlock with
          | (.error status, mmu) => (.ok (.error status), mmu)
          | (.ok dstL1, mmu) => (.ok (.ok ()), copyOrZero mmu (some (.l2, dstL2)) .l1 dstL1)
        else
          andThen (releasePage room .cloneBlockDataForCow mmu .l1 dstPhysicalBlock) fun _ mmu => (.ok (.ok ()), mmu)
    | _, _ => (.ok (.error .invalidArgument), mmu)

/-- The loop of `AllocateBlocks`. A refused append leaves the block just taken with its reference, and the blocks
before it with references and entries. -/
def allocateLoop (append : Nat → Bool) : Nat → BlockManager → PageTable → List Int →
    Throwing BadAlloc (BlockManager × PageTable) (Except MmuError (List Int))
  | 0, bm, pt, allocated => (.ok (.ok allocated), bm, pt)
  | n + 1, bm, pt, allocated =>
    match bm.allocate with
    | none => (.ok (.error .outOfMemory), bm.releaseAll allocated, pt)
    | some (blockId, bm) =>
      if append allocated.length then allocateLoop append n bm (pt.append blockId) (allocated ++ [blockId])
      else (.error .append, bm, pt)

/-- `AllocateBlocks`. Nothing is asked of the host for no blocks. -/
def allocateBlocks (g : Grants) (c : Context) (bm : BlockManager) (numBlocks : Int) :
    Throwing BadAlloc (BlockManager × Context) (Except MmuError (List Int)) :=
  if numBlocks < 0 then (.ok (.error .invalidArgument), bm, c)
  else if 0 < numBlocks ∧ g.reserve = false then (.error .reserve, bm, c)
  else
    match allocateLoop g.append numBlocks.toNat bm c.pageTable [] with
    | (.error site, bm, pt) => (.error site, bm, { c with pageTable := pt })
    | (.ok (.error status), bm, pt) => (.ok (.error status), bm, { c with pageTable := pt })
    | (.ok (.ok allocated), bm, pt) =>
      if allocated ≠ [] ∧ g.insert = false then (.error .insert, bm, { c with pageTable := pt })
      else (.ok (.ok allocated), bm, { c with pageTable := pt })

/-- `mmu_destroy_context`. -/
def mmuDestroyContext (g : Grants) (mmu : MmuRuntime) (ctx : CtxHandle) : Throwing BadAlloc MmuRuntime Unit :=
  match findContext mmu ctx with
  | none => (.ok (), mmu)
  | some context =>
    let mmu := { mmu with
      l1Allocator := Context.releaseAllBlocks context.pageTable mmu.l1Allocator
      contexts := mmu.contexts.erase ctx }
    reclaimUnusedResidentBlocks (g.push 0) mmu

/-- `mmu_allocate_blocks`. -/
def mmuAllocateBlocks (g : Grants) (mmu : MmuRuntime) (ctx : CtxHandle) (numBlocks : UInt32) :
    Throwing BadAlloc MmuRuntime (Except MmuError Unit) :=
  match findContext mmu ctx with
  | none => (.ok (.error .badHandle), mmu)
  | some context =>
    match u32ToInt numBlocks with
    | none => (.ok (.error .invalidArgument), mmu)
    | some count =>
      andThen (reclaimUnusedResidentBlocks (g.push 0) mmu) fun _ mmu =>
        match allocateBlocks g context mmu.l1Allocator count with
        | (.error site, bm, context) => (.error site, mmu.setContext bm ctx context)
        | (.ok (.error status), bm, context) => (.ok (.error status), mmu.setContext bm ctx context)
        | (.ok (.ok newBlocks), bm, context) =>
          andThen (forEach (registerFreshBlock (g.push 0)) newBlocks (mmu.setContext bm ctx context)) fun _ mmu =>
            (.ok (.ok ()), mmu)

/-- `mmu_release_logical_block`. -/
def mmuReleaseLogicalBlock (g : Grants) (mmu : MmuRuntime) (ctx : CtxHandle) (logicalBlock : UInt32) :
    Throwing BadAlloc MmuRuntime (Except MmuError Unit) :=
  match findContext mmu ctx with
  | none => (.ok (.error .badHandle), mmu)
  | some context =>
    match u32ToInt logicalBlock with
    | none => (.ok (.error .invalidArgument), mmu)
    | some lvid =>
      match context.resolveRouting mmu.blockDirectory lvid with
      | .error status => (.ok (.error status), mmu)
      | .ok route =>
        match context.releaseLogicalBlock mmu.l1Allocator lvid with
        | (.error status, bm, context) => (.ok (.error status), mmu.setContext bm ctx context)
        | (.ok _, bm, context) =>
          andThen (reclaimBlock (g.push 0) (mmu.setContext bm ctx context) route.physicalBlockId) fun _ mmu =>
            (.ok (.ok ()), mmu)

/-- `mmu_prepare_block_for_write`. -/
def mmuPrepareBlockForWrite (room : Room) (mmu : MmuRuntime) (ctx : CtxHandle) (logicalBlock : UInt32) :
    Throwing BadAlloc MmuRuntime (Except MmuError Int) :=
  match findContext mmu ctx with
  | none => (.ok (.error .badHandle), mmu)
  | some context =>
    match u32ToInt logicalBlock with
    | none => (.ok (.error .invalidArgument), mmu)
    | some lvid =>
      match context.resolveRouting mmu.blockDirectory lvid with
      | .error status => (.ok (.error status), mmu)
      | .ok before =>
        match context.prepareBlockForWrite mmu.l1Allocator lvid with
        | (.error status, bm, context) => (.ok (.error status), mmu.setContext bm ctx context)
        | (.ok pbid, bm, context) =>
          let mmu := mmu.setContext bm ctx context
          if pbid ≠ before.physicalBlockId then
            let mmu := mmu.setDirectory (mmu.blockDirectory.initializeFreshBlock pbid)
            let mmu := mmu.setDirectory (mmu.blockDirectory.setTier pbid .l2)
            andThen (cloneBlockDataForCow room mmu before.physicalBlockId before.tier pbid) fun cloned mmu =>
              match cloned with
              | .error status => (.ok (.error status), mmu)
              | .ok _ => (.ok (.ok pbid), mmu)
          else (.ok (.ok pbid), mmu)

/-- The part of `mmu_map_logical_block` after the write preparation. -/
def mapResolved (room : Room) (mmu : MmuRuntime) (context : Context) (lvid : Int) (logicalBlock mapFlags : UInt32) :
    Throwing BadAlloc MmuRuntime (Except MmuError MappedBlock) :=
  match context.resolveRouting mmu.blockDirectory lvid with
  | .error status => (.ok (.error status), mmu)
  | .ok route =>
    let pbid := route.physicalBlockId
    andThen (ensureResidentInL1 room mmu pbid) fun resident mmu =>
      match resident with
      | .error status => (.ok (.error status), mmu)
      | .ok _ =>
        match acquirePage mmu .l1 pbid with
        | (.error status, mmu) => (.ok (.error status), mmu)
        | (.ok l1Page, mmu) =>
          match mmu.blockDirectory.incrementPinCount pbid with
          | (false, _) => (.ok (.error .internal), mmu)
          | (true, d) =>
            (.ok (.ok ⟨l1Page, mmu.config.blockSizeBytes, pbid, logicalBlock, mapFlags⟩),
              touchBlock (mmu.setDirectory d) pbid)

/-- `mmu_map_logical_block`. -/
def mmuMapLogicalBlock (room : Room) (mmu : MmuRuntime) (ctx : CtxHandle) (logicalBlock mapFlags : UInt32) :
    Throwing BadAlloc MmuRuntime (Except MmuError MappedBlock) :=
  if validateMapFlags mapFlags = false then (.ok (.error .invalidArgument), mmu)
  else
    match findContext mmu ctx with
    | none => (.ok (.error .badHandle), mmu)
    | some context =>
      match u32ToInt logicalBlock with
      | none => (.ok (.error .invalidArgument), mmu)
      | some lvid =>
        if hasWrite mapFlags then
          andThen (mmuPrepareBlockForWrite room mmu ctx logicalBlock) fun prepared mmu =>
            match prepared with
            | .error status => (.ok (.error status), mmu)
            | .ok _ =>
              match findContext mmu ctx with
              | none => (.ok (.error .badHandle), mmu)
              | some context => mapResolved room mmu context lvid logicalBlock mapFlags
        else mapResolved room mmu context lvid logicalBlock mapFlags

/-- The loop of `mmu_map_logical_blocks` from item `i` on: a `bad_alloc` skips the rollback. -/
def mapBlocksLoop (g : Grants) (ctx : CtxHandle) (mapFlags : UInt32) : Nat → List UInt32 → List MappedBlock →
    MmuRuntime → Throwing BadAlloc MmuRuntime (Except MmuError (List MappedBlock))
  | _, [], done, mmu => (.ok (.ok done), mmu)
  | i, logicalBlock :: rest, done, mmu =>
    andThen (mmuMapLogicalBlock (g.push i) mmu ctx logicalBlock mapFlags) fun result mmu =>
      match result with
      | .error status => (.ok (.error status), unmapAll ctx done mmu)
      | .ok mapped => mapBlocksLoop g ctx mapFlags (i + 1) rest (done ++ [mapped]) mmu

/-- `mmu_map_logical_blocks`. -/
def mmuMapLogicalBlocks (g : Grants) (mmu : MmuRuntime) (ctx : CtxHandle) (logicalBlocks : List UInt32)
    (mapFlags : UInt32) : Throwing BadAlloc MmuRuntime (Except MmuError (List MappedBlock)) :=
  mapBlocksLoop g ctx mapFlags 0 logicalBlocks [] mmu

/-- The calls of `DsfMmu.perform`; those that ask for memory inside a `try` only, or not at all, return. -/
def perform (g : Grants) (mmu : MmuRuntime) : Call → Throwing BadAlloc MmuRuntime Reply
  | .destroyContext ctx => andThen (mmuDestroyContext g mmu ctx) fun _ mmu => (.ok .done, mmu)
  | .allocateBlocks ctx n => andThen (mmuAllocateBlocks g mmu ctx n) fun r mmu => (.ok (.status r), mmu)
  | .releaseLogicalBlock ctx lb => andThen (mmuReleaseLogicalBlock g mmu ctx lb) fun r mmu => (.ok (.status r), mmu)
  | .prepareBlockForWrite ctx lb =>
    andThen (mmuPrepareBlockForWrite (g.push 0) mmu ctx lb) fun r mmu => (.ok (.block r), mmu)
  | .mapLogicalBlock ctx lb flags =>
    andThen (mmuMapLogicalBlock (g.push 0) mmu ctx lb flags) fun r mmu => (.ok (.mapped r), mmu)
  | .mapLogicalBlocks ctx lbs flags =>
    andThen (mmuMapLogicalBlocks g mmu ctx lbs flags) fun r mmu => (.ok (.mappedAll r), mmu)
  | call => (.ok (DsfMmu.perform mmu call).1, (DsfMmu.perform mmu call).2)

/-- A step is a call together with what the host grants it; a thrown `bad_alloc` is its outcome, and the calls
after it find the state as it was left. -/
def machine : Machine MmuRuntime (Call × Grants) (Except BadAlloc Reply) :=
  ⟨fun mmu step => Permitted mmu step.1, fun mmu step => perform step.2 mmu step.1⟩

/-- The host refuses what the call asks for at `site`, and the `bad_alloc` leaves the call. -/
def Refused (site : BadAlloc) (mmu : MmuRuntime) (step : Call × Grants) : Prop :=
  (perform step.2 mmu step.1).1 = .error site

instance (site : BadAlloc) (mmu : MmuRuntime) (step : Call × Grants) : Decidable (Refused site mmu step) := by
  unfold Refused
  infer_instance

instance (mmu : MmuRuntime) (step : Call × Grants) : Decidable (machine.enabled mmu step) :=
  inferInstanceAs (Decidable (Permitted mmu step.1))

/-- A condition on the steps of a run. -/
abbrev StepCondition := MmuRuntime → Call × Grants → Except BadAlloc Reply → Prop

/-- States reached from a fresh instance by steps that meet `C`, whether they return or throw. -/
def ReachableBy (C : StepCondition) (mmu : MmuRuntime) : Prop :=
  ∃ start, Initial start ∧ machine.Reach C start mmu

/-- A host that grants everything. -/
def allGranted : Grants := ⟨true, fun _ => true, true, fun _ _ _ => true⟩

end Escaping

end DsfMmu
