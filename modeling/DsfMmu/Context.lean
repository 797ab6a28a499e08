import DsfMmu.BlockManager
import DsfMmu.BlockDirectory
import DsfMmu.PageTable

namespace DsfMmu

/-- `kUnallocatedBlock`. -/
def kUnallocatedBlock : Int := kInvalidBlockId

/-- `Context`; the block manager and the directory it shares are passed in. -/
structure Context where
  pageTable : PageTable
  blockSizeBytes : Nat
  deriving DecidableEq

namespace Context

/-- The loop of `AllocateBlocks` where the host grants every append (`Escaping.allocateLoop` has the refusals): when
the allocator runs dry the ids taken so far are released, the entries appended so far stay. -/
def allocateLoop : Nat → BlockManager → PageTable → List Int →
    Except MmuError (List Int) × BlockManager × PageTable
  | 0, bm, pt, allocated => (.ok allocated, bm, pt)
  | n + 1, bm, pt, allocated =>
    match bm.allocate with
    | none => (.error .outOfMemory, bm.releaseAll allocated, pt)
    | some (blockId, bm) => allocateLoop n bm (pt.append blockId) (allocated ++ [blockId])

def allocateBlocks (c : Context) (bm : BlockManager) (numBlocks : Int) :
    Except MmuError (List Int) × BlockManager × Context :=
  if numBlocks < 0 then (.error .invalidArgument, bm, c)
  else
    match allocateLoop numBlocks.toNat bm c.pageTable [] with
    | (result, bm, pt) => (result, bm, { c with pageTable := pt })

def releaseLogicalBlock (c : Context) (bm : BlockManager) (logicalBlock : Int) :
    Except MmuError Unit × BlockManager × Context :=
  match c.pageTable.get logicalBlock with
  | none => (.error .unallocated, bm, c)
  | some blockId =>
    if blockId = kUnallocatedBlock then (.error .unallocated, bm, c)
    else
      match bm.release blockId with
      | (false, bm) => (.error .internal, bm, c)
      | (true, bm) =>
        (.ok (), bm, { c with pageTable := c.pageTable.set logicalBlock kUnallocatedBlock })

def resolveRouting (c : Context) (d : BlockDirectory) (logicalBlock : Int) :
    Except MmuError PhysicalRoute :=
  match c.pageTable.get logicalBlock with
  | none => .error .unallocated
  | some blockId =>
    if blockId = kUnallocatedBlock then .error .unallocated
    else
      match d.get blockId with
      | none => .error .internal
      | some blockMeta =>
        if blockMeta.allocated = false then .error .internal
        else .ok ⟨blockMeta.tier, blockId, blockId.toNat * c.blockSizeBytes % 2 ^ 64⟩

def updateMapping (c : Context) (bm : BlockManager) (logicalBlock newBlockId : Int) :
    Except MmuError Unit × BlockManager × Context :=
  match c.pageTable.get logicalBlock with
  | none => (.error .unallocated, bm, c)
  | some current =>
    if ¬bm.isValid newBlockId then (.error .invalidArgument, bm, c)
    else if current = newBlockId then (.ok (), bm, c)
    else
      match bm.allocateSpecific newBlockId with
      | (false, bm) => (.error .outOfMemory, bm, c)
      | (true, bm) =>
        match (if current ≠ kUnallocatedBlock then bm.release current else (true, bm)) with
        | (false, bm) => (.error .internal, (bm.release newBlockId).2, c)
        | (true, bm) => (.ok (), bm, { c with pageTable := c.pageTable.set logicalBlock newBlockId })

def prepareBlockForWrite (c : Context) (bm : BlockManager) (logicalBlock : Int) :
    Except MmuError Int × BlockManager × Context :=
  match c.pageTable.get logicalBlock with
  | none => (.error .unallocated, bm, c)
  | some blockId =>
    if blockId = kUnallocatedBlock then (.error .unallocated, bm, c)
    else if bm.refCount blockId ≤ 0 then (.error .internal, bm, c)
    else if bm.refCount blockId = 1 then (.ok blockId, bm, c)
    else
      match bm.allocate with
      | none => (.error .outOfMemory, bm, c)
      | some (newBlockId, bm) =>
        match bm.release blockId with
        | (false, bm) => (.error .internal, (bm.release newBlockId).2, c)
        | (true, bm) =>
          (.ok newBlockId, bm, { c with pageTable := c.pageTable.set logicalBlock newBlockId })

/-- The loop of `Fork`. `grows i` says whether the child's vector finds room for its `i`-th
entry; where it does not, `push_back` throws after the block has been retained. -/
def forkLoop (grows : Nat → Bool) : List Int → BlockManager → PageTable →
    Bool × BlockManager × PageTable
  | [], bm, child => (true, bm, child)
  | blockId :: rest, bm, child =>
    let bm := if blockId ≠ kUnallocatedBlock then (bm.retain blockId).2 else bm
    if grows child.entries.length then forkLoop grows rest bm (child.append blockId)
    else (false, bm, child)

/-- The blocks `ReleaseAllBlocks` releases. -/
def namedBlocks (pt : PageTable) : List Int := pt.entries.filter (· ≠ kUnallocatedBlock)

def releaseAllBlocks (pt : PageTable) (bm : BlockManager) : BlockManager :=
  bm.releaseAll (namedBlocks pt)

/-- `Fork`; when an append throws, unwinding runs the destructor of the child built so far. -/
def fork (c : Context) (bm : BlockManager) (grows : Nat → Bool) : Option Context × BlockManager :=
  match forkLoop grows c.pageTable.entries bm .empty with
  | (true, bm, child) => (some ⟨child, c.blockSizeBytes⟩, bm)
  | (false, bm, child) => (none, releaseAllBlocks child bm)

def allocatedLogicalBlocks (c : Context) : Nat := (namedBlocks c.pageTable).length

end Context

end DsfMmu
