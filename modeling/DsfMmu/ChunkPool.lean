import DsfMmu.Types

namespace DsfMmu

/-- `ChunkPool`. Of a chunk the number of its blocks is kept; `bytes` is what the slots hold,
slots of chunks not yet allocated included, since fresh memory is not cleared. -/
structure ChunkPool where
  chunks : List Nat
  freeBlocks : List PagePtr
  ownerPages : IntTable (Option PagePtr)
  committedPages : Nat
  bytes : PagePtr → Bytes

namespace ChunkPool

def new (blockCount : Nat) (stale : PagePtr → Bytes) : ChunkPool :=
  ⟨[], [], ⟨blockCount, fun _ => none⟩, 0, stale⟩

/-- `RawPage`. -/
def rawPage (pool : ChunkPool) (physicalBlockId : Int) : Option PagePtr :=
  pool.ownerPages.entry physicalBlockId

/-- A new chunk of `blocks` blocks, of which the first `pushed` reach the free list. -/
def addChunk (pool : ChunkPool) (blocks pushed : Nat) : ChunkPool :=
  { pool with
    chunks := pool.chunks ++ [blocks]
    freeBlocks := pool.freeBlocks ++ (List.range pushed).map (PagePtr.mk pool.chunks.length) }

/-- The end of `AcquirePage`: the back of the free list becomes the block's page, cleared. -/
def takeFree (pool : ChunkPool) (physicalBlockId : Int) (slot : PagePtr) (zero : Bytes) : ChunkPool :=
  { pool with
    freeBlocks := pool.freeBlocks.dropLast
    ownerPages := pool.ownerPages.set physicalBlockId (some slot)
    committedPages := pool.committedPages + 1
    bytes := Function.update pool.bytes slot zero }

/-- `ReleasePage` where `free_blocks` has room for the page; `Escaping.releasePage` has the refusal. -/
def releasePage (pool : ChunkPool) (physicalBlockId : Int) : ChunkPool :=
  if ¬pool.ownerPages.InRange physicalBlockId then pool
  else
    match pool.ownerPages.entry physicalBlockId with
    | none => pool
    | some slot =>
      { pool with
        freeBlocks := pool.freeBlocks ++ [slot]
        ownerPages := pool.ownerPages.set physicalBlockId none
        committedPages :=
          if pool.committedPages > 0 then pool.committedPages - 1 else pool.committedPages }

/-- A whole-page store. -/
def write (pool : ChunkPool) (slot : PagePtr) (page : Bytes) : ChunkPool :=
  { pool with bytes := Function.update pool.bytes slot page }

end ChunkPool

end DsfMmu
