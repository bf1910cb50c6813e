import AiPipelines.KvCache.FreeQueue
import AiPipelines.PyStd.Dict

/-!
# The pool of KV-cache blocks

`BlockHashToBlockMap` and `BlockPool` of `block_pool.py`: the blocks with their
reference counts, the queue of the free ones, and the prefix cache, which finds
a full block by the hash of its tokens and all tokens before them.

A block is the reference to its object, and `objects` of the queue holds all
objects.  A key of the prefix cache packs a block hash with the id of a cache
group; here it is the pair.  `H` is the type of the hashes.
-/

namespace AiPipelines.KvCache

open PyStd

/-- `BlockHashWithGroupId`. -/
abbrev BlockHashWithGroupId (H : Type) := H × Nat

/-! ## `BlockHashToBlockMap` -/

/-- The value of a key: one block, or a dictionary from block ids to blocks. -/
inductive CachedBlocks where
  | one (block : Ref)
  | many (blocks : Dict Int Ref)
  deriving DecidableEq, Repr

/-- `BlockHashToBlockMap`. -/
abbrev BlockHashToBlockMap (K : Type) := Dict K CachedBlocks

namespace BlockHashToBlockMap

variable {K : Type} [DecidableEq K] (cache : BlockHashToBlockMap K)

/-- `get_one_block`. -/
def getOneBlock (key : K) : Option Ref :=
  match cache.get? key with
  | none => none
  | some (.one block) => some block
  | some (.many blocks) => (blocks.map Prod.snd).head?

/-- `insert`, with the ids that the blocks carry. -/
def insert (blockId : Ref → Int) (key : K) (block : Ref) : BlockHashToBlockMap K :=
  match cache.get? key with
  | none => cache.set key (.one block)
  | some (.one old) => cache.set key (.many (Dict.set [(blockId old, old)] (blockId block) block))
  | some (.many blocks) => cache.set key (.many (blocks.set (blockId block) block))

/-- `pop`: the block that was cached, and the cache afterwards. -/
def popBlock (blockId : Ref → Int) (key : K) (id : Int) : Option Ref × BlockHashToBlockMap K :=
  let rest := cache.pop key
  match cache.get? key with
  | none => (none, rest)
  | some (.one block) =>
    if blockId block = id then (some block, rest) else (none, rest.set key (.one block))
  | some (.many blocks) =>
    let left := blocks.pop id
    (blocks.get? id, if 0 < left.length then rest.set key (.many left) else rest)

end BlockHashToBlockMap

/-! ## `BlockPool` -/

variable {H : Type}

/-- `BlockPool`, without events and metrics. -/
structure BlockPool (H : Type) where
  numGpuBlocks : Nat
  enableCaching : Bool
  freeBlockQueue : FreeKVCacheBlockQueue (BlockHashWithGroupId H)
  cachedBlockHashToBlock : BlockHashToBlockMap (BlockHashWithGroupId H)
  nullBlock : Ref

namespace BlockPool

variable (p : BlockPool H)

/-- The object of a block. -/
def object (r : Ref) : KVCacheBlock (BlockHashWithGroupId H) := p.freeBlockQueue.objects r

/-- `self.blocks`. -/
def blocks : List Ref := (List.range p.numGpuBlocks).map Ref.block

/-- Change fields of a block. -/
def modify (r : Ref)
    (f : KVCacheBlock (BlockHashWithGroupId H) → KVCacheBlock (BlockHashWithGroupId H)) :
    BlockPool H :=
  { p with freeBlockQueue := p.freeBlockQueue.setObject r (f (p.object r)) }

/-- `block.ref_cnt += n`. -/
def addRef (r : Ref) (n : Int) : BlockPool H :=
  p.modify r fun block => { block with refCnt := block.refCnt + n }

/-- `block.reset_hash()`. -/
def resetHash (r : Ref) : BlockPool H := p.modify r fun block => { block with blockHash := none }

/-- `block.block_hash = key`. -/
def setHash (r : Ref) (key : BlockHashWithGroupId H) : Except PyError (BlockPool H) :=
  if (p.object r).blockHash = none then
    .ok (p.modify r fun block => { block with blockHash := some key })
  else .error .assertionError

/-- The objects of a new pool. -/
def newObjects (r : Ref) : KVCacheBlock (BlockHashWithGroupId H) :=
  match r with
  | .block i => { blockId := i }
  | _ => { blockId := -1 }

/-- `BlockPool(num_gpu_blocks, enable_caching, ...)`. -/
def init (numGpuBlocks : Nat) (enableCaching : Bool) : Except PyError (BlockPool H) :=
  if 0 < numGpuBlocks then do
    let queue := FreeKVCacheBlockQueue.init newObjects ((List.range numGpuBlocks).map Ref.block)
    let (nullBlock, queue) ← queue.popleft
    let p : BlockPool H := ⟨numGpuBlocks, enableCaching, queue, [], nullBlock⟩
    return p.modify nullBlock fun block => { block with isNull := true }
  else .error .assertionError

/-- `get_num_free_blocks`. -/
def getNumFreeBlocks : Int := p.freeBlockQueue.numFreeBlocks

variable [DecidableEq H]

/-- `get_cached_block`. -/
def getCachedBlock (blockHash : H) : List Nat → Option (List Ref)
  | [] => some []
  | groupId :: groupIds =>
    match p.cachedBlockHashToBlock.getOneBlock (blockHash, groupId) with
    | none => none
    | some block => (getCachedBlock blockHash groupIds).map (block :: ·)

/-- The loop of `cache_full_blocks`, for blocks with their hashes. -/
def cacheLoop (groupId : Nat) : BlockPool H → List (Ref × H) → Except PyError (BlockPool H)
  | p, [] => .ok p
  | p, (block, blockHash) :: rest =>
    if (p.object block).isNull then cacheLoop groupId p rest
    else if (p.object block).blockHash = none then do
      let key := (blockHash, groupId)
      let p ← p.setHash block key
      cacheLoop groupId { p with
        cachedBlockHashToBlock :=
          p.cachedBlockHashToBlock.insert (fun r => (p.object r).blockId) key block } rest
    else .error .assertionError

/-- `cache_full_blocks`, where the block size is that of the hashes. -/
def cacheFullBlocks (blockHashes : List H) (blocks : List Ref) (numCachedBlocks numFullBlocks : Nat)
    (groupId : Nat) : Except PyError (BlockPool H) :=
  if numFullBlocks ≤ numCachedBlocks then .ok p
  else
    let newFullBlocks := (blocks.take numFullBlocks).drop numCachedBlocks
    if numFullBlocks ≤ blockHashes.length then
      cacheLoop groupId p (newFullBlocks.zip (blockHashes.drop numCachedBlocks))
    else .error .assertionError

/-- `_maybe_evict_cached_block`. -/
def maybeEvictCachedBlock (block : Ref) : Bool × BlockPool H :=
  match (p.object block).blockHash with
  | none => (false, p)
  | some key =>
    match p.cachedBlockHashToBlock.popBlock (fun r => (p.object r).blockId) key
        (p.object block).blockId with
    | (none, cache) => (false, { p with cachedBlockHashToBlock := cache })
    | (some _, cache) => (true, { p with cachedBlockHashToBlock := cache }.resetHash block)

/-- The loop of `get_new_blocks`. -/
def allocLoop : BlockPool H → List Ref → Except PyError (BlockPool H)
  | p, [] => .ok p
  | p, block :: rest =>
    let p := if p.enableCaching then (p.maybeEvictCachedBlock block).2 else p
    if (p.object block).refCnt = 0 then allocLoop (p.addRef block 1) rest
    else .error .assertionError

/-- `get_new_blocks`. -/
def getNewBlocks (numBlocks : Nat) : Except PyError (List Ref × BlockPool H) :=
  if p.getNumFreeBlocks < numBlocks then .error .valueError
  else do
    let (ret, queue) ← p.freeBlockQueue.popleftN numBlocks
    let p ← allocLoop { p with freeBlockQueue := queue } ret
    return (ret, p)

/-- `touch`. -/
def touch : BlockPool H → List Ref → Except PyError (BlockPool H)
  | p, [] => .ok p
  | p, block :: rest =>
    if (p.object block).refCnt = 0 ∧ ¬ (p.object block).isNull then do
      let queue ← p.freeBlockQueue.remove block
      touch ({ p with freeBlockQueue := queue }.addRef block 1) rest
    else touch (p.addRef block 1) rest

/-- The first loop of `free_blocks`. -/
def releaseAll (p : BlockPool H) (blocks : List Ref) : BlockPool H :=
  blocks.foldl (fun p block => p.addRef block (-1)) p

/-- `free_blocks`. -/
def freeBlocks (orderedBlocks : List Ref) : Except PyError (BlockPool H) := do
  let p := p.releaseAll orderedBlocks
  let queue ← p.freeBlockQueue.appendN (orderedBlocks.filter fun block =>
    decide ((p.object block).refCnt = 0) && !(p.object block).isNull)
  return { p with freeBlockQueue := queue }

/-- `evict_blocks`, which meets the ids of the set in the given order. -/
def evictBlocks : BlockPool H → List Nat → Except PyError (BlockPool H)
  | p, [] => .ok p
  | p, blockId :: blockIds =>
    if blockId < p.numGpuBlocks then evictBlocks (p.maybeEvictCachedBlock (.block blockId)).2
      blockIds
    else .error .assertionError

/-- `reset_prefix_cache`. -/
def resetPrefixCache : Bool × BlockPool H :=
  if (p.numGpuBlocks : Int) - p.getNumFreeBlocks ≠ 1 then (false, p)
  else
    let p := { p with cachedBlockHashToBlock := [] }
    (true, p.blocks.foldl (fun p block => p.resetHash block) p)

end BlockPool

end AiPipelines.KvCache
