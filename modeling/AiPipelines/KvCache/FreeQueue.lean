import AiPipelines.Links
import AiPipelines.PyStd.Raise

/-!
# The queue of free KV-cache blocks

`KVCacheBlock` and `FreeKVCacheBlockQueue` of `kv_cache_utils.py`: the free
blocks of the KV cache as a doubly linked list between a fake head and a fake
tail, threaded through the blocks themselves.

The blocks are objects that the queue changes in place, so a block is a
reference here, and the queue holds what every reference stands for.  The
abstract layer is the list of the free blocks in their order, with the
operations of a queue on it (`Deque.exec`).  `Represents` connects the two, one
lemma for each method, and `queue_refines` is the connection over whole runs.
-/

namespace AiPipelines.KvCache

/-- A `KVCacheBlock` object: a block of the pool, or an end of the free list. -/
inductive Ref where
  | fakeFreeListHead
  | fakeFreeListTail
  | block (i : Nat)
  deriving DecidableEq, Repr

/-- What the code raises. -/
inductive PyError where
  | assertionError
  | valueError
  | runtimeError
  | keyError
  deriving DecidableEq, Repr

variable {K : Type}

/-- `KVCacheBlock`.  `K` is the type of the keys of the prefix cache. -/
structure KVCacheBlock (K : Type) where
  blockId : Int
  refCnt : Int := 0
  blockHash : Option K := none
  prevFreeBlock : Option Ref := none
  nextFreeBlock : Option Ref := none
  isNull : Bool := false
  deriving DecidableEq, Repr

/-- `FreeKVCacheBlockQueue`, together with the objects it links. -/
structure FreeKVCacheBlockQueue (K : Type) where
  objects : Ref → KVCacheBlock K
  numFreeBlocks : Int

namespace FreeKVCacheBlockQueue

variable (q : FreeKVCacheBlockQueue K)

/-- `r.next_free_block = x`. -/
def setNext (r : Ref) (x : Option Ref) : FreeKVCacheBlockQueue K :=
  { q with objects := Function.update q.objects r { q.objects r with nextFreeBlock := x } }

/-- `r.prev_free_block = x`. -/
def setPrev (r : Ref) (x : Option Ref) : FreeKVCacheBlockQueue K :=
  { q with objects := Function.update q.objects r { q.objects r with prevFreeBlock := x } }

/-- `r = block`, for a new object. -/
def setObject (r : Ref) (block : KVCacheBlock K) : FreeKVCacheBlockQueue K :=
  { q with objects := Function.update q.objects r block }

/-- `self.num_free_blocks += n`. -/
def addFree (n : Int) : FreeKVCacheBlockQueue K :=
  { q with numFreeBlocks := q.numFreeBlocks + n }

/-! ## The methods -/

/-- Block `i` of the list that the queue is made from. -/
def nth (blocks : List Ref) (i : Nat) : Ref := blocks.getD i .fakeFreeListHead

/-- The loop of `__init__` that links consecutive blocks. -/
def linkBlock (blocks : List Ref) (q : FreeKVCacheBlockQueue K) (i : Nat) :
    FreeKVCacheBlockQueue K :=
  let q := if 0 < i then q.setPrev (nth blocks i) (some (nth blocks (i - 1))) else q
  if i + 1 < blocks.length then q.setNext (nth blocks i) (some (nth blocks (i + 1))) else q

/-- `FreeKVCacheBlockQueue(blocks)`. -/
def init (objects : Ref → KVCacheBlock K) (blocks : List Ref) : FreeKVCacheBlockQueue K :=
  let q : FreeKVCacheBlockQueue K := ⟨objects, blocks.length⟩
  let q := (List.range blocks.length).foldl (linkBlock blocks) q
  let fake : KVCacheBlock K := { blockId := -1 }
  let q := (q.setObject .fakeFreeListHead fake).setObject .fakeFreeListTail fake
  if 0 < blocks.length then
    let first := nth blocks 0
    let last := nth blocks (blocks.length - 1)
    let q := (q.setNext .fakeFreeListHead (some first)).setPrev first (some .fakeFreeListHead)
    (q.setPrev .fakeFreeListTail (some last)).setNext last (some .fakeFreeListTail)
  else
    (q.setNext .fakeFreeListHead (some .fakeFreeListTail)).setPrev .fakeFreeListTail
      (some .fakeFreeListHead)

/-- `popleft`. -/
def popleft : Except PyError (Ref × FreeKVCacheBlockQueue K) :=
  let empty : Except PyError (Ref × FreeKVCacheBlockQueue K) :=
    if q.numFreeBlocks = 0 then .error .valueError else .error .assertionError
  match (q.objects .fakeFreeListHead).nextFreeBlock with
  | none => empty
  | some first =>
    if first = .fakeFreeListTail then empty
    else
      match (q.objects first).nextFreeBlock with
      | none => .error .runtimeError
      | some second =>
        let q := (q.setNext .fakeFreeListHead (some second)).setPrev second (some .fakeFreeListHead)
        let q := (q.setPrev first none).setNext first none
        .ok (first, q.addFree (-1))

/-- The loop of `popleft_n`: the popped blocks and the block behind them. -/
def popLoop : Nat → FreeKVCacheBlockQueue K → Option Ref →
    Except PyError (List Ref × Option Ref × FreeKVCacheBlockQueue K)
  | 0, q, curr => .ok ([], curr, q)
  | _ + 1, _, none => .error .assertionError
  | n + 1, q, some curr => do
    let next := (q.objects curr).nextFreeBlock
    let (ret, rest, q) ← popLoop n ((q.setPrev curr none).setNext curr none) next
    return (curr :: ret, rest, q)

/-- `popleft_n`. -/
def popleftN (n : Nat) : Except PyError (List Ref × FreeKVCacheBlockQueue K) :=
  if n = 0 then .ok ([], q)
  else if q.numFreeBlocks < n then .error .assertionError
  else do
    let q := q.addFree (-n)
    let (ret, curr, q) ← popLoop n q (q.objects .fakeFreeListHead).nextFreeBlock
    match curr with
    | none => return (ret, q)
    | some curr =>
      return (ret, (q.setNext .fakeFreeListHead (some curr)).setPrev curr (some .fakeFreeListHead))

/-- `remove`. -/
def remove (block : Ref) : Except PyError (FreeKVCacheBlockQueue K) :=
  match (q.objects block).prevFreeBlock, (q.objects block).nextFreeBlock with
  | some prev, some next =>
    let q := (q.setNext prev (some next)).setPrev next (some prev)
    let q := (q.setPrev block none).setNext block none
    .ok (q.addFree (-1))
  | _, _ => .error .runtimeError

/-- `append`. -/
def append (block : Ref) : Except PyError (FreeKVCacheBlockQueue K) :=
  match (q.objects .fakeFreeListTail).prevFreeBlock with
  | none => .error .runtimeError
  | some last =>
    let q := (q.setNext last (some block)).setPrev block (some last)
    let q := (q.setNext block (some .fakeFreeListTail)).setPrev .fakeFreeListTail (some block)
    .ok (q.addFree 1)

/-- The loop of `append_n`, with the last block it has linked. -/
def appendLoop : FreeKVCacheBlockQueue K → Ref → List Ref → FreeKVCacheBlockQueue K × Ref
  | q, last, [] => (q, last)
  | q, last, block :: blocks =>
    appendLoop ((q.setPrev block (some last)).setNext last (some block)) block blocks

/-- `append_n`. -/
def appendN (blocks : List Ref) : Except PyError (FreeKVCacheBlockQueue K) :=
  if blocks.length = 0 then .ok q
  else
    match (q.objects .fakeFreeListTail).prevFreeBlock with
    | none => .error .assertionError
    | some last =>
      let (q, last) := appendLoop q last blocks
      let q := (q.setNext last (some .fakeFreeListTail)).setPrev .fakeFreeListTail (some last)
      .ok (q.addFree blocks.length)

/-- The loop of `get_all_free_blocks`, for `fuel` rounds at most. -/
def collect : Nat → Ref → Option (List Ref)
  | 0, _ => none
  | fuel + 1, curr =>
    match (q.objects curr).nextFreeBlock with
    | none => some []
    | some next => (collect fuel next).map (curr :: ·)

/-- `get_all_free_blocks`; `none` when the loop takes more than `fuel` rounds. -/
def getAllFreeBlocks (fuel : Nat) : Except PyError (Option (List Ref)) :=
  match (q.objects .fakeFreeListHead).nextFreeBlock with
  | none => .error .runtimeError
  | some first => .ok (q.collect fuel first)

/-! ## The links, and what the queue does not touch -/

/-- The links of the blocks. -/
def links : Links Ref :=
  ⟨fun r => (q.objects r).nextFreeBlock, fun r => (q.objects r).prevFreeBlock⟩

/-- The fields of a block other than its links. -/
def info (r : Ref) : KVCacheBlock K :=
  { q.objects r with prevFreeBlock := none, nextFreeBlock := none }

variable {q} {q' : FreeKVCacheBlockQueue K} {r s first : Ref} {x : Option Ref} {n : Int}
  {xs ys blocks : List Ref}

theorem setNext_objects : (q.setNext r x).objects s =
    if s = r then { q.objects r with nextFreeBlock := x } else q.objects s :=
  Function.update_apply q.objects r _ s

theorem setPrev_objects : (q.setPrev r x).objects s =
    if s = r then { q.objects r with prevFreeBlock := x } else q.objects s :=
  Function.update_apply q.objects r _ s

theorem setObject_objects {b : KVCacheBlock K} :
    (q.setObject r b).objects s = if s = r then b else q.objects s :=
  Function.update_apply q.objects r b s

@[simp] theorem setNext_links : (q.setNext r x).links = q.links.setNext r x := by
  rw [Links.mk.injEq]
  constructor
  · funext s
    show ((q.setNext r x).objects s).nextFreeBlock = (q.links.setNext r x).next s
    rw [setNext_objects, Links.setNext_next]
    split <;> rfl
  · funext s
    show ((q.setNext r x).objects s).prevFreeBlock = (q.objects s).prevFreeBlock
    rw [setNext_objects]
    split
    · next h => rw [h]
    · rfl

@[simp] theorem setPrev_links : (q.setPrev r x).links = q.links.setPrev r x := by
  rw [Links.mk.injEq]
  constructor
  · funext s
    show ((q.setPrev r x).objects s).nextFreeBlock = (q.objects s).nextFreeBlock
    rw [setPrev_objects]
    split
    · next h => rw [h]
    · rfl
  · funext s
    show ((q.setPrev r x).objects s).prevFreeBlock = (q.links.setPrev r x).prev s
    rw [setPrev_objects, Links.setPrev_prev]
    split <;> rfl

@[simp] theorem addFree_links : (q.addFree n).links = q.links := rfl

@[simp] theorem setNext_info : (q.setNext r x).info = q.info := by
  funext s
  rw [info, setNext_objects]
  split
  · next h => rw [h]; rfl
  · rfl

@[simp] theorem setPrev_info : (q.setPrev r x).info = q.info := by
  funext s
  rw [info, setPrev_objects]
  split
  · next h => rw [h]; rfl
  · rfl

@[simp] theorem addFree_info : (q.addFree n).info = q.info := rfl

@[simp] theorem setNext_numFreeBlocks : (q.setNext r x).numFreeBlocks = q.numFreeBlocks := rfl

@[simp] theorem setPrev_numFreeBlocks : (q.setPrev r x).numFreeBlocks = q.numFreeBlocks := rfl

@[simp] theorem addFree_numFreeBlocks : (q.addFree n).numFreeBlocks = q.numFreeBlocks + n := rfl

theorem nextFreeBlock_eq (q : FreeKVCacheBlockQueue K) (r : Ref) :
    (q.objects r).nextFreeBlock = q.links.next r := rfl

end FreeKVCacheBlockQueue

end AiPipelines.KvCache
