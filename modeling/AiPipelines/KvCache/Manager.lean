import AiPipelines.KvCache.BlockPool
import AiPipelines.KvCache.Hashes
import AiPipelines.Transition

/-!
# The KV-cache manager and the requests that use it

`kv_cache_manager.py` for one cache group with full attention, with its
`FullAttentionManager` of `single_type_kv_cache_manager.py`, and the parts of
`scheduler.py` that call it.

Full attention skips no tokens (`get_num_skipped_tokens` is `0`), so that
`remove_skipped_blocks` does nothing.  The coordinator of one group passes its
calls on.  There is no connector, and so no external token.

`Scheduler.step` is one call of the scheduler that reaches the manager.  Which
call comes next, the scheduling policy, is left open: an action is enabled
wherever the scheduler may do it.
-/

namespace AiPipelines.KvCache

open PyStd

variable {H : Type}

/-- `cdiv`. -/
def cdiv (a b : Nat) : Nat := (a + b - 1) / b

/-- `KVCacheManager`, with its coordinator and its `FullAttentionManager`. -/
structure KVCacheManager (H : Type) where
  blockSize : Nat
  maxModelLen : Nat
  useEagle : Bool
  blockPool : BlockPool H
  reqToBlocks : Dict String (List Ref) := []
  numCachedBlock : Dict String Nat := []

namespace KVCacheManager

variable (m : KVCacheManager H)

/-- `self.req_to_blocks[request_id]`, where a missing entry is an empty list. -/
def reqBlocks (requestId : String) : List Ref := (m.reqToBlocks.get? requestId).getD []

/-- `_get_num_evictable_blocks`. -/
def getNumEvictableBlocks (blocks : List Ref) : Nat :=
  blocks.countP fun block =>
    decide ((m.blockPool.object block).refCnt = 0) && !(m.blockPool.object block).isNull

/-- `get_num_blocks_to_allocate`. -/
def getNumBlocksToAllocate (requestId : String) (numTokens : Nat) (newComputedBlocks : List Ref) :
    Except PyError Nat :=
  let numRequiredBlocks := cdiv numTokens m.blockSize
  let numReqBlocks := (m.reqBlocks requestId).length
  if (m.numCachedBlock.get? requestId).isSome then
    if newComputedBlocks.length = 0 then .ok (numRequiredBlocks - numReqBlocks)
    else .error .assertionError
  else
    let numLocalComputedBlocks := newComputedBlocks.length + numReqBlocks
    .ok (numRequiredBlocks - numLocalComputedBlocks + m.getNumEvictableBlocks newComputedBlocks)

/-- `get_num_common_prefix_blocks`, which also makes an entry for the request. -/
def getNumCommonPrefixBlocks (runningRequestId : String) : Nat × KVCacheManager H :=
  if m.blockPool.enableCaching then
    let blocks := m.reqBlocks runningRequestId
    let m := { m with reqToBlocks := m.reqToBlocks.set runningRequestId blocks }
    ((blocks.takeWhile fun block =>
      decide ((m.blockPool.object block).refCnt = m.reqToBlocks.length)).length, m)
  else (0, m)

variable [DecidableEq H]

/-- `allocate_new_computed_blocks`. -/
def allocateNewComputedBlocks (requestId : String) (newComputedBlocks : List Ref) :
    Except PyError (KVCacheManager H) :=
  if (m.numCachedBlock.get? requestId).isSome then
    if newComputedBlocks.length = 0 then .ok m else .error .assertionError
  else
    let reqBlocks := m.reqBlocks requestId
    if reqBlocks.length = 0 then do
      let blockPool ←
        if m.blockPool.enableCaching then m.blockPool.touch newComputedBlocks
        else if newComputedBlocks = [] then .ok m.blockPool
        else .error .assertionError
      let reqBlocks := reqBlocks ++ newComputedBlocks
      return { m with
        blockPool := blockPool
        reqToBlocks := m.reqToBlocks.set requestId reqBlocks
        numCachedBlock := m.numCachedBlock.set requestId reqBlocks.length }
    else .error .assertionError

/-- `allocate_new_blocks`. -/
def allocateNewBlocks (requestId : String) (numTokens : Nat) :
    Except PyError (List Ref × KVCacheManager H) :=
  let reqBlocks := m.reqBlocks requestId
  let m := { m with reqToBlocks := m.reqToBlocks.set requestId reqBlocks }
  let numRequiredBlocks := cdiv numTokens m.blockSize
  if numRequiredBlocks ≤ reqBlocks.length then .ok ([], m)
  else do
    let (newBlocks, blockPool) ← m.blockPool.getNewBlocks (numRequiredBlocks - reqBlocks.length)
    return (newBlocks, { m with
      blockPool := blockPool
      reqToBlocks := m.reqToBlocks.set requestId (reqBlocks ++ newBlocks) })

/-- `cache_blocks`. -/
def cacheBlocks (request : Request H) (numTokens : Nat) : Except PyError (KVCacheManager H) :=
  let numCachedBlocks := (m.numCachedBlock.get? request.requestId).getD 0
  let numFullBlocks := numTokens / m.blockSize
  if numFullBlocks ≤ numCachedBlocks then .ok m
  else do
    let blockPool ← m.blockPool.cacheFullBlocks request.blockHashes (m.reqBlocks request.requestId)
      numCachedBlocks numFullBlocks 0
    return { m with
      blockPool := blockPool
      numCachedBlock := m.numCachedBlock.set request.requestId numFullBlocks }

/-- `free`. -/
def free (requestId : String) : Except PyError (KVCacheManager H) := do
  let blockPool ← m.blockPool.freeBlocks (m.reqBlocks requestId).reverse
  return { m with
    blockPool := blockPool
    reqToBlocks := m.reqToBlocks.pop requestId
    numCachedBlock := m.numCachedBlock.pop requestId }

/-- The loop of `find_longest_cache_hit`. -/
def hitLoop : List H → List Ref
  | [] => []
  | blockHash :: blockHashes =>
    match m.blockPool.getCachedBlock blockHash [0] with
    | some (cached :: _) => cached :: hitLoop blockHashes
    | _ => []

/-- `find_longest_cache_hit`, where blocks are aligned with themselves. -/
def findLongestCacheHit (blockHashes : List H) (maxLength : Nat) : List Ref :=
  let maxNumBlocks := maxLength / m.blockSize
  let computedBlocks := m.hitLoop (blockHashes.take maxNumBlocks)
  if m.useEagle ∧ computedBlocks ≠ [] then computedBlocks.dropLast else computedBlocks

/-- `get_computed_blocks`.  A request without tokens would make `islice` count to `-1`. -/
def getComputedBlocks (request : Request H) : Except PyError (List Ref × Nat) :=
  if ¬ m.blockPool.enableCaching ∨ request.skipReadingPrefixCache then .ok ([], 0)
  else if request.numTokens = 0 then .error .valueError
  else
    let computedBlocks := m.findLongestCacheHit request.blockHashes (request.numTokens - 1)
    .ok (computedBlocks, computedBlocks.length * m.blockSize)

/-- `can_fit_full_sequence`. -/
def canFitFullSequence (request : Request H) (newComputedBlocks : List Ref) :
    Except PyError Bool := do
  let fullNumTokens := min request.numTokens m.maxModelLen
  let numBlocksToAllocate ← m.getNumBlocksToAllocate request.requestId fullNumTokens
    newComputedBlocks
  return decide ((numBlocksToAllocate : Int) ≤ m.blockPool.getNumFreeBlocks)

/-- `allocate_slots`: the new blocks, or `none` when there are not enough free ones. -/
def allocateSlots (request : Request H) (numNewTokens numNewComputedTokens : Nat)
    (newComputedBlocks : List Ref) (numLookaheadTokens : Nat) :
    Except PyError (Option (List Ref) × KVCacheManager H) :=
  if numNewTokens = 0 then .error .valueError
  else do
    let numLocalComputedTokens := request.numComputedTokens + numNewComputedTokens
    let totalComputedTokens := min numLocalComputedTokens m.maxModelLen
    let numTokensMainModel := totalComputedTokens + numNewTokens
    let numTokensNeedSlot := min (numTokensMainModel + numLookaheadTokens) m.maxModelLen
    let numBlocksToAllocate ←
      m.getNumBlocksToAllocate request.requestId numTokensNeedSlot newComputedBlocks
    if m.blockPool.getNumFreeBlocks < numBlocksToAllocate then return (none, m)
    let m ←
      if newComputedBlocks = [] then .ok m
      else m.allocateNewComputedBlocks request.requestId newComputedBlocks
    let (newBlocks, m) ← m.allocateNewBlocks request.requestId numTokensNeedSlot
    if ¬ m.blockPool.enableCaching then return (some newBlocks, m)
    let numTokensToCache := min (totalComputedTokens + numNewTokens) request.numTokens
    let m ← m.cacheBlocks request numTokensToCache
    return (some newBlocks, m)

/-- `evict_blocks`. -/
def evictBlocks (blockIds : List Nat) : Except PyError (KVCacheManager H) := do
  let blockPool ← m.blockPool.evictBlocks blockIds
  return { m with blockPool := blockPool }

/-- `reset_prefix_cache`. -/
def resetPrefixCache : Bool × KVCacheManager H :=
  let (success, blockPool) := m.blockPool.resetPrefixCache
  (success, { m with blockPool := blockPool })

end KVCacheManager

/-! ## The scheduler -/

/-- What the scheduler keeps of its requests, and the manager.  `numScheduledTokens` is the
dictionary of the step that `schedule` is making. -/
structure Scheduler (H : Type) where
  manager : KVCacheManager H
  blockHasher : Option (Hasher H)
  reserveFullIsl : Bool
  numLookaheadTokens : Nat
  requests : Dict String (Request H) := []
  running : List String := []
  numScheduledTokens : Dict String Nat := []

/-- The calls that reach the manager.  Within `schedule` these are `scheduleRunning`,
`scheduleWaiting` and `preempt`, in any order, and `updateAfterSchedule` ends it. -/
inductive Action (H : Type) where
  | addRequest (request : Request H)
  | scheduleWaiting (requestId : String) (numNewTokens : Nat)
  | scheduleRunning (requestId : String) (numNewTokens : Nat)
  | preempt (requestId : String)
  | updateAfterSchedule
  | reject (requestId : String) (numRejected : Nat)
  | appendOutput (requestId : String) (tokenIds : List Int)
  | finish (requestId : String)
  | evict (blockIds : List Nat)
  | reset (resetRunningRequests : Bool)

/-- What an observer sees of a call. -/
inductive Event where
  | raised (e : PyError)
  | scheduled (requestId : String) (computedBlocks newBlocks : List Ref)
  | notScheduled (requestId : String)
  | resetDone (success : Bool)
  deriving DecidableEq, Repr

namespace Scheduler

variable [DecidableEq H] (s : Scheduler H)

/-- A new scheduler with a pool of `numGpuBlocks` blocks. -/
def init (hasher : Hasher H) (numGpuBlocks maxModelLen : Nat)
    (enableCaching useEagle reserveFullIsl : Bool) (numLookaheadTokens : Nat) :
    Except PyError (Scheduler H) := do
  let blockPool ← BlockPool.init numGpuBlocks enableCaching
  let manager : KVCacheManager H :=
    { blockSize := hasher.blockSize, maxModelLen := maxModelLen, useEagle := useEagle,
      blockPool := blockPool }
  return {
    manager := manager
    blockHasher := if enableCaching then some hasher else none
    reserveFullIsl := reserveFullIsl
    numLookaheadTokens := numLookaheadTokens }

/-- A new request. -/
def addRequest (request : Request H) : Scheduler H :=
  let request : Request H :=
    { request with status := .waiting, numComputedTokens := 0, blockHashes := [] }
  { s with
    requests := s.requests.set request.requestId (request.updateBlockHashes s.blockHasher) }

/-- The blocks and the number of computed tokens that `schedule` finds for a waiting request. -/
def computedBlocks (request : Request H) : Except PyError (List Ref × Nat) :=
  if request.numComputedTokens = 0 then s.manager.getComputedBlocks request else .ok ([], 0)

/-- `schedule`, for a waiting request, from the call of `allocate_slots` on. -/
def placeWaiting (request : Request H) (newComputedBlocks : List Ref)
    (numNewComputedTokens numNewTokens : Nat) : Except PyError (Scheduler H × Event) := do
  let numLookaheadTokens := if request.numComputedTokens = 0 then 0 else s.numLookaheadTokens
  match ← s.manager.allocateSlots request numNewTokens numNewComputedTokens newComputedBlocks
    numLookaheadTokens with
  | (none, manager) => return ({ s with manager := manager }, .notScheduled request.requestId)
  | (some newBlocks, manager) =>
    let request := { request with
      status := .running
      numComputedTokens := request.numComputedTokens + numNewComputedTokens }
    return ({ s with
      manager := manager
      requests := s.requests.set request.requestId request
      running := s.running ++ [request.requestId]
      numScheduledTokens := s.numScheduledTokens.set request.requestId numNewTokens },
      .scheduled request.requestId newComputedBlocks newBlocks)

/-- `schedule`, for a waiting request. -/
def scheduleWaiting (request : Request H) (numNewTokens : Nat) :
    Except PyError (Scheduler H × Event) := do
  let (newComputedBlocks, numNewComputedTokens) ← s.computedBlocks request
  if s.reserveFullIsl then
    let fits ← s.manager.canFitFullSequence request newComputedBlocks
    if fits then s.placeWaiting request newComputedBlocks numNewComputedTokens numNewTokens
    else return (s, .notScheduled request.requestId)
  else s.placeWaiting request newComputedBlocks numNewComputedTokens numNewTokens

/-- `schedule`, for a running request. -/
def scheduleRunning (request : Request H) (numNewTokens : Nat) :
    Except PyError (Scheduler H × Event) := do
  match ← s.manager.allocateSlots request numNewTokens 0 [] s.numLookaheadTokens with
  | (none, manager) => return ({ s with manager := manager }, .notScheduled request.requestId)
  | (some newBlocks, manager) =>
    return ({ s with
      manager := manager
      numScheduledTokens := s.numScheduledTokens.set request.requestId numNewTokens },
      .scheduled request.requestId [] newBlocks)

/-- A request leaves the running ones and the step. -/
def unschedule (requestId : String) : Scheduler H :=
  { s with
    running := s.running.erase requestId
    numScheduledTokens := s.numScheduledTokens.pop requestId }

/-- `_preempt_request`, for a request that has left the running ones. -/
def preemptRequest (request : Request H) : Except PyError (Scheduler H) :=
  if request.status = .running then do
    let manager ← s.manager.free request.requestId
    return { s with
      manager := manager
      requests := s.requests.set request.requestId
        { request with status := .preempted, numComputedTokens := 0 } }
  else .error .assertionError

/-- The loop of `_update_after_schedule`. -/
def advance :
    Dict String (Request H) → List (String × Nat) → Except PyError (Dict String (Request H))
  | requests, [] => .ok requests
  | requests, (requestId, numScheduledToken) :: rest =>
    match requests.get? requestId with
    | none => .error .keyError
    | some request =>
      advance (requests.set requestId
        { request with numComputedTokens := request.numComputedTokens + numScheduledToken }) rest

/-- `_update_after_schedule`. -/
def updateAfterSchedule : Except PyError (Scheduler H) := do
  let requests ← advance s.requests s.numScheduledTokens
  return { s with requests := requests, numScheduledTokens := [] }

/-- `_free_blocks`, for a finished request. -/
def freeBlocks (request : Request H) : Except PyError (Scheduler H) := do
  let manager ← s.manager.free request.requestId
  return { s with manager := manager, requests := s.requests.pop request.requestId }

/-- The loop of `reset_prefix_cache`, for the running requests from the last one on. -/
def preemptAll : Scheduler H → List String → Except PyError (Scheduler H)
  | s, [] => .ok s
  | s, requestId :: rest =>
    match s.requests.get? requestId with
    | none => .error .keyError
    | some request => do
      let s ← (s.unschedule requestId).preemptRequest request
      preemptAll s rest

/-- `reset_prefix_cache`. -/
def resetPrefixCache (resetRunningRequests : Bool) : Except PyError (Scheduler H × Bool) := do
  let s ← if resetRunningRequests then preemptAll s s.running.reverse else .ok s
  let (resetSuccessful, manager) := s.manager.resetPrefixCache
  if resetRunningRequests ∧ ¬ resetSuccessful then .error .runtimeError
  else return ({ s with manager := manager }, resetSuccessful)

/-- What a call leaves behind: an error is seen. -/
def settle (s : Scheduler H) (result : Except PyError (Scheduler H × List Event)) :
    Option (Scheduler H × List Event) :=
  match result with
  | .error e => some (s, [.raised e])
  | .ok r => some r

/-- One call.  It is `none` where the scheduler would not make it.  No request is resumable. -/
def step (s : Scheduler H) : Action H → Option (Scheduler H × List Event)
  | .addRequest request =>
    -- The front end accepts no empty prompt.
    if request.numTokens ≠ 0 then
      settle s (if (s.requests.get? request.requestId).isNone then .ok (s.addRequest request, [])
        else .error .assertionError)
    else none
  | .scheduleWaiting requestId numNewTokens =>
    match s.requests.get? requestId with
    | none => none
    | some request =>
      if request.status ≠ .running ∧ 0 < numNewTokens then
        settle s ((s.scheduleWaiting request numNewTokens).map fun r => (r.1, [r.2]))
      else none
  | .scheduleRunning requestId numNewTokens =>
    match s.requests.get? requestId with
    | none => none
    | some request =>
      if request.status = .running ∧ 0 < numNewTokens ∧
          (s.numScheduledTokens.get? requestId).isNone then
        settle s ((s.scheduleRunning request numNewTokens).map fun r => (r.1, [r.2]))
      else none
  | .preempt requestId =>
    match s.requests.get? requestId with
    | none => none
    | some request =>
      if requestId ∈ s.running then
        settle s (((s.unschedule requestId).preemptRequest request).map fun r => (r, []))
      else none
  | .updateAfterSchedule => settle s (s.updateAfterSchedule.map fun r => (r, []))
  | .reject requestId numRejected =>
    match s.requests.get? requestId with
    | none => none
    | some request =>
      -- Only drafts are rejected, which stand behind the request's tokens.
      if s.numScheduledTokens = [] ∧ request.status = .running ∧
          request.numTokens + numRejected ≤ request.numComputedTokens then
        let request := { request with numComputedTokens := request.numComputedTokens - numRejected }
        some ({ s with requests := s.requests.set requestId request }, [])
      else none
  | .appendOutput requestId tokenIds =>
    match s.requests.get? requestId with
    | none => none
    | some request =>
      if s.numScheduledTokens = [] then
        let request := request.appendOutputTokenIds s.blockHasher tokenIds
        some ({ s with requests := s.requests.set requestId request }, [])
      else none
  | .finish requestId =>
    match s.requests.get? requestId with
    | none => none
    | some request =>
      if s.numScheduledTokens = [] then
        settle s (((s.unschedule requestId).freeBlocks request).map fun r => (r, []))
      else none
  | .evict blockIds =>
    if s.numScheduledTokens = [] ∧ ∀ i ∈ blockIds, i < s.manager.blockPool.numGpuBlocks then
      settle s
        ((s.manager.evictBlocks blockIds).map fun manager => ({ s with manager := manager }, []))
    else none
  | .reset resetRunningRequests =>
    if s.numScheduledTokens = [] then
      settle s ((s.resetPrefixCache resetRunningRequests).map fun r => (r.1, [.resetDone r.2]))
    else none

end Scheduler

end AiPipelines.KvCache
