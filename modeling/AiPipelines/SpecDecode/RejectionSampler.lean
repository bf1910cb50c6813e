import AiPipelines.Jetson.TritonKernel
import AiPipelines.Speculation

/-!
# The rejection sampler

The tensors of vLLM's speculative decoding, from `_calc_spec_decode_metadata` of
`v1/worker/gpu_model_runner.py` through `v1/sample/rejection_sampler.py` to the tokens
that the runner hands to the scheduler (`sampleTokens`).
The requests of a batch lie one behind the other in flat tensors, and the indices
say which logits belong to which draft.  Every request has more tokens in the step
than drafts, so that no difference of indices is negative.

The floating-point side of random sampling comes from outside: whether a draft is
accepted, and the token that is sampled in its place.

The two kernels share their loop, `sampleKernel`.
-/

namespace AiPipelines.SpecDecode

open Jetson

/-- `PLACEHOLDER_TOKEN_ID`. -/
def placeholderTokenId : Int := -1

/-- `np.cumsum`, behind a sum. -/
def cumsumFrom : Nat → List Nat → List Nat
  | _, [] => []
  | acc, x :: xs => (acc + x) :: cumsumFrom (acc + x) xs

/-- `np.cumsum(xs)`. -/
def cumsum (xs : List Nat) : List Nat := cumsumFrom 0 xs

/-- `np.repeat(xs, counts)`. -/
def npRepeat : List Nat → List Nat → List Nat
  | x :: xs, n :: counts => List.replicate n x ++ npRepeat xs counts
  | _, _ => []

/-- `_get_cumsum_and_arange`: the sums, and what it leaves in `arange_out`. -/
def getCumsumAndArange (numTokens : List Nat) : List Nat × List Nat :=
  let cuNumTokens := cumsum numTokens
  let totalNumTokens := cuNumTokens.getLastD 0
  let cumsumsOffsets := npRepeat (cuNumTokens.zipWith (· - ·) numTokens) numTokens
  (cuNumTokens, (List.range totalNumTokens).zipWith (· - ·) cumsumsOffsets)

/-- `t[indices]`. -/
def indexSelect {α : Type} (t : List α) (indices : List Nat) : Except TensorError (List α) :=
  indices.mapM fun (i : Nat) => tlLoad t (i : Int)

/-- `SpecDecodeMetadata`. -/
structure SpecDecodeMetadata where
  draftTokenIds : List Int
  numDraftTokens : List Nat
  cuNumDraftTokens : List Nat
  targetLogitsIndices : List Nat
  bonusLogitsIndices : List Nat
  logitsIndices : List Nat
  deriving Repr, DecidableEq

/-- `max(self.num_draft_tokens)`. -/
def SpecDecodeMetadata.maxSpecLen (metadata : SpecDecodeMetadata) : Nat :=
  metadata.numDraftTokens.foldl max 0

/-- `_calc_spec_decode_metadata`. -/
def calcSpecDecodeMetadata (inputIds : List Int) (numDraftTokens cuNumScheduledTokens : List Nat) :
    Except TensorError SpecDecodeMetadata := do
  let numSampledTokens := numDraftTokens.map (· + 1)
  let (cuNumSampledTokens, arange) := getCumsumAndArange numSampledTokens
  let logitsIndices :=
  npRepeat (cuNumScheduledTokens.zipWith (· - ·) numSampledTokens) numSampledTokens
  let logitsIndices := logitsIndices.zipWith (· + ·) arange
  let bonusLogitsIndices := cuNumSampledTokens.map (· - 1)
  let (cuNumDraftTokens, arange) := getCumsumAndArange numDraftTokens
  let targetLogitsIndices :=
  npRepeat (cuNumSampledTokens.zipWith (· - ·) numSampledTokens) numDraftTokens
  let targetLogitsIndices := targetLogitsIndices.zipWith (· + ·) arange
  let draftTokenIds ← indexSelect inputIds logitsIndices
  let draftTokenIds ← indexSelect draftTokenIds (targetLogitsIndices.map (· + 1))
  return {
    draftTokenIds := draftTokenIds
    numDraftTokens := numDraftTokens
    cuNumDraftTokens := cuNumDraftTokens
    targetLogitsIndices := targetLogitsIndices
    bonusLogitsIndices := bonusLogitsIndices
    logitsIndices := logitsIndices }

/-- `tl.store(ptr + offset, value)`. -/
def tlStoreOne (buf : List Int) (offset : Nat) (value : Int) : Except TensorError (List Int) :=
  if offset < buf.length then .ok (buf.set offset value) else .error .indexError

/-- A round of the loop over the drafts.  `sample` gives the token at a position, and says
whether the draft is rejected. -/
def sampleRound (sample : Nat → Except TensorError (Int × Bool)) (row startIdx : Nat)
    (st : List Int × Bool) (pos : Nat) : Except TensorError (List Int × Bool) :=
  if st.2 then .ok st else do
    let (tokenId, rejected) ← sample (startIdx + pos)
    let outputTokenIds ← tlStoreOne st.1 (row + pos) tokenId
    return (outputTokenIds, rejected)

/-- The two kernels, as program `reqIdx` of the grid. -/
def sampleKernel (sample : Nat → Except TensorError (Int × Bool)) (cuNumDraftTokens : List Nat)
    (bonusTokenIds : List Int) (maxSpecLen : Nat) (outputTokenIds : List Int) (reqIdx : Nat) :
    Except TensorError (List Int) := do
  let startIdx ← if reqIdx = 0 then .ok 0 else tlLoad cuNumDraftTokens (reqIdx - 1 : Nat)
  let endIdx ← tlLoad cuNumDraftTokens (reqIdx : Nat)
  let numDraftTokens := endIdx - startIdx
  let row := reqIdx * (maxSpecLen + 1)
  let (outputTokenIds, rejected) ←
    (List.range numDraftTokens).foldlM (sampleRound sample row startIdx) (outputTokenIds, false)
  if rejected then return outputTokenIds
  else do
    let bonusTokenId ← tlLoad bonusTokenIds (reqIdx : Nat)
    tlStoreOne outputTokenIds (row + numDraftTokens) bonusTokenId

/-- `rejection_greedy_sample_kernel`. -/
def rejectionGreedySampleKernel (cuNumDraftTokens : List Nat)
    (draftTokenIds targetArgmax bonusTokenIds : List Int) (isGreedy : Option (List Bool))
    (maxSpecLen : Nat) (outputTokenIds : List Int) (reqIdx : Nat) :
    Except TensorError (List Int) := do
  let greedy ← match isGreedy with
    | none => .ok true
    | some flags => tlLoad flags (reqIdx : Nat)
  if greedy then
    let sample (idx : Nat) : Except TensorError (Int × Bool) := do
      let draftTokenId ← tlLoad draftTokenIds (idx : Nat)
      let targetArgmaxId ← tlLoad targetArgmax (idx : Nat)
      return (targetArgmaxId, draftTokenId ≠ targetArgmaxId)
    sampleKernel sample cuNumDraftTokens bonusTokenIds maxSpecLen outputTokenIds reqIdx
  else return outputTokenIds

/-- `rejection_random_sample_kernel`.  `accepted` has the comparisons of the probabilities. -/
def rejectionRandomSampleKernel (cuNumDraftTokens : List Nat) (draftTokenIds : List Int)
    (accepted : List Bool) (bonusTokenIds recoveredTokenIds : List Int) (isGreedy : List Bool)
    (maxSpecLen : Nat) (outputTokenIds : List Int) (reqIdx : Nat) :
    Except TensorError (List Int) := do
  let greedy ← tlLoad isGreedy (reqIdx : Nat)
  if greedy then return outputTokenIds
  else
    let sample (idx : Nat) : Except TensorError (Int × Bool) := do
      let draftTokenId ← tlLoad draftTokenIds (idx : Nat)
      let accept ← tlLoad accepted (idx : Nat)
      if accept then return (draftTokenId, false)
      else do
        let recovered ← tlLoad recoveredTokenIds (idx : Nat)
        return (recovered, true)
    sampleKernel sample cuNumDraftTokens bonusTokenIds maxSpecLen outputTokenIds reqIdx

/-- `rejection_sample`, with the programs of the two grids run in the given orders. -/
def rejectionSample (draftTokenIds : List Int) (numDraftTokens : List Nat) (maxSpecLen : Nat)
    (cuNumDraftTokens : List Nat) (accepted : List Bool)
    (targetArgmax bonusTokenIds recoveredTokenIds : List Int) (isGreedy : List Bool)
    (greedyOrder randomOrder : List Nat) : Except TensorError (List Int) := do
  let outputTokenIds := List.replicate (numDraftTokens.length * (maxSpecLen + 1)) placeholderTokenId
  let allGreedy := isGreedy.all id
  let allRandom := isGreedy.all not
  let outputTokenIds ← if allRandom then .ok outputTokenIds else
    greedyOrder.foldlM
      (rejectionGreedySampleKernel cuNumDraftTokens draftTokenIds targetArgmax bonusTokenIds
        (if allGreedy then none else some isGreedy) maxSpecLen) outputTokenIds
  if allGreedy ∧ ¬ allRandom then return outputTokenIds
  else
    randomOrder.foldlM
      (rejectionRandomSampleKernel cuNumDraftTokens draftTokenIds accepted bonusTokenIds
        recoveredTokenIds isGreedy maxSpecLen) outputTokenIds

/-- The rows of a tensor with `n` rows of `width` columns. -/
def rows (width n : Nat) (t : List Int) : List (List Int) :=
  (List.range n).map fun r => (t.drop (r * width)).take width

/-- `RejectionSampler.parse_output`, without the log probabilities. -/
def parseOutput (outputTokenIds : List (List Int)) (vocabSize : Nat)
    (discardReqIndices : List Nat) :
    List (List Int) :=
  outputTokenIds.mapIdx fun i row =>
    if i ∈ discardReqIndices then []
    else row.filter fun t => t ≠ placeholderTokenId ∧ t < vocabSize

/-- `RejectionSampler.forward`, on processed logits.  Every request has its own sampler
for the token behind its drafts. -/
def forward {L : Type} (argmax : L → Int) (samplers : List (L → Int))
    (metadata : SpecDecodeMetadata) (logits : List L) (accepted : List Bool)
    (recoveredTokenIds : List Int) (isGreedy : List Bool) (greedyOrder randomOrder : List Nat) :
    Except TensorError (List Int) := do
  let bonusLogits ← indexSelect logits metadata.bonusLogitsIndices
  let bonusTokenIds := samplers.zipWith (fun sampler l => sampler l) bonusLogits
  let targetLogits ← indexSelect logits metadata.targetLogitsIndices
  rejectionSample metadata.draftTokenIds metadata.numDraftTokens metadata.maxSpecLen
    metadata.cuNumDraftTokens
    accepted (targetLogits.map argmax) bonusTokenIds recoveredTokenIds isGreedy greedyOrder
      randomOrder

/-- The valid tokens of `_bookkeeping_sync`. -/
def validSampledTokenIds (sampledTokenIds : List (List Int)) (maxGenLen vocabSize : Nat)
    (discardReqIndices : List Nat) : List (List Int) :=
  if maxGenLen = 1 then
    sampledTokenIds.mapIdx fun i row => if i ∈ discardReqIndices then [] else row
  else parseOutput sampledTokenIds vocabSize discardReqIndices

/-- The model runner's part of a step, with the logits behind every scheduled token
given.  A step without drafts only samples. -/
def sampleTokens {L : Type} (argmax : L → Int) (samplers : List (L → Int)) (inputIds : List Int)
    (numDraftTokens numScheduledTokens : List Nat) (tokenLogits : List L) (accepted : List Bool)
    (recoveredTokenIds : List Int) (isGreedy : List Bool) (vocabSize : Nat)
    (discardReqIndices greedyOrder randomOrder : List Nat) :
    Except TensorError (List (List Int)) := do
  let cuNumTokens := cumsum numScheduledTokens
  let useSpecDecode := numDraftTokens.any fun n => 0 < n
  if useSpecDecode then
    let metadata ← calcSpecDecodeMetadata inputIds numDraftTokens cuNumTokens
    let logits ← indexSelect tokenLogits metadata.logitsIndices
    let outputTokenIds ← forward argmax samplers metadata logits accepted recoveredTokenIds isGreedy
      greedyOrder
      randomOrder
    let maxGenLen := metadata.maxSpecLen + 1
    return validSampledTokenIds (rows maxGenLen numDraftTokens.length outputTokenIds) maxGenLen
      vocabSize
      discardReqIndices
  else
    let logits ← indexSelect tokenLogits (cuNumTokens.map (· - 1))
    let sampledTokenIds := samplers.zipWith (fun sampler l => [sampler l]) logits
    return validSampledTokenIds sampledTokenIds 1 vocabSize discardReqIndices

end AiPipelines.SpecDecode
