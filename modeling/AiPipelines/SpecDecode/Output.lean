import AiPipelines.Jetson.SlotMapping
import AiPipelines.Speculation

/-!
# What a request makes of new tokens

`check_stop` and `check_sequence_repetition` of vLLM's `v1/core/sched/utils.py`, and
`_update_request_with_output` of the scheduler.  The scheduler appends the tokens of a
step one after the other and drops what comes behind the first one that the request
stops at.

* `updateRequestWithOutput_eq`: this is `Speculation.appendUntil`, with the check as the
  stop of the loop.
-/

namespace AiPipelines.SpecDecode

open Jetson Speculation

/-- `RepetitionDetectionParams`, which are checked not to be negative. -/
structure RepetitionDetectionParams where
  maxPatternSize : Nat
  minPatternSize : Nat
  minCount : Nat
  deriving Repr, DecidableEq

/-- What `check_stop` reads of `SamplingParams`. -/
structure SamplingParams where
  minTokens : Nat
  eosTokenId : Option Int
  stopTokenIds : List Int
  repetitionDetection : Option RepetitionDetectionParams
  deriving Repr, DecidableEq

/-- The statuses of a request that `check_stop` ends. -/
inductive FinishedStatus where
  | stopped
  | lengthCapped
  | repetition
  deriving Repr, DecidableEq

/-- `request.stop_reason`. -/
inductive StopReason where
  | token (id : Int)
  | repetitionDetected
  deriving Repr, DecidableEq

/-- `Request`.  `finished` is the status once it is a finished one. -/
structure Request where
  promptTokenIds : List Int
  outputTokenIds : List Int
  samplingParams : SamplingParams
  maxTokens : Nat
  finished : Option FinishedStatus := none
  stopReason : Option StopReason := none
  deriving Repr, DecidableEq

/-- `request.all_token_ids`. -/
def Request.allTokenIds (request : Request) : List Int :=
  request.promptTokenIds ++ request.outputTokenIds

/-- `request.append_output_token_ids(token_id)`. -/
def Request.appendOutputTokenId (request : Request) (tokenId : Int) : Request :=
  { request with outputTokenIds := request.outputTokenIds ++ [tokenId] }

/-- `token_ids[-n]`, for an `n` from 1 on. -/
def fromEnd (tokenIds : List Int) (n : Nat) : Option Int := tokenIds.reverse[n - 1]?

/-- `_has_repeating_pattern`. -/
def hasRepeatingPattern (tokenIds : List Int) (patternLen repetitionMinCount : Nat) : Bool :=
  (List.range' 1 patternLen).all fun n => (List.range' 1 (repetitionMinCount - 1)).all fun m =>
    fromEnd tokenIds (patternLen * m + n) = fromEnd tokenIds n

/-- The loop over the lengths of patterns. -/
def patternLoop (tokenIds : List Int) (minCount : Nat) : List Nat → Bool
  | [] => false
  | patternLen :: rest =>
    if tokenIds.length < patternLen * minCount then false
    else if hasRepeatingPattern tokenIds patternLen minCount then true
    else patternLoop tokenIds minCount rest

/-- `check_sequence_repetition`. -/
def checkSequenceRepetition (tokenIds : List Int) (params : RepetitionDetectionParams) : Bool :=
  let minPatternSize := if params.minPatternSize = 0 then 1 else params.minPatternSize
  if params.maxPatternSize = 0 ∨ params.minCount < 2 ∨
    params.maxPatternSize < minPatternSize then false
  else patternLoop tokenIds params.minCount
    (List.range' minPatternSize (params.maxPatternSize + 1 - minPatternSize))

/-- `check_stop`. -/
def checkStop (request : Request) (maxModelLen : Nat) : Except TensorError (Request × Bool) :=
  if request.outputTokenIds.length < request.samplingParams.minTokens then .ok (request, false)
  else match request.outputTokenIds.getLast? with
    | none => .error .indexError
    | some lastTokenId =>
      if some lastTokenId = request.samplingParams.eosTokenId then
        .ok ({ request with finished := some .stopped }, true)
      else if lastTokenId ∈ request.samplingParams.stopTokenIds then
        .ok ({ request with
          finished := some .stopped
          stopReason := some (.token lastTokenId) }, true)
      else if maxModelLen ≤ request.allTokenIds.length ∨
        request.maxTokens ≤ request.outputTokenIds.length then
        .ok ({ request with finished := some .lengthCapped }, true)
      else match request.samplingParams.repetitionDetection with
        | none => .ok (request, false)
        | some params =>
          if checkSequenceRepetition request.outputTokenIds params then
            .ok ({ request with
              finished := some .repetition
              stopReason := some .repetitionDetected }, true)
          else .ok (request, false)

/-- `_update_request_with_output`: the request, the tokens that were appended, and
whether it stopped. -/
def updateRequestWithOutput (maxModelLen : Nat) :
    Request → List Int → Except TensorError (Request × List Int × Bool)
  | request, [] => .ok (request, [], false)
  | request, outputTokenId :: rest => do
    let (request, stopped) ← checkStop (request.appendOutputTokenId outputTokenId) maxModelLen
    if stopped then return (request, [outputTokenId], true)
    else do
      let (request, newTokenIds, stopped) ← updateRequestWithOutput maxModelLen request rest
      return (request, outputTokenId :: newTokenIds, stopped)

/-- Whether the request would stop with the given tokens. -/
def Request.stops (request : Request) (maxModelLen : Nat) (allTokenIds : List Int) : Bool :=
  match checkStop { request with outputTokenIds := allTokenIds.drop request.promptTokenIds.length }
    maxModelLen with
  | .ok (_, stopped) => stopped
  | .error _ => false

/-! ## The check -/

variable {r : Request} {maxModelLen : Nat} {ts : List Int}

theorem Request.allTokenIds_append {t : Int} :
    (r.appendOutputTokenId t).allTokenIds = r.allTokenIds ++ [t] := by
  rw [allTokenIds, allTokenIds, appendOutputTokenId, List.append_assoc]

/-- The check of the request itself. -/
theorem Request.stops_allTokenIds : r.stops maxModelLen r.allTokenIds =
    match checkStop r maxModelLen with
    | .ok (_, stopped) => stopped
    | .error _ => false := by
  rw [stops, allTokenIds, List.drop_left]

/-- The check either lets the request alone or finishes it. -/
theorem checkStop_cases (h : r.outputTokenIds ≠ []) : checkStop r maxModelLen = .ok (r, false) ∨
    ∃ status reason, checkStop r maxModelLen =
      .ok ({ r with finished := some status, stopReason := reason }, true) := by
  unfold checkStop
  split
  · exact .inl rfl
  · split
    · next hlast => exact absurd (List.getLast?_eq_none_iff.1 hlast) h
    · split
      · exact .inr ⟨.stopped, r.stopReason, rfl⟩
      · split
        · exact .inr ⟨.stopped, _, rfl⟩
        · split
          · exact .inr ⟨.lengthCapped, r.stopReason, rfl⟩
          · split
            · exact .inl rfl
            · split
              · exact .inr ⟨.repetition, _, rfl⟩
              · exact .inl rfl

/-- A request that has no output yet goes on. -/
theorem Request.stops_prompt : r.stops maxModelLen r.promptTokenIds = false := by
  rw [stops, List.drop_length]
  unfold checkStop
  split
  · next heq =>
    split at heq
    · cases heq
      rfl
    · cases heq
  · rfl

/-! ## The loop -/

/-- The scheduler appends tokens until the request stops, and says which and whether it did. -/
theorem updateRequestWithOutput_eq (r : Request) (maxModelLen : Nat) (ts : List Int) :
    ∃ r' newTokenIds stopped, updateRequestWithOutput maxModelLen r ts =
      .ok (r', newTokenIds, stopped) ∧
      r'.allTokenIds = appendUntil (r.stops maxModelLen) r.allTokenIds ts ∧
      r'.allTokenIds = r.allTokenIds ++ newTokenIds ∧
      (stopped = false → r' = { r with outputTokenIds := r'.outputTokenIds } ∧
        (ts ≠ [] → r.stops maxModelLen r'.allTokenIds = false)) ∧
      (stopped = true → r'.finished ≠ none ∧ r.stops maxModelLen r'.allTokenIds = true) := by
  induction ts generalizing r with
  | nil =>
    exact ⟨r, [], false, rfl, rfl, (List.append_nil _).symm, fun _ => ⟨rfl, fun h => absurd rfl h⟩,
      nofun⟩
  | cons t ts ih =>
    have hne : (r.appendOutputTokenId t).outputTokenIds ≠ [] :=
      List.concat_ne_nil t r.outputTokenIds
    have hsame : (r.appendOutputTokenId t).stops maxModelLen = r.stops maxModelLen := rfl
    have hstops := @Request.stops_allTokenIds (r.appendOutputTokenId t) maxModelLen
    rw [hsame, Request.allTokenIds_append] at hstops
    rcases @checkStop_cases (r.appendOutputTokenId t) maxModelLen hne
      with hcheck | ⟨status, reason, hcheck⟩
    · obtain ⟨r', newTokenIds, stopped, hrun, happend, hnew, hgo, hend⟩ :=
        ih (r.appendOutputTokenId t)
      rw [hcheck] at hstops
      rw [Request.allTokenIds_append] at happend hnew
      refine ⟨r', t :: newTokenIds, stopped, ?_, ?_, ?_, ?_, hend⟩
      · simp only [updateRequestWithOutput, hcheck, hrun, bind, Except.bind, pure, Except.pure,
          Bool.false_eq_true, if_false]
      · rw [appendUntil, if_neg (Bool.eq_false_iff.1 hstops)]
        exact happend
      · rw [hnew, List.append_assoc, List.singleton_append]
      · intro hstopped
        obtain ⟨heq, hlast⟩ := hgo hstopped
        refine ⟨heq, fun _ => ?_⟩
        cases ts with
        | nil =>
          rw [happend]
          exact hstops
        | cons t' ts => exact hlast (List.cons_ne_nil t' ts)
    · rw [hcheck] at hstops
      have hall : Request.allTokenIds
          { r.appendOutputTokenId t with finished := some status, stopReason := reason } =
            r.allTokenIds ++ [t] :=
        @Request.allTokenIds_append r t
      refine ⟨_, [t], true, ?_, ?_, hall, fun h => absurd h.symm Bool.false_ne_true,
        fun _ => ⟨?_, ?_⟩⟩
      · simp only [updateRequestWithOutput, hcheck, bind, Except.bind, pure, Except.pure, if_true]
      · rw [appendUntil, if_pos hstops, hall]
      · exact Option.some_ne_none status
      · rw [hall]
        exact hstops

end AiPipelines.SpecDecode
