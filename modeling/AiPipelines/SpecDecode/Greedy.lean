import Mathlib.Logic.Relation
import AiPipelines.SpecDecode.Batch
import AiPipelines.SpecDecode.Output

/-!
# Greedy requests do not see the drafts

A step takes scheduled requests to the tokens that they keep, through all the flat
tensors of the batch.  The model is `logits`, which gives the logits behind a sequence of
tokens, and a greedy request takes the token that `argmax` finds in them.

* `sampleTokens_row`: a request gets what its row keeps, whatever the others are.
* `Step`: a step as a greedy request sees it.
* `run_decodes`: in every run a greedy request has tokens that the plain loop comes to,
  which appends one token in each round.
-/

namespace AiPipelines.SpecDecode

open Jetson Ragged Speculation

variable {L : Type}

/-- A request in a step.  One that is still being prefilled stands here with the tokens of its
prompt up to the end of the step, and what is sampled behind them is discarded.  The requests are
those without `min_tokens`: `MinTokensLogitsProcessor` would mask the stop tokens of the others, in
the row behind the drafts by another count than in the rows of the drafts. -/
structure Scheduled (L : Type) where
  request : Request
  numComputedTokens : Nat
  specTokenIds : List Int
  greedy : Bool
  sampler : L → Int
  accepted : List Bool
  recovered : List Int
  minTokens_zero : request.samplingParams.minTokens = 0
  computed_lt : numComputedTokens < request.allTokenIds.length
  length_accepted : accepted.length = specTokenIds.length
  length_recovered : recovered.length = specTokenIds.length

namespace Scheduled

variable (argmax : L → Int) (logits : List Int → L) (s : Scheduled L)

/-- The tokens that are not computed yet, and the drafts behind them. -/
def inputIds : List Int := (s.request.allTokenIds ++ s.specTokenIds).drop s.numComputedTokens

/-- The logits behind each of these tokens. -/
def tokenLogits : List L := (List.range s.inputIds.length).map fun i =>
  logits ((s.request.allTokenIds ++ s.specTokenIds).take (s.numComputedTokens + i + 1))

/-- The logits behind the tokens of the request and any number of its drafts. -/
def sampledLogits : List L := (List.range (s.specTokenIds.length + 1)).map fun i =>
  logits (s.request.allTokenIds ++ s.specTokenIds.take i)

theorem length_inputIds :
    s.inputIds.length = s.request.allTokenIds.length + s.specTokenIds.length -
      s.numComputedTokens := by
  rw [inputIds, List.length_drop, List.length_append]

theorem lt_length_inputIds : s.specTokenIds.length < s.inputIds.length := by
  have hlt := s.computed_lt
  rw [s.length_inputIds]
  omega

/-- The request as a row of the batch. -/
def row : Row where
  tokenIds := s.inputIds
  numDraftTokens := s.specTokenIds.length
  targetArgmax := (List.range s.specTokenIds.length).map fun i =>
    argmax (logits (s.request.allTokenIds ++ s.specTokenIds.take i))
  accepted := s.accepted
  recovered := s.recovered
  bonus := s.sampler (logits (s.request.allTokenIds ++ s.specTokenIds))
  greedy := s.greedy
  drafts_lt := s.lt_length_inputIds
  length_targetArgmax := by rw [List.length_map, List.length_range]
  length_accepted := s.length_accepted
  length_recovered := s.length_recovered

variable {argmax logits s}

theorem drafts_row : (s.row argmax logits).drafts = s.specTokenIds := by
  have hlt := s.computed_lt
  show s.inputIds.drop (s.inputIds.length - s.specTokenIds.length) = s.specTokenIds
  have hstart : s.numComputedTokens + (s.inputIds.length - s.specTokenIds.length) =
      s.request.allTokenIds.length := by
    rw [s.length_inputIds]
    omega
  rw [inputIds, List.drop_drop, ← inputIds, hstart, List.drop_left]

theorem length_tokenLogits : (s.tokenLogits logits).length = s.inputIds.length := by
  rw [tokenLogits, List.length_map, List.length_range]

/-- Of the logits in a step the last are sampled. -/
theorem tokenLogits_drop :
    (s.tokenLogits logits).drop (s.inputIds.length - (s.specTokenIds.length + 1)) =
      s.sampledLogits logits := by
  have hlt := s.computed_lt
  have hinput := s.length_inputIds
  apply List.ext_getElem?
  intro i
  rw [List.getElem?_drop, tokenLogits, sampledLogits, List.getElem?_map, List.getElem?_map]
  by_cases hi : i < s.specTokenIds.length + 1
  · have hpos : s.numComputedTokens + (s.inputIds.length - (s.specTokenIds.length + 1) + i) + 1 =
        s.request.allTokenIds.length + i := by
      omega
    rw [List.getElem?_range hi, List.getElem?_range (by omega), Option.map_some, Option.map_some,
      hpos, List.take_length_add_append]
  · rw [List.getElem?_eq_none (by rw [List.length_range]; omega),
      List.getElem?_eq_none (by rw [List.length_range]; omega)]
    rfl

theorem length_sampledLogits : (s.sampledLogits logits).length = s.specTokenIds.length + 1 := by
  rw [sampledLogits, List.length_map, List.length_range]

theorem getElem?_sampledLogits {i : Nat} (hi : i < s.specTokenIds.length + 1) :
    (s.sampledLogits logits)[i]? =
      some (logits (s.request.allTokenIds ++ s.specTokenIds.take i)) := by
  rw [sampledLogits, List.getElem?_map, List.getElem?_range hi, Option.map_some]

/-- A greedy request keeps tokens that follow each other. -/
theorem kept_follows (hgreedy : s.greedy = true) (hsampler : s.sampler = argmax) :
    Follows (fun xs => argmax (logits xs)) s.request.allTokenIds (s.row argmax logits).kept := by
  rw [Row.kept_greedy _ hgreedy, drafts_row]
  apply verify_follows
  · exact (s.row argmax logits).length_targetArgmax
  · intro i t ht
    have hi : i < s.specTokenIds.length := by
      have hlt := (List.getElem?_eq_some_iff.1 ht).1
      rwa [(s.row argmax logits).length_targetArgmax] at hlt
    rw [row, List.getElem?_map, List.getElem?_range hi, Option.map_some] at ht
    exact (Option.some.inj ht).symm
  · rw [← hsampler]
    rfl

end Scheduled

/-! ## A step -/

/-- The tensors of the step, in front of the model runner. -/
def executeModel (argmax : L → Int) (logits : List Int → L) (vocabSize : Nat)
    (discardReqIndices greedyOrder randomOrder : List Nat) (reqs : List (Scheduled L)) :
    Except TensorError (List (List Int)) :=
  sampleTokens argmax (reqs.map Scheduled.sampler) (reqs.map Scheduled.inputIds).flatten
    (reqs.map fun s => s.specTokenIds.length) (reqs.map fun s => s.inputIds.length)
    (reqs.map (Scheduled.tokenLogits logits)).flatten (reqs.map Scheduled.accepted).flatten
    (reqs.map Scheduled.recovered).flatten (reqs.map Scheduled.greedy) vocabSize discardReqIndices
      greedyOrder
    randomOrder

variable {argmax : L → Int} {logits : List Int → L} {vocabSize maxModelLen : Nat}
  {discardReqIndices greedyOrder randomOrder : List Nat} {reqs : List (Scheduled L)}

theorem le_foldl_max {a : Nat} {xs : List Nat} :
    a ≤ xs.foldl max a ∧ ∀ n ∈ xs, n ≤ xs.foldl max a := by
  induction xs generalizing a with
  | nil => exact ⟨Nat.le_refl a, nofun⟩
  | cons x xs ih =>
    obtain ⟨hle, hall⟩ := @ih (max a x)
    rw [List.foldl_cons]
    refine ⟨by omega, fun n hn => ?_⟩
    rcases List.mem_cons.1 hn with rfl | hn
    · omega
    · exact hall n hn

/-- The logits that are sampled. -/
theorem indexSelect_tokenLogits : indexSelect (reqs.map (Scheduled.tokenLogits logits)).flatten
    (indices 0 (reqs.map fun s => (s.inputIds.length, (List.range (s.specTokenIds.length + 1)).map
      (s.inputIds.length - (s.specTokenIds.length + 1) + ·)))) =
    .ok (reqs.map (Scheduled.sampledLogits logits)).flatten := by
  apply indexSelect_eq
  have hlengths :
      (reqs.map fun s => (s.inputIds.length, (List.range (s.specTokenIds.length + 1)).map
        (s.inputIds.length - (s.specTokenIds.length + 1) + ·))) =
      reqs.map fun s => ((s.tokenLogits logits).length, (List.range (s.specTokenIds.length + 1)).map
        (s.inputIds.length - (s.specTokenIds.length + 1) + ·)) :=
    List.map_congr_left fun s _ => by rw [Scheduled.length_tokenLogits]
  rw [hlengths]
  apply select
  intro s _
  have hle : s.specTokenIds.length + 1 ≤ (s.tokenLogits logits).length := by
    rw [Scheduled.length_tokenLogits]
    exact s.lt_length_inputIds
  have hlast := range_eq_drop hle
  rw [Scheduled.length_tokenLogits, Scheduled.tokenLogits_drop] at hlast
  rw [List.map_map]
  exact hlast

/-- Those of the drafts. -/
theorem indexSelect_target : indexSelect (reqs.map (Scheduled.sampledLogits logits)).flatten
    (indices 0 (reqs.map fun s => (s.specTokenIds.length + 1, List.range s.specTokenIds.length))) =
    .ok (reqs.map fun s => (List.range s.specTokenIds.length).map fun i =>
      logits (s.request.allTokenIds ++ s.specTokenIds.take i)).flatten := by
  apply indexSelect_eq
  simp only [← @Scheduled.length_sampledLogits L logits]
  apply select
  intro s _
  rw [List.map_map]
  apply List.map_congr_left
  intro i hi
  exact Scheduled.getElem?_sampledLogits (Nat.lt_succ_of_lt (List.mem_range.1 hi))

/-- Those behind all drafts. -/
theorem indexSelect_bonus : indexSelect (reqs.map (Scheduled.sampledLogits logits)).flatten
    (indices 0 (reqs.map fun s => (s.specTokenIds.length + 1, [s.specTokenIds.length]))) =
    .ok (reqs.map fun s => logits (s.request.allTokenIds ++ s.specTokenIds)) := by
  have hflat : (reqs.map fun s => logits (s.request.allTokenIds ++ s.specTokenIds)) =
      (reqs.map fun s => [logits (s.request.allTokenIds ++ s.specTokenIds)]).flatten := by
    rw [← List.flatMap_def, List.map_eq_flatMap]
  rw [hflat]
  apply indexSelect_eq
  simp only [← @Scheduled.length_sampledLogits L logits]
  apply select
  intro s _
  rw [List.map_singleton, List.map_singleton, Scheduled.getElem?_sampledLogits (Nat.lt_succ_self _),
    List.take_length]

theorem Row.output_zero {r : Row} (h : r.numDraftTokens = 0) : r.output 0 = [r.bonus] := by
  have hitems : r.items = [] := List.length_eq_zero_iff.1 (r.length_items.trans h)
  rw [Row.output, Row.kept, hitems]
  rfl

/-- A step without drafts. -/
theorem indexSelect_last (h : ∀ s ∈ reqs, s.specTokenIds.length = 0) :
    indexSelect (reqs.map (Scheduled.tokenLogits logits)).flatten
      ((cumsum (reqs.map fun s => s.inputIds.length)).map (· - 1)) =
    .ok (reqs.map fun s => logits (s.request.allTokenIds ++ s.specTokenIds)) := by
  have hpos : ∀ n ∈ reqs.map (fun s => s.inputIds.length), 0 < n := by
    intro n hn
    obtain ⟨s, -, rfl⟩ := List.mem_map.1 hn
    exact Nat.lt_of_le_of_lt (Nat.zero_le _) s.lt_length_inputIds
  have hindices : (reqs.map fun s => (s.inputIds.length, [s.inputIds.length - 1])) =
      reqs.map fun s => (s.inputIds.length, (List.range (s.specTokenIds.length + 1)).map
        (s.inputIds.length - (s.specTokenIds.length + 1) + ·)) :=
    List.map_congr_left fun s hs => by rw [h s hs]; rfl
  have hflat : (reqs.map (Scheduled.sampledLogits logits)).flatten =
      reqs.map fun s => logits (s.request.allTokenIds ++ s.specTokenIds) := by
    rw [← List.flatMap_def, List.map_eq_flatMap]
    apply List.flatMap_congr
    intro s hs
    rw [Scheduled.sampledLogits, List.length_eq_zero_iff.1 (h s hs)]
    rfl
  rw [cumsum, cumsum_sub_one 0 hpos, List.map_map]
  show indexSelect _ (indices 0 (reqs.map fun s => (s.inputIds.length, [s.inputIds.length - 1]))) =
    _
  rw [hindices, indexSelect_tokenLogits, hflat]

/-- Every request gets what its row keeps, whatever the others are and in whatever
order the programs run. -/
theorem executeModel_row (hgreedy : greedyOrder.Perm (List.range reqs.length))
    (hrandom : randomOrder.Perm (List.range reqs.length)) :
    ∃ out, executeModel argmax logits vocabSize discardReqIndices greedyOrder randomOrder reqs =
      .ok out ∧
      ∀ (i : Nat) (s : Scheduled L), reqs[i]? = some s →
        (∀ t ∈ (s.row argmax logits).kept, t ≠ placeholderTokenId ∧ t < vocabSize) →
        out[i]? = some (if i ∈ discardReqIndices then [] else (s.row argmax logits).kept) := by
  have hrow : ∀ {i : Nat} {s : Scheduled L}, reqs[i]? = some s →
      (reqs.map (Scheduled.row argmax logits))[i]? = some (s.row argmax logits) := by
    intro i s hs
    rw [List.getElem?_map, hs, Option.map_some]
  rw [executeModel, sampleTokens]
  simp only [List.length_map]
  split
  · have hmeta := @metadata_eq (reqs.map (Scheduled.row argmax logits))
    simp only [List.map_map, Function.comp_def, Scheduled.drafts_row] at hmeta
    simp only [Scheduled.row] at hmeta
    have hspec : ∀ r ∈ reqs.map (Scheduled.row argmax logits), r.numDraftTokens ≤
        (reqs.map fun s => s.specTokenIds.length).foldl max 0 := by
      intro r hr
      obtain ⟨s, hs, rfl⟩ := List.mem_map.1 hr
      exact le_foldl_max.2 _ (List.mem_map_of_mem hs)
    rw [← List.length_map (Scheduled.row argmax logits)] at hgreedy hrandom
    obtain ⟨out, hrun, hrows⟩ := rejectionSample_rows hspec hgreedy hrandom
    simp only [List.map_map, Function.comp_def, Scheduled.drafts_row] at hrun
    simp only [Scheduled.row, List.length_map] at hrun hrows
    simp only [hmeta, bind, Except.bind, indexSelect_tokenLogits, forward, indexSelect_bonus,
      indexSelect_target, List.map_flatten, List.map_map, Function.comp_def, List.zipWith_map,
      List.zipWith_self, SpecDecodeMetadata.maxSpecLen, hrun, hrows, pure, Except.pure]
    refine ⟨_, rfl, fun i s hs hvalid => ?_⟩
    have hout :=
      @getElem?_validSampledTokenIds _ _ i ((reqs.map fun s => s.specTokenIds.length).foldl max 0)
      vocabSize discardReqIndices (hrow hs) hvalid
    rwa [List.map_map] at hout
  · next hno =>
    have hzero : ∀ s ∈ reqs, s.specTokenIds.length = 0 := by
      intro s hs
      by_contra hne
      exact hno
        (List.any_eq_true.2 ⟨_, List.mem_map_of_mem hs, decide_eq_true (Nat.pos_of_ne_zero hne)⟩)
    have houtput :
        (reqs.map fun s => [s.sampler (logits (s.request.allTokenIds ++ s.specTokenIds))]) =
        (reqs.map (Scheduled.row argmax logits)).map fun r => r.output 0 := by
      rw [List.map_map]
      exact List.map_congr_left fun s hs =>
        (@Row.output_zero (s.row argmax logits) (hzero s hs)).symm
    simp only [indexSelect_last hzero, bind, Except.bind, List.zipWith_map, List.zipWith_self,
      houtput, pure, Except.pure]
    exact ⟨_, rfl, fun i s hs hvalid => getElem?_validSampledTokenIds (hrow hs) hvalid⟩

/-! ## Runs -/

/-- A step as a greedy request sees it: with other requests in any batch, and with any drafts.  No
request has `min_tokens`. -/
inductive Step (argmax : L → Int) (logits : List Int → L) (vocabSize maxModelLen : Nat) :
    Request → Request → Prop where
  | step {reqs : List (Scheduled L)} {discardReqIndices greedyOrder randomOrder : List Nat}
      {out : List (List Int)} {i : Nat} {s : Scheduled L} {r' : Request}
      {generatedTokenIds newTokenIds : List Int} {stopped : Bool}
      (hgreedyOrder : greedyOrder.Perm (List.range reqs.length))
      (hrandomOrder : randomOrder.Perm (List.range reqs.length))
      (hs : reqs[i]? = some s) (hgreedy : s.greedy = true) (hsampler : s.sampler = argmax)
      (hfinished : s.request.finished = none)
      (hout : executeModel argmax logits vocabSize discardReqIndices greedyOrder randomOrder reqs =
        .ok out)
      (hgenerated : out[i]? = some generatedTokenIds)
      (hupdate : updateRequestWithOutput maxModelLen s.request generatedTokenIds =
        .ok (r', newTokenIds, stopped)) :
      Step argmax logits vocabSize maxModelLen s.request r'

/-- The tokens of a request, against those of the plain loop. -/
structure OnTrack (next : List Int → Int) (maxModelLen : Nat) (r₀ r : Request) : Prop where
  decodes : Decodes next (r₀.stops maxModelLen) r₀.promptTokenIds r.allTokenIds
  going : r.finished = none →
    r = { r₀ with outputTokenIds := r.outputTokenIds } ∧ r₀.stops maxModelLen r.allTokenIds = false
  ended : r.finished ≠ none → r₀.stops maxModelLen r.allTokenIds = true

variable {r₀ r r' : Request}

/-- What a greedy request keeps is in the vocabulary. -/
theorem kept_valid (hvocab : ∀ l, 0 ≤ argmax l ∧ argmax l < vocabSize) {s : Scheduled L}
    (hgreedy : s.greedy = true) (hsampler : s.sampler = argmax) :
    ∀ t ∈ (s.row argmax logits).kept, t ≠ placeholderTokenId ∧ t < vocabSize := by
  intro t ht
  obtain ⟨i, hi, rfl⟩ := List.getElem_of_mem ht
  rw [Scheduled.kept_follows hgreedy hsampler i _ (List.getElem?_eq_getElem hi)]
  obtain ⟨hlo, hhi⟩ := hvocab (logits (s.request.allTokenIds ++ (s.row argmax logits).kept.take i))
  refine ⟨fun hplaceholder => ?_, hhi⟩
  have hminus : argmax (logits (s.request.allTokenIds ++ (s.row argmax logits).kept.take i)) = -1 :=
    hplaceholder
  omega

/-- A step gives a greedy request tokens that follow, or none at all. -/
theorem generated_follows (hvocab : ∀ l, 0 ≤ argmax l ∧ argmax l < vocabSize)
    (hgreedyOrder : greedyOrder.Perm (List.range reqs.length))
    (hrandomOrder : randomOrder.Perm (List.range reqs.length)) {out : List (List Int)} {i : Nat}
    {s : Scheduled L} {generatedTokenIds : List Int} (hs : reqs[i]? = some s)
    (hgreedy : s.greedy = true) (hsampler : s.sampler = argmax)
    (hout : executeModel argmax logits vocabSize discardReqIndices greedyOrder randomOrder reqs =
      .ok out)
    (hgenerated : out[i]? = some generatedTokenIds) :
    Follows (fun xs => argmax (logits xs)) s.request.allTokenIds generatedTokenIds := by
  obtain ⟨out', hout', hrows⟩ :=
    @executeModel_row L argmax logits vocabSize discardReqIndices _ _ reqs
    hgreedyOrder hrandomOrder
  obtain rfl := Except.ok.inj (hout.symm.trans hout')
  have hkept := hrows i s hs (kept_valid hvocab hgreedy hsampler)
  obtain rfl := Option.some.inj (hgenerated.symm.trans hkept)
  split
  · exact fun j t ht => by simp at ht
  · exact Scheduled.kept_follows hgreedy hsampler

/-- The scheduler keeps a request on track with tokens that follow. -/
theorem OnTrack.update {next : List Int → Int} {ts newTokenIds : List Int} {stopped : Bool}
    (h : OnTrack next maxModelLen r₀ r) (hfinished : r.finished = none)
    (hfollows : Follows next r.allTokenIds ts)
    (hupdate : updateRequestWithOutput maxModelLen r ts = .ok (r', newTokenIds, stopped)) :
    OnTrack next maxModelLen r₀ r' := by
  obtain ⟨hsame, hgo⟩ := h.going hfinished
  have hstops : r.stops maxModelLen = r₀.stops maxModelLen := by
    rw [hsame]
    rfl
  obtain ⟨r'', newTokenIds', stopped', hrun, happend, -, hgoes, hends⟩ :=
    updateRequestWithOutput_eq r maxModelLen ts
  rw [hupdate] at hrun
  cases hrun
  rw [hstops] at happend hgoes hends
  have hdecodes := h.decodes.extend hgo hfollows
  rw [← happend] at hdecodes
  cases stopped with
  | true =>
    obtain ⟨hfin, hstop⟩ := hends rfl
    exact ⟨hdecodes, fun hnone => absurd hnone hfin, fun _ => hstop⟩
  | false =>
    obtain ⟨heq, hlast⟩ := hgoes rfl
    have hnone : r'.finished = none := by
      rw [heq]
      exact hfinished
    refine ⟨hdecodes, fun _ => ⟨?_, ?_⟩, fun hfin => absurd hnone hfin⟩
    · rw [heq, hsame]
    · by_cases hnil : ts = []
      · rw [hnil] at happend
        rw [happend]
        exact hgo
      · exact hlast hnil

theorem OnTrack.step (hvocab : ∀ l, 0 ≤ argmax l ∧ argmax l < vocabSize)
    (h : OnTrack (fun xs => argmax (logits xs)) maxModelLen r₀ r)
    (hstep : Step argmax logits vocabSize maxModelLen r r') :
    OnTrack (fun xs => argmax (logits xs)) maxModelLen r₀ r' := by
  cases hstep with
  | step hgreedyOrder hrandomOrder hs hgreedy hsampler hfinished hout hgenerated hupdate =>
    have hfollows :=
      generated_follows hvocab hgreedyOrder hrandomOrder hs hgreedy hsampler hout hgenerated
    exact h.update hfinished hfollows hupdate

/-- In every run a greedy request has tokens that the plain loop comes to. -/
theorem run_onTrack (hvocab : ∀ l, 0 ≤ argmax l ∧ argmax l < vocabSize)
    (hnew : r₀.outputTokenIds = []) (hwaiting : r₀.finished = none)
    (hrun : Relation.ReflTransGen (Step argmax logits vocabSize maxModelLen) r₀ r) :
    OnTrack (fun xs => argmax (logits xs)) maxModelLen r₀ r := by
  have hprompt : r₀.allTokenIds = r₀.promptTokenIds := by
    rw [Request.allTokenIds, hnew, List.append_nil]
  induction hrun with
  | refl =>
    refine ⟨?_, fun _ => ⟨rfl, ?_⟩, fun h => absurd hwaiting h⟩
    · rw [hprompt]
      exact .refl
    · rw [hprompt]
      exact r₀.stops_prompt
  | tail _ hstep ih => exact ih.step hvocab hstep

/-- A greedy request has the tokens of the plain loop in every run, and all runs that
bring it to its end give the same tokens, whatever was drafted and whatever was in
the batch. -/
theorem run_decodes (hvocab : ∀ l, 0 ≤ argmax l ∧ argmax l < vocabSize)
    (hnew : r₀.outputTokenIds = []) (hwaiting : r₀.finished = none)
    (hrun : Relation.ReflTransGen (Step argmax logits vocabSize maxModelLen) r₀ r) :
    Decodes (fun xs => argmax (logits xs)) (r₀.stops maxModelLen) r₀.promptTokenIds r.allTokenIds ∧
      ∀ r', Relation.ReflTransGen (Step argmax logits vocabSize maxModelLen) r₀ r' →
        r.finished ≠ none → r'.finished ≠ none → r'.allTokenIds = r.allTokenIds := by
  have htrack := run_onTrack hvocab hnew hwaiting hrun
  refine ⟨htrack.decodes, fun r' hrun' hend hend' => ?_⟩
  have htrack' := run_onTrack hvocab hnew hwaiting hrun'
  exact htrack'.decodes.unique htrack.decodes (htrack'.ended hend') (htrack.ended hend)

/-! ## A run -/

/-- A model that counts the tokens. -/
def countTokens (xs : List Int) : Int := xs.length % 100

def demoRequest : Request where
  promptTokenIds := [1, 2]
  outputTokenIds := []
  samplingParams := ⟨0, none, [], none⟩
  maxTokens := 3

/-- The first draft is right and the second one is wrong. -/
def draftedRequest : Scheduled (List Int) where
  request := demoRequest
  numComputedTokens := 1
  specTokenIds := [2, 7]
  greedy := true
  sampler := countTokens
  accepted := [true, true]
  recovered := [0, 0]
  minTokens_zero := rfl
  computed_lt := by decide
  length_accepted := rfl
  length_recovered := rfl

/-- A random request, whose draft is rejected. -/
def otherRequest : Scheduled (List Int) where
  request := { demoRequest with promptTokenIds := [9] }
  numComputedTokens := 0
  specTokenIds := [8]
  greedy := false
  sampler := fun _ => 5
  accepted := [false]
  recovered := [6]
  minTokens_zero := rfl
  computed_lt := by decide
  length_accepted := rfl
  length_recovered := rfl

/-- The first request one step later, without drafts. -/
def plainRequest : Scheduled (List Int) where
  request := { demoRequest with outputTokenIds := [2, 3] }
  numComputedTokens := 3
  specTokenIds := []
  greedy := true
  sampler := countTokens
  accepted := []
  recovered := []
  minTokens_zero := rfl
  computed_lt := by decide
  length_accepted := rfl
  length_recovered := rfl

theorem draftedRequest_step :
    Step countTokens id 100 16 demoRequest { demoRequest with outputTokenIds := [2, 3] } := by
  have horder : [1, 0].Perm (List.range [draftedRequest, otherRequest].length) := by decide
  have hs : [draftedRequest, otherRequest][0]? = some draftedRequest := rfl
  have hout : executeModel countTokens id 100 [] [1, 0] [1, 0] [draftedRequest, otherRequest] =
      .ok [[2, 3], [6]] := rfl
  exact .step horder horder hs rfl rfl rfl hout rfl rfl

theorem plainRequest_step : Step countTokens id 100 16 { demoRequest with outputTokenIds := [2, 3] }
    { demoRequest with outputTokenIds := [2, 3, 4], finished := some .lengthCapped } := by
  have horder : [0].Perm (List.range [plainRequest].length) := by decide
  have hs : [plainRequest][0]? = some plainRequest := rfl
  have hout : executeModel countTokens id 100 [] [0] [0] [plainRequest] = .ok [[4]] := rfl
  exact .step horder horder hs rfl rfl rfl hout rfl rfl

theorem run_decodes_demo : ∃ r, Relation.ReflTransGen (Step countTokens id 100 16) demoRequest r ∧
    r.finished = some .lengthCapped ∧ r.allTokenIds = [1, 2, 2, 3, 4] ∧
    Decodes (fun xs => countTokens (id xs)) (demoRequest.stops 16) [1, 2] [1, 2, 2, 3, 4] ∧
    ∀ r', Relation.ReflTransGen (Step countTokens id 100 16) demoRequest r' → r'.finished ≠ none →
      r'.allTokenIds = [1, 2, 2, 3, 4] := by
  have hvocab : ∀ l, 0 ≤ countTokens l ∧ countTokens l < (100 : Nat) := by
    intro l
    rw [countTokens]
    omega
  have hrun := (Relation.ReflTransGen.single draftedRequest_step).tail plainRequest_step
  obtain ⟨hdecodes, hunique⟩ := run_decodes hvocab rfl rfl hrun
  exact ⟨_, hrun, rfl, rfl, hdecodes,
    fun r' hrun' hend' => hunique r' hrun' (Option.some_ne_none _) hend'⟩

end AiPipelines.SpecDecode
