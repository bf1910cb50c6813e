import AiPipelines.PyStd.JsonKeys
import AiPipelines.SessionStore.Codec
import AiPipelines.Turn.Frame

/-!
# What is recorded of a turn

The record of a turn holds what the language model wrote: the arguments of the
tool calls are JSON that was read from its output.  `json.loads` gives
dictionaries, so no key is there twice, and the dictionaries that the server
builds around them have distinct keys as well.

`runTurn_meta` and `voiceTurn_meta` say so for `agent_meta`, and `record_valid` for
the whole `TurnRecord`.
-/

namespace AiPipelines.Turn

open PyStd SessionStore Agent

/-! ## Tool calls -/

theorem loadToolCallPayload_distinct {depth : Nat} {text : Str} {payload : Dict Str Json}
    (h : loadToolCallPayload depth text = .ok (some payload)) :
    Json.DistinctKeys (.obj payload) := by
  unfold loadToolCallPayload at h
  split at h
  · cases h
  · cases h
  · next kvs hloads =>
    split_ifs at h
    · obtain rfl : kvs = payload := Option.some.inj (Except.ok.inj h)
      exact Json.loads_distinctKeys hloads
    · cases h
  · cases h

theorem lineToolCall_distinct {depth : Nat} {lines : List Str} {payload : Dict Str Json}
    (h : lineToolCall depth lines = .ok (some payload)) : Json.DistinctKeys (.obj payload) := by
  induction lines with
  | nil => cases h
  | cons line lines ih =>
    rw [lineToolCall] at h
    split_ifs at h
    · split at h
      · exact ih h
      · exact loadToolCallPayload_distinct h
    · exact ih h

theorem parseToolCall_distinct {depth : Nat} {text : Str} {payload : Dict Str Json}
    (h : parseToolCall depth text = .ok (some payload)) : Json.DistinctKeys (.obj payload) := by
  unfold parseToolCall at h
  split at h
  · split at h
    · cases h
    · exact loadToolCallPayload_distinct h
  · exact lineToolCall_distinct h

theorem toolArguments_distinct {toolCall : Dict Str Json}
    (h : Json.DistinctKeys (.obj toolCall)) :
    Json.DistinctKeys (.obj (toolArguments toolCall)) := by
  unfold toolArguments
  split
  · next arguments harguments =>
    exact Json.distinctKeysPairs_iff.mp h.2 _ (Dict.mem_of_get? harguments)
  · exact ⟨List.nodup_nil, trivial⟩

/-- No call has a repeated key in its arguments. -/
def CallsDistinct (calls : List ToolCall) : Prop :=
  ∀ c ∈ calls, Json.DistinctKeys (.obj c.arguments)

section Agent

variable {a : AgentService} {w : AgentWorld}

theorem agentLoop_calls (system : Str) (rounds step : Nat) (p : Progress)
    (hp : CallsDistinct p.toolCalls) :
    Eff.Triple (fun _ => True) (agentLoop a w system rounds step p) (fun _ => True)
      (fun ended _ => ∀ ragSources, CallsDistinct (ended.result ragSources).toolCalls)
      (fun _ _ => True) := by
  induction rounds generalizing step p with
  | zero => exact Eff.Triple.pure fun _ _ _ => hp
  | succ rounds ih =>
    unfold agentLoop
    refine Eff.Triple.bind (llmComplete_spec trivial fun _ _ _ _ => trivial) fun raw => ?_
    refine Eff.Triple.conseq (P := fun _ => True) ?_ (fun _ _ => trivial) fun _ _ h => h
    cases parseFinal raw with
    | some final => exact Eff.Triple.pure fun _ _ _ => hp
    | none =>
      apply Eff.Triple.ofExcept_bind
      · intro toolCall htool
        cases toolCall with
        | none => exact Eff.Triple.pure fun _ _ _ => hp
        | some call =>
          have hcall : Json.DistinctKeys (.obj call) :=
            parseToolCall_distinct (mapError_eq_ok htool)
          refine Eff.Triple.bind (Eff.Triple.any _) fun result => ?_
          apply ih
          intro c hc
          rcases List.mem_append.mp hc with hc | hc
          · exact hp c hc
          · rw [List.mem_singleton.mp hc]
            exact toolArguments_distinct hcall
      · intro _ _ _ _
        trivial

theorem autoWebSearch_calls (transcript : Str) :
    Eff.Triple (fun _ => True) (autoWebSearch a w transcript) (fun _ => True)
      (fun web _ => CallsDistinct web.2) (fun _ _ => True) := by
  unfold autoWebSearch
  split_ifs
  · refine Eff.Triple.bind (Eff.Triple.any _) fun result => ?_
    apply Eff.Triple.pure
    intro _ _ c hc
    rw [List.mem_singleton.mp hc]
    exact ⟨List.nodup_singleton _, trivial, trivial⟩
  · exact Eff.Triple.pure fun _ _ c hc => absurd hc List.not_mem_nil

theorem run_calls (systemPrompt transcript : Str) (history : List ChatMessage) :
    Eff.Triple (fun _ => True) (a.run w systemPrompt transcript history) (fun _ => True)
      (fun result _ => CallsDistinct result.toolCalls) (fun _ _ => True) := by
  unfold AgentService.run
  apply Eff.Triple.ofExcept_bind
  · intro ragHits _
    refine Eff.Triple.bind (autoWebSearch_calls transcript) fun web => ?_
    refine Eff.Triple.assume (fun _ h => h) fun hweb => ?_
    refine Eff.Triple.conseq (P := fun _ => True) ?_ (fun _ _ => trivial) fun _ _ h => h
    refine Eff.Triple.bind (agentLoop_calls _ _ _ _ hweb) fun ended => ?_
    exact Eff.Triple.pure fun _ h => h _
  · intro _ _ _ _
    trivial

end Agent

/-! ## The dictionaries of the server -/

theorem toolCallJson_distinct {c : ToolCall} (h : Json.DistinctKeys (.obj c.arguments)) :
    Json.DistinctKeys (toolCallJson c) := by
  unfold toolCallJson
  cases c.auto with
  | true =>
    refine ⟨?_, trivial, h, trivial, trivial, trivial⟩
    show (["name", "arguments", "result", "auto"] : List Str).Nodup
    decide
  | false =>
    refine ⟨?_, trivial, h, trivial, trivial⟩
    show (["name", "arguments", "result"] : List Str).Nodup
    decide

theorem llmCallJson_distinct (c : LlmCallRecord) : Json.DistinctKeys (llmCallJson c) := by
  refine ⟨?_, trivial, trivial, trivial, trivial, trivial, trivial, trivial, trivial⟩
  show (["call_index", "system_chars", "messages_chars", "prompt_chars", "prompt_tokens_est",
    "output_chars", "output_tokens_est"] : List Str).Nodup
  decide

theorem llmUsageJson_distinct (u : LlmUsage) : Json.DistinctKeys (llmUsageJson u) := by
  refine ⟨?_, trivial, trivial, trivial, trivial, trivial, trivial, trivial, ?_, trivial⟩
  · show (["llm_calls", "prompt_chars", "prompt_tokens_est", "system_chars", "messages_chars",
      "output_chars", "output_tokens_est", "calls"] : List Str).Nodup
    decide
  · show Json.DistinctKeysItems (u.calls.map llmCallJson)
    rw [Json.distinctKeysItems_iff, List.forall_mem_map]
    exact fun c _ => llmCallJson_distinct c

theorem runnerMeta_distinct (w : TurnWorld) {result : AgentResult} {mem : Memory}
    (hcalls : CallsDistinct result.toolCalls) (hmem : mem.keys.Nodup) :
    Json.DistinctKeys (.obj (runnerMeta w result mem)) := by
  have hsources : Json.DistinctKeys (.arr (result.ragSources.map .str)) := by
    rw [Json.DistinctKeys, Json.distinctKeysItems_iff, List.forall_mem_map]
    exact fun _ _ => trivial
  have htools : Json.DistinctKeys (.arr (result.toolCalls.map toolCallJson)) := by
    rw [Json.DistinctKeys, Json.distinctKeysItems_iff, List.forall_mem_map]
    exact fun c hc => toolCallJson_distinct (hcalls c hc)
  refine ⟨?_, hsources, htools, trivial, trivial, distinctKeys_memory hmem,
    llmUsageJson_distinct _, trivial⟩
  show (["rag_sources", "tool_calls", "agent_steps", "agent_s", "session_memory",
    "llm_usage"] : List Str).Nodup
  decide

/-! ## The stages -/

section Stages

variable {r : Ref} {id : Str} {w : TurnWorld} {v : PipelineService}

/-- The memory of the object is a dictionary. -/
def MemoryDict (r : Ref) (st : Store) : Prop := (memoryOf r st).keys.Nodup

theorem putMemory_dict {mem : Memory} (h : mem.keys.Nodup) (st : Store) :
    MemoryDict r (putMemory r mem st) := by
  unfold MemoryDict memoryOf putMemory
  rw [Store.deref_mutate]
  cases st.deref r with
  | none => exact List.nodup_nil
  | some s => exact h

/-- What is known of `agent_meta` after a stage. -/
def MetaDistinct (agentMeta : Dict Str Json) : Prop := Json.DistinctKeys (.obj agentMeta)

theorem answer_meta (agent : Option AgentService) (systemPrompt transcript : Str)
    (history : List ChatMessage) :
    Eff.Triple (MemoryDict r) (answer w r agent systemPrompt transcript history) (fun _ => True)
      (fun a _ => MetaDistinct a.agentMeta) (fun _ _ => True) := by
  cases agent with
  | none =>
    refine Eff.Triple.bind (Eff.Triple.emit trivial) fun _ => ?_
    apply Eff.Triple.ofExcept_bind
    · intro pieces _
      apply Eff.Triple.pure
      intro _ _
      exact ⟨List.nodup_singleton _, llmUsageJson_distinct _, trivial⟩
    · intro _ _ _ _
      trivial
  | some a =>
    refine Eff.Triple.bind (R := fun result st => CallsDistinct result.toolCalls ∧ MemoryDict r st)
      ?_ fun result => ?_
    · apply Eff.Triple.zoom
      intro st hst
      have hcalls : Eff.Triple (fun mem => mem = memoryOf r st)
          (a.run w.toAgentWorld systemPrompt transcript history) (fun _ => True)
          (fun result _ => CallsDistinct result.toolCalls) (fun _ _ => True) :=
        Eff.Triple.conseq (run_calls systemPrompt transcript history) (fun _ _ => trivial)
          fun _ _ h => h
      apply Eff.Triple.weaken
        ((run_memory_spec systemPrompt transcript history (memoryOf r st)).and hcalls)
      · intro result mem h
        refine ⟨h.2, putMemory_dict ?_ st⟩
        rw [h.1]
        exact Dict.nodup_keys_update hst
      · intro _ _ _
        trivial
    · refine Eff.Triple.bind Eff.Triple.read fun st => ?_
      refine Eff.Triple.assume (φ := CallsDistinct result.toolCalls ∧ MemoryDict r st) ?_
        fun hst => ?_
      · intro s hs
        rw [hs.1]
        exact hs.2
      · refine Eff.Triple.bind (Eff.Triple.any _) fun _ => ?_
        apply Eff.Triple.pure
        intro _ _
        exact runnerMeta_distinct w hst.1 hst.2

theorem stagedTurn_meta (input : TurnInput) (history : List ChatMessage) (outWav : Option Str)
    (agent : Option AgentService) (systemPrompt modelId : Str) :
    Eff.Triple (MemoryDict r)
      (stagedTurn w r id input history outWav agent systemPrompt modelId) (fun _ => True)
      (fun profile _ => MetaDistinct profile.agentMeta) (fun _ _ => True) := by
  apply Eff.Triple.ofExcept_bind
  · intro transcript _
    refine Eff.Triple.bind (answer_meta agent systemPrompt transcript history) fun a => ?_
    refine Eff.Triple.assume (fun _ h => h) fun ha => ?_
    exact Eff.Triple.bind (Eff.Triple.any _) fun _ => Eff.Triple.pure fun _ _ => ha
  · intro _ _ _ _
    trivial

theorem runTurn_meta (input : TurnInput) (history : List ChatMessage)
    (outWav llmModel : Option Str) (toolsEnabled : Bool) :
    Eff.Triple (MemoryDict r) (v.runTurn w r id input history outWav llmModel toolsEnabled)
      (fun _ => True) (fun profile _ => MetaDistinct profile.agentMeta) (fun _ _ => True) := by
  apply Eff.Triple.ofExcept_bind
  · intro _ _
    apply Eff.Triple.ofExcept_bind
    · intro model _
      exact stagedTurn_meta _ _ _ _ _ _
    · intro _ _ _ _
      trivial
  · intro _ _ _ _
    trivial

theorem writeAudio_dict (name : Str) :
    Eff.Triple (MemoryDict r) (writeAudio id name) (fun _ => True) (fun _ => MemoryDict r)
      (fun _ _ => True) := by
  apply Eff.Triple.act
  intro st h
  cases hwrite : st.writeFile id name .raw with
  | none => trivial
  | some st₁ =>
    obtain ⟨d, -, rfl⟩ := Option.map_eq_some_iff.mp hwrite
    exact h

theorem writeStage_dict (writes : Bool) (outcome : Except Exc Unit) (name : Str) :
    Eff.Triple (MemoryDict r) (writeStage writes outcome id name) (fun _ => True)
      (fun _ => MemoryDict r) (fun _ _ => True) := by
  have hend : Eff.Triple (MemoryDict r) (Eff.ofExcept outcome : TurnProg Unit) (fun _ => True)
      (fun _ => MemoryDict r) (fun _ _ => True) :=
    Eff.Triple.ofExcept (fun _ _ _ h => h) fun _ _ _ _ => trivial
  unfold writeStage
  split_ifs
  · exact Eff.Triple.bind (writeAudio_dict name) fun _ => hend
  · exact hend

theorem voiceTurn_meta (suffix : Str) (s : Session) (llmModel : Option Str) (useTools : Bool) :
    Eff.Triple (MemoryDict r) (voiceTurn v w r id suffix s llmModel useTools) (fun _ => True)
      (fun profile _ => MetaDistinct profile.agentMeta) (fun _ _ => True) := by
  refine Eff.Triple.bind (writeStage_dict _ _ _) fun _ => ?_
  refine Eff.Triple.bind (writeStage_dict _ _ _) fun _ => ?_
  exact runTurn_meta _ _ _ _ _

end Stages

/-! ## The record -/

/-- A dictionary of values without repeated keys stays one. -/
theorem update_distinct {d e : Dict Str Json} (hd : MetaDistinct d)
    (he : ∀ kv ∈ e, Json.DistinctKeys kv.2) : MetaDistinct (d.update e) := by
  refine ⟨Dict.nodup_keys_update hd.1, ?_⟩
  have hvalues : ∀ kv ∈ d, Json.DistinctKeys kv.2 := Json.distinctKeysPairs_iff.mp hd.2
  rw [Json.distinctKeysPairs_iff]
  clear hd
  induction e generalizing d with
  | nil => exact hvalues
  | cons kv e ih =>
    obtain ⟨hkv, he⟩ := List.forall_mem_cons.mp he
    exact ih he (Json.forall_mem_set hvalues kv.1 hkv)

theorem timings_distinct (w : TurnWorld) : Json.DistinctKeys (.obj (timings w)) := by
  refine ⟨?_, trivial, trivial, trivial, trivial, trivial⟩
  show (["asr_s", "llm_ttft_s", "llm_generation_s", "tts_s"] : List Str).Nodup
  decide

theorem record_valid (w : TurnWorld) {i : TurnInfo} (hmeta : MetaDistinct i.profile.agentMeta)
    (hmode : i.inputMode ≠ []) : (i.record w).Valid where
  inputMode := hmode
  timings := timings_distinct w
  agent := by
    apply update_distinct hmeta
    rw [← Json.distinctKeysPairs_iff]
    exact ⟨trivial, trivial, trivial, llmUsageJson_distinct _, trivial, trivial⟩

end AiPipelines.Turn
