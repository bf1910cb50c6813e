import AiPipelines.Agent.Registry
import AiPipelines.PyStd.Joined

/-!
# What the agent does, in order

The trace of `AgentService.run` has the calls of the language model and those of
the tools.  `LoopTrace` describes it for the loop: the outputs up to some round ask
for tools, each call is followed by its tool, and the messages of the next call are
those of this one with the output and the answer of the tool behind them.  If the
rounds are not used up, there is one more call, whose output asks for no tool.

`agentLoopShared_trace` proves it for every world, and `runShared_trace` adds what
happens before the loop.
-/

namespace AiPipelines.Agent

open PyStd SessionStore

/-! ## The outputs -/

/-- The output of call `k`. -/
def output (w : AgentWorld) (k : Nat) : Str :=
  match w.llm k with
  | .ok pieces => pieces.flatten
  | .error _ => []

/-- Output `k` asks for the tool. -/
structure AsksFor (w : AgentWorld) (k : Nat) (call : Dict Str Json) : Prop where
  llm : ∃ pieces, w.llm k = .ok pieces
  final : parseFinal (output w k) = none
  tool : parseToolCall w.jsonDepth (output w k) = .ok (some call)

/-- Output `k` asks for a tool. -/
def IsToolCall (w : AgentWorld) (k : Nat) : Prop := ∃ call, AsksFor w k call

theorem output_eq {w : AgentWorld} {k : Nat} {pieces : List Str} (h : w.llm k = .ok pieces) :
    output w k = pieces.flatten := by
  unfold output
  rw [h]

/-! ## Traces -/

/-- The messages behind those of a call whose output asked for the tool. -/
def answered (raw : Str) (t : ToolEvent) : List ChatMessage :=
  [⟨.assistant, strip raw⟩, ⟨.user, toolResultMessage t.name t.answer⟩]

/-- The messages after the tools have been run, from round `step` on. -/
def messagesAfter (w : AgentWorld) : Nat → List ChatMessage → List ToolEvent → List ChatMessage
  | _, messages, [] => messages
  | step, messages, t :: ts =>
    messagesAfter w (step + 1) (messages ++ answered (output w step) t) ts

/-- The rounds in which the tools are run. -/
def roundEvents (w : AgentWorld) (system : Str) :
    Nat → List ChatMessage → List ToolEvent → List AgentEvent
  | _, _, [] => []
  | step, messages, t :: ts =>
    .llm ⟨system, messages⟩ :: .tool t ::
      roundEvents w system (step + 1) (messages ++ answered (output w step) t) ts

/-- The tool is run as the call says, on some memory. -/
structure Runs (g : ToolRegistry) (tw : ToolWorld) (call : Dict Str Json) (t : ToolEvent) :
    Prop where
  name : t.name = toolName tw call
  arguments : t.arguments = toolArguments call
  answer : ∃ mem, t.answer = (g.run tw mem t.name t.arguments).1

/-- The trace `es` of the loop with the given rounds left, in which the tools `ts` are
run. -/
structure LoopTrace (g : ToolRegistry) (w : AgentWorld) (system : Str) (rounds step : Nat)
    (messages : List ChatMessage) (ts : List ToolEvent) (es : List AgentEvent) : Prop where
  le : ts.length ≤ rounds
  asked : ∀ k t, ts[k]? = some t →
    ∃ call, AsksFor w (step + k) call ∧ Runs g (w.tools (step + k + 1)) call t
  stops : ts.length < rounds → ¬ IsToolCall w (step + ts.length)
  events : es = roundEvents w system step messages ts ++
    if ts.length < rounds then [.llm ⟨system, messagesAfter w step messages ts⟩] else []

variable {a : AgentService} {g : ToolRegistry} {w : AgentWorld} {system : Str} {rounds step : Nat}
  {messages : List ChatMessage} {ts : List ToolEvent} {es : List AgentEvent}

/-- No rounds are left. -/
theorem LoopTrace.exhausted : LoopTrace g w system 0 step messages [] [] :=
  ⟨Nat.le_refl 0, nofun, nofun, rfl⟩

/-- The last call. -/
theorem LoopTrace.last (h : ¬ IsToolCall w step) :
    LoopTrace g w system (rounds + 1) step messages [] [.llm ⟨system, messages⟩] :=
  ⟨Nat.zero_le _, nofun, fun _ => h, rfl⟩

/-- A round with a tool. -/
theorem LoopTrace.round {call : Dict Str Json} {t : ToolEvent} (hcall : AsksFor w step call)
    (hruns : Runs g (w.tools (step + 1)) call t)
    (h : LoopTrace g w system rounds (step + 1) (messages ++ answered (output w step) t) ts es) :
    LoopTrace g w system (rounds + 1) step messages (t :: ts)
      (.llm ⟨system, messages⟩ :: .tool t :: es) where
  le := Nat.succ_le_succ h.le
  asked := by
    intro k t' hk
    cases k with
    | zero =>
      obtain rfl : t = t' := Option.some.inj hk
      exact ⟨call, hcall, hruns⟩
    | succ k =>
      have hrest := h.asked k t' hk
      rw [show step + 1 + k = step + (k + 1) by omega] at hrest
      exact hrest
  stops := by
    intro hlt
    have hrest := h.stops (Nat.lt_of_succ_lt_succ hlt)
    rw [show step + 1 + ts.length = step + (ts.length + 1) by omega] at hrest
    exact hrest
  events := by
    rw [h.events, roundEvents, messagesAfter, List.length_cons]
    simp only [Nat.succ_lt_succ_iff]
    rfl

/-! ## The loop -/

theorem llmCompleteShared_ok {pieces : List Str} (h : w.llm step = .ok pieces) (ms : Memories) :
    llmCompleteShared w step system messages ms =
      (.ok (output w step), ms, [.llm ⟨system, messages⟩]) := by
  unfold llmCompleteShared
  rw [h, output_eq h]
  rfl

theorem llmCompleteShared_error {e : Exc} (h : w.llm step = .error e) (ms : Memories) :
    llmCompleteShared w step system messages ms = (.error e, ms, [.llm ⟨system, messages⟩]) := by
  unfold llmCompleteShared
  rw [h]
  rfl

theorem not_isToolCall_of_error {e : Exc} (h : w.llm step = .error e) : ¬ IsToolCall w step := by
  intro hcall
  obtain ⟨call, hasks⟩ := hcall
  obtain ⟨pieces, hok⟩ := hasks.llm
  rw [h] at hok
  cases hok

theorem not_isToolCall_of_final {final : Str} (h : parseFinal (output w step) = some final) :
    ¬ IsToolCall w step := by
  intro hcall
  obtain ⟨call, hasks⟩ := hcall
  rw [hasks.final] at h
  cases h

theorem not_isToolCall_of_parse
    (h : ∀ call, parseToolCall w.jsonDepth (output w step) ≠ .ok (some call)) :
    ¬ IsToolCall w step := by
  intro hcall
  obtain ⟨call, hasks⟩ := hcall
  exact h call hasks.tool

/-- The loop, whatever the language model answers. -/
theorem agentLoopShared_trace (a : AgentService) (w : AgentWorld) (system : Str)
    (rounds step : Nat) (p : Progress) (ms : Memories) :
    ∃ ts, LoopTrace a.tools w system rounds step p.messages ts
      (agentLoopShared a w system rounds step p ms).2.2 := by
  induction rounds generalizing step p ms with
  | zero => exact ⟨[], .exhausted⟩
  | succ rounds ih =>
    rw [agentLoopShared]
    cases hllm : w.llm step with
    | error e =>
      rw [Eff.bind_error (llmCompleteShared_error hllm ms)]
      exact ⟨[], .last (not_isToolCall_of_error hllm)⟩
    | ok pieces =>
      rw [Eff.bind_eq (llmCompleteShared_ok hllm ms)]
      dsimp only
      cases hfinal : parseFinal (output w step) with
      | some final => exact ⟨[], .last (not_isToolCall_of_final hfinal)⟩
      | none =>
        unfold readToolCallShared
        cases hparse : parseToolCall w.jsonDepth (output w step) with
        | error e =>
          refine ⟨[], .last (not_isToolCall_of_parse ?_)⟩
          intro call hcall
          rw [hparse] at hcall
          cases hcall
        | ok toolCall =>
          cases toolCall with
          | none =>
            refine ⟨[], .last (not_isToolCall_of_parse ?_)⟩
            intro call hcall
            rw [hparse] at hcall
            cases hcall
          | some call =>
            have hasks : AsksFor w step call := ⟨⟨pieces, hllm⟩, hfinal, hparse⟩
            obtain ⟨ts, hts⟩ := ih (step + 1) (Progress.afterTool
              { p with records := p.records ++
                [measureCall (step + 1) system p.messages (output w step)] } (output w step)
              (toolName (w.tools (step + 1)) call) (toolArguments call) _) _
            exact ⟨_, .round hasks ⟨rfl, rfl, _, rfl⟩ hts⟩

/-! ## Calls and tools -/

theorem messagesAfter_take_succ (step : Nat) (messages : List ChatMessage) {k : Nat}
    {t : ToolEvent} (h : ts[k]? = some t) :
    messagesAfter w step messages (ts.take (k + 1)) =
      messagesAfter w step messages (ts.take k) ++ answered (output w (step + k)) t := by
  induction ts generalizing step messages k with
  | nil => cases h
  | cons u ts ih =>
    cases k with
    | zero =>
      obtain rfl : u = t := Option.some.inj h
      rfl
    | succ k =>
      have hrest := ih (step + 1) (messages ++ answered (output w step) u) h
      rw [show step + 1 + k = step + (k + 1) by omega] at hrest
      exact hrest

theorem roundEvents_tools :
    (roundEvents w system step messages ts).filterMap AgentEvent.tool? = ts := by
  induction ts generalizing step messages with
  | nil => rfl
  | cons t ts ih =>
    show t :: (roundEvents w system _ _ ts).filterMap AgentEvent.tool? = t :: ts
    rw [ih]

theorem roundEvents_calls :
    (roundEvents w system step messages ts).filterMap AgentEvent.llm? =
      (List.range ts.length).map fun k => ⟨system, messagesAfter w step messages (ts.take k)⟩ := by
  induction ts generalizing step messages with
  | nil => rfl
  | cons t ts ih =>
    show ⟨system, messages⟩ :: (roundEvents w system _ _ ts).filterMap AgentEvent.llm? = _
    rw [ih, List.length_cons, List.range_succ_eq_map, List.map_cons, List.map_map]
    rfl

namespace LoopTrace

theorem tools_eq (h : LoopTrace g w system rounds step messages ts es) :
    es.filterMap AgentEvent.tool? = ts := by
  rw [h.events, List.filterMap_append, roundEvents_tools]
  split_ifs
  · exact List.append_nil ts
  · exact List.append_nil ts

theorem calls_eq (h : LoopTrace g w system rounds step messages ts es) :
    es.filterMap AgentEvent.llm? = (List.range (min (ts.length + 1) rounds)).map
      fun k => ⟨system, messagesAfter w step messages (ts.take k)⟩ := by
  rw [h.events, List.filterMap_append, roundEvents_calls]
  have hle := h.le
  split_ifs with hlt
  · rw [Nat.min_eq_left hlt, List.range_succ, List.map_append]
    simp [AgentEvent.llm?]
  · rw [show min (ts.length + 1) rounds = ts.length by omega]
    exact List.append_nil _

theorem call_at {k : Nat} {c : LlmCall} (h : LoopTrace g w system rounds step messages ts es)
    (hc : (es.filterMap AgentEvent.llm?)[k]? = some c) :
    k < min (ts.length + 1) rounds ∧ c = ⟨system, messagesAfter w step messages (ts.take k)⟩ := by
  rw [h.calls_eq, List.getElem?_map, Option.map_eq_some_iff] at hc
  obtain ⟨i, hi, rfl⟩ := hc
  obtain ⟨hlt, hik⟩ := List.getElem?_eq_some_iff.mp hi
  obtain rfl : k = i := by rw [← hik, List.getElem_range]
  rw [List.length_range] at hlt
  exact ⟨hlt, rfl⟩

/-- Unless there are no rounds, a call comes first. -/
theorem starts (h : LoopTrace g w system (rounds + 1) step messages ts es) :
    ∃ rest, es = .llm ⟨system, messages⟩ :: rest := by
  rw [h.events]
  cases ts with
  | nil => exact ⟨_, rfl⟩
  | cons t ts => exact ⟨_, rfl⟩

end LoopTrace

/-! ## The run -/

/-- What the web search found stands in the system prompt. -/
theorem webBlock_infix (base tools ragBlock webBlock : Str) (webSearchEnabled : Bool) :
    webBlock <:+: buildAgentSystemPrompt base tools ragBlock webBlock webSearchEnabled := by
  by_cases hnil : webBlock = []
  · rw [hnil]
    exact List.nil_infix
  · apply mem_infix_joinWith
    apply List.mem_append_left
    apply List.mem_append_right
    split_ifs with hblock
    · simp
    · simp

/-- What is done before the loop: nothing, or the automatic web search. -/
def AutoEvents (system : Str) (auto : List AgentEvent) : Prop :=
  auto = [] ∨ ∃ t, auto = [.tool t] ∧ t.answer <:+: system

/-- The tools that the language model asked for: those behind its first call. -/
def requested (es : List AgentEvent) : List ToolEvent :=
  (es.dropWhile fun e => e.llm?.isNone).filterMap AgentEvent.tool?

theorem requested_eq {auto : List AgentEvent} (hauto : AutoEvents system auto)
    (h : LoopTrace g w system (rounds + 1) step messages ts es) : requested (auto ++ es) = ts := by
  obtain ⟨rest, hes⟩ := h.starts
  rw [← h.tools_eq]
  rcases hauto with hauto | ⟨t, hauto, -⟩
  · rw [hauto, hes]
    rfl
  · rw [hauto, hes]
    rfl

theorem calls_of_auto {auto : List AgentEvent} (hauto : AutoEvents system auto) :
    (auto ++ es).filterMap AgentEvent.llm? = es.filterMap AgentEvent.llm? := by
  rcases hauto with hauto | ⟨t, hauto, -⟩
  · rw [hauto]
    rfl
  · rw [hauto]
    rfl

theorem autoWebSearchShared_run (transcript : Str) (ms : Memories) :
    ∃ web ms₁ auto, autoWebSearchShared a w transcript ms = (.ok web, ms₁, auto) ∧
      (auto = [] ∨ ∃ t, auto = [.tool t] ∧ t.answer = web.1) := by
  unfold autoWebSearchShared
  split_ifs
  · exact ⟨_, _, _, rfl, .inr ⟨_, rfl, rfl⟩⟩
  · exact ⟨_, _, _, rfl, .inl rfl⟩

/-- A whole run, behind the search of the knowledge base. -/
theorem runShared_trace (a : AgentService) (w : AgentWorld) (r : Ref)
    (systemPrompt transcript : Str) (history : List ChatMessage) (ms : Memories)
    {hits : List RetrievedChunk} (hrag : ragSearch a w transcript = .ok hits) :
    ∃ system auto ts es, AutoEvents system auto ∧
      LoopTrace a.tools w system (a.maxToolSteps + 1).toNat 0 (history ++ [⟨.user, transcript⟩]) ts
        es ∧
      (a.runShared w r systemPrompt transcript history ms).2.2 = auto ++ es := by
  obtain ⟨web, ms₁, auto, hweb, hauto⟩ :=
    autoWebSearchShared_run (a := a) (w := w) transcript { ms with bound := r }
  let system := buildAgentSystemPrompt systemPrompt a.tools.describeForPrompt
    (if a.injectRag then if hits ≠ [] then formatChunksForPrompt hits else [] else [])
    web.1 a.tools.webSearchEnabled
  let start : Progress := ⟨history ++ [⟨.user, transcript⟩], web.2, []⟩
  obtain ⟨ts, hts⟩ := agentLoopShared_trace a w system (a.maxToolSteps + 1).toNat 0 start ms₁
  refine ⟨system, auto, ts, _, ?_, hts, ?_⟩
  · rcases hauto with hauto | ⟨t, hauto, hanswer⟩
    · exact .inl hauto
    · right
      refine ⟨t, hauto, ?_⟩
      rw [hanswer]
      exact webBlock_infix _ _ _ _ _
  · have hbind : bindSessionMemory r ms = (.ok (), { ms with bound := r }, []) := rfl
    have hhits : (Eff.ofExcept (.ok hits) : SharedProg _) { ms with bound := r } =
        (.ok hits, { ms with bound := r }, []) := rfl
    unfold AgentService.runShared
    rw [Eff.bind_eq hbind]
    unfold AgentService.runBound
    rw [hrag, Eff.bind_eq hhits, Eff.bind_eq hweb]
    dsimp only
    rw [Eff.trace_bind_pure]
    rfl

theorem runShared_norag (a : AgentService) (w : AgentWorld) (r : Ref)
    (systemPrompt transcript : Str) (history : List ChatMessage) (ms : Memories) {e : Exc}
    (hrag : ragSearch a w transcript = .error e) :
    (a.runShared w r systemPrompt transcript history ms).2.2 = [] := by
  unfold AgentService.runShared AgentService.runBound
  rw [hrag]
  rfl

/-! ## A small agent -/

/-- An agent without a web search, on three tool steps. -/
def plainAgent : AgentService where
  tools := ⟨false, false⟩
  injectRag := false
  shouldAutoWebSearch := fun _ => false

/-- A world in which the language model follows a script. -/
def scripted (outputs : Nat → Str) : AgentWorld where
  llm := fun k => .ok [outputs k]
  kbSearch := fun _ => .ok []
  tools := fun _ => ⟨⟨fun s => '\'' :: s ++ ['\''], fun s => s⟩, fun _ _ => .ok [], fun _ _ => []⟩
  jsonDepth := 100
  loadText := fun _ => []

end AiPipelines.Agent
