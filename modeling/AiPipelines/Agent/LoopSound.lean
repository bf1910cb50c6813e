import AiPipelines.Agent.Chat
import AiPipelines.Agent.LoopTrace

/-!
# The agent loop is sound

When nothing outside of the loop raises, the agent answers, whatever the language
model writes.  `Cooperative` is this assumption: the calls and the search of the
knowledge base return, and where the loop decodes JSON, a text that is none is the
only thing that can be wrong with it.

`agentLoopShared_returns` shows that the loop returns with a proper reply, and
`run_sound` puts it together with the trace of `AiPipelines.Agent.LoopTrace`.
-/

namespace AiPipelines.Agent

open PyStd SessionStore

/-! ## Decoding -/

/-- What a line with a tool call hands to `json.loads`. -/
def lineTexts (lines : List Str) : List Str :=
  ((lines.map strip).filter isToolLine).map fun candidate => strip (afterColon candidate)

/-- The texts that `_parse_tool_call` hands to `json.loads`, if it comes to that. -/
def jsonTexts (text : Str) : List Str :=
  lineTexts (splitlines (strip text)) ++ (toolSearch (strip text)).toList

/-- `json.loads` raises nothing but `JSONDecodeError`. -/
def Decodes (depth : Nat) (s : Str) : Prop := ∀ e, Json.loads depth s = .error e → e = .decode

variable {depth : Nat}

theorem loadToolCallPayload_ok {s : Str} (h : Decodes depth s) :
    ∃ c, loadToolCallPayload depth s = .ok c := by
  unfold loadToolCallPayload
  split
  · exact ⟨_, rfl⟩
  · next e hne hloads => exact absurd (h e hloads) hne
  · exact ⟨_, rfl⟩
  · exact ⟨_, rfl⟩

theorem lineToolCall_ok {lines : List Str} (h : ∀ s ∈ lineTexts lines, Decodes depth s) :
    ∃ c, lineToolCall depth lines = .ok c := by
  induction lines with
  | nil => exact ⟨none, rfl⟩
  | cons line lines ih =>
    unfold lineToolCall
    by_cases htool : isToolLine (strip line) = true
    · rw [if_pos htool]
      have htexts : lineTexts (line :: lines) =
          strip (afterColon (strip line)) :: lineTexts lines := by
        unfold lineTexts
        rw [List.map_cons, List.filter_cons_of_pos htool, List.map_cons]
      rw [htexts, List.forall_mem_cons] at h
      obtain ⟨c, hc⟩ := loadToolCallPayload_ok h.1
      rw [hc]
      cases c with
      | none => exact ih h.2
      | some payload => exact ⟨some payload, rfl⟩
    · rw [if_neg htool]
      apply ih
      intro s hs
      apply h s
      unfold lineTexts
      rw [List.map_cons, List.filter_cons_of_neg htool]
      exact hs

theorem parseToolCall_ok {text : Str} (h : ∀ s ∈ jsonTexts text, Decodes depth s) :
    ∃ c, parseToolCall depth text = .ok c := by
  unfold parseToolCall
  obtain ⟨c, hc⟩ := lineToolCall_ok fun s hs => h s (List.mem_append_left _ hs)
  rw [hc]
  cases c with
  | some payload => exact ⟨some payload, rfl⟩
  | none =>
    cases hsearch : toolSearch (strip text) with
    | none => exact ⟨none, rfl⟩
    | some g =>
      apply loadToolCallPayload_ok
      apply h
      apply List.mem_append_right
      rw [hsearch]
      exact List.mem_singleton_self g

/-! ## The assumption -/

/-- Nothing outside of the loop raises.  The outputs may be any texts. -/
structure Cooperative (w : AgentWorld) (outputs : Nat → Str) : Prop where
  llm : ∀ k, ∃ pieces, w.llm k = .ok pieces ∧ pieces.flatten = outputs k
  kbSearch : ∀ query, ∃ hits, w.kbSearch query = .ok hits
  json : ∀ k, ∀ s ∈ jsonTexts (outputs k), Decodes w.jsonDepth s

variable {a : AgentService} {w : AgentWorld} {outputs : Nat → Str} {system : Str}

theorem Cooperative.output_eq (h : Cooperative w outputs) (k : Nat) : output w k = outputs k := by
  obtain ⟨pieces, hllm, hflat⟩ := h.llm k
  rw [Agent.output_eq hllm, hflat]

theorem Cooperative.ragSearch (h : Cooperative w outputs) (transcript : Str) :
    ∃ hits, ragSearch a w transcript = .ok hits := by
  unfold Agent.ragSearch
  split_ifs
  · exact h.kbSearch transcript
  · exact ⟨[], rfl⟩

/-! ## The reply -/

/-- Something is said, without blanks around it. -/
structure ProperReply (reply : Str) : Prop where
  notBlank : ¬ IsBlank reply
  stripped : strip reply = reply

theorem parseFinal_stripped {text g : Str} (h : parseFinal text = some g) : strip g = g := by
  unfold parseFinal at h
  split at h
  · rw [← Option.some.inj h, strip_strip]
  · split at h
    · rw [← Option.some.inj h, strip_strip]
    · cases h

theorem sanitizeAgentReply_proper {text : Str} (h : ¬ IsBlank text) :
    ProperReply (sanitizeAgentReply text) := by
  refine ⟨sanitizeAgentReply_not_blank h, ?_⟩
  unfold sanitizeAgentReply
  split
  · next hs => exact parseFinal_stripped hs
  · exact strip_strip text

theorem finishReply_proper {reply : Str} (h : reply = [] ∨ ¬ IsBlank reply) :
    ProperReply (finishReply reply) := by
  unfold finishReply
  apply sanitizeAgentReply_proper
  split_ifs with hnil
  · decide
  · exact h.resolve_left hnil

theorem runToolShared_returns {tw : ToolWorld} {name : Str} {arguments : Dict Str Json} :
    Eff.Triple (fun _ => True) (runToolShared a.tools tw name arguments) (fun _ => True)
      (fun _ _ => True) (fun _ _ => False) := by
  intro ms _
  exact ⟨trivial, fun _ _ => trivial⟩

theorem agentLoopShared_returns (hw : Cooperative w outputs) (system : Str) (rounds step : Nat)
    (p : Progress) :
    Eff.Triple (fun _ => True) (agentLoopShared a w system rounds step p) (fun _ => True)
      (fun ended _ => ProperReply ended.reply) (fun _ _ => False) := by
  induction rounds generalizing step p with
  | zero => exact Eff.Triple.pure fun _ _ => finishReply_proper (.inl rfl)
  | succ rounds ih =>
    unfold agentLoopShared
    refine Eff.Triple.bind (R := fun raw _ => raw = outputs step) ?_ fun raw => ?_
    · obtain ⟨pieces, hllm, hflat⟩ := hw.llm step
      intro ms _
      rw [llmCompleteShared_ok hllm]
      exact ⟨hw.output_eq step, fun _ _ => trivial⟩
    · refine Eff.Triple.assume (fun _ h => h) fun hraw => ?_
      refine Eff.Triple.conseq (P := fun _ => True) ?_ (fun _ _ => trivial) fun _ _ h => h
      cases hfinal : parseFinal raw with
      | some final =>
        exact Eff.Triple.pure fun _ _ => sanitizeAgentReply_proper (parseFinal_not_blank hfinal)
      | none =>
        obtain ⟨c, hc⟩ := parseToolCall_ok (hw.json step)
        rw [← hraw] at hc
        unfold readToolCallShared
        rw [hc]
        apply Eff.Triple.ofExcept_bind
        · intro toolCall htool
          cases toolCall with
          | none =>
            apply Eff.Triple.pure
            intro _ _
            apply finishReply_proper
            right
            exact sanitizeAgentReply_not_blank (plainReply_not_blank raw)
          | some call => exact Eff.Triple.bind runToolShared_returns fun result => ih _ _
        · intro x hx
          cases hx

theorem runShared_returns (hw : Cooperative w outputs) (r : Ref) (systemPrompt transcript : Str)
    (history : List ChatMessage) :
    Eff.Triple (fun _ => True) (a.runShared w r systemPrompt transcript history) (fun _ => True)
      (fun result _ => ProperReply result.replyText) (fun _ _ => False) := by
  refine Eff.Triple.bind (Eff.Triple.modify (Q := fun _ => True) fun _ _ => trivial) fun _ => ?_
  unfold AgentService.runBound
  apply Eff.Triple.ofExcept_bind
  · intro ragHits _
    refine Eff.Triple.bind (R := fun _ _ => True) ?_ fun web => ?_
    · unfold autoWebSearchShared
      split_ifs
      · exact Eff.Triple.bind runToolShared_returns fun _ => Eff.Triple.pure fun _ _ => trivial
      · exact Eff.Triple.pure fun _ _ => trivial
    · refine Eff.Triple.bind (agentLoopShared_returns hw _ _ _ _) fun ended => ?_
      apply Eff.Triple.pure
      intro _ hended
      rw [result_replyText]
      exact hended
  · intro e he
    obtain ⟨hits, hhits⟩ := hw.ragSearch (a := a) transcript
    rw [hhits] at he
    cases he

/-! ## The run -/

/-- What is the same in every round: the output that asked for tool `t` and the
answer of the tool, as a whole, are put behind the messages. -/
structure Round (g : ToolRegistry) (w : AgentWorld) (k : Nat) (raw : Str) (t : ToolEvent)
    (c c' : LlmCall) : Prop where
  asked : ∃ call, parseToolCall w.jsonDepth raw = .ok (some call) ∧ Runs g (w.tools (k + 1)) call t
  said : strip raw ≠ []
  messages : c'.messages =
    c.messages ++ [⟨.assistant, strip raw⟩, ⟨.user, toolResultMessage t.name t.answer⟩]

theorem LoopTrace.round_at {g : ToolRegistry} {rounds k : Nat} {messages : List ChatMessage}
    {ts : List ToolEvent} {es : List AgentEvent} (h : LoopTrace g w system rounds 0 messages ts es)
    {c c' : LlmCall} (hc : (es.filterMap AgentEvent.llm?)[k]? = some c)
    (hc' : (es.filterMap AgentEvent.llm?)[k + 1]? = some c') :
    ∃ t, ts[k]? = some t ∧ Round g w k (output w k) t c c' := by
  obtain ⟨-, rfl⟩ := h.call_at hc
  obtain ⟨hlt, rfl⟩ := h.call_at hc'
  have hk : k < ts.length := by omega
  have ht : ts[k]? = some ts[k] := List.getElem?_eq_getElem hk
  obtain ⟨call, hasks, hruns⟩ := h.asked k _ ht
  rw [Nat.zero_add] at hasks hruns
  refine ⟨_, ht, ⟨call, hasks.tool, hruns⟩, ?_, ?_⟩
  · intro hnil
    exact parseToolCall_not_blank hasks.tool (strip_eq_nil_iff.mp hnil)
  · show messagesAfter w 0 messages (ts.take (k + 1)) = _
    rw [messagesAfter_take_succ 0 messages ht, Nat.zero_add]
    rfl

/-- Whatever the language model writes, the agent returns.  It makes between one and
`max_tool_steps + 1` calls, each call but the first has the messages of the one before
and one round more, and the reply is proper. -/
theorem run_sound (hw : Cooperative w outputs) (hn : 0 ≤ a.maxToolSteps) (r : Ref)
    (systemPrompt transcript : Str) (history : List ChatMessage) (ms : Memories) :
    ∃ result ms₁ es,
      a.runShared w r systemPrompt transcript history ms = (.ok result, ms₁, es) ∧
      1 ≤ (es.filterMap AgentEvent.llm?).length ∧
      ((es.filterMap AgentEvent.llm?).length : Int) ≤ a.maxToolSteps + 1 ∧
      (es.filterMap AgentEvent.llm?).head?.map LlmCall.messages =
        some (history ++ [⟨.user, transcript⟩]) ∧
      (∀ k c c', (es.filterMap AgentEvent.llm?)[k]? = some c →
        (es.filterMap AgentEvent.llm?)[k + 1]? = some c' →
        ∃ t, (requested es)[k]? = some t ∧ Round a.tools w k (outputs k) t c c') ∧
      result.replyText ≠ [] ∧ strip result.replyText = result.replyText := by
  obtain ⟨hits, hrag⟩ := hw.ragSearch (a := a) transcript
  obtain ⟨system, auto, ts, es, hauto, hloop, htrace⟩ :=
    runShared_trace a w r systemPrompt transcript history ms hrag
  have hout := (runShared_returns (a := a) hw r systemPrompt transcript history ms trivial).1
  obtain ⟨n, hn⟩ := Int.eq_ofNat_of_zero_le hn
  have hrounds : (a.maxToolSteps + 1).toNat = n + 1 := by omega
  rw [hrounds] at hloop
  rcases hrun : a.runShared w r systemPrompt transcript history ms with ⟨out, ms₁, es₁⟩
  rw [hrun] at hout htrace
  obtain rfl : es₁ = auto ++ es := htrace
  cases out with
  | error e => exact hout.elim
  | ok result =>
    refine ⟨result, ms₁, _, rfl, ?_⟩
    rw [calls_of_auto hauto, requested_eq hauto hloop]
    have hlength : (es.filterMap AgentEvent.llm?).length = min (ts.length + 1) (n + 1) := by
      rw [hloop.calls_eq, List.length_map, List.length_range]
    refine ⟨by omega, by omega, ?_, ?_, ?_, hout.stripped⟩
    · obtain ⟨rest, hes⟩ := hloop.starts
      rw [hes]
      rfl
    · intro k c c' hc hc'
      rw [← hw.output_eq k]
      exact hloop.round_at hc hc'
    · intro hnil
      apply hout.notBlank
      rw [hnil]
      exact nofun

/-- One tool call whose arguments are no object, and then an answer. -/
def oddCallThenFinal : Nat → Str
  | 0 => "TOOL_CALL: \x7b\"name\": \"recall\", \"arguments\": [1]\x7d"
  | _ + 1 => " final:  all done "

theorem oddCallThenFinal_cooperative :
    Cooperative (scripted oddCallThenFinal) oddCallThenFinal where
  llm := fun k => ⟨[oddCallThenFinal k], rfl, List.flatten_singleton⟩
  kbSearch := fun _ => ⟨[], rfl⟩
  json := by
    intro k s hs e he
    cases k with
    | zero =>
      have htexts : ∀ s ∈ jsonTexts (oddCallThenFinal 0), (Json.loads 100 s).toOption.isSome := by
        decide +kernel
      have hsome := htexts s hs
      rw [show Json.loads 100 s = .error e from he] at hsome
      cases hsome
    | succ k =>
      have hnone : jsonTexts (oddCallThenFinal (k + 1)) = [] := by
        show jsonTexts " final:  all done " = []
        decide +kernel
      rw [hnone] at hs
      cases hs

theorem oddCallThenFinal_sound :
    ∃ result ms es,
      plainAgent.runShared (scripted oddCallThenFinal) 0 "Be brief." "hello" [] ⟨[[]], 0⟩ =
        (.ok result, ms, es) ∧
      (es.filterMap AgentEvent.llm?).length = 2 ∧ result.replyText ≠ [] ∧
      strip result.replyText = result.replyText := by
  obtain ⟨result, ms, es, hrun, -, -, -, -, hne, hstrip⟩ :=
    run_sound oddCallThenFinal_cooperative (a := plainAgent) (by decide) 0 "Be brief." "hello" []
      ⟨[[]], 0⟩
  have htwo : ((plainAgent.runShared (scripted oddCallThenFinal) 0 "Be brief." "hello" []
      ⟨[[]], 0⟩).2.2.filterMap AgentEvent.llm?).length = 2 := by
    decide +kernel
  rw [hrun] at htwo
  exact ⟨result, ms, es, hrun, htwo, hne, hstrip⟩

end AiPipelines.Agent
