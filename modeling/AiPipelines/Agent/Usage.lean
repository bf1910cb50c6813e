import AiPipelines.Agent.LoopEnds

/-!
# Usage accounting

The numbers in the result of `AgentService.run`: `agent_steps` and the sums of
`summarize_llm_calls`, beside the calls of the language model that the run makes.

The sums are right on every way out of the loop.  The steps are counted in two ways.  A
final answer takes them from the round; the other exits take the rows of `tool_calls` and
add one, and there the automatic web search and a tool in the last round count as calls.
`usage_exact_iff` says when the number is right all the same.
-/

namespace AiPipelines.Agent

open PyStd SessionStore

/-! ## The calls themselves -/

/-- The characters that a call hands over. -/
def LlmCall.promptChars (c : LlmCall) : Nat :=
  c.system.length + total (c.messages.map fun m => m.content.length)

/-- The result counts the calls `es`. -/
structure UsageExact (w : AgentWorld) (result : AgentResult) (es : List LlmCall) : Prop where
  steps : result.agentSteps = es.length
  llmCalls : result.llmUsage.llmCalls = es.length
  promptChars : result.llmUsage.promptChars = total (es.map LlmCall.promptChars)
  outputChars :
    result.llmUsage.outputChars = total ((List.range es.length).map fun k => (output w k).length)

variable {a : AgentService} {w : AgentWorld} {rounds step n : Nat} {p : Progress}
  {ended : LoopEnd} {es : List LlmCall}

@[simp] theorem length_measured (step : Nat) (es : List LlmCall) :
    (measured w step es).length = es.length := by
  induction es generalizing step with
  | nil => rfl
  | cons c es ih =>
    show (measured w (step + 1) es).length + 1 = es.length + 1
    rw [ih]

theorem promptChars_measured (step : Nat) (es : List LlmCall) :
    (measured w step es).map LlmCallRecord.promptChars = es.map LlmCall.promptChars := by
  induction es generalizing step with
  | nil => rfl
  | cons c es ih =>
    show c.promptChars :: (measured w (step + 1) es).map LlmCallRecord.promptChars = _
    rw [ih]
    rfl

theorem outputChars_measured (step : Nat) (es : List LlmCall) :
    (measured w step es).map LlmCallRecord.outputChars =
      (List.range es.length).map fun k => (output w (step + k)).length := by
  induction es generalizing step with
  | nil => rfl
  | cons c es ih =>
    show (output w step).length :: (measured w (step + 1) es).map LlmCallRecord.outputChars = _
    rw [ih, List.length_cons, List.range_succ_eq_map, List.map_cons, List.map_map]
    congr 1
    apply List.map_congr_left
    intro k _
    show (output w (step + 1 + k)).length = (output w (step + (k + 1))).length
    rw [show step + 1 + k = step + (k + 1) by omega]

/-- The sums are over the calls. -/
theorem summarize_measured (es : List LlmCall) :
    (summarizeLlmCalls (measured w 0 es)).llmCalls = es.length ∧
      (summarizeLlmCalls (measured w 0 es)).promptChars = total (es.map LlmCall.promptChars) ∧
      (summarizeLlmCalls (measured w 0 es)).outputChars =
        total ((List.range es.length).map fun k => (output w k).length) := by
  refine ⟨length_measured 0 es, congrArg total (promptChars_measured 0 es), ?_⟩
  show total ((measured w 0 es).map LlmCallRecord.outputChars) = _
  rw [outputChars_measured]
  simp only [Nat.zero_add]

/-! ## The steps -/

theorem result_llmUsage (sources : List Str) (ended : LoopEnd) :
    (ended.result sources).llmUsage = summarizeLlmCalls ended.progress.records := by
  cases ended <;> rfl

/-- The steps are right at a final answer, and with plain text if the tools are those of
the rounds. -/
theorem Ended.steps_iff (sources : List Str) (h : Ended w rounds step p n ended es)
    (hstep : step = 0) :
    (ended.result sources).agentSteps = es.length ↔
      n < rounds ∧ (p.toolCalls = [] ∨ ∃ g, parseFinal (output w n) = some g) := by
  have htools := h.tools
  have hcalls := h.calls
  have hstops := h.stops
  have hempty : p.toolCalls = [] ↔ p.toolCalls.length = 0 := List.length_eq_zero_iff.symm
  cases ended with
  | final k reply q =>
    obtain ⟨hlt, rfl, hfinal⟩ := hstops
    obtain ⟨g, hg, -⟩ := hfinal
    rw [hstep, Nat.zero_add] at hg
    refine iff_of_true ?_ ⟨hlt, .inr ⟨g, hg⟩⟩
    show step + n + 1 = es.length
    omega
  | text reply q =>
    obtain ⟨hlt, hnone, -, -⟩ := hstops
    rw [hstep, Nat.zero_add] at hnone
    show q.toolCalls.length + 1 = es.length ↔ _
    have hq : q.toolCalls.length = p.toolCalls.length + n := htools
    constructor
    · intro heq
      exact ⟨hlt, .inl (hempty.2 (by omega))⟩
    · intro hcond
      rcases hcond.2 with hnil | ⟨g, hg⟩
      · have := hempty.1 hnil
        omega
      · rw [hnone] at hg
        cases hg
  | exhausted q =>
    have hq : q.toolCalls.length = p.toolCalls.length + n := htools
    have hn : n = rounds := hstops
    refine iff_of_false ?_ fun hcond => absurd hcond.1 (by omega)
    show q.toolCalls.length + 1 ≠ es.length
    omega

/-- Some output within the budget asks for no tool, and behind an automatic web search it
is a final answer. -/
def StopsInBudget (a : AgentService) (w : AgentWorld) (transcript : Str) : Prop :=
  ∃ k : Nat, k ≤ a.maxToolSteps ∧ (∀ i < k, IsToolCall w i) ∧ ¬ IsToolCall w k ∧
    (a.autoWeb transcript = true → ∃ g, parseFinal (output w k) = some g)

theorem stopsInBudget_iff {transcript : Str}
    (h : Ended w (a.maxToolSteps + 1).toNat 0 p n ended es)
    (hrows : p.toolCalls.length = autoRows a transcript) :
    StopsInBudget a w transcript ↔ n < (a.maxToolSteps + 1).toNat ∧
      (p.toolCalls = [] ∨ ∃ g, parseFinal (output w n) = some g) := by
  have hauto : p.toolCalls = [] ↔ ¬ a.autoWeb transcript = true := by
    rw [← List.length_eq_zero_iff, hrows, autoRows]
    split_ifs with hauto <;> simp [hauto]
  constructor
  · intro hstops
    obtain ⟨k, hk, hbefore, hnot, hfinal⟩ := hstops
    obtain rfl : k = n := h.eq_of_stop (by omega) hbefore hnot
    refine ⟨by omega, ?_⟩
    rw [hauto]
    by_cases hweb : a.autoWeb transcript = true
    · exact .inr (hfinal hweb)
    · exact .inl hweb
  · intro hcond
    obtain ⟨hn, hcond⟩ := hcond
    refine ⟨n, by omega, h.asked_zero, h.not_isToolCall_zero hn, fun hweb => ?_⟩
    exact hcond.resolve_left fun hnil => hauto.1 hnil hweb

/-- The numbers of a run that returns are right exactly if an output within the budget
asks for no tool, and is a final answer if there was an automatic search. -/
theorem usage_exact_iff {systemPrompt transcript : Str} {history : List ChatMessage}
    {mem mem' : Memory} {result : AgentResult}
    (h : a.run w systemPrompt transcript history mem = (.ok result, mem', es)) :
    UsageExact w result es ↔ StopsInBudget a w transcript := by
  obtain ⟨p, n, ended, sources, hended, hrows, hnil, rfl⟩ := run_ended h
  rw [stopsInBudget_iff hended hrows, ← hended.steps_iff sources rfl]
  have hrecords : ended.progress.records = measured w 0 es := by
    rw [hended.records, hnil, List.nil_append]
  obtain ⟨hcalls, hprompt, houtput⟩ := summarize_measured (w := w) es
  rw [← hrecords, ← result_llmUsage sources] at hcalls hprompt houtput
  exact ⟨fun hexact => hexact.steps, fun hsteps => ⟨hsteps, hcalls, hprompt, houtput⟩⟩

/-- An agent that searches the web before the first call. -/
def webAgent : AgentService where
  tools := ⟨false, true⟩
  injectRag := false
  shouldAutoWebSearch := fun _ => true

/-- A final answer. -/
def answerAtOnce : Nat → Str := fun _ => "FINAL: It is sunny."

/-- An answer without the marker. -/
def answerPlainly : Nat → Str := fun _ => "It is sunny."

theorem answerAtOnce_exact :
    ∃ result mem es, webAgent.run (scripted answerAtOnce) [] "Seattle weather" [] [] =
      (.ok result, mem, es) ∧ UsageExact (scripted answerAtOnce) result es := by
  have hfinal : parseFinal (output (scripted answerAtOnce) 0) = some ("It is sunny." : Str) := by
    decide +kernel
  have hok :
      (webAgent.run (scripted answerAtOnce) [] "Seattle weather" [] []).1.toOption.isSome := by
    decide +kernel
  obtain ⟨result, mem, es, hrun⟩ := run_eq_of_isOk hok
  refine ⟨result, mem, es, hrun, (usage_exact_iff hrun).2 ⟨0, by decide, nofun, ?_, ?_⟩⟩
  · exact not_isToolCall_of_final hfinal
  · exact fun _ => ⟨_, hfinal⟩

/-- After the automatic search one call with plain text counts as two steps. -/
theorem answerPlainly_miscounted :
    ∃ result mem es, webAgent.run (scripted answerPlainly) [] "Seattle weather" [] [] =
        (.ok result, mem, es) ∧
      result.agentSteps = 2 ∧ es.length = 1 ∧ ¬ UsageExact (scripted answerPlainly) result es := by
  let out := webAgent.run (scripted answerPlainly) [] "Seattle weather" [] []
  have hsteps : out.1.toOption.map AgentResult.agentSteps = some 2 := by decide +kernel
  have hcalls : out.2.2.length = 1 := by decide +kernel
  have hok : out.1.toOption.isSome := by decide +kernel
  obtain ⟨result, mem, es, hrun⟩ := run_eq_of_isOk hok
  rw [show out = (.ok result, mem, es) from hrun] at hsteps hcalls
  have htwo : result.agentSteps = 2 := Option.some.inj hsteps
  have hone : es.length = 1 := hcalls
  refine ⟨result, mem, es, hrun, htwo, hone, ?_⟩
  intro hexact
  have heq := hexact.steps
  omega

end AiPipelines.Agent
