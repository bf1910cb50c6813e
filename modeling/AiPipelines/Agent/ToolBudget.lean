import AiPipelines.Agent.LoopTrace

/-!
# The tool budget

`max_tool_steps` is documented as the number of tool rounds in a turn.  The loop
makes one call of the language model more than that, and it does not look whether a
tool that is asked for there can still be followed by a call.

`tool_budget_iff` says when this matters: when the outputs of all these calls ask for
tools.
-/

namespace AiPipelines.Agent

open PyStd SessionStore

/-- The call shows the answer of the tool, in its system prompt or in a message. -/
def Shows (c : LlmCall) (t : ToolEvent) : Prop :=
  t.answer <:+: c.system ∨ ∃ m ∈ c.messages, t.answer <:+: m.content

/-- Every tool is followed by a call that shows its answer. -/
def AllShown : List AgentEvent → Prop
  | [] => True
  | .llm _ :: es => AllShown es
  | .tool t :: es => (∃ c, .llm c ∈ es ∧ Shows c t) ∧ AllShown es

/-- The budget of `n` tools is kept, and no answer is thrown away. -/
structure WithinBudget (n : Nat) (es : List AgentEvent) : Prop where
  tools : (requested es).length ≤ n
  shown : AllShown es

variable {a : AgentService} {g : ToolRegistry} {w : AgentWorld} {system : Str} {n : Nat}
  {ts : List ToolEvent} {es auto : List AgentEvent} {messages : List ChatMessage}

theorem shows_answered (raw : Str) (t : ToolEvent) :
    Shows ⟨system, messages ++ answered raw t⟩ t := by
  right
  refine ⟨⟨.user, toolResultMessage t.name t.answer⟩, by simp [answered], ?_⟩
  refine ⟨("Tool result for " : Str) ++ t.name ++ (":\n" : Str), ("\n\n" : Str) ++
    ("Continue. Use another TOOL_CALL or reply with FINAL: <short spoken answer>." : Str), ?_⟩
  unfold toolResultMessage
  simp only [List.append_assoc]

/-- When a call follows the rounds, all their tools are shown. -/
theorem rounds_allShown (step : Nat) (messages : List ChatMessage) :
    AllShown (roundEvents w system step messages ts ++
      [.llm ⟨system, messagesAfter w step messages ts⟩]) := by
  induction ts generalizing step messages with
  | nil => trivial
  | cons t ts ih =>
    refine ⟨⟨⟨system, messages ++ answered (output w step) t⟩, ?_, shows_answered _ t⟩, ih _ _⟩
    cases ts with
    | nil => exact List.mem_singleton_self _
    | cons u ts => exact List.mem_cons_self

theorem auto_allShown (hauto : AutoEvents system auto)
    (h : LoopTrace g w system (n + 1) 0 messages ts es) (hshown : AllShown es) :
    AllShown (auto ++ es) := by
  rcases hauto with hauto | ⟨t, hauto, hanswer⟩
  · rw [hauto]
    exact hshown
  · obtain ⟨rest, hes⟩ := h.starts
    rw [hauto]
    refine ⟨⟨⟨system, messages⟩, ?_, .inl hanswer⟩, hshown⟩
    rw [hes]
    exact List.mem_cons_self

/-- The loop keeps the budget if it stops by itself. -/
theorem LoopTrace.budget_iff (h : LoopTrace g w system (n + 1) 0 messages ts es) :
    ts.length ≤ n ↔ ∃ k ≤ n, ¬ IsToolCall w k := by
  constructor
  · intro hle
    have hstops := h.stops (Nat.lt_succ_of_le hle)
    rw [Nat.zero_add] at hstops
    exact ⟨ts.length, hle, hstops⟩
  · intro hstop
    obtain ⟨k, hk, hnot⟩ := hstop
    by_contra hgt
    have hlt : k < ts.length := by omega
    obtain ⟨call, hasks, -⟩ := h.asked k _ (List.getElem?_eq_getElem hlt)
    rw [Nat.zero_add] at hasks
    exact hnot ⟨call, hasks⟩

/-- The budget is kept exactly if the loop is not reached or one of the first `n + 1`
outputs asks for no tool. -/
theorem tool_budget_iff (hn : a.maxToolSteps = n) (r : Ref) (systemPrompt transcript : Str)
    (history : List ChatMessage) (ms : Memories) :
    WithinBudget n (a.runShared w r systemPrompt transcript history ms).2.2 ↔
      (∃ e, ragSearch a w transcript = .error e) ∨ ∃ k ≤ n, ¬ IsToolCall w k := by
  cases hrag : ragSearch a w transcript with
  | error e =>
    rw [runShared_norag a w r systemPrompt transcript history ms hrag]
    exact ⟨fun _ => .inl ⟨e, rfl⟩, fun _ => ⟨Nat.zero_le n, trivial⟩⟩
  | ok hits =>
    obtain ⟨system, auto, ts, es, hauto, hloop, htrace⟩ :=
      runShared_trace a w r systemPrompt transcript history ms hrag
    rw [show (a.maxToolSteps + 1).toNat = n + 1 by omega] at hloop
    rw [htrace]
    constructor
    · intro h
      right
      have htools := h.tools
      rw [requested_eq hauto hloop] at htools
      exact hloop.budget_iff.mp htools
    · intro h
      rcases h with ⟨e, he⟩ | hstop
      · cases he
      · have hle := hloop.budget_iff.mpr hstop
        refine ⟨?_, auto_allShown hauto hloop ?_⟩
        · rw [requested_eq hauto hloop]
          exact hle
        · rw [hloop.events, if_pos (Nat.lt_succ_of_le hle)]
          exact rounds_allShown 0 _

/-- The language model asks for the time, again and again. -/
def askTime : Nat → Str := fun _ => "TOOL_CALL: \x7b\"name\": \"get_current_time\"\x7d"

/-- The language model asks for the time once. -/
def askTimeOnce : Nat → Str
  | 0 => "TOOL_CALL: \x7b\"name\": \"get_current_time\"\x7d"
  | _ + 1 => "FINAL: It is noon."

theorem askTimeOnce_withinBudget :
    WithinBudget 3 (plainAgent.runShared (scripted askTimeOnce) 0 [] "time" [] ⟨[[]], 0⟩).2.2 := by
  have hfinal : parseFinal (output (scripted askTimeOnce) 1) = some ("It is noon." : Str) := by
    decide +kernel
  exact (tool_budget_iff rfl 0 [] "time" [] ⟨[[]], 0⟩).mpr
    (.inr ⟨1, by decide, not_isToolCall_of_final hfinal⟩)

/-- Four tools are run on three tool steps. -/
theorem askTime_exceedsBudget :
    (requested (plainAgent.runShared (scripted askTime) 0 [] "time" [] ⟨[[]], 0⟩).2.2).length = 4 ∧
      plainAgent.maxToolSteps = 3 ∧
      ¬ WithinBudget 3 (plainAgent.runShared (scripted askTime) 0 [] "time" [] ⟨[[]], 0⟩).2.2 := by
  have hfour : (requested
      (plainAgent.runShared (scripted askTime) 0 [] "time" [] ⟨[[]], 0⟩).2.2).length = 4 := by
    decide +kernel
  refine ⟨hfour, rfl, ?_⟩
  intro h
  have hle := h.tools
  rw [hfour] at hle
  omega

end AiPipelines.Agent
