import AiPipelines.Agent.LoopTrace

/-!
# How the agent loop ends

A run of `AgentService.run` that returns has left the loop in one of three ways: with a
final answer, with plain text, or with all rounds used up.  `LoopEnd.Stops` says for each
way what the outputs of the language model were, and `Ended` adds what has been counted
until then: the rounds with a tool, the calls of the language model, and the records of
these calls.

`agentLoop_ended` proves it of the loop, and `run_ended` of the whole run.
-/

namespace AiPipelines.Agent

open PyStd SessionStore

/-! ## What is known at the end -/

/-- The local variables at the end of the loop. -/
def LoopEnd.progress : LoopEnd → Progress
  | .final _ _ p => p
  | .text _ p => p
  | .exhausted p => p

/-- How the loop was left after `n` rounds with a tool, of the given rounds from `step`
on. -/
def LoopEnd.Stops (w : AgentWorld) (rounds step n : Nat) : LoopEnd → Prop
  | .final k reply _ =>
    n < rounds ∧ k = step + n ∧ ∃ g, parseFinal (output w k) = some g ∧ reply = sanitizeAgentReply g
  | .text reply _ =>
    n < rounds ∧ parseFinal (output w (step + n)) = none ∧
      parseToolCall w.jsonDepth (output w (step + n)) = .ok none ∧
      reply = sanitizeAgentReply (plainReply (output w (step + n)))
  | .exhausted _ => n = rounds

/-- The records of the calls, the first of which is call `step`. -/
def measured (w : AgentWorld) : Nat → List LlmCall → List LlmCallRecord
  | _, [] => []
  | step, c :: cs =>
    measureCall (step + 1) c.system c.messages (output w step) :: measured w (step + 1) cs

/-- The loop with the given rounds left has been left after `n` rounds with a tool and
the calls `es`. -/
structure Ended (w : AgentWorld) (rounds step : Nat) (p : Progress) (n : Nat) (ended : LoopEnd)
    (es : List LlmCall) : Prop where
  asked : ∀ i < n, IsToolCall w (step + i)
  stops : ended.Stops w rounds step n
  tools : ended.progress.toolCalls.length = p.toolCalls.length + n
  calls : es.length = min (n + 1) rounds
  records : ended.progress.records = p.records ++ measured w step es

variable {a : AgentService} {w : AgentWorld} {system : Str} {rounds step n : Nat} {p : Progress}
  {ended : LoopEnd} {es : List LlmCall}

/-- A loop that did not use up its rounds stopped at an output that asks for no tool. -/
theorem Ended.not_isToolCall (h : Ended w rounds step p n ended es) (hn : n < rounds) :
    ¬ IsToolCall w (step + n) := by
  have hstops := h.stops
  cases ended with
  | final k reply q =>
    obtain ⟨-, rfl, g, hg, -⟩ := hstops
    exact not_isToolCall_of_final hg
  | text reply q =>
    obtain ⟨-, -, hparse, -⟩ := hstops
    refine not_isToolCall_of_parse fun call hcall => ?_
    rw [hparse] at hcall
    cases hcall
  | exhausted q => exact absurd hstops (Nat.ne_of_lt hn)

/-- No more rounds with a tool than rounds. -/
theorem Ended.le (h : Ended w rounds step p n ended es) : n ≤ rounds := by
  have hstops := h.stops
  cases ended with
  | final k reply q => exact Nat.le_of_lt hstops.1
  | text reply q => exact Nat.le_of_lt hstops.1
  | exhausted q => exact Nat.le_of_eq hstops

theorem Ended.asked_zero (h : Ended w rounds 0 p n ended es) : ∀ i < n, IsToolCall w i := by
  intro i hi
  have hasked := h.asked i hi
  rwa [Nat.zero_add] at hasked

theorem Ended.not_isToolCall_zero (h : Ended w rounds 0 p n ended es) (hn : n < rounds) :
    ¬ IsToolCall w n := by
  have hnot := h.not_isToolCall hn
  rwa [Nat.zero_add] at hnot

/-- The loop stops at the first output that asks for no tool. -/
theorem Ended.eq_of_stop (h : Ended w rounds 0 p n ended es) {k : Nat} (hk : k < rounds)
    (hbefore : ∀ i < k, IsToolCall w i) (hnot : ¬ IsToolCall w k) : k = n := by
  have hnk : n ≤ k := Nat.le_of_not_lt fun hlt => hnot (h.asked_zero k hlt)
  have hkn : k ≤ n :=
    Nat.le_of_not_lt fun hlt => h.not_isToolCall_zero (Nat.lt_of_le_of_lt hnk hk) (hbefore n hlt)
  exact Nat.le_antisymm hkn hnk

/-- One more round with a tool in front. -/
theorem Ended.round {q : Progress} {c : LlmCall} (hasks : IsToolCall w step)
    (htools : q.toolCalls.length = p.toolCalls.length + 1)
    (hrecords : q.records =
      p.records ++ [measureCall (step + 1) c.system c.messages (output w step)])
    (h : Ended w rounds (step + 1) q n ended es) :
    Ended w (rounds + 1) step p (n + 1) ended (c :: es) where
  asked := by
    intro i hi
    cases i with
    | zero => exact hasks
    | succ i =>
      rw [show step + (i + 1) = step + 1 + i by omega]
      exact h.asked i (by omega)
  stops := by
    have hstops := h.stops
    cases ended with
    | final k reply q =>
      obtain ⟨hlt, hk, hg⟩ := hstops
      exact ⟨by omega, by omega, hg⟩
    | text reply q =>
      show n + 1 < rounds + 1 ∧ _
      rw [show step + (n + 1) = step + 1 + n by omega]
      exact ⟨Nat.succ_lt_succ hstops.1, hstops.2⟩
    | exhausted q => exact congrArg Nat.succ hstops
  tools := by
    rw [h.tools, htools]
    omega
  calls := by
    rw [List.length_cons, h.calls]
    omega
  records := by
    rw [h.records, hrecords, List.append_assoc]
    rfl

/-! ## The loop -/

theorem llmComplete_returns {messages : List ChatMessage} {mem mem' : Memory} {raw : Str}
    (h : llmComplete w step system messages mem = (.ok raw, mem', es)) :
    raw = output w step ∧ (∃ pieces, w.llm step = .ok pieces) ∧ es = [⟨system, messages⟩] := by
  unfold llmComplete at h
  cases hllm : w.llm step with
  | error e =>
    rw [hllm] at h
    cases h
  | ok pieces =>
    rw [hllm] at h
    cases h
    exact ⟨(output_eq hllm).symm, ⟨pieces, rfl⟩, rfl⟩

theorem readToolCall_returns {raw : Str} {c : Option (Dict Str Json)} {mem mem' : Memory}
    (h : readToolCall w raw mem = (.ok c, mem', es)) :
    parseToolCall w.jsonDepth raw = .ok c ∧ es = [] := by
  unfold readToolCall at h
  cases hparse : parseToolCall w.jsonDepth raw with
  | error e =>
    rw [hparse] at h
    cases h
  | ok c' =>
    rw [hparse] at h
    cases h
    exact ⟨rfl, rfl⟩

theorem runTool_returns {tw : ToolWorld} {name result : Str} {arguments : Dict Str Json}
    {mem mem' : Memory} (h : runTool a tw name arguments mem = (.ok result, mem', es)) :
    es = [] := by
  cases h
  rfl

/-- A loop that returns. -/
theorem agentLoop_ended {mem mem' : Memory}
    (h : agentLoop a w system rounds step p mem = (.ok ended, mem', es)) :
    ∃ n, Ended w rounds step p n ended es := by
  induction rounds generalizing step p mem es with
  | zero =>
    cases h
    exact ⟨0, nofun, rfl, rfl, rfl, (List.append_nil _).symm⟩
  | succ rounds ih =>
    unfold agentLoop at h
    obtain ⟨raw, mem₁, es₁, es₂, hcall, hrest, rfl⟩ := Eff.bind_returns h
    obtain ⟨rfl, hpieces, rfl⟩ := llmComplete_returns hcall
    dsimp only at hrest
    cases hfinal : parseFinal (output w step) with
    | some g =>
      rw [hfinal] at hrest
      cases hrest
      exact ⟨0, nofun, ⟨Nat.succ_pos _, rfl, g, hfinal, rfl⟩, rfl, by simp, rfl⟩
    | none =>
      rw [hfinal] at hrest
      obtain ⟨c, mem₂, es₃, es₄, hread, hend, rfl⟩ := Eff.bind_returns hrest
      obtain ⟨hparse, rfl⟩ := readToolCall_returns hread
      cases c with
      | none =>
        cases hend
        exact ⟨0, nofun, ⟨Nat.succ_pos _, hfinal, hparse, rfl⟩, rfl, by simp, rfl⟩
      | some call =>
        obtain ⟨result, mem₃, es₅, es₆, hrun, hloop, rfl⟩ := Eff.bind_returns hend
        obtain rfl := runTool_returns hrun
        obtain ⟨n, hn⟩ := ih hloop
        have hasks : IsToolCall w step := ⟨call, hpieces, hfinal, hparse⟩
        have hround : Ended w (rounds + 1) step p (n + 1) ended (⟨system, p.messages⟩ :: es₆) := by
          refine hn.round hasks ?_ rfl
          unfold Progress.afterTool
          exact List.length_append
        exact ⟨n + 1, hround⟩

/-! ## The run -/

/-- The row of the automatic web search, if there is one. -/
def autoRows (a : AgentService) (transcript : Str) : Nat := if a.autoWeb transcript then 1 else 0

theorem autoWebSearch_returns {transcript : Str} {web : Str × List ToolCall} {mem mem' : Memory}
    (h : autoWebSearch a w transcript mem = (.ok web, mem', es)) :
    web.2.length = autoRows a transcript ∧ es = [] := by
  unfold autoWebSearch at h
  unfold autoRows
  split_ifs at h ⊢
  · obtain ⟨result, mem₁, es₁, es₂, hrun, hrows, rfl⟩ := Eff.bind_returns h
    obtain rfl := runTool_returns hrun
    cases hrows
    exact ⟨rfl, rfl⟩
  · cases h
    exact ⟨rfl, rfl⟩

theorem ofExcept_returns {α : Type} {r : Except Exc α} {x : α} {mem mem' : Memory}
    (h : (Eff.ofExcept r : AgentProg α) mem = (.ok x, mem', es)) : r = .ok x ∧ es = [] := by
  cases r with
  | error e => cases h
  | ok y =>
    cases h
    exact ⟨rfl, rfl⟩

/-- A run that returns. -/
theorem run_ended {systemPrompt transcript : Str} {history : List ChatMessage} {mem mem' : Memory}
    {result : AgentResult}
    (h : a.run w systemPrompt transcript history mem = (.ok result, mem', es)) :
    ∃ p n ended sources, Ended w (a.maxToolSteps + 1).toNat 0 p n ended es ∧
      p.toolCalls.length = autoRows a transcript ∧ p.records = [] ∧
      result = ended.result sources := by
  unfold AgentService.run at h
  obtain ⟨hits, mem₁, es₁, es₂, hrag, hrest, rfl⟩ := Eff.bind_returns h
  obtain ⟨-, rfl⟩ := ofExcept_returns hrag
  obtain ⟨web, mem₂, es₃, es₄, hweb, hagent, rfl⟩ := Eff.bind_returns hrest
  obtain ⟨hrows, rfl⟩ := autoWebSearch_returns hweb
  obtain ⟨ended, mem₃, es₅, es₆, hloop, hresult, rfl⟩ := Eff.bind_returns hagent
  obtain ⟨n, hended⟩ := agentLoop_ended hloop
  cases hresult
  rw [List.append_nil]
  exact ⟨_, n, ended, _, hended, hrows, rfl, rfl⟩

/-- A run that returns, from what it returns. -/
theorem run_eq_of_isOk {systemPrompt transcript : Str} {history : List ChatMessage} {mem : Memory}
    (h : (a.run w systemPrompt transcript history mem).1.toOption.isSome = true) :
    ∃ result mem' es, a.run w systemPrompt transcript history mem = (.ok result, mem', es) := by
  rcases hrun : a.run w systemPrompt transcript history mem with ⟨out, mem', es⟩
  rw [hrun] at h
  cases out with
  | error e => cases h
  | ok result => exact ⟨result, mem', es, rfl⟩

end AiPipelines.Agent
