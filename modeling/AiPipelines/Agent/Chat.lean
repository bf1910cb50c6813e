import AiPipelines.Agent.Service
import Mathlib.Data.List.Chain

/-!
# Well-formed chats

Chat models expect a list of messages that starts with the user, alternates
between user and assistant, and has something in every message: `WellFormed`.

`history_wellFormed` says when the history of a session followed by a new
message is one: when no turn of the session has a blank half and the new message
is not blank.  `run_chat` proves that the agent keeps it, in every call that it
makes, and that it never answers with nothing.
-/

namespace AiPipelines.Agent

open PyStd SessionStore

/-! ## Messages -/

/-- What a chat model expects. -/
structure WellFormed (messages : List ChatMessage) : Prop where
  startsWithUser : messages.head?.map ChatMessage.role = some .user
  alternates : messages.IsChain fun m m' => m.role ≠ m'.role
  notBlank : ∀ m ∈ messages, ¬ IsBlank m.content

theorem user_ne_assistant : Role.user ≠ Role.assistant := by decide

/-- The last message is one of the user. -/
def EndsWithUser (messages : List ChatMessage) : Prop :=
  messages.getLast?.map ChatMessage.role = some .user

theorem wellFormed_singleton {content : Str} (h : ¬ IsBlank content) :
    WellFormed [⟨.user, content⟩] := by
  refine ⟨rfl, List.isChain_singleton _, ?_⟩
  intro m hm
  rw [List.mem_singleton.1 hm]
  exact h

/-- A turn in front of a chat. -/
theorem WellFormed.cons_turn {messages : List ChatMessage} (h : WellFormed messages)
    {said answered : Str} (hsaid : ¬ IsBlank said) (hanswered : ¬ IsBlank answered) :
    WellFormed (⟨.user, said⟩ :: ⟨.assistant, answered⟩ :: messages) := by
  refine ⟨rfl, ?_, ?_⟩
  · rw [List.isChain_cons_cons]
    refine ⟨user_ne_assistant, ?_⟩
    cases messages with
    | nil => exact List.isChain_singleton _
    | cons m messages =>
      have hm : m.role = .user := Option.some.inj h.startsWithUser
      rw [List.isChain_cons_cons, hm]
      exact ⟨user_ne_assistant.symm, h.alternates⟩
  · intro m hm
    rcases List.mem_cons.1 hm with hm | hm
    · rw [hm]
      exact hsaid
    · rcases List.mem_cons.1 hm with hm | hm
      · rw [hm]
        exact hanswered
      · exact h.notBlank m hm

/-- An answer of the assistant and a reply of the user behind a chat. -/
theorem WellFormed.append_round {messages : List ChatMessage} (h : WellFormed messages)
    (hend : EndsWithUser messages) {answered replied : Str} (hanswered : ¬ IsBlank answered)
    (hreplied : ¬ IsBlank replied) :
    WellFormed (messages ++ [⟨.assistant, answered⟩, ⟨.user, replied⟩]) := by
  refine ⟨?_, ?_, ?_⟩
  · cases messages with
    | nil => cases h.startsWithUser
    | cons m messages => exact h.startsWithUser
  · rw [List.isChain_append]
    refine ⟨h.alternates, by simp, ?_⟩
    intro m hm m' hm'
    have hrole : m.role = .user := by
      unfold EndsWithUser at hend
      rw [Option.mem_def.1 hm] at hend
      exact Option.some.inj hend
    rw [hrole, ← Option.some.inj hm']
    exact user_ne_assistant
  · intro m hm
    rcases List.mem_append.1 hm with hm | hm
    · exact h.notBlank m hm
    · rcases List.mem_cons.1 hm with hm | hm
      · rw [hm]
        exact hanswered
      · rw [List.mem_singleton.1 hm]
        exact hreplied

theorem endsWithUser_append (messages : List ChatMessage) (m : ChatMessage) (content : Str) :
    EndsWithUser (messages ++ [m, ⟨.user, content⟩]) := by
  unfold EndsWithUser
  simp

/-! ## The history of a session -/

/-- Both halves of the turn have something in them. -/
structure FullTurn (t : TurnRecord) : Prop where
  said : ¬ IsBlank t.userTranscript
  answered : ¬ IsBlank t.assistantReply

/-- No turn of the session has a blank half. -/
def FullSession (s : Session) : Prop := ∀ t ∈ s.turns, FullTurn t

theorem messages_of_fullTurn {t : TurnRecord} (h : FullTurn t) :
    t.messages = [⟨.user, strip t.userTranscript⟩, ⟨.assistant, strip t.assistantReply⟩] := by
  have hsaid : strip t.userTranscript ≠ [] := fun he => h.said (strip_eq_nil_iff.1 he)
  have hanswered : strip t.assistantReply ≠ [] := fun he => h.answered (strip_eq_nil_iff.1 he)
  unfold TurnRecord.messages
  rw [if_pos hsaid, if_pos hanswered]
  rfl

theorem turns_wellFormed {turns : List TurnRecord} (h : ∀ t ∈ turns, FullTurn t) {content : Str}
    (hcontent : ¬ IsBlank content) :
    WellFormed (turns.flatMap TurnRecord.messages ++ [⟨.user, content⟩]) := by
  induction turns with
  | nil => exact wellFormed_singleton hcontent
  | cons t turns ih =>
    have ht : FullTurn t := h t List.mem_cons_self
    rw [List.flatMap_cons, messages_of_fullTurn ht]
    apply WellFormed.cons_turn
    · exact ih fun t' ht' => h t' (List.mem_cons_of_mem t ht')
    · rw [isBlank_strip]
      exact ht.said
    · rw [isBlank_strip]
      exact ht.answered

/-- The history of a session without blank halves, and a message that is not
blank. -/
theorem history_wellFormed {s : Session} (hs : FullSession s) {content : Str}
    (hcontent : ¬ IsBlank content) : WellFormed (s.historyMessages ++ [⟨.user, content⟩]) :=
  turns_wellFormed hs hcontent

theorem history_endsWithUser (history : List ChatMessage) (content : Str) :
    EndsWithUser (history ++ [⟨.user, content⟩]) := by
  unfold EndsWithUser
  simp

/-! ## The agent -/

/-- The chat of a call is well-formed. -/
def ChatCall (c : LlmCall) : Prop := WellFormed c.messages

theorem plainReply_not_blank (raw : Str) : ¬ IsBlank (plainReply raw) := by
  unfold plainReply
  split_ifs with h
  · decide
  · rw [isBlank_strip, ← strip_eq_nil_iff]
    exact h

theorem finishReply_not_blank {reply : Str} (h : reply = [] ∨ ¬ IsBlank reply) :
    ¬ IsBlank (finishReply reply) := by
  unfold finishReply
  apply sanitizeAgentReply_not_blank
  split_ifs with hnil
  · decide
  · exact h.resolve_left hnil

/-- The message with the answer of a tool says so, whatever the answer is. -/
theorem toolResultMessage_not_blank (name result : Str) :
    ¬ IsBlank (toolResultMessage name result) := by
  intro h
  have hmem : 'T' ∈ toolResultMessage name result := by
    unfold toolResultMessage
    simp only [List.append_assoc, List.mem_append]
    exact .inl (by decide)
  exact absurd (h 'T' hmem) (by decide)

/-- The reply that the end of the loop leads to. -/
def LoopEnd.reply : LoopEnd → Str
  | .final _ reply _ => reply
  | .text reply _ => finishReply reply
  | .exhausted _ => finishReply []

theorem result_replyText (ended : LoopEnd) (ragSources : List Str) :
    (ended.result ragSources).replyText = ended.reply := by
  cases ended <;> rfl

variable {a : AgentService} {w : AgentWorld}

theorem agentLoop_chat (system : Str) (rounds step : Nat) (p : Progress)
    (hp : WellFormed p.messages) (hend : EndsWithUser p.messages) :
    Eff.Triple (fun _ => True) (agentLoop a w system rounds step p) ChatCall
      (fun ended _ => ¬ IsBlank ended.reply) (fun _ _ => True) := by
  induction rounds generalizing step p with
  | zero =>
    apply Eff.Triple.pure
    intro _ _
    show ¬ IsBlank (finishReply [])
    exact finishReply_not_blank (.inl rfl)
  | succ rounds ih =>
    unfold agentLoop
    refine Eff.Triple.bind (llmComplete_spec hp fun _ _ _ _ => trivial) fun raw => ?_
    refine Eff.Triple.conseq (P := fun _ => True) ?_ (fun _ _ => trivial) fun _ _ h => h
    cases hfinal : parseFinal raw with
    | some final =>
      apply Eff.Triple.pure
      intro _ _
      show ¬ IsBlank (sanitizeAgentReply final)
      exact sanitizeAgentReply_not_blank (parseFinal_not_blank hfinal)
    | none =>
      apply Eff.Triple.ofExcept_bind
      · intro toolCall htool
        cases toolCall with
        | none =>
          apply Eff.Triple.pure
          intro _ _
          show ¬ IsBlank (finishReply (sanitizeAgentReply (plainReply raw)))
          apply finishReply_not_blank
          right
          exact sanitizeAgentReply_not_blank (plainReply_not_blank raw)
        | some call =>
          have hraw : ¬ IsBlank (strip raw) := by
            rw [isBlank_strip]
            exact parseToolCall_not_blank (mapError_eq_ok htool)
          refine Eff.Triple.bind (R := fun _ _ => True) ?_ fun result => ?_
          · refine Eff.Triple.ghost fun mem _ => ?_
            exact Eff.Triple.conseq runTool_spec (fun _ h => h) fun _ _ _ => trivial
          · apply ih
            · exact hp.append_round hend hraw (toolResultMessage_not_blank _ _)
            · exact endsWithUser_append _ _ _
      · intro _ _ _ _
        trivial

/-- Every call of the agent is well-formed, and its answer is not blank. -/
theorem run_chat (systemPrompt transcript : Str) {history : List ChatMessage}
    (h : WellFormed (history ++ [⟨.user, transcript⟩])) :
    Eff.Triple (fun _ => True) (a.run w systemPrompt transcript history) ChatCall
      (fun result _ => ¬ IsBlank result.replyText) (fun _ _ => True) := by
  unfold AgentService.run
  apply Eff.Triple.ofExcept_bind
  · intro ragHits _
    refine Eff.Triple.bind (R := fun _ _ => True) ?_ fun web => ?_
    · refine Eff.Triple.ghost fun mem _ => ?_
      exact Eff.Triple.conseq (autoWebSearch_memory transcript mem) (fun _ h => h)
        fun _ _ _ => trivial
    · refine Eff.Triple.bind (agentLoop_chat _ _ _ _ h (history_endsWithUser _ _)) fun ended => ?_
      apply Eff.Triple.pure
      intro _ hended
      rw [result_replyText]
      exact hended
  · intro _ _ _ _
    trivial

end AiPipelines.Agent
