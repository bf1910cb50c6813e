import AiPipelines.Agent.Chat
import AiPipelines.SessionStore.Moves
import AiPipelines.Transition
import AiPipelines.Turn.Handlers

/-!
# The chats of a server run

Runs of the server: sessions are created, turns are taken with them, and the
server is started again.  The trace of a run are the calls of the language model.

A text turn is refused when it is blank, and the agent never answers with
nothing.  A voice turn is not refused: silence has an empty transcript, and it is
sent to the model and recorded.  Without tools, an empty output is recorded
too.  The history leaves out the blank half of such a turn, and two messages of
one side come together.

* `Spoken` is the condition on a turn that neither of the two happens.
* `FullStore` is the invariant: no turn of a session, cached or on disk, has a
  blank half.  `handle_chat` is the step lemma.
* `run_wellFormed` proves that in every run whose turns are `Spoken` all calls
  are well-formed, and `silence_not_wellFormed` has a run for each way to break
  it.
-/

namespace AiPipelines.Turn

open PyStd SessionStore Agent

/-! ## Runs -/

/-- What happens to the server. -/
inductive Op where
  | create (sid now : Str)
  | turn (w : TurnWorld) (req : TurnRequest)
  /-- the server is started again: what was in memory is gone -/
  | restart

/-- One operation, with the calls of the language model. -/
def step (v : PipelineService) (st : Store) : Op → Option (Store × List LlmCall)
  | .create sid now => some (st.create sid now, [])
  | .turn w req => some (handle v w req st).2
  | .restart => some (⟨[], [], st.disk⟩, [])

/-- The server before its first session. -/
def emptyStore : Store := ⟨[], [], []⟩

/-! ## The condition -/

/-- The request wants tools. -/
def TurnRequest.usesTools : TurnRequest → Bool
  | .voice _ _ _ toolsEnabled => parseFormBool toolsEnabled true
  | .text _ _ _ toolsEnabled _ => toolsEnabled

/-- There is a transcript in a voice turn, and an output in a turn without
tools. -/
structure Spoken (v : PipelineService) (w : TurnWorld) (req : TurnRequest) : Prop where
  heard : ∀ id upload llmModel tools, req = .voice id upload llmModel tools →
    ∀ transcript, w.asr = .ok transcript → ¬ IsBlank transcript
  answered : v.agentFor req.usesTools = none →
    ∀ pieces, w.llm 0 = .ok pieces → ¬ IsBlank pieces.flatten

/-- The condition on an operation. -/
def Op.Spoken (v : PipelineService) : Op → Prop
  | .turn w req => Turn.Spoken v w req
  | _ => True

/-! ## The invariant -/

/-- No turn of a session has a blank half. -/
structure FullStore (st : Store) : Prop where
  heap : ∀ s ∈ st.heap, FullSession s
  saved : ∀ id s, st.saved id = some s → FullSession s

namespace FullStore

variable {st st' : Store}

theorem same (h : FullStore st) (hsame : st.SameSessions st') : FullStore st' := by
  refine ⟨?_, ?_⟩
  · rw [hsame.heap]
    exact h.heap
  · intro id s hs
    rw [hsame.saved id] at hs
    exact h.saved id s hs

/-- Objects may change in any way that keeps their turns full. -/
theorem mutate (h : FullStore st) (r : Ref) {f : Session → Session}
    (hf : ∀ s, FullSession s → FullSession (f s)) : FullStore (st.mutate r f) := by
  refine ⟨?_, h.saved⟩
  intro s hs
  obtain ⟨i, hi⟩ := List.mem_iff_getElem?.1 hs
  have hmod : (st.heap.modify r f)[i]? = some s := hi
  rw [List.getElem?_modify] at hmod
  cases hold : st.heap[i]? with
  | none => rw [hold] at hmod; cases hmod
  | some s₀ =>
    have hs₀ : FullSession s₀ := h.heap s₀ (List.mem_of_getElem? hold)
    rw [hold] at hmod
    by_cases hir : r = i
    · have heq : f s₀ = s := by simpa [hir] using hmod
      rw [← heq]
      exact hf s₀ hs₀
    · have heq : s₀ = s := by simpa [hir] using hmod
      rw [← heq]
      exact hs₀

theorem save (h : FullStore st) {s : Session} (hs : FullSession s) : FullStore (st.save s) := by
  refine ⟨h.heap, ?_⟩
  intro id s' hs'
  rw [Store.saved_save] at hs'
  split_ifs at hs' with hid
  · rw [← Option.some.inj hs']
    exact hs
  · exact h.saved id s' hs'

theorem deref (h : FullStore st) {r : Ref} {s : Session} (hs : st.deref r = some s) :
    FullSession s :=
  h.heap s (List.mem_of_getElem? hs)

/-- `update` saves an object that is full. -/
theorem update (h : FullStore st) {r : Ref} {now : Str} {s : Session}
    (hup : st.update r now = some (st', s)) : FullStore st' := by
  have hmut : FullStore (st.mutate r fun s => { s with updatedAt := now }) :=
    h.mutate r fun _ hs => hs
  obtain ⟨s', hs', hp⟩ := Option.map_eq_some_iff.1 hup
  rw [← (Prod.mk.inj hp).1]
  apply FullStore.save ?_ (hmut.deref hs')
  exact ⟨hmut.heap, hmut.saved⟩

theorem create (h : FullStore st) (sid now : Str) : FullStore (st.create sid now) := by
  have hs : FullSession { sessionId := sid, createdAt := now, updatedAt := now } := by
    intro t ht
    cases ht
  apply FullStore.save ?_ hs
  refine ⟨?_, h.saved⟩
  intro s' hs'
  rcases List.mem_append.1 hs' with hs' | hs'
  · exact h.heap s' hs'
  · rw [List.mem_singleton.1 hs']
    exact hs

/-- A step of `get` reads what is on disk. -/
theorem getStep (h : FullStore st) (id : Str) (pc : Store.GetPc) :
    FullStore (st.getStep id pc).1 := by
  have hmove := Store.getStep_move st id pc
  generalize (st.getStep id pc).1 = st' at hmove
  generalize (st.getStep id pc).2 = out at hmove
  cases hmove with
  | hit _ => exact h
  | miss _ => exact h
  | absent _ => exact h
  | present _ => exact h
  | unreadable _ => exact h
  | publish r => exact ⟨h.heap, h.saved⟩
  | @load s hs =>
    refine ⟨?_, h.saved⟩
    intro s' hs'
    rcases List.mem_append.1 hs' with hs' | hs'
    · exact h.heap s' hs'
    · rw [List.mem_singleton.1 hs']
      exact h.saved id s hs

theorem getFrom (h : FullStore st) (id : Str) (n : Nat) (pc : Store.GetPc) :
    FullStore (Turn.getFrom id n pc st).2 := by
  induction n generalizing pc st with
  | zero => exact h
  | succ n ih =>
    have hstep := h.getStep id pc
    unfold Turn.getFrom
    rcases hgs : st.getStep id pc with ⟨st', out⟩
    rw [hgs] at hstep
    cases out with
    | next pc' => exact ih hstep pc'
    | ret r => exact hstep
    | raised => exact hstep

end FullStore

/-! ## The stages of a turn -/

variable {id : Str} {r : Ref} {w : TurnWorld} {v : PipelineService} {E : LlmCall → Prop}

theorem putMemory_full {st : Store} (h : FullStore st) (r : Ref) (mem : Memory) :
    FullStore (putMemory r mem st) :=
  h.mutate r fun _ hs => hs

theorem writeAudio_full {name : Str} (hname : name ≠ sessionJson) :
    Eff.Triple FullStore (writeAudio id name) E (fun _ => FullStore) (fun _ => FullStore) := by
  apply Eff.Triple.act
  intro st h
  cases hwrite : st.writeFile id name .raw with
  | none => exact h
  | some st' => exact h.same (Store.writeFile_same hname hwrite)

theorem writeStage_full {writes : Bool} {outcome : Except Exc Unit} {name : Str}
    (hname : name ≠ sessionJson) :
    Eff.Triple FullStore (writeStage writes outcome id name) E (fun _ => FullStore)
      (fun _ => FullStore) := by
  have hend : Eff.Triple FullStore (Eff.ofExcept outcome) E (fun _ => FullStore)
      (fun _ => FullStore) :=
    Eff.Triple.ofExcept (fun _ _ _ h => h) fun _ _ _ h => h
  unfold writeStage
  split_ifs
  · exact Eff.Triple.bind (writeAudio_full hname) fun _ => hend
  · exact hend

theorem speak_full {outWav : Option Str} (hname : ∀ name ∈ outWav, name ≠ sessionJson) :
    Eff.Triple FullStore (speak w id outWav) E (fun _ => FullStore) (fun _ => FullStore) := by
  cases outWav with
  | none => exact Eff.Triple.pure fun _ h => h
  | some name =>
    refine Eff.Triple.bind (Eff.Triple.modify fun st h => h.same (Store.mkdir_same st id))
      fun _ => ?_
    exact writeStage_full (hname name rfl)

/-- The calls of an answer are well-formed, and the answer is not blank. -/
theorem answer_chat {agent : Option AgentService} {systemPrompt transcript : Str}
    {history : List ChatMessage} (hchat : WellFormed (history ++ [⟨.user, transcript⟩]))
    (hplain : agent = none → ∀ pieces, w.llm 0 = .ok pieces → ¬ IsBlank pieces.flatten) :
    Eff.Triple FullStore (answer w r agent systemPrompt transcript history) ChatCall
      (fun a st => FullStore st ∧ ¬ IsBlank a.reply) (fun _ => FullStore) := by
  cases agent with
  | none =>
    refine Eff.Triple.bind (Eff.Triple.emit hchat) fun _ => ?_
    apply Eff.Triple.ofExcept_bind
    · intro pieces hpieces
      apply Eff.Triple.pure
      intro st h
      refine ⟨h, ?_⟩
      show ¬ IsBlank (strip pieces.flatten)
      rw [isBlank_strip]
      exact hplain rfl pieces hpieces
    · intro _ _ st h
      exact h
  | some a =>
    refine Eff.Triple.bind (R := fun result st => FullStore st ∧ ¬ IsBlank result.replyText) ?_
      fun result => ?_
    · apply Eff.Triple.zoom
      intro st h
      apply Eff.Triple.weaken (Eff.Triple.conseq (run_chat systemPrompt transcript hchat)
        (fun _ _ => trivial) fun _ _ hq => hq)
      · intro result mem hresult
        exact ⟨putMemory_full h r mem, hresult⟩
      · intro _ mem _
        exact putMemory_full h r mem
    · refine Eff.Triple.bind Eff.Triple.read fun st => ?_
      refine Eff.Triple.bind (R := fun _ st => FullStore st ∧ ¬ IsBlank result.replyText) ?_
        fun _ => Eff.Triple.pure fun _ h => h
      apply Eff.Triple.modify
      intro st' h
      exact ⟨putMemory_full h.2.1 r _, h.2.2⟩

/-- A blank text is refused. -/
theorem hear_text_not_blank {text transcript : Str}
    (h : hear w (.text text) = .ok transcript) : ¬ IsBlank transcript := by
  simp only [hear] at h
  split_ifs at h with hblank
  rw [← Except.ok.inj h, isBlank_strip, ← strip_eq_nil_iff]
  exact hblank

/-- Both halves of the turn have something in them. -/
def FullProfile (profile : StageProfile) : Prop :=
  ¬ IsBlank profile.transcript ∧ ¬ IsBlank profile.replyText

theorem stagedTurn_chat {s : Session} (hs : FullSession s) {input : TurnInput}
    {outWav : Option Str} {agent : Option AgentService} {systemPrompt modelId : Str}
    (hheard : ∀ transcript, hear w input = .ok transcript → ¬ IsBlank transcript)
    (hplain : agent = none → ∀ pieces, w.llm 0 = .ok pieces → ¬ IsBlank pieces.flatten)
    (hname : ∀ name ∈ outWav, name ≠ sessionJson) :
    Eff.Triple FullStore
      (stagedTurn w r id input s.historyMessages outWav agent systemPrompt modelId) ChatCall
      (fun profile st => FullStore st ∧ FullProfile profile) (fun _ => FullStore) := by
  unfold stagedTurn
  apply Eff.Triple.ofExcept_bind
  · intro transcript htranscript
    have hsaid := hheard transcript htranscript
    refine Eff.Triple.bind_fact (answer_chat (history_wellFormed hs hsaid) hplain)
      (fun _ _ h => h.symm) fun answered hanswered => ?_
    refine Eff.Triple.bind (speak_full hname) fun _ => ?_
    apply Eff.Triple.pure
    intro st h
    exact ⟨h, hsaid, hanswered⟩
  · intro _ _ st h
    exact h

theorem runTurn_chat {s : Session} (hs : FullSession s) {input : TurnInput}
    {outWav llmModel : Option Str} {toolsEnabled : Bool}
    (hheard : ∀ transcript, hear w input = .ok transcript → ¬ IsBlank transcript)
    (hplain : v.agentFor toolsEnabled = none →
      ∀ pieces, w.llm 0 = .ok pieces → ¬ IsBlank pieces.flatten)
    (hname : ∀ name ∈ outWav, name ≠ sessionJson) :
    Eff.Triple FullStore
      (v.runTurn w r id input s.historyMessages outWav llmModel toolsEnabled) ChatCall
      (fun profile st => FullStore st ∧ FullProfile profile) (fun _ => FullStore) := by
  unfold PipelineService.runTurn
  apply Eff.Triple.ofExcept_bind
  · intro _ _
    apply Eff.Triple.ofExcept_bind
    · intro model _
      exact stagedTurn_chat hs hheard hplain hname
    · intro _ _ st h
      exact h
  · intro _ _ st h
    exact h

/-! ## The routes -/

theorem requireSession_full :
    Eff.Triple FullStore (requireSession id) E (fun _ => FullStore) (fun _ => FullStore) := by
  unfold requireSession
  refine Eff.Triple.bind (R := fun _ => FullStore) ?_ fun found => ?_
  · apply Eff.Triple.act
    intro st h
    have hget : FullStore (getSession id st).2 := h.getFrom id 4 .start
    cases (getSession id st).1 with
    | ok found => exact hget
    | error e => exact hget
  · cases found with
    | some r => exact Eff.Triple.pure fun _ h => h
    | none => exact Eff.Triple.raise fun _ h => h

theorem sessionAt_full :
    Eff.Triple FullStore (sessionAt r) E (fun s st => FullStore st ∧ FullSession s)
      (fun _ => FullStore) := by
  unfold sessionAt
  refine Eff.Triple.bind Eff.Triple.read fun st => ?_
  cases hs : st.deref r with
  | none => exact Eff.Triple.raise fun _ h => h.2
  | some s =>
    apply Eff.Triple.pure
    intro st' h
    refine ⟨h.2, ?_⟩
    rw [h.1] at hs
    exact h.2.deref hs

theorem updateSession_full :
    Eff.Triple FullStore (updateSession w r) E (fun _ => FullStore) (fun _ => FullStore) := by
  apply Eff.Triple.act
  intro st h
  cases hup : st.update r w.updatedAt with
  | none => exact h
  | some p =>
    obtain ⟨st', s⟩ := p
    have hup := h.update hup
    dsimp only
    cases saveEnd w s with
    | saved => exact hup
    | raised opened => exact ⟨hup.heap, fun _ _ hs => h.saved _ _ (saved_brokenSave hs)⟩

theorem saveTurn_full {i : TurnInfo} (hi : FullProfile i.profile) :
    Eff.Triple FullStore (saveTurnAndRespond v w r i) E (fun _ => FullStore)
      (fun _ => FullStore) := by
  unfold saveTurnAndRespond
  refine Eff.Triple.bind (R := fun _ => FullStore) ?_ fun _ => ?_
  · apply Eff.Triple.modify
    intro st h
    apply h.mutate
    intro s hs t ht
    rcases List.mem_append.1 ht with ht | ht
    · exact hs t ht
    · rw [List.mem_singleton.1 ht]
      exact ⟨hi.1, hi.2⟩
  · refine Eff.Triple.bind updateSession_full fun s => ?_
    exact Eff.Triple.ofExcept_bind (fun _ _ => Eff.Triple.pure fun _ h => h) fun _ _ _ h => h

theorem postTurn_chat {upload llmModel toolsEnabled : Option Str}
    (hspoken : Spoken v w (.voice id upload llmModel toolsEnabled)) :
    Eff.Triple FullStore (postTurn v w id upload llmModel toolsEnabled) ChatCall
      (fun _ => FullStore) (fun _ => FullStore) := by
  unfold postTurn
  refine Eff.Triple.bind requireSession_full fun r => ?_
  apply Eff.Triple.ofExcept_bind ?_ fun _ _ _ h => h
  intro _ _
  refine Eff.Triple.bind (sessionAudioDir_triple (fun _ st h => h.same (Store.mkdir_same st id))
    fun _ _ _ h => h) fun _ => ?_
  refine Eff.Triple.bind_fact sessionAt_full (fun _ _ h => h.symm) fun s hs => ?_
  apply Eff.Triple.ofExcept_bind ?_ fun _ _ _ h => h
  intro _ _
  refine Eff.Triple.bind_fact (S := fun profile st => FullStore st ∧ FullProfile profile) ?_
    (fun _ _ h => h.symm) fun profile hprofile => saveTurn_full hprofile
  apply Eff.Triple.withCleanup (X := fun _ => FullStore) ?_ (fun _ _ _ h => h) (fun _ _ _ h => h)
  · rintro _ _ _ (⟨_, h, -⟩ | ⟨_, h⟩)
    · exact h
    · exact h
  apply Eff.Triple.reraise
  unfold voiceTurn
  refine Eff.Triple.bind (writeStage_full (AudioFile.name_ne_sessionJson _ _)) fun _ => ?_
  refine Eff.Triple.bind (writeStage_full (AudioFile.name_ne_sessionJson _ _)) fun _ => ?_
  apply runTurn_chat hs
  · intro transcript htranscript
    exact hspoken.heard id upload llmModel toolsEnabled rfl transcript htranscript
  · exact hspoken.answered
  · exact replyName_ne _

theorem postTextTurn_chat {text : Str} {llmModel : Option Str} {toolsEnabled speakReply : Bool}
    (hspoken : Spoken v w (.text id text llmModel toolsEnabled speakReply)) :
    Eff.Triple FullStore (postTextTurn v w id text llmModel toolsEnabled speakReply) ChatCall
      (fun _ => FullStore) (fun _ => FullStore) := by
  unfold postTextTurn
  refine Eff.Triple.bind requireSession_full fun r => ?_
  apply Eff.Triple.ofExcept_bind ?_ fun _ _ _ h => h
  intro _ _
  apply Eff.Triple.ofExcept_bind ?_ fun _ _ _ h => h
  intro _ _
  refine Eff.Triple.bind (sessionAudioDir_triple (fun _ st h => h.same (Store.mkdir_same st id))
    fun _ _ _ h => h) fun _ => ?_
  refine Eff.Triple.bind_fact sessionAt_full (fun _ _ h => h.symm) fun s hs => ?_
  refine Eff.Triple.bind_fact (S := fun profile st => FullStore st ∧ FullProfile profile) ?_
    (fun _ _ h => h.symm) fun profile hprofile => saveTurn_full hprofile
  apply Eff.Triple.reraise
  exact runTurn_chat hs (fun _ => hear_text_not_blank) hspoken.answered (spokenName_ne _ speakReply)

/-- A turn that is spoken keeps the sessions full, and all of its calls are
well-formed. -/
theorem handle_chat {req : TurnRequest} (hspoken : Spoken v w req) :
    Eff.Triple FullStore (handle v w req) ChatCall (fun _ => FullStore) (fun _ => FullStore) := by
  cases req with
  | voice id upload llmModel toolsEnabled => exact postTurn_chat hspoken
  | text id text llmModel toolsEnabled speakReply => exact postTextTurn_chat hspoken

/-! ## Runs -/

theorem step_full {st st₁ : Store} {op : Op} {es : List LlmCall} (h : FullStore st)
    (hop : op.Spoken v) (hstep : step v st op = some (st₁, es)) :
    FullStore st₁ ∧ ∀ call ∈ es, ChatCall call := by
  cases op with
  | create sid now =>
    cases hstep
    exact ⟨h.create sid now, fun _ hmem => absurd hmem List.not_mem_nil⟩
  | turn w req =>
    have hturn := (handle_chat hop).always h
    have heq : (handle v w req st).2 = (st₁, es) := Option.some.inj hstep
    rw [heq] at hturn
    exact hturn
  | restart =>
    cases hstep
    refine ⟨⟨fun _ hmem => absurd hmem List.not_mem_nil, h.saved⟩, ?_⟩
    exact fun _ hmem => absurd hmem List.not_mem_nil

theorem emptyStore_full : FullStore emptyStore := by
  refine ⟨fun _ hmem => absurd hmem List.not_mem_nil, ?_⟩
  intro id s hs
  cases hs

/-- In a run whose turns are all spoken, every list of messages that the language
model gets starts with the user, alternates, and has nothing blank in it. -/
theorem run_wellFormed {ops : List Op} {st : Store} {es : List LlmCall}
    (hspoken : ∀ op ∈ ops, op.Spoken v)
    (hrun : Transition.run (step v) emptyStore ops = some (st, es)) :
    ∀ call ∈ es, WellFormed call.messages := by
  have hok : Transition.AllSteps (step v) (fun _ op => op.Spoken v) emptyStore ops :=
    Transition.AllSteps.of_forall hspoken
  exact (Transition.run_invariant (fun _ _ _ _ hI hop hs => step_full hI hop hs) emptyStore_full
    hok hrun).2

/-! ## Silence -/

/-- The language model gives the outputs one after the other. -/
def chatWorld (said : Str) (outputs : List Str) : TurnWorld :=
  localWorld said fun step => .ok (outputs.drop step |>.take 1)

/-- The lists of messages of a run. -/
def chats (ops : List Op) : Option (List (List ChatMessage)) :=
  (Transition.run (step localService) emptyStore ops).map fun p => p.2.map LlmCall.messages

/-- A voice turn without tools, and a text turn in which the agent uses one and whose
session cannot be dumped. -/
def spokenRun : List Op :=
  let late := chatWorld [] ["TOOL_CALL: \x7b\"name\": \"get_current_time\"\x7d", "FINAL: Late."]
  [.create "s1" [],
    .turn (chatWorld "Hello." ["Hi."]) (.voice "s1" none none (some "false")),
    .turn { late with dumpDepth := 0 } (.text "s1" "What time is it?" none true false)]

theorem spokenRun_spoken : ∀ op ∈ spokenRun, op.Spoken localService := by
  intro op hop
  unfold spokenRun at hop
  rcases List.mem_cons.1 hop with hop | hop
  · rw [hop]
    trivial
  · rcases List.mem_cons.1 hop with hop | hop
    · rw [hop]
      refine ⟨?_, ?_⟩
      · intro _ _ _ _ _ transcript htranscript
        rw [← Except.ok.inj htranscript]
        decide
      · intro _ pieces hpieces
        rw [← Except.ok.inj hpieces]
        decide
    · rw [List.mem_singleton.1 hop]
      refine ⟨?_, ?_⟩
      · intro _ _ _ _ hreq
        cases hreq
      · intro hnone
        cases hnone

theorem spokenRun_wellFormed :
    ∃ st es, Transition.run (step localService) emptyStore spokenRun = some (st, es) ∧
      es.length = 3 ∧ ∀ call ∈ es, WellFormed call.messages := by
  have hlength : (chats spokenRun).map List.length = some 3 := by decide +kernel
  unfold chats at hlength
  cases hrun : Transition.run (step localService) emptyStore spokenRun with
  | none => rw [hrun] at hlength; cases hlength
  | some p =>
    obtain ⟨st, es⟩ := p
    rw [hrun] at hlength
    refine ⟨st, es, rfl, ?_, run_wellFormed spokenRun_spoken hrun⟩
    simpa using hlength

/-- A voice turn with nothing in it. -/
def silenceRun : List Op :=
  [.create "s1" [], .turn (chatWorld [] ["Hi."]) (.voice "s1" none none (some "false"))]

/-- A text turn without an answer, and another one. -/
def noAnswerRun : List Op :=
  [.create "s1" [],
    .turn (chatWorld [] []) (.text "s1" "Hello." none false false),
    .turn (chatWorld [] ["Hi."]) (.text "s1" "Are you there?" none false false)]

/-- Silence reaches the language model as an empty message, and an answer that is
left out brings two messages of the user together. -/
theorem silence_not_wellFormed :
    chats silenceRun = some [[⟨.user, []⟩]] ∧ ¬ WellFormed [⟨.user, []⟩] ∧
      chats noAnswerRun = some [[⟨.user, "Hello."⟩],
        [⟨.user, "Hello."⟩, ⟨.user, "Are you there?"⟩]] ∧
      ¬ WellFormed [⟨.user, "Hello."⟩, ⟨.user, "Are you there?"⟩] := by
  refine ⟨by decide +kernel, ?_, by decide +kernel, ?_⟩
  · intro h
    exact h.notBlank _ List.mem_cons_self (by decide)
  · intro h
    exact (List.isChain_cons_cons.1 h.alternates).1 rfl

end AiPipelines.Turn
