import AiPipelines.Agent.Registry
import AiPipelines.Transition
import AiPipelines.Turn.Handlers

/-!
# Turns of several sessions in several threads

`run_turn` and `run_text_turn` of `PipelineService` may be called from several
threads.  Before it takes `_lock` a call checks that the pipeline is loaded,
finds its language model, and makes the closure `agent_runner`; these steps come
between those of other calls.  Behind the lock the whole pipeline runs without
another one beside it, so that is one step.

All calls share one agent and its registry.  A closure that was made long ago
may thus find the registry bound to the memory of another session.

`Server` has the memories of all sessions and the threads.  Its events say on
behalf of which memory something was done.  `session_memory_isolated` is the
result: each session has its memory for itself.
-/

namespace AiPipelines.Turn

open PyStd SessionStore Agent Transition

/-! ## The locked call -/

/-- A call of `run_turn` or `run_text_turn`. -/
structure TurnCall where
  world : TurnWorld
  input : TurnInput
  history : List ChatMessage
  outWav : Option Str
  sessionMemory : Option Ref
  llmModel : Option Str
  toolsEnabled : Bool

/-- The closure that `_agent_runner` returns. -/
structure Runner where
  agent : AgentService
  sessionMemory : Ref

/-- `_agent_runner`. -/
def PipelineService.agentRunner (v : PipelineService) (sessionMemory : Ref) : Option Runner :=
  v.agent.map fun a => ⟨a, sessionMemory⟩

/-- A call of the closure: the answer, and the copy of the memory in it. -/
def Runner.call (k : Runner) (w : TurnWorld) (systemPrompt transcript : Str)
    (history : List ChatMessage) : SharedProg (Answered × Memory) := do
  let result ← k.agent.runShared w.toAgentWorld k.sessionMemory systemPrompt transcript history
  let ms ← Eff.read
  let copy := ms.deref k.sessionMemory
  return (⟨result.replyText, runnerMeta w result copy, result.llmUsage⟩, copy)

/-- `session_memory.update(...)`. -/
def updateMemory (r : Ref) (items : Memory) : SharedProg Unit :=
  Eff.modify fun ms => ms.put r ((ms.deref r).update items)

/-- The answer of the language model alone. -/
def plainAnswerShared (w : TurnWorld) (systemPrompt transcript : Str)
    (history : List ChatMessage) : SharedProg Answered := do
  let messages := history ++ [⟨.user, transcript⟩]
  Eff.emit (.llm ⟨systemPrompt, messages⟩)
  let pieces ← Eff.ofExcept (w.llm 0)
  let usage := summarizeLlmCalls [measureCall 1 systemPrompt messages pieces.flatten]
  return ⟨strip pieces.flatten, [("llm_usage", llmUsageJson usage)], usage⟩

/-- The answer, with the memory that the caller of the pipeline gave. -/
def answerShared (w : TurnWorld) (r : Ref) (runner : Option Runner)
    (systemPrompt transcript : Str) (history : List ChatMessage) : SharedProg Answered :=
  match runner with
  | some k => do
    let (answered, copy) ← k.call w systemPrompt transcript history
    updateMemory r copy
    return answered
  | none => plainAnswerShared w systemPrompt transcript history

/-- `StagedVoicePipeline.run_turn`.  Its files are no matter here. -/
def stagedTurnShared (c : TurnCall) (r : Ref) (mid : Str) (m : LlmModel)
    (runner : Option Runner) : SharedProg StageProfile := do
  let transcript ← Eff.ofExcept (hear c.world c.input)
  let a ← answerShared c.world r runner m.systemPrompt transcript c.history
  if c.outWav.isSome then Eff.ofExcept c.world.tts
  return ⟨transcript, a.reply, c.outWav, mid, a.llmUsage, a.agentMeta⟩

/-! ## The threads -/

/-- Where a thread stands. -/
inductive Thread where
  | idle
  /-- before `if not self._ready` -/
  | entered (c : TurnCall)
  /-- `mem` is set; `resolve` is next -/
  | checked (c : TurnCall) (mem : Ref)
  /-- the model is there; the closure is made next -/
  | resolved (c : TurnCall) (mem : Ref) (mid : Str) (m : LlmModel)
  /-- before `with self._lock` -/
  | waiting (c : TurnCall) (mem : Ref) (mid : Str) (m : LlmModel) (runner : Option Runner)

/-- The memories of the sessions, and the threads. -/
structure Server where
  memories : Memories
  threads : Dict Nat Thread

/-- One choice of the scheduler. -/
inductive ThreadAction where
  /-- a session is made or read from disk, with these items in its memory -/
  | newSession (items : List (Str × Str))
  | submit (t : Nat) (c : TurnCall)
  | advance (t : Nat)

/-- What is seen. -/
inductive ThreadEvent where
  /-- something was done in a turn that was given the memory `mem` -/
  | did (mem : Ref) (ev : AgentEvent)
  | returned (t : Nat) (profile : StageProfile)
  | raised (t : Nat) (e : Exc)

namespace Server

/-- The server after a start: the registry has a dictionary of its own. -/
def start : Server := ⟨⟨[[]], 0⟩, []⟩

def threadAt (σ : Server) (t : Nat) : Thread := (σ.threads.get? t).getD .idle

/-- Move the thread `t`, on memories that may have changed. -/
def setThread (σ : Server) (t : Nat) (ms : Memories) (th : Thread) : Server :=
  ⟨ms, σ.threads.set t th⟩

/-- The end of a call. -/
def outcome (t : Nat) : Except Exc StageProfile → ThreadEvent
  | .ok profile => .returned t profile
  | .error e => .raised t e

/-- The next step of the thread `t`. -/
def advance (v : PipelineService) (σ : Server) (t : Nat) : Option (Server × List ThreadEvent) :=
  match σ.threadAt t with
  | .idle => none
  | .entered c =>
    match v.requireLoaded with
    | .error e => some (σ.setThread t σ.memories .idle, [.raised t e])
    | .ok _ =>
      match c.sessionMemory with
      | some r => some (σ.setThread t σ.memories (.checked c r), [])
      | none =>
        let (ms, r) := σ.memories.alloc []
        some (σ.setThread t ms (.checked c r), [])
  | .checked c mem =>
    match v.resolve c.world c.llmModel with
    | .error e => some (σ.setThread t σ.memories .idle, [.raised t e])
    | .ok (mid, m) => some (σ.setThread t σ.memories (.resolved c mem mid m), [])
  | .resolved c mem mid m =>
    let runner := if c.toolsEnabled then v.agentRunner mem else none
    some (σ.setThread t σ.memories (.waiting c mem mid m runner), [])
  | .waiting c mem mid m runner =>
    match stagedTurnShared c mem mid m runner σ.memories with
    | (r, ms, es) => some (σ.setThread t ms .idle, es.map (.did mem) ++ [outcome t r])

/-- One step of the server. -/
def step (v : PipelineService) (σ : Server) : ThreadAction → Option (Server × List ThreadEvent)
  | .newSession items => some (⟨(σ.memories.alloc (Dict.update [] items)).1, σ.threads⟩, [])
  | .submit t c =>
    match σ.threadAt t with
    | .idle =>
      -- the caller has the dictionary that it gives
      if c.sessionMemory.all (· < σ.memories.heap.length) then
        some (σ.setThread t σ.memories (.entered c), [])
      else none
    | _ => none
  | .advance t => σ.advance v t

end Server

/-! ## One call -/

section Call

variable {g : ToolRegistry} {start : Memories} {r : Ref}

theorem plainAnswerShared_confined (w : TurnWorld) (systemPrompt transcript : Str)
    (history : List ChatMessage) :
    Eff.Keeps (Confined g r start) (plainAnswerShared w systemPrompt transcript history) := by
  refine Eff.Keeps.bind (Eff.Keeps.emit ?_) fun _ => ?_
  · intro ms es h
    exact h.llm _
  · exact Eff.Keeps.bind (Eff.Keeps.ofExcept _) fun pieces => Eff.Keeps.pure _

/-- The closure gives a copy of the memory as it is then. -/
theorem call_copy {k : Runner} {w : TurnWorld} {systemPrompt transcript : Str}
    {history : List ChatMessage} (ms : Memories) (out : Answered × Memory)
    (h : (k.call w systemPrompt transcript history ms).1 = .ok out) :
    out.2 = (k.call w systemPrompt transcript history ms).2.1.deref k.sessionMemory := by
  revert h
  show (Eff.andThen _ _ ms).1 = .ok out → out.2 = (Eff.andThen _ _ ms).2.1.deref k.sessionMemory
  unfold Eff.andThen
  rcases k.agent.runShared w.toAgentWorld k.sessionMemory systemPrompt transcript history ms with
    ⟨result, ms₁, es⟩
  cases result with
  | error x => exact nofun
  | ok result =>
    intro h
    rw [← Except.ok.inj h]
    rfl

theorem call_confined {k : Runner} (hg : k.agent.tools = g) (hmem : k.sessionMemory = r)
    (hr : r < start.heap.length) (w : TurnWorld) (systemPrompt transcript : Str)
    (history : List ChatMessage) :
    Eff.Keeps (Confined g r start) (k.call w systemPrompt transcript history) := by
  subst hg hmem
  refine Eff.Keeps.bind (runShared_confined hr systemPrompt transcript history) fun result => ?_
  refine Eff.Keeps.bind ?_ fun ms => Eff.Keeps.pure _
  intro ms es h
  show Confined k.agent.tools k.sessionMemory start ms (es ++ [])
  rw [List.append_nil]
  exact h

/-- The copy that is merged back is what the memory already is. -/
theorem answerShared_confined {runner : Option Runner} (hkeys : (start.deref r).keys.Nodup)
    (hr : r < start.heap.length)
    (hrunner : ∀ k ∈ runner, k.agent.tools = g ∧ k.sessionMemory = r) (w : TurnWorld)
    (systemPrompt transcript : Str) (history : List ChatMessage) :
    Eff.Keeps (Confined g r start) (answerShared w r runner systemPrompt transcript history) := by
  cases runner with
  | none => exact plainAnswerShared_confined w systemPrompt transcript history
  | some k =>
    obtain ⟨hg, hmem⟩ := hrunner k rfl
    refine Eff.Keeps.bind_of (Q := fun out ms => out.2 = ms.deref k.sessionMemory)
      (call_confined hg hmem hr w systemPrompt transcript history) call_copy ?_
    intro out ms es hcopy h
    have hnodup : (ms.deref r).keys.Nodup := by
      rw [h.own.memory]
      exact Dict.nodup_keys_update hkeys
    have hsame : ms.put r ((ms.deref r).update out.2) = ms := by
      rw [hcopy, hmem, Dict.update_self hnodup, Memories.put_deref]
    show Confined g r start (ms.put r ((ms.deref r).update out.2)) (es ++ [])
    rw [hsame, List.append_nil]
    exact h

theorem stagedTurnShared_confined {runner : Option Runner} (hkeys : (start.deref r).keys.Nodup)
    (hr : r < start.heap.length)
    (hrunner : ∀ k ∈ runner, k.agent.tools = g ∧ k.sessionMemory = r) (c : TurnCall) (mid : Str)
    (m : LlmModel) :
    Eff.Keeps (Confined g r start) (stagedTurnShared c r mid m runner) := by
  refine Eff.Keeps.bind (Eff.Keeps.ofExcept _) fun transcript => ?_
  refine Eff.Keeps.bind (answerShared_confined hkeys hr hrunner _ _ _ _) fun a => ?_
  split_ifs
  · refine Eff.Keeps.bind (Eff.Keeps.ofExcept _) fun _ => ?_
    exact Eff.Keeps.pure _
  · exact Eff.Keeps.pure _

end Call

/-! ## Every step of the server -/

/-- The tools of the agent.  Without one there are no calls. -/
def PipelineService.registry (v : PipelineService) : ToolRegistry :=
  (v.agent.map AgentService.tools).getD ⟨false, false⟩

/-- The tool call, if it was done in a turn with the memory `r`. -/
def ThreadEvent.ownCall (r : Ref) : ThreadEvent → Option ToolEvent
  | .did mem ev => if mem = r then ev.tool? else none
  | _ => none

/-- The tool calls that were done in turns with the memory `r`. -/
def ownCalls (r : Ref) (es : List ThreadEvent) : List ToolEvent :=
  es.filterMap (ThreadEvent.ownCall r)

/-- What a thread holds is there, and its closure has the memory of its call. -/
def Thread.Wired (v : PipelineService) (n : Nat) : Thread → Prop
  | .idle => True
  | .entered c => ∀ r ∈ c.sessionMemory, r < n
  | .checked _ mem => mem < n
  | .resolved _ mem _ _ => mem < n
  | .waiting _ mem _ _ runner =>
    mem < n ∧ ∀ k ∈ runner, k.agent.tools = v.registry ∧ k.sessionMemory = mem

theorem Thread.Wired.mono {v : PipelineService} {n n' : Nat} (hn : n ≤ n') {th : Thread}
    (h : th.Wired v n) : th.Wired v n' := by
  cases th with
  | idle => trivial
  | entered c => exact fun r hr => lt_of_lt_of_le (h r hr) hn
  | checked c mem => exact lt_of_lt_of_le h hn
  | resolved c mem mid m => exact lt_of_lt_of_le h hn
  | waiting c mem mid m runner => exact ⟨lt_of_lt_of_le h.1 hn, h.2⟩

/-- The closure has the memory that it is made for. -/
theorem agentRunner_wired {v : PipelineService} {mem : Ref} {k : Runner}
    (hk : k ∈ v.agentRunner mem) : k.agent.tools = v.registry ∧ k.sessionMemory = mem := by
  obtain ⟨a, ha, rfl⟩ := Option.map_eq_some_iff.mp hk
  refine ⟨?_, rfl⟩
  rw [PipelineService.registry, ha]
  rfl

namespace Server

variable {v : PipelineService} {σ σ' : Server} {es : List ThreadEvent}

/-- The invariant of the server. -/
structure Wired (v : PipelineService) (σ : Server) : Prop where
  threads : ∀ t, (σ.threadAt t).Wired v σ.memories.heap.length
  keys : ∀ r, (σ.memories.deref r).keys.Nodup

/-- What a stretch of a run does to the memories that were there before. -/
structure Separates (v : PipelineService) (σ σ' : Server) (es : List ThreadEvent) : Prop where
  length : σ.memories.heap.length ≤ σ'.memories.heap.length
  isolated : ∀ r < σ.memories.heap.length,
    Isolated v.registry r (σ.memories.deref r) (ownCalls r es) (σ'.memories.deref r)

theorem Separates.trans {σ'' : Server} {es' : List ThreadEvent} (h : Separates v σ σ' es)
    (h' : Separates v σ' σ'' es') : Separates v σ σ'' (es ++ es') where
  length := h.length.trans h'.length
  isolated := by
    intro r hr
    rw [ownCalls, List.filterMap_append]
    exact (h.isolated r hr).trans (h'.isolated r (lt_of_lt_of_le hr h.length))

/-- A step that changes no memory. -/
theorem Separates.of_memories (hms : σ'.memories = σ.memories) (hes : ∀ r, ownCalls r es = []) :
    Separates v σ σ' es where
  length := by rw [hms]
  isolated := by
    intro r _
    rw [hes, hms]
    exact Isolated.refl _ r _

/-- A step that makes a new dictionary. -/
theorem Separates.of_alloc {mem : Memory} (hms : σ'.memories = (σ.memories.alloc mem).1) :
    Separates v σ σ' [] where
  length := by
    rw [hms, Memories.length_alloc]
    exact Nat.le_add_right _ 1
  isolated := by
    intro r hr
    rw [hms, Memories.deref_alloc hr]
    exact Isolated.refl _ r _

theorem threadAt_setThread (σ : Server) (t t' : Nat) (ms : Memories) (th : Thread) :
    (σ.setThread t ms th).threadAt t' = if t = t' then th else σ.threadAt t' := by
  unfold threadAt setThread
  rw [Dict.get?_set]
  split_ifs
  · rfl
  · rfl

/-- A thread moves on, and the memories are still dictionaries. -/
theorem Wired.setThread (h : Wired v σ) (t : Nat) {ms : Memories} {th : Thread}
    (hlen : σ.memories.heap.length ≤ ms.heap.length) (hth : th.Wired v ms.heap.length)
    (hkeys : ∀ r, (ms.deref r).keys.Nodup) : Wired v (σ.setThread t ms th) where
  threads := by
    intro t'
    rw [threadAt_setThread]
    split_ifs
    · exact hth
    · exact (h.threads t').mono hlen
  keys := hkeys

theorem nodup_deref_alloc {ms : Memories} {mem : Memory} (h : ∀ r, (ms.deref r).keys.Nodup)
    (hmem : mem.keys.Nodup) (r : Ref) : ((ms.alloc mem).1.deref r).keys.Nodup := by
  show ((ms.heap ++ [mem]).getD r []).keys.Nodup
  rcases Nat.lt_trichotomy r ms.heap.length with hr | hr | hr
  · rw [List.getD_append _ _ _ _ hr]
    exact h r
  · rw [hr, List.getD_append_right _ _ _ _ (Nat.le_refl _), Nat.sub_self]
    exact hmem
  · rw [List.getD_eq_default _ _ (by rw [List.length_append]; exact hr)]
    exact List.nodup_nil

/-- The calls of a locked step are those of its own memory. -/
theorem ownCalls_did (r mem : Ref) (es : List AgentEvent) (t : Nat)
    (out : Except Exc StageProfile) :
    ownCalls r (es.map (.did mem) ++ [outcome t out]) =
      if mem = r then es.filterMap AgentEvent.tool? else [] := by
  have hout : (outcome t out).ownCall r = none := by
    cases out with
    | ok profile => rfl
    | error e => rfl
  have htail : [outcome t out].filterMap (ThreadEvent.ownCall r) = [] := by
    rw [List.filterMap_cons, hout]
    rfl
  rw [ownCalls, List.filterMap_append, htail, List.append_nil, List.filterMap_map]
  split_ifs with h
  · apply List.filterMap_congr
    intro ev _
    exact if_pos h
  · rw [List.filterMap_eq_nil_iff]
    intro ev _
    exact if_neg h

/-- The locked step uses the memory of its call. -/
theorem locked_step (h : Wired v σ) {t : Nat} {c : TurnCall} {mem : Ref} {mid : Str}
    {m : LlmModel} {runner : Option Runner}
    (hth : σ.threadAt t = .waiting c mem mid m runner) {out : Except Exc StageProfile}
    {ms : Memories} {evs : List AgentEvent}
    (hcall : stagedTurnShared c mem mid m runner σ.memories = (out, ms, evs)) :
    Wired v (σ.setThread t ms .idle) ∧
      Separates v σ (σ.setThread t ms .idle) (evs.map (.did mem) ++ [outcome t out]) := by
  have hwired := h.threads t
  rw [hth] at hwired
  have hconf : Confined v.registry mem σ.memories ms evs := by
    have := stagedTurnShared_confined (h.keys mem) hwired.1 hwired.2 c mid m σ.memories []
      (Confined.refl _ mem _)
    rw [hcall] at this
    exact this
  have hkeys : ∀ r, (ms.deref r).keys.Nodup := by
    intro r
    by_cases hr : r = mem
    · rw [hr, hconf.own.memory]
      exact Dict.nodup_keys_update (h.keys mem)
    · rw [hconf.others r hr]
      exact h.keys r
  refine ⟨h.setThread t hconf.length.ge trivial hkeys, hconf.length.ge, ?_⟩
  intro r _
  rw [ownCalls_did]
  split_ifs with hr
  · rw [← hr]
    exact hconf.own
  · show Isolated v.registry r (σ.memories.deref r) [] (ms.deref r)
    rw [hconf.others r fun heq => hr heq.symm]
    exact Isolated.refl _ r _

theorem ownCalls_raised (r : Ref) (t : Nat) (e : Exc) : ownCalls r [.raised t e] = [] := rfl

/-- A thread that only moves on. -/
theorem moved (h : Wired v σ) (t : Nat) {th : Thread} {es : List ThreadEvent}
    (hth : th.Wired v σ.memories.heap.length) (hes : ∀ r, ownCalls r es = []) :
    Wired v (σ.setThread t σ.memories th) ∧ Separates v σ (σ.setThread t σ.memories th) es :=
  ⟨h.setThread t (Nat.le_refl _) hth h.keys, Separates.of_memories rfl hes⟩

theorem advance_separates {t : Nat} (h : Wired v σ) (hstep : σ.advance v t = some (σ', es)) :
    Wired v σ' ∧ Separates v σ σ' es := by
  have hwired := h.threads t
  unfold advance at hstep
  cases hth : σ.threadAt t with
  | idle =>
    rw [hth] at hstep
    cases hstep
  | entered c =>
    rw [hth] at hstep hwired
    cases hloaded : v.requireLoaded with
    | error e =>
      simp only [hloaded] at hstep
      cases hstep
      exact moved h t trivial fun r => ownCalls_raised r t e
    | ok _ =>
      cases hmem : c.sessionMemory with
      | some r =>
        simp only [hloaded, hmem] at hstep
        cases hstep
        exact moved h t (hwired r hmem) fun _ => rfl
      | none =>
        simp only [hloaded, hmem] at hstep
        cases hstep
        have hsep : Separates v σ (σ.setThread t (σ.memories.alloc []).1
            (.checked c σ.memories.heap.length)) [] := Separates.of_alloc rfl
        refine ⟨h.setThread t hsep.length ?_ (nodup_deref_alloc h.keys List.nodup_nil), hsep⟩
        show σ.memories.heap.length < (σ.memories.alloc []).1.heap.length
        rw [Memories.length_alloc]
        exact Nat.lt_succ_self _
  | checked c mem =>
    rw [hth] at hstep hwired
    cases hmodel : v.resolve c.world c.llmModel with
    | error e =>
      simp only [hmodel] at hstep
      cases hstep
      exact moved h t trivial fun r => ownCalls_raised r t e
    | ok found =>
      simp only [hmodel] at hstep
      cases hstep
      exact moved h t hwired fun _ => rfl
  | resolved c mem mid m =>
    rw [hth] at hstep hwired
    cases hstep
    refine moved h t ⟨hwired, ?_⟩ fun _ => rfl
    intro k hk
    split_ifs at hk with htools
    · exact agentRunner_wired hk
    · exact absurd hk (Option.not_mem_none k)
  | waiting c mem mid m runner =>
    rw [hth] at hstep
    rcases hcall : stagedTurnShared c mem mid m runner σ.memories with ⟨out, ms, evs⟩
    simp only [hcall] at hstep
    cases hstep
    exact locked_step h hth hcall

/-- Every step keeps the invariant and separates the sessions. -/
theorem step_separates {a : ThreadAction} (h : Wired v σ) (hstep : step v σ a = some (σ', es)) :
    Wired v σ' ∧ Separates v σ σ' es := by
  cases a with
  | newSession items =>
    obtain ⟨rfl, rfl⟩ : _ = σ' ∧ _ = es := Prod.mk.inj (Option.some.inj hstep)
    have hsep : Separates v σ ⟨(σ.memories.alloc (Dict.update [] items)).1, σ.threads⟩ [] :=
      Separates.of_alloc rfl
    refine ⟨⟨?_, ?_⟩, hsep⟩
    · intro t
      exact (h.threads t).mono hsep.length
    · exact nodup_deref_alloc h.keys (Dict.nodup_keys_update List.nodup_nil)
  | submit t c =>
    unfold step at hstep
    cases hth : σ.threadAt t with
    | idle =>
      simp only [hth] at hstep
      split_ifs at hstep with hmem
      cases hstep
      refine moved h t ?_ fun _ => rfl
      intro r hr
      rw [Option.mem_def.mp hr] at hmem
      exact of_decide_eq_true hmem
    | _ => simp only [hth] at hstep; cases hstep
  | advance t => exact advance_separates h hstep

theorem start_wired (v : PipelineService) : Wired v start where
  threads := fun _ => trivial
  keys := by
    intro r
    cases r with
    | zero => exact List.nodup_nil
    | succ r => exact List.nodup_nil

/-- The same for every stretch of a run, however its threads interleave. -/
theorem run_separates {as : List ThreadAction} (h : Wired v σ)
    (hrun : run (step v) σ as = some (σ', es)) : Wired v σ' ∧ Separates v σ σ' es := by
  induction as generalizing σ es with
  | nil =>
    obtain ⟨rfl, rfl⟩ : σ = σ' ∧ [] = es := Prod.mk.inj (Option.some.inj hrun)
    exact ⟨h, Separates.of_memories rfl fun _ => rfl⟩
  | cons a as ih =>
    obtain ⟨σ₁, es₁, es₂, hstep, hrest, rfl⟩ := run_cons_eq_some.mp hrun
    obtain ⟨hwired₁, hsep₁⟩ := step_separates h hstep
    obtain ⟨hwired₂, hsep₂⟩ := ih hwired₁ hrest
    exact ⟨hwired₂, hsep₁.trans hsep₂⟩

/-- The states that the server can come to. -/
def Reachable (v : PipelineService) (σ : Server) : Prop :=
  ∃ as es, run (step v) start as = some (σ, es)

theorem Reachable.wired (h : Reachable v σ) : Wired v σ := by
  obtain ⟨as, es, hrun⟩ := h
  exact (run_separates (start_wired v) hrun).1

end Server

/-- Each session has its memory for itself.  From any state on, whatever the
threads do, its memory is in the end the memory that it had, with what the
`remember` calls of its own turns stored, in order, and each of its own calls is
answered from that memory at its place in this order.  So two runs in which a
session has the same memory at first and makes the same calls leave it with
the same memory. -/
theorem session_memory_isolated (v : PipelineService) :
    (∀ {σ σ' : Server} {as : List ThreadAction} {es : List ThreadEvent} {r : Ref},
      Server.Reachable v σ → run (Server.step v) σ as = some (σ', es) →
      r < σ.memories.heap.length →
      Isolated v.registry r (σ.memories.deref r) (ownCalls r es) (σ'.memories.deref r)) ∧
    (∀ {σ σ' τ τ' : Server} {as bs : List ThreadAction} {es fs : List ThreadEvent} {r q : Ref},
      Server.Reachable v σ → run (Server.step v) σ as = some (σ', es) →
      r < σ.memories.heap.length →
      Server.Reachable v τ → run (Server.step v) τ bs = some (τ', fs) →
      q < τ.memories.heap.length →
      σ.memories.deref r = τ.memories.deref q →
      (ownCalls r es).map (fun c => (c.name, c.arguments)) =
        (ownCalls q fs).map (fun c => (c.name, c.arguments)) →
      σ'.memories.deref r = τ'.memories.deref q) := by
  have hone : ∀ {σ σ' : Server} {as : List ThreadAction} {es : List ThreadEvent} {r : Ref},
      Server.Reachable v σ → run (Server.step v) σ as = some (σ', es) →
      r < σ.memories.heap.length →
      Isolated v.registry r (σ.memories.deref r) (ownCalls r es) (σ'.memories.deref r) := by
    intro σ σ' as es r hσ hrun hr
    exact (Server.run_separates hσ.wired hrun).2.isolated r hr
  refine ⟨hone, ?_⟩
  intro σ σ' τ τ' as bs es fs r q hσ hrun hr hτ hrun' hq hsame hcalls
  have hleft := hone hσ hrun hr
  have hright := hone hτ hrun' hq
  rw [← hsame] at hright
  exact hleft.congr hright hcalls

/-- Two turns that each remember a name and then recall it.  Both are prepared
before the first of them runs, and the one that was prepared last runs first. -/
def crossedTurns : List ThreadAction :=
  let turn (r : Ref) (remember : Str) : TurnCall :=
    { world := localWorld [] fun step =>
        match step with
        | 0 => .ok [remember]
        | 1 =>
          .ok ["TOOL_CALL: \x7b\"name\": \"recall\", \"arguments\": \x7b\"key\": \"n\"\x7d\x7d"]
        | _ => .ok ["FINAL: done"]
      input := .text "hello"
      history := []
      outWav := none
      sessionMemory := some r
      llmModel := none
      toolsEnabled := true }
  let remember (name : Str) : Str :=
    ("TOOL_CALL: \x7b\"name\": \"remember\", \"arguments\": \x7b\"key\": \"n\", " : Str) ++
      ("\"value\": \"" : Str) ++ name ++ ("\"\x7d\x7d" : Str)
  let ada := turn 1 (remember "Ada")
  let bob := turn 2 (remember "Bob")
  [.submit 0 ada, .advance 0, .submit 1 bob, .advance 1, .advance 0, .advance 1, .advance 0,
    .advance 1, .advance 1, .advance 0]

theorem crossedTurns_isolated :
    ∃ σ' es, run (Server.step localService) ⟨⟨[[], [], []], 0⟩, []⟩ crossedTurns = some (σ', es) ∧
      Isolated localService.registry 1 [] (ownCalls 1 es) (σ'.memories.deref 1) ∧
      (ownCalls 1 es).map ToolEvent.answer = ["Stored 'n' for this session.", "Ada"] ∧
      σ'.memories.heap = ([[], [("n", "Ada")], [("n", "Bob")]] : List (Dict Str Str)) := by
  have hrun : (run (Server.step localService) ⟨⟨[[], [], []], 0⟩, []⟩ crossedTurns).map
      (fun p => ((ownCalls 1 p.2).map ToolEvent.answer, p.1.memories.heap)) =
      (some (["Stored 'n' for this session.", "Ada"], [[], [("n", "Ada")], [("n", "Bob")]]) :
        Option (List Str × List (Dict Str Str))) := by
    decide +kernel
  have hreach : Server.Reachable localService ⟨⟨[[], [], []], 0⟩, []⟩ :=
    ⟨[.newSession [], .newSession []], [], rfl⟩
  obtain ⟨⟨σ', es⟩, hsome, hout⟩ := Option.map_eq_some_iff.mp hrun
  obtain ⟨hanswers, hheap⟩ := Prod.mk.inj hout
  refine ⟨σ', es, hsome, ?_, hanswers, hheap⟩
  exact (session_memory_isolated localService).1 hreach hsome (by decide)

end AiPipelines.Turn
