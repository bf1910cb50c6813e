import AiPipelines.Turn.Handlers

/-!
# What a turn touches before it is saved

Up to the save, a turn changes nothing of the store but the memory of its own
session object and the audio files in its directory.  `Touched` says so, with
the memory at that point; there is one rule for each stage, and `voiceTurn_touched`
and `runTurn_touched` are the two `try` blocks.

The memory at the end is the same whether the block returns or raises: what the
agent has stored by then stays.  `PipelineService.remembers` reads it off the
request and the outputs of the language model, and `PipelineService.returns` reads
off them whether the block returns.
-/

namespace AiPipelines.Turn

open PyStd SessionStore Agent

/-! ## The frame -/

/-- From `st₀`, only the memory of the object `r` and files other than
`session.json` were touched, and the directory of the session is there. -/
structure Touched (id : Str) (st₀ : Store) (r : Ref) (mem : Memory) (st : Store) : Prop where
  heap : st.heap = (putMemory r mem st₀).heap
  cache : st.cache = st₀.cache
  saved : ∀ id, st.saved id = st₀.saved id
  dir : (st.disk.get? id).isSome

namespace Touched

variable {id : Str} {st₀ st : Store} {r : Ref} {mem : Memory}

theorem putMemory_self {s : Session} (h : st₀.deref r = some s) :
    (putMemory r s.agentMemory st₀).heap = st₀.heap := by
  show st₀.heap.modify r (fun s' => { s' with agentMemory := s.agentMemory }) = st₀.heap
  apply List.ext_getElem?
  intro i
  rw [List.getElem?_modify]
  by_cases hi : r = i
  · subst hi
    have hs : st₀.heap[r]? = some s := h
    rw [hs]
    simp
  · simp [hi]

/-- Nothing is touched at the start. -/
theorem start {s : Session} (h : st₀.deref r = some s) (hdir : (st₀.disk.get? id).isSome) :
    Touched id st₀ r s.agentMemory st₀ :=
  ⟨(putMemory_self h).symm, rfl, fun _ => rfl, hdir⟩

theorem deref (h : Touched id st₀ r mem st) {s : Session} (hs : st₀.deref r = some s) :
    st.deref r = some { s with agentMemory := mem } := by
  show st.heap[r]? = _
  rw [h.heap]
  show (Turn.putMemory r mem st₀).deref r = _
  rw [Turn.putMemory, Store.deref_mutate, hs]
  rfl

theorem memoryOf (h : Touched id st₀ r mem st) {s : Session} (hs : st₀.deref r = some s) :
    memoryOf r st = mem := by
  unfold Turn.memoryOf
  rw [h.deref hs]
  rfl

theorem putMemory (h : Touched id st₀ r mem st) (mem' : Memory) :
    Touched id st₀ r mem' (Turn.putMemory r mem' st) := by
  refine ⟨?_, h.cache, h.saved, h.dir⟩
  show st.heap.modify r _ = st₀.heap.modify r _
  rw [h.heap]
  show (st₀.heap.modify r _).modify r _ = _
  rw [List.modify_modify_eq]
  rfl

/-- Whatever leaves the sessions and the directory alone leaves the frame alone. -/
theorem same {st' : Store} (h : Touched id st₀ r mem st) (hsame : st.SameSessions st')
    (hdir : (st'.disk.get? id).isSome) : Touched id st₀ r mem st' := by
  refine ⟨hsame.heap.trans h.heap, hsame.cache.trans h.cache, ?_, hdir⟩
  intro id'
  rw [hsame.saved id', h.saved id']

theorem mkdir (h : Touched id st₀ r mem st) (d : Str) : Touched id st₀ r mem (st.mkdir d) := by
  apply h.same (Store.mkdir_same st d)
  unfold Store.mkdir
  cases hd : st.disk.get? d with
  | some e => exact h.dir
  | none =>
    show ((st.disk.set d []).get? id).isSome
    rw [Dict.get?_set]
    split_ifs
    · rfl
    · exact h.dir

theorem writeFile (h : Touched id st₀ r mem st) {name : Str} (hname : name ≠ sessionJson) :
    ∃ st', st.writeFile id name .raw = some st' ∧ Touched id st₀ r mem st' := by
  obtain ⟨d, hd⟩ := Option.isSome_iff_exists.1 h.dir
  have hwrite : st.writeFile id name .raw =
      some { st with disk := st.disk.set id (d.set name .raw) } := by
    unfold Store.writeFile
    rw [hd]
    rfl
  refine ⟨_, hwrite, h.same (Store.writeFile_same hname hwrite) ?_⟩
  show ((st.disk.set id (d.set name .raw)).get? id).isSome
  rw [Dict.get?_set_self]
  rfl

end Touched

/-! ## The stages -/

variable {id : Str} {st₀ : Store} {r : Ref} {mem : Memory} {w : TurnWorld}
variable {E : LlmCall → Prop}

theorem writeAudio_touched {name : Str} (hname : name ≠ sessionJson) {X : Exc → Store → Prop} :
    Eff.Triple (Touched id st₀ r mem) (writeAudio id name) E
      (fun _ => Touched id st₀ r mem) X := by
  apply Eff.Triple.act
  intro st h
  obtain ⟨st', hwrite, h'⟩ := h.writeFile hname
  simp only [hwrite]
  exact h'

theorem writeStage_touched {writes : Bool} {outcome : Except Exc Unit} {name : Str}
    (hname : name ≠ sessionJson) {X : Exc → Store → Prop}
    (hX : ∀ e, outcome = .error e → ∀ st, Touched id st₀ r mem st → X e st) :
    Eff.Triple (Touched id st₀ r mem) (writeStage writes outcome id name) E
      (fun _ st => Touched id st₀ r mem st ∧ outcome = .ok ()) X := by
  have hend : Eff.Triple (Touched id st₀ r mem) (Eff.ofExcept outcome) E
      (fun _ st => Touched id st₀ r mem st ∧ outcome = .ok ()) X :=
    Eff.Triple.ofExcept (fun _ hok _ h => ⟨h, hok⟩) hX
  unfold writeStage
  split_ifs
  · exact Eff.Triple.bind (writeAudio_touched hname) fun _ => hend
  · exact hend

theorem speak_touched {outWav : Option Str} (hname : ∀ name ∈ outWav, name ≠ sessionJson) :
    Eff.Triple (Touched id st₀ r mem) (speak w id outWav) E (fun _ => Touched id st₀ r mem)
      (fun _ => Touched id st₀ r mem) := by
  cases outWav with
  | none => exact Eff.Triple.pure fun _ h => h
  | some name =>
    refine Eff.Triple.bind (Eff.Triple.modify fun st h => h.mkdir id) fun _ => ?_
    exact Eff.Triple.conseq (writeStage_touched (hname name rfl) fun _ _ _ h => h)
      (fun _ h => h) fun _ _ h => h.1

/-- What the answer stores. -/
def answerRemembers (w : TurnWorld) (agent : Option AgentService) (transcript : Str) :
    List (Str × Str) :=
  match agent with
  | some a => a.remembers w.toAgentWorld transcript
  | none => []

theorem answer_touched {s : Session} (hs : st₀.deref r = some s) (hmem : mem.keys.Nodup)
    (agent : Option AgentService) (systemPrompt transcript : Str) (history : List ChatMessage) :
    Eff.Triple (Touched id st₀ r mem) (answer w r agent systemPrompt transcript history)
      (fun _ => True)
      (fun _ => Touched id st₀ r (mem.update (answerRemembers w agent transcript)))
      (fun _ => Touched id st₀ r (mem.update (answerRemembers w agent transcript))) := by
  cases agent with
  | none =>
    refine Eff.Triple.bind (Eff.Triple.emit trivial) fun _ => ?_
    apply Eff.Triple.ofExcept_bind
    · intro pieces _
      exact Eff.Triple.pure fun _ h => h
    · intro x _ st h
      exact h
  | some a =>
    have hnd : (mem.update (a.remembers w.toAgentWorld transcript)).keys.Nodup :=
      Dict.nodup_keys_update hmem
    refine Eff.Triple.bind (R := fun _ => Touched id st₀ r
      (mem.update (a.remembers w.toAgentWorld transcript))) ?_ fun result => ?_
    · apply Eff.Triple.zoom
      intro st h
      rw [h.memoryOf hs]
      apply Eff.Triple.weaken (run_memory_spec systemPrompt transcript history mem)
      · intro result m hm
        rw [hm]
        exact h.putMemory _
      · intro e m hm
        rw [hm]
        exact h.putMemory _
    · refine Eff.Triple.bind Eff.Triple.read fun st => ?_
      refine Eff.Triple.bind (R := fun _ => Touched id st₀ r
        (mem.update (a.remembers w.toAgentWorld transcript))) ?_
        fun _ => Eff.Triple.pure fun _ h => h
      apply Eff.Triple.modify
      intro st' h
      rw [h.1, h.2.memoryOf hs, Dict.update_self hnd]
      exact h.2.putMemory _

/-- Whether there is an answer. -/
def answerReturns (w : TurnWorld) (agent : Option AgentService) (transcript : Str) : Bool :=
  match agent with
  | some a => a.returns w.toAgentWorld transcript
  | none => (w.llm 0).isOk

theorem answer_returns (agent : Option AgentService) (systemPrompt transcript : Str)
    (history : List ChatMessage) :
    Eff.Triple (fun _ => True) (answer w r agent systemPrompt transcript history)
      (fun _ => True) (fun _ _ => answerReturns w agent transcript = true)
      (fun _ _ => answerReturns w agent transcript = false) := by
  cases agent with
  | none =>
    refine Eff.Triple.bind (Eff.Triple.emit trivial) fun _ => ?_
    apply Eff.Triple.ofExcept_bind
    · intro pieces hpieces
      exact Eff.Triple.pure fun _ _ => by rw [answerReturns, hpieces]; rfl
    · intro x hx _ _
      rw [answerReturns, hx]
      rfl
  | some a =>
    refine Eff.Triple.bind (R := fun _ _ => a.returns w.toAgentWorld transcript = true) ?_
      fun result => ?_
    · apply Eff.Triple.zoom
      intro st _
      exact Eff.Triple.conseq (run_returns_spec systemPrompt transcript history)
        (fun _ _ => trivial) fun _ _ h => h
    · refine Eff.Triple.bind Eff.Triple.read fun st => ?_
      refine Eff.Triple.bind (R := fun _ _ => a.returns w.toAgentWorld transcript = true) ?_
        fun _ => Eff.Triple.pure fun _ h => h
      exact Eff.Triple.modify fun _ h => h.2

/-- What `run_turn` stores: nothing if there is no transcript. -/
def stagedRemembers (w : TurnWorld) (agent : Option AgentService) (input : TurnInput) :
    List (Str × Str) :=
  match hear w input with
  | .ok transcript => answerRemembers w agent transcript
  | .error _ => []

theorem stagedTurn_touched {s : Session} (hs : st₀.deref r = some s) (hmem : mem.keys.Nodup)
    {input : TurnInput} {history : List ChatMessage} {outWav : Option Str}
    {agent : Option AgentService} {systemPrompt modelId : Str}
    (hname : ∀ name ∈ outWav, name ≠ sessionJson) :
    Eff.Triple (Touched id st₀ r mem)
      (stagedTurn w r id input history outWav agent systemPrompt modelId) (fun _ => True)
      (fun _ => Touched id st₀ r (mem.update (stagedRemembers w agent input)))
      (fun _ => Touched id st₀ r (mem.update (stagedRemembers w agent input))) := by
  unfold stagedTurn stagedRemembers
  apply Eff.Triple.ofExcept_bind
  · intro transcript htranscript
    rw [htranscript]
    refine Eff.Triple.bind (answer_touched hs hmem agent systemPrompt transcript history)
      fun answered => ?_
    refine Eff.Triple.bind (speak_touched hname) fun _ => ?_
    exact Eff.Triple.pure fun _ h => h
  · intro x hx st h
    rw [hx]
    exact h

/-- Whether the reply is spoken, if it is to be. -/
def speakReturns (w : TurnWorld) (spoken : Bool) : Bool := !spoken || w.tts.isOk

theorem speak_returns {outWav : Option Str} (hname : ∀ name ∈ outWav, name ≠ sessionJson)
    {φ : Prop} :
    Eff.Triple (fun st => Touched id st₀ r mem st ∧ φ) (speak w id outWav) E
      (fun _ _ => speakReturns w outWav.isSome = true ∧ φ)
      (fun _ _ => speakReturns w outWav.isSome = false) := by
  cases outWav with
  | none => exact Eff.Triple.pure fun _ h => ⟨rfl, h.2⟩
  | some name =>
    refine Eff.Triple.assume (fun _ h => h.2) fun hφ => ?_
    refine Eff.Triple.bind (R := fun _ => Touched id st₀ r mem)
      (Eff.Triple.modify fun st h => h.1.mkdir id) fun _ => ?_
    refine Eff.Triple.conseq (writeStage_touched (hname name rfl) ?_) (fun _ h => h) ?_
    · intro e he _ _
      show (!true || w.tts.isOk) = false
      rw [he]
      rfl
    · intro _ _ h
      refine ⟨?_, hφ⟩
      show (!true || w.tts.isOk) = true
      rw [h.2]
      rfl

/-- Whether `run_turn` returns. -/
def stagedReturns (w : TurnWorld) (agent : Option AgentService) (input : TurnInput)
    (spoken : Bool) : Bool :=
  match hear w input with
  | .ok transcript => answerReturns w agent transcript && speakReturns w spoken
  | .error _ => false

theorem stagedTurn_returns {s : Session} (hs : st₀.deref r = some s) (hmem : mem.keys.Nodup)
    {input : TurnInput} {history : List ChatMessage} {outWav : Option Str}
    {agent : Option AgentService} {systemPrompt modelId : Str}
    (hname : ∀ name ∈ outWav, name ≠ sessionJson) :
    Eff.Triple (Touched id st₀ r mem)
      (stagedTurn w r id input history outWav agent systemPrompt modelId) (fun _ => True)
      (fun _ _ => stagedReturns w agent input outWav.isSome = true)
      (fun _ _ => stagedReturns w agent input outWav.isSome = false) := by
  unfold stagedTurn stagedReturns
  apply Eff.Triple.ofExcept_bind
  · intro transcript htranscript
    rw [htranscript]
    have hanswer : Eff.Triple (Touched id st₀ r mem)
        (answer w r agent systemPrompt transcript history) (fun _ => True)
        (fun _ _ => answerReturns w agent transcript = true)
        (fun _ _ => answerReturns w agent transcript = false) :=
      Eff.Triple.conseq (answer_returns agent systemPrompt transcript history)
        (fun _ _ => trivial) fun _ _ h => h
    refine Eff.Triple.bind (Eff.Triple.weaken
      ((answer_touched hs hmem agent systemPrompt transcript history).and hanswer)
      (fun _ _ h => h) ?_) fun answered => ?_
    · intro _ _ h
      dsimp only
      rw [h.2, Bool.false_and]
    · refine Eff.Triple.bind (Eff.Triple.weaken (speak_returns hname) (fun _ _ h => h) ?_)
        fun _ => Eff.Triple.pure ?_
      · intro _ _ h
        dsimp only
        rw [h, Bool.and_false]
      · intro _ h
        dsimp only
        rw [h.1, h.2]
        rfl
  · intro x hx _ _
    rw [hx]

/-! ## The two `try` blocks -/

/-- What a turn stores, read off the request and the world. -/
def PipelineService.remembers (v : PipelineService) (w : TurnWorld) (input : TurnInput)
    (llmModel : Option Str) (toolsEnabled : Bool) : List (Str × Str) :=
  if v.ready then
    match v.resolve w llmModel with
    | .ok _ => stagedRemembers w (v.agentFor toolsEnabled) input
    | .error _ => []
  else []

theorem ready_of_requireLoaded {v : PipelineService} {u : Unit} (h : v.requireLoaded = .ok u) :
    v.ready = true := by
  unfold PipelineService.requireLoaded at h
  split_ifs at h with hready
  exact hready

theorem not_ready_of_requireLoaded {v : PipelineService} {e : Exc}
    (h : v.requireLoaded = .error e) : ¬ v.ready = true := by
  intro hready
  unfold PipelineService.requireLoaded at h
  rw [if_pos hready] at h
  cases h

theorem runTurn_touched {s : Session} (hs : st₀.deref r = some s) (hmem : mem.keys.Nodup)
    {v : PipelineService} {input : TurnInput} {history : List ChatMessage}
    {outWav llmModel : Option Str} {toolsEnabled : Bool}
    (hname : ∀ name ∈ outWav, name ≠ sessionJson) :
    Eff.Triple (Touched id st₀ r mem)
      (v.runTurn w r id input history outWav llmModel toolsEnabled) (fun _ => True)
      (fun _ => Touched id st₀ r (mem.update (v.remembers w input llmModel toolsEnabled)))
      (fun _ => Touched id st₀ r (mem.update (v.remembers w input llmModel toolsEnabled))) := by
  unfold PipelineService.runTurn PipelineService.remembers
  apply Eff.Triple.ofExcept_bind
  · intro _ hready
    rw [if_pos (ready_of_requireLoaded hready)]
    apply Eff.Triple.ofExcept_bind
    · intro model hmodel
      rw [hmodel]
      exact stagedTurn_touched hs hmem hname
    · intro x hx st h
      rw [hx]
      exact h
  · intro x hx st h
    rw [if_neg (not_ready_of_requireLoaded hx)]
    exact h

/-- Whether `run_turn` of the service returns. -/
def PipelineService.returns (v : PipelineService) (w : TurnWorld) (input : TurnInput)
    (llmModel : Option Str) (toolsEnabled spoken : Bool) : Bool :=
  v.ready && (v.resolve w llmModel).isOk &&
    stagedReturns w (v.agentFor toolsEnabled) input spoken

theorem runTurn_returns {s : Session} (hs : st₀.deref r = some s) (hmem : mem.keys.Nodup)
    {v : PipelineService} {input : TurnInput} {history : List ChatMessage}
    {outWav llmModel : Option Str} {toolsEnabled : Bool}
    (hname : ∀ name ∈ outWav, name ≠ sessionJson) :
    Eff.Triple (Touched id st₀ r mem)
      (v.runTurn w r id input history outWav llmModel toolsEnabled) (fun _ => True)
      (fun _ _ => v.returns w input llmModel toolsEnabled outWav.isSome = true)
      (fun _ _ => v.returns w input llmModel toolsEnabled outWav.isSome = false) := by
  unfold PipelineService.runTurn PipelineService.returns
  apply Eff.Triple.ofExcept_bind
  · intro _ hready
    rw [ready_of_requireLoaded hready]
    apply Eff.Triple.ofExcept_bind
    · intro model hmodel
      rw [hmodel]
      exact stagedTurn_returns hs hmem hname
    · intro x hx _ _
      rw [hx]
      rfl
  · intro x hx _ _
    rw [Bool.eq_false_iff.2 (not_ready_of_requireLoaded hx)]
    rfl

/-- What a voice turn stores: nothing if the upload cannot be copied and converted. -/
def voiceRemembers (v : PipelineService) (w : TurnWorld) (llmModel : Option Str)
    (useTools : Bool) : List (Str × Str) :=
  match w.copy, w.prepare with
  | .ok _, .ok _ => v.remembers w .voice llmModel useTools
  | _, _ => []

theorem voiceTurn_touched {s s' : Session} (hs : st₀.deref r = some s) (hmem : mem.keys.Nodup)
    {v : PipelineService} {suffix : Str} {llmModel : Option Str} {useTools : Bool} :
    Eff.Triple (Touched id st₀ r mem) (voiceTurn v w r id suffix s' llmModel useTools)
      (fun _ => True)
      (fun _ => Touched id st₀ r (mem.update (voiceRemembers v w llmModel useTools)))
      (fun _ => Touched id st₀ r (mem.update (voiceRemembers v w llmModel useTools))) := by
  unfold voiceTurn voiceRemembers
  refine Eff.Triple.bind (writeStage_touched (AudioFile.name_ne_sessionJson _ _) ?_) fun _ => ?_
  · intro e he st h
    rw [he]
    exact h
  · refine Eff.Triple.assume (fun _ h => h.2) fun hcopy => ?_
    refine Eff.Triple.conseq (P := Touched id st₀ r mem) ?_ (fun _ h => h.1) fun _ _ h => h
    rw [hcopy]
    refine Eff.Triple.bind (writeStage_touched (AudioFile.name_ne_sessionJson _ _) ?_) fun _ => ?_
    · intro e he st h
      rw [he]
      exact h
    · refine Eff.Triple.assume (fun _ h => h.2) fun hprepare => ?_
      rw [hprepare]
      exact Eff.Triple.conseq (runTurn_touched hs hmem (replyName_ne _)) (fun _ h => h.1)
        fun _ _ h => h

/-- Whether a voice turn is heard and answered. -/
def voiceReturns (v : PipelineService) (w : TurnWorld) (llmModel : Option Str) (useTools : Bool) :
    Bool :=
  w.copy.isOk && w.prepare.isOk && v.returns w .voice llmModel useTools true

theorem voiceTurn_returns {s s' : Session} (hs : st₀.deref r = some s) (hmem : mem.keys.Nodup)
    {v : PipelineService} {suffix : Str} {llmModel : Option Str} {useTools : Bool} :
    Eff.Triple (Touched id st₀ r mem) (voiceTurn v w r id suffix s' llmModel useTools)
      (fun _ => True) (fun _ _ => voiceReturns v w llmModel useTools = true)
      (fun _ _ => voiceReturns v w llmModel useTools = false) := by
  unfold voiceTurn voiceReturns
  refine Eff.Triple.bind (writeStage_touched (AudioFile.name_ne_sessionJson _ _) ?_) fun _ => ?_
  · intro e he _ _
    rw [he]
    rfl
  · refine Eff.Triple.assume (fun _ h => h.2) fun hcopy => ?_
    refine Eff.Triple.conseq (P := Touched id st₀ r mem) ?_ (fun _ h => h.1) fun _ _ h => h
    rw [hcopy]
    refine Eff.Triple.bind (writeStage_touched (AudioFile.name_ne_sessionJson _ _) ?_) fun _ => ?_
    · intro e he _ _
      rw [he]
      rfl
    · refine Eff.Triple.assume (fun _ h => h.2) fun hprepare => ?_
      rw [hprepare]
      exact Eff.Triple.conseq (runTurn_returns hs hmem (replyName_ne _)) (fun _ h => h.1)
        fun _ _ h => h

end AiPipelines.Turn
