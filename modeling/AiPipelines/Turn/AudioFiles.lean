import AiPipelines.Turn.FailedTurn

/-!
# The numbers and the audio files of the turns

A turn takes its number from the turns that are there, and the names of its audio
files from its number.  A turn that fails leaves its files behind and its number
to the next one.

`Kept` describes a session while turn `n` is worked on: the turns so far, and the
files whose names are not those of turn `n`.  There is one rule for each stage, and
`handle_kept` is a whole request.  A run of requests then keeps `Numbered`.

What a request writes is seen by what it leaves: a file that holds whatever was put
there before the request has not been written to.
-/

namespace AiPipelines.SessionStore

open PyStd

/-! ## The names -/

theorem pad3_injective {m n : Nat} (h : pad3 m = pad3 n) : m = n := by
  have hvalue : ∀ k, Nat.ofDigitChars 10 (pad3 k) 0 = k := by
    intro k
    rw [pad3, Nat.ofDigitChars_append, Nat.ofDigitChars_replicate_zero, Nat.mul_zero,
      Nat.ofDigitChars_ten_toDigits]
  rw [← hvalue m, h, hvalue]

theorem isDigit_of_mem_pad3 {n : Nat} {c : Char} (h : c ∈ pad3 n) : c.isDigit = true := by
  rcases List.mem_append.mp h with h | h
  · rw [List.eq_of_mem_replicate h]
    decide
  · exact Nat.isDigit_of_mem_toDigits (by decide) (by decide) h

/-- The name starts with the number, and what follows is no digit. -/
theorem AudioFile.name_eq (n : Nat) (f : AudioFile) :
    ∃ rest, f.name n = ("turn_" : Str) ++ (pad3 n ++ '_' :: rest) := by
  cases f with
  | upload suffix =>
    refine ⟨("user" : Str) ++ suffix, ?_⟩
    show ("turn_" : Str) ++ pad3 n ++ ("_user" : Str) ++ suffix = _
    exact (List.append_assoc _ _ _).trans (List.append_assoc _ _ _)
  | userWav => exact ⟨"user.wav", List.append_assoc _ _ _⟩
  | reply => exact ⟨"reply.wav", List.append_assoc _ _ _⟩

/-- A name belongs to one turn. -/
theorem AudioFile.turn_of_name {m n : Nat} {f g : AudioFile} (h : f.name m = g.name n) : m = n := by
  have hdigits : ∀ k rest, List.takeWhile Char.isDigit (pad3 k ++ '_' :: rest) = pad3 k := by
    intro k rest
    rw [List.takeWhile_append_of_pos fun c hc => isDigit_of_mem_pad3 hc]
    simp
  obtain ⟨rest, hf⟩ := AudioFile.name_eq m f
  obtain ⟨rest', hg⟩ := AudioFile.name_eq n g
  rw [hf, hg] at h
  have hpads := congrArg (List.takeWhile Char.isDigit) (List.append_cancel_left h)
  rw [hdigits, hdigits] at hpads
  exact pad3_injective hpads

end AiPipelines.SessionStore

namespace AiPipelines.Turn

open PyStd SessionStore Agent

/-! ## Runs of requests -/

/-- A request, with the service that it finds and what happens outside. -/
structure Arrival where
  service : PipelineService
  world : TurnWorld
  request : TurnRequest

/-- The store after the request. -/
def Arrival.after (a : Arrival) (st : Store) : Store := (handle a.service a.world a.request st).2.1

/-- The requests are handled one after another. -/
def serve (st : Store) (arrivals : List Arrival) : Store :=
  arrivals.foldl (fun st a => a.after st) st

/-- The audio files that a turn names. -/
def audioNames (t : TurnRecord) : List Str := [t.userAudio, t.replyAudio].filter (· ≠ [])

/-- The store with something else in the file. -/
def holding (id name : Str) (content : Node) (st : Store) : Store :=
  { st with disk := st.disk.set id (((st.disk.get? id).getD []).set name content) }

/-! ## What a request keeps -/

/-- The session while turn `n` is worked on.  The files are those that are not of
turn `n`. -/
structure Kept (id : Str) (r : Ref) (turns : List TurnRecord) (n : Nat)
    (files : Str → Option Node) (st : Store) : Prop where
  cached : st.cache.get? id = some r
  object : ∃ s, st.deref r = some s ∧ s.sessionId = id ∧ s.turns = turns
  dir : (st.disk.get? id).isSome
  files : ∀ name, name ≠ sessionJson → (∀ f : AudioFile, name ≠ f.name n) →
    st.entry id name = files name

namespace Kept

variable {id : Str} {r : Ref} {turns : List TurnRecord} {n : Nat} {files : Str → Option Node}
  {st : Store}

theorem mutate (h : Kept id r turns n files st) {f : Session → Session} {turns' : List TurnRecord}
    (hf : ∀ s, s.sessionId = id → s.turns = turns → (f s).sessionId = id ∧ (f s).turns = turns') :
    Kept id r turns' n files (st.mutate r f) := by
  obtain ⟨s, hs, hid, hturns⟩ := h.object
  refine ⟨h.cached, ⟨f s, ?_, hf s hid hturns⟩, h.dir, h.files⟩
  rw [Store.deref_mutate, hs]
  rfl

theorem putMemory (h : Kept id r turns n files st) (mem : Memory) :
    Kept id r turns n files (putMemory r mem st) :=
  h.mutate fun _ hid hturns => ⟨hid, hturns⟩

theorem publish (h : Kept id r turns n files st) :
    Kept id r turns n files { st with cache := st.cache.set id r } :=
  ⟨Dict.get?_set_self _ _ _, h.object, h.dir, h.files⟩

theorem mkdir (h : Kept id r turns n files st) : Kept id r turns n files (st.mkdir id) := by
  obtain ⟨d, hd⟩ := Option.isSome_iff_exists.mp h.dir
  unfold Store.mkdir
  rw [hd]
  exact h

/-- The directory is written as it is. -/
theorem sameDir (h : Kept id r turns n files st) {d : Dir} (hd : st.disk.get? id = some d) :
    Kept id r turns n files { st with disk := st.disk.set id d } := by
  refine ⟨h.cached, h.object, ?_, ?_⟩
  · rw [Dict.get?_set_self]
    rfl
  · intro name hjson haudio
    rw [← h.files name hjson haudio]
    unfold Store.entry
    rw [Dict.get?_set_self, hd]

/-- A file of the turn, or the session file, is written. -/
theorem setFile (h : Kept id r turns n files st) {d : Dir} (hd : st.disk.get? id = some d)
    {name : Str} (hname : name = sessionJson ∨ ∃ f : AudioFile, name = f.name n) (content : Node) :
    Kept id r turns n files { st with disk := st.disk.set id (d.set name content) } := by
  refine ⟨h.cached, h.object, ?_, ?_⟩
  · rw [Dict.get?_set_self]
    rfl
  · intro name' hjson haudio
    rw [← h.files name' hjson haudio]
    have hne : name ≠ name' := by
      rcases hname with hname | ⟨f, hname⟩
      · rw [hname]
        exact Ne.symm hjson
      · rw [hname]
        exact Ne.symm (haudio f)
    unfold Store.entry
    rw [Dict.get?_set_self, hd]
    exact Dict.get?_set_of_ne d content hne

end Kept

/-! ## The stages -/

section Stages

variable {id : Str} {r : Ref} {turns : List TurnRecord} {n : Nat} {files : Str → Option Node}
  {w : TurnWorld} {v : PipelineService} {E : LlmCall → Prop}

theorem writeAudio_kept (f : AudioFile) :
    Eff.Triple (Kept id r turns n files) (writeAudio id (f.name n)) E
      (fun _ => Kept id r turns n files) (fun _ => Kept id r turns n files) := by
  apply Eff.Triple.act
  intro st h
  obtain ⟨d, hd⟩ := Option.isSome_iff_exists.mp h.dir
  simp only [Store.writeFile, hd, Option.map_some]
  exact h.setFile hd (.inr ⟨f, rfl⟩) .raw

theorem writeStage_kept (writes : Bool) (outcome : Except Exc Unit) (f : AudioFile) :
    Eff.Triple (Kept id r turns n files) (writeStage writes outcome id (f.name n)) E
      (fun _ => Kept id r turns n files) (fun _ => Kept id r turns n files) := by
  have hend : Eff.Triple (Kept id r turns n files) (Eff.ofExcept outcome : TurnProg Unit) E
      (fun _ => Kept id r turns n files) (fun _ => Kept id r turns n files) :=
    Eff.Triple.ofExcept (fun _ _ _ h => h) fun _ _ _ h => h
  unfold writeStage
  split_ifs
  · exact Eff.Triple.bind (writeAudio_kept f) fun _ => hend
  · exact hend

theorem speak_kept {outWav : Option Str} (hname : ∀ name ∈ outWav, name = AudioFile.reply.name n) :
    Eff.Triple (Kept id r turns n files) (speak w id outWav) E
      (fun _ => Kept id r turns n files) (fun _ => Kept id r turns n files) := by
  cases outWav with
  | none => exact Eff.Triple.pure fun _ h => h
  | some name =>
    rw [hname name rfl]
    refine Eff.Triple.bind (Eff.Triple.modify fun _ h => h.mkdir) fun _ => ?_
    exact writeStage_kept _ _ .reply

theorem answer_kept (agent : Option AgentService) (systemPrompt transcript : Str)
    (history : List ChatMessage) :
    Eff.Triple (Kept id r turns n files) (answer w r agent systemPrompt transcript history)
      (fun _ => True) (fun _ => Kept id r turns n files) (fun _ => Kept id r turns n files) := by
  cases agent with
  | none =>
    refine Eff.Triple.bind (Eff.Triple.emit trivial) fun _ => ?_
    apply Eff.Triple.ofExcept_bind
    · intro pieces _
      exact Eff.Triple.pure fun _ h => h
    · intro _ _ _ h
      exact h
  | some a =>
    refine Eff.Triple.bind (R := fun _ => Kept id r turns n files) ?_ fun result => ?_
    · apply Eff.Triple.zoom
      intro st h
      exact Eff.Triple.weaken (Eff.Triple.any _) (fun _ mem _ => h.putMemory mem)
        fun _ mem _ => h.putMemory mem
    · refine Eff.Triple.bind Eff.Triple.read fun st => ?_
      refine Eff.Triple.bind (R := fun _ => Kept id r turns n files) ?_
        fun _ => Eff.Triple.pure fun _ h => h
      exact Eff.Triple.modify fun _ h => h.2.putMemory _

theorem stagedTurn_kept {outWav : Option Str}
    (hname : ∀ name ∈ outWav, name = AudioFile.reply.name n) (input : TurnInput)
    (history : List ChatMessage) (agent : Option AgentService) (systemPrompt modelId : Str) :
    Eff.Triple (Kept id r turns n files)
      (stagedTurn w r id input history outWav agent systemPrompt modelId) (fun _ => True)
      (fun profile st => profile.outputWav = outWav ∧ Kept id r turns n files st)
      (fun _ => Kept id r turns n files) := by
  apply Eff.Triple.ofExcept_bind
  · intro transcript _
    refine Eff.Triple.bind (answer_kept agent systemPrompt transcript history) fun a => ?_
    refine Eff.Triple.bind (speak_kept hname) fun _ => ?_
    exact Eff.Triple.pure fun _ h => ⟨rfl, h⟩
  · intro _ _ _ h
    exact h

theorem runTurn_kept {outWav : Option Str}
    (hname : ∀ name ∈ outWav, name = AudioFile.reply.name n) (input : TurnInput)
    (history : List ChatMessage) (llmModel : Option Str) (toolsEnabled : Bool) :
    Eff.Triple (Kept id r turns n files)
      (v.runTurn w r id input history outWav llmModel toolsEnabled) (fun _ => True)
      (fun profile st => profile.outputWav = outWav ∧ Kept id r turns n files st)
      (fun _ => Kept id r turns n files) := by
  apply Eff.Triple.ofExcept_bind
  · intro _ _
    apply Eff.Triple.ofExcept_bind
    · intro model _
      exact stagedTurn_kept hname _ _ _ _ _
    · intro _ _ _ h
      exact h
  · intro _ _ _ h
    exact h

theorem voiceTurn_kept {s : Session} (hn : s.turns.length + 1 = n) (suffix : Str)
    (llmModel : Option Str) (useTools : Bool) :
    Eff.Triple (Kept id r turns n files) (voiceTurn v w r id suffix s llmModel useTools)
      (fun _ => True) (fun _ => Kept id r turns n files) (fun _ => Kept id r turns n files) := by
  unfold voiceTurn
  dsimp only
  rw [hn]
  refine Eff.Triple.bind (writeStage_kept _ _ (.upload suffix)) fun _ => ?_
  refine Eff.Triple.bind (writeStage_kept _ _ .userWav) fun _ => ?_
  refine Eff.Triple.conseq (runTurn_kept ?_ _ _ _ _) (fun _ h => h) fun _ _ h => h.2
  intro name hname
  exact (Option.some.inj hname).symm

end Stages

/-! ## The routes -/

/-- The record of turn `n`. -/
structure IsTurn (n : Nat) (t : TurnRecord) : Prop where
  turnIndex : t.turnIndex = n
  userAudio : t.userAudio = [] ∨ t.userAudio = AudioFile.userWav.name n
  replyAudio : t.replyAudio = [] ∨ t.replyAudio = AudioFile.reply.name n

section Routes

variable {id : Str} {r : Ref} {turns : List TurnRecord} {n : Nat} {files : Str → Option Node}
  {w : TurnWorld} {v : PipelineService} {E : LlmCall → Prop} {X : HttpError → Store → Prop}

theorem requireSession_kept :
    Eff.Triple (Kept id r turns n files) (requireSession id) E
      (fun r' st => r' = r ∧ Kept id r turns n files st) X := by
  refine Eff.Triple.bind_fact (S := fun found st => found = some r ∧ Kept id r turns n files st)
    ?_ (fun _ _ h => h) fun found hfound => ?_
  · apply Eff.Triple.act
    intro st h
    simp only [getSession, getFrom, Store.getStep, h.cached]
    exact ⟨rfl, h⟩
  · rw [hfound]
    exact Eff.Triple.pure fun _ h => ⟨rfl, h⟩

theorem sessionAt_kept :
    Eff.Triple (Kept id r turns n files) (sessionAt r) E
      (fun s st => s.turns = turns ∧ Kept id r turns n files st) X := by
  refine Eff.Triple.bind Eff.Triple.read fun st => ?_
  apply Eff.Triple.ghost
  intro st₀ h
  obtain ⟨rfl, h⟩ := h
  obtain ⟨s, hs, -, hturns⟩ := h.object
  simp only [hs]
  apply Eff.Triple.pure
  intro st' hst'
  rw [hst']
  exact ⟨hturns, h⟩

/-- `_save` keeps the session, also when it raises. -/
theorem updateSession_kept :
    Eff.Triple (Kept id r turns n files) (updateSession w r) E
      (fun _ => Kept id r turns n files) fun _ => Kept id r turns n files := by
  apply Eff.Triple.act
  intro st h
  have hstamped := h.mutate (f := fun s => { s with updatedAt := w.updatedAt })
    fun _ hid hturns => ⟨hid, hturns⟩
  obtain ⟨s, hs, hid, hturns⟩ := hstamped.object
  obtain ⟨d, hd⟩ := Option.isSome_iff_exists.mp hstamped.dir
  have hdisk : st.disk.get? id = some d := hd
  have hcached := hstamped.publish
  simp only [Store.update, hs, Option.map_some, hid]
  cases saveEnd w s with
  | saved =>
    simp only [Store.save, hid, hd, Option.getD_some]
    exact hcached.setFile hd (.inl rfl) (.session s)
  | raised opened =>
    simp only [brokenSave, hdisk, Option.getD_some]
    cases opened with
    | true => exact hcached.setFile hd (.inl rfl) .raw
    | false => exact hcached.sameDir hd

theorem saveTurn_kept (i : TurnInfo) :
    Eff.Triple (Kept id r turns n files) (saveTurnAndRespond v w r i) E
      (fun _ => Kept id r (turns ++ [i.record w]) n files)
      fun _ => Kept id r (turns ++ [i.record w]) n files := by
  unfold saveTurnAndRespond
  refine Eff.Triple.bind (R := fun _ => Kept id r (turns ++ [i.record w]) n files) ?_ fun _ => ?_
  · apply Eff.Triple.modify
    intro st h
    exact h.mutate fun s hid hturns => ⟨hid, by rw [hturns]⟩
  · refine Eff.Triple.bind updateSession_kept fun s => ?_
    exact Eff.Triple.ofExcept_bind (fun _ _ => Eff.Triple.pure fun _ h => h) fun _ _ _ h => h

/-- What a request leaves when its turn is recorded. -/
def Appended (id : Str) (r : Ref) (turns : List TurnRecord) (n : Nat) (files : Str → Option Node)
    (st : Store) : Prop :=
  ∃ t, IsTurn n t ∧ Kept id r (turns ++ [t]) n files st

/-- What a request leaves when it fails: its turn may have been recorded. -/
def Left (id : Str) (r : Ref) (turns : List TurnRecord) (n : Nat) (files : Str → Option Node)
    (st : Store) : Prop :=
  Kept id r turns n files st ∨ Appended id r turns n files st

theorem saveTurn_appended {i : TurnInfo} (hi : IsTurn n (i.record w)) :
    Eff.Triple (Kept id r turns n files) (saveTurnAndRespond v w r i) (fun _ => True)
      (fun _ => Appended id r turns n files) (fun _ => Left id r turns n files) :=
  Eff.Triple.weaken (saveTurn_kept i) (fun _ _ h => ⟨_, hi, h⟩) fun _ _ h => .inr ⟨_, hi, h⟩

theorem postTurn_kept (hn : turns.length + 1 = n) (upload llmModel toolsEnabled : Option Str) :
    Eff.Triple (Kept id r turns n files) (postTurn v w id upload llmModel toolsEnabled)
      (fun _ => True) (fun _ => Appended id r turns n files)
      (fun _ => Left id r turns n files) := by
  unfold postTurn
  refine Eff.Triple.bind_fact requireSession_kept (fun _ _ h => h) fun r' hr => ?_
  rw [hr]
  apply Eff.Triple.ofExcept_bind
  · intro _ _
    refine Eff.Triple.bind (sessionAudioDir_triple (fun _ _ h => h.mkdir) fun _ _ _ h => .inl h)
      fun _ => ?_
    refine Eff.Triple.bind_fact sessionAt_kept (fun _ _ h => h) fun s hs => ?_
    have hnext : s.turns.length + 1 = n := by rw [hs, hn]
    dsimp only
    rw [hnext]
    apply Eff.Triple.ofExcept_bind
    · intro _ _
      refine Eff.Triple.bind (Eff.Triple.withCleanup (Eff.Triple.reraise
        (voiceTurn_kept hnext _ _ _)) (fun _ _ _ h => h) (fun _ _ _ h => .inl h) ?_)
        fun profile => ?_
      · rintro _ _ _ (⟨_, h⟩ | ⟨_, h⟩)
        · exact .inl h
        · exact .inl h
      · exact saveTurn_appended ⟨rfl, .inr rfl, .inr rfl⟩
    · intro _ _ _ h
      exact .inl h
  · intro _ _ _ h
    exact .inl h

theorem postTextTurn_kept (hn : turns.length + 1 = n) (text : Str) (llmModel : Option Str)
    (toolsEnabled speakReply : Bool) :
    Eff.Triple (Kept id r turns n files)
      (postTextTurn v w id text llmModel toolsEnabled speakReply)
      (fun _ => True) (fun _ => Appended id r turns n files)
      (fun _ => Left id r turns n files) := by
  unfold postTextTurn
  refine Eff.Triple.bind_fact requireSession_kept (fun _ _ h => h) fun r' hr => ?_
  rw [hr]
  apply Eff.Triple.ofExcept_bind
  · intro _ _
    apply Eff.Triple.ofExcept_bind
    · intro _ _
      refine Eff.Triple.bind (sessionAudioDir_triple (fun _ _ h => h.mkdir) fun _ _ _ h => .inl h)
        fun _ => ?_
      refine Eff.Triple.bind_fact sessionAt_kept (fun _ _ h => h) fun s hs => ?_
      have hnext : s.turns.length + 1 = n := by rw [hs, hn]
      dsimp only
      rw [hnext]
      have hname : ∀ name ∈ (if speakReply then some (AudioFile.reply.name n) else none),
          name = AudioFile.reply.name n := by
        intro name hname
        cases speakReply with
        | true => exact (Option.some.inj hname).symm
        | false => cases hname
      refine Eff.Triple.bind_fact (Eff.Triple.reraise (Eff.Triple.weaken
        (runTurn_kept hname _ _ _ _) (fun _ _ h => h) fun _ _ h => .inl h)) (fun _ _ h => h)
        fun profile hwav => ?_
      apply saveTurn_appended
      refine ⟨rfl, .inl rfl, ?_⟩
      show profile.outputWav.getD [] = [] ∨ profile.outputWav.getD [] = AudioFile.reply.name n
      rw [hwav]
      cases speakReply with
      | true => exact .inr rfl
      | false => exact .inl rfl
    · intro _ _ _ h
      exact .inl h
  · intro _ _ _ h
    exact .inl h

/-- A request appends turn `n`, or no turn.  It writes no file of another turn. -/
theorem handle_kept (hn : turns.length + 1 = n) {req : TurnRequest} (hid : req.id = id) :
    Eff.Triple (Kept id r turns n files) (handle v w req) (fun _ => True)
      (fun _ => Appended id r turns n files) (fun _ => Left id r turns n files) := by
  cases req with
  | voice id' upload llmModel toolsEnabled =>
    obtain rfl : id' = id := hid
    exact postTurn_kept hn upload llmModel toolsEnabled
  | text id' text llmModel toolsEnabled speakReply =>
    obtain rfl : id' = id := hid
    exact postTextTurn_kept hn text llmModel toolsEnabled speakReply

end Routes

/-! ## Numbered turns -/

/-- The turns have the numbers 1, 2, ..., and names that go with their numbers. -/
structure Numbered (turns : List TurnRecord) : Prop where
  indices : turns.map TurnRecord.turnIndex = List.range' 1 turns.length
  each : ∀ t ∈ turns, IsTurn t.turnIndex t

section Numbered

variable {turns : List TurnRecord} {t : TurnRecord} {n : Nat} {name : Str}

theorem Numbered.append (h : Numbered turns) (ht : IsTurn (turns.length + 1) t) :
    Numbered (turns ++ [t]) where
  indices := by
    rw [List.map_append, h.indices, List.length_append]
    show List.range' 1 turns.length ++ [t.turnIndex] = List.range' 1 (turns.length + 1)
    rw [List.range'_1_concat, ht.turnIndex, Nat.add_comm]
  each := by
    intro u hu
    rcases List.mem_append.mp hu with hu | hu
    · exact h.each u hu
    · rw [List.mem_singleton.mp hu, ht.turnIndex]
      exact ht

theorem IsTurn.name_of_mem (h : IsTurn n t) (hname : name ∈ audioNames t) :
    ∃ f : AudioFile, name = f.name n := by
  obtain ⟨hmem, hne⟩ := List.mem_filter.mp hname
  have hne : name ≠ [] := by simpa using hne
  rcases List.mem_cons.mp hmem with heq | hmem
  · rcases h.userAudio with huser | huser
    · exact absurd (heq.trans huser) hne
    · exact ⟨.userWav, heq.trans huser⟩
  · rw [List.mem_singleton] at hmem
    rcases h.replyAudio with hreply | hreply
    · exact absurd (hmem.trans hreply) hne
    · exact ⟨.reply, hmem.trans hreply⟩

theorem userWav_ne_reply (n : Nat) : AudioFile.userWav.name n ≠ AudioFile.reply.name n := by
  intro h
  have hend : ("_user.wav" : Str) = ("_reply.wav" : Str) := List.append_cancel_left h
  exact absurd hend (by decide)

theorem IsTurn.names_nodup (h : IsTurn n t) : (audioNames t).Nodup := by
  unfold audioNames
  by_cases huser : t.userAudio = []
  · rw [List.filter_cons_of_neg (by simpa using huser)]
    exact (List.nodup_singleton _).filter _
  · apply List.Nodup.filter
    have hname := h.userAudio.resolve_left huser
    rw [List.nodup_cons, List.mem_singleton]
    refine ⟨?_, List.nodup_singleton _⟩
    intro heq
    rcases h.replyAudio with hreply | hreply
    · exact huser (heq.trans hreply)
    · exact userWav_ne_reply n (hname.symm.trans (heq.trans hreply))

theorem Numbered.names_nodup (h : Numbered turns) : (turns.flatMap audioNames).Nodup := by
  rw [List.nodup_flatMap]
  refine ⟨fun t ht => (h.each t ht).names_nodup, ?_⟩
  have hindices : turns.Pairwise fun t u => t.turnIndex ≠ u.turnIndex := by
    rw [← List.pairwise_map, h.indices]
    exact List.nodup_range'
  apply hindices.imp_of_mem
  intro t u ht hu hne name hname hname'
  obtain ⟨f, hf⟩ := (h.each t ht).name_of_mem hname
  obtain ⟨g, hg⟩ := (h.each u hu).name_of_mem hname'
  exact hne (AudioFile.turn_of_name (hf.symm.trans hg))

/-- The files of a recorded turn are not those of the next one. -/
theorem Numbered.name_ne (h : Numbered turns) (ht : t ∈ turns) (hname : name ∈ audioNames t)
    (f : AudioFile) : name ≠ f.name (turns.length + 1) := by
  intro heq
  obtain ⟨g, hg⟩ := (h.each t ht).name_of_mem hname
  have hindex : t.turnIndex = turns.length + 1 := AudioFile.turn_of_name (hg.symm.trans heq)
  have hmem : t.turnIndex ∈ List.range' 1 turns.length := by
    rw [← h.indices]
    exact List.mem_map_of_mem ht
  rw [List.mem_range'_1] at hmem
  omega

end Numbered

/-! ## Runs -/

section Runs

variable {id : Str} {r : Ref} {turns : List TurnRecord} {files : Str → Option Node} {st : Store}

/-- The session between two requests. -/
structure Between (id : Str) (r : Ref) (turns : List TurnRecord) (st : Store) : Prop where
  numbered : Numbered turns
  kept : Kept id r turns (turns.length + 1) (st.entry id) st

/-- Which turn is worked on only matters for the files. -/
theorem Kept.between {n : Nat} (h : Kept id r turns n files st) (hturns : Numbered turns) :
    Between id r turns st :=
  ⟨hturns, h.cached, h.object, h.dir, fun _ _ _ => rfl⟩

/-- What the request left, whether it succeeded or failed. -/
theorem after_left {n : Nat} {a : Arrival} (hid : a.request.id = id) (hn : turns.length + 1 = n)
    (h : Kept id r turns n files st) : Left id r turns n files (a.after st) := by
  have hout := (handle_kept (v := a.service) (w := a.world) hn hid st h).1
  unfold Arrival.after
  cases hr : (handle a.service a.world a.request st).1 with
  | ok response =>
    rw [hr] at hout
    exact .inr hout
  | error e =>
    rw [hr] at hout
    exact hout

theorem after_between {a : Arrival} (hid : a.request.id = id) (h : Between id r turns st) :
    ∃ turns', turns <+: turns' ∧ Between id r turns' (a.after st) := by
  rcases after_left hid rfl h.kept with hkept | ⟨t, ht, hkept⟩
  · exact ⟨turns, List.prefix_refl _, hkept.between h.numbered⟩
  · exact ⟨turns ++ [t], List.prefix_append _ _, hkept.between (h.numbered.append ht)⟩

theorem serve_between {arrivals : List Arrival} (hid : ∀ a ∈ arrivals, a.request.id = id)
    (h : Between id r turns st) :
    ∃ turns', turns <+: turns' ∧ Between id r turns' (serve st arrivals) := by
  induction arrivals generalizing st turns with
  | nil => exact ⟨turns, List.prefix_refl _, h⟩
  | cons a arrivals ih =>
    obtain ⟨ha, hrest⟩ := List.forall_mem_cons.mp hid
    obtain ⟨turns₁, hprefix₁, h₁⟩ := after_between ha h
    obtain ⟨turns₂, hprefix₂, h₂⟩ := ih hrest h₁
    exact ⟨turns₂, hprefix₁.trans hprefix₂, h₂⟩

theorem create_between (st : Store) (id now : Str) :
    Between id st.heap.length [] (st.create id now) := by
  refine ⟨⟨rfl, nofun⟩, ?_, ?_, ?_, fun _ _ _ => rfl⟩
  · exact Dict.get?_set_self _ _ _
  · refine ⟨{ sessionId := id, createdAt := now, updatedAt := now }, ?_, rfl, rfl⟩
    show (st.heap ++ [_])[st.heap.length]? = _
    rw [List.getElem?_concat_length]
  · show ((st.disk.set id _).get? id).isSome
    rw [Dict.get?_set_self]
    rfl

theorem Between.seen (h : Between id r turns st) :
    ∃ s, Turn.seen st id = some s ∧ s.turns = turns := by
  obtain ⟨s, hs, -, hturns⟩ := h.kept.object
  refine ⟨s, ?_, hturns⟩
  unfold Turn.seen
  rw [h.kept.cached]
  exact hs

/-- The files of the recorded turns are left alone. -/
theorem after_entry {n : Nat} {a : Arrival} (hid : a.request.id = id) (hn : turns.length + 1 = n)
    (h : Kept id r turns n files st) {name : Str} (hjson : name ≠ sessionJson)
    (haudio : ∀ f : AudioFile, name ≠ f.name n) : (a.after st).entry id name = files name := by
  rcases after_left hid hn h with hkept | ⟨t, -, hkept⟩
  · exact hkept.files name hjson haudio
  · exact hkept.files name hjson haudio

theorem Kept.holding {n : Nat} (h : Kept id r turns n files st) (name : Str) (content : Node) :
    Kept id r turns n ((holding id name content st).entry id) (holding id name content st) := by
  refine ⟨h.cached, h.object, ?_, fun _ _ _ => rfl⟩
  show ((st.disk.set id _).get? id).isSome
  rw [Dict.get?_set_self]
  rfl

theorem entry_holding (id name : Str) (content : Node) (st : Store) :
    (holding id name content st).entry id name = some content := by
  show ((st.disk.set id _).get? id).bind _ = _
  rw [Dict.get?_set_self]
  exact Dict.get?_set_self _ _ _

end Runs

/-- A session and the requests to it since it was created: the turns are numbered and
stay recorded, no two audio files of them have one name, and the next request writes
to none of these files, whether it succeeds or fails. -/
theorem turns_numbered (st : Store) (id now : Str) (arrivals : List Arrival)
    (hid : ∀ a ∈ arrivals, a.request.id = id) :
    ∃ s, seen (serve (st.create id now) arrivals) id = some s ∧
      s.turns.map TurnRecord.turnIndex = List.range' 1 s.turns.length ∧
      (s.turns.flatMap audioNames).Nodup ∧
      (∀ later : List Arrival, (∀ a ∈ later, a.request.id = id) →
        ∃ s', seen (serve (serve (st.create id now) arrivals) later) id = some s' ∧
          s.turns <+: s'.turns) ∧
      ∀ a : Arrival, a.request.id = id → ∀ t ∈ s.turns, ∀ name ∈ audioNames t, ∀ content,
        (a.after (holding id name content (serve (st.create id now) arrivals))).entry id name =
          some content := by
  obtain ⟨turns, -, hbetween⟩ := serve_between hid (create_between st id now)
  obtain ⟨s, hseen, rfl⟩ := hbetween.seen
  have hturns := hbetween.numbered
  refine ⟨s, hseen, hturns.indices, hturns.names_nodup, ?_, ?_⟩
  · intro later hlater
    obtain ⟨turns', hprefix, hbetween'⟩ := serve_between hlater hbetween
    obtain ⟨s', hseen', rfl⟩ := hbetween'.seen
    exact ⟨s', hseen', hprefix⟩
  · intro a ha t ht name hname content
    obtain ⟨f, hf⟩ := (hturns.each t ht).name_of_mem hname
    have hjson : name ≠ sessionJson := by
      rw [hf]
      exact AudioFile.name_ne_sessionJson _ f
    rw [after_entry ha rfl (hbetween.kept.holding name content) hjson (hturns.name_ne ht hname)]
    exact entry_holding id name content _

/-- The session cannot be written. -/
def diskFull : Except Exc Unit := .error ⟨.other, "No space left on device"⟩

/-- A spoken turn, a turn whose reply could not be spoken, one that is recorded but
not saved, and another one. -/
def fourArrivals : List Arrival :=
  let w := localWorld "hello" fun _ => .ok ["hi"]
  [⟨localService, w, .voice "s" none none (some "off")⟩,
    ⟨localService, { w with tts := .error ⟨.other, "no voice"⟩ },
      .voice "s" none none (some "off")⟩,
    ⟨localService, { w with save := diskFull }, .text "s" "again" none false true⟩,
    ⟨localService, w, .text "s" "and again" none false true⟩]

theorem fourArrivals_numbered :
    ∃ s, seen (serve (Store.create ⟨[], [], []⟩ "s" "now") fourArrivals) "s" = some s ∧
      s.turns.map TurnRecord.turnIndex = [1, 2, 3] ∧
      s.turns.map TurnRecord.turnIndex = List.range' 1 s.turns.length ∧
      (s.turns.flatMap audioNames).Nodup := by
  obtain ⟨s, hseen, hindices, hnames, -, -⟩ :=
    turns_numbered ⟨[], [], []⟩ "s" "now" fourArrivals (by decide)
  have hthree : (seen (serve (Store.create ⟨[], [], []⟩ "s" "now") fourArrivals) "s").map
      (fun s => s.turns.map TurnRecord.turnIndex) = some [1, 2, 3] := by
    decide +kernel
  rw [hseen] at hthree
  exact ⟨s, hseen, Option.some.inj hthree, hindices, hnames⟩

end AiPipelines.Turn
