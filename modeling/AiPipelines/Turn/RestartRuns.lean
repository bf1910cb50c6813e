import AiPipelines.Turn.Restart

/-!
# Runs with and without restarts

`AiPipelines.Turn.Restart` has the operations and the invariant.  Here are the
turns: two servers with the same disk read the same session up to the way its
floats are carried, so they take the turn in step (`handle_same`) and save the
same session.  With that, `step_same` is the step lemma for every operation, and
`restart_transparent` is the result for runs.
-/

namespace AiPipelines.Turn.Restart

open PyStd SessionStore Agent Transition

variable {x : Interpreter} {v : PipelineService} {st st' : Store} {id : Str}

/-! ## The session of a turn -/

/-- Two servers with the same disk that cache the session. -/
structure Paired (x : Interpreter) (id : Str) (r r' : Ref) (st st' : Store) : Prop where
  same : Same x st st'
  left : st.cache.get? id = some r
  right : st'.cache.get? id = some r'

/-- `s` and `s'` were read of the objects. -/
structure Fetched (x : Interpreter) (id : Str) (r r' : Ref) (s s' : Session) (st st' : Store) :
    Prop extends Paired x id r r' st st' where
  object : st.deref r = some s
  object' : st'.deref r' = some s'

theorem Paired.symm {r r' : Ref} (h : Paired x id r r' st st') : Paired x id r' r st' st :=
  ⟨h.same.symm, h.right, h.left⟩

theorem Fetched.symm {r r' : Ref} {s s' : Session} (h : Fetched x id r r' s s' st st') :
    Fetched x id r' r s' s st' st :=
  ⟨h.toPaired.symm, h.object', h.object⟩

theorem InSync.fetched (h : InSync x st) {r : Ref} {s : Session} (hc : st.cache.get? id = some r)
    (hs : st.deref r = some s) :
    s.Valid ∧ s.sessionId = id ∧ st.saved id = some (s.canon x.floats) := by
  obtain ⟨o, ho, hvalid, hsaved⟩ := h.cached id r hc
  obtain rfl : s = o := Option.some.inj (hs.symm.trans ho)
  obtain ⟨-, -, hid, -⟩ := h.saved id _ hsaved
  exact ⟨hvalid, hid, hsaved⟩

theorem Fetched.canon {r r' : Ref} {s s' : Session} (h : Fetched x id r r' s s' st st') :
    s'.canon x.floats = s.canon x.floats := by
  obtain ⟨-, -, hsaved⟩ := h.same.left.fetched h.left h.object
  obtain ⟨-, -, hsaved'⟩ := h.same.right.fetched h.right h.object'
  rw [saved_of_disk h.same.disk, hsaved] at hsaved'
  exact (Option.some.inj hsaved').symm

/-- What a turn reads of the session. -/
theorem turns_length_of_canon {p : Json.FloatPrinter} {s s' : Session}
    (h : s'.canon p = s.canon p) : s'.turns.length = s.turns.length := by
  have hlen := congrArg (fun s => s.turns.length) h
  simpa only [Session.canon, List.length_map] using hlen

theorem historyMessages_canon (p : Json.FloatPrinter) (s : Session) :
    (s.canon p).historyMessages = s.historyMessages := by
  unfold Session.historyMessages Session.canon
  rw [List.flatMap_map]
  rfl

theorem historyMessages_of_canon {p : Json.FloatPrinter} {s s' : Session}
    (h : s'.canon p = s.canon p) : s'.historyMessages = s.historyMessages := by
  rw [← historyMessages_canon p s', h, historyMessages_canon]

theorem agentMemory_of_canon {p : Json.FloatPrinter} {s s' : Session}
    (h : s'.canon p = s.canon p) : s'.agentMemory = s.agentMemory := by
  have hmem := congrArg Session.agentMemory h
  exact hmem

/-- Both find the session, or none of them does. -/
def FoundBoth (x : Interpreter) (id : Str) : Option Ref → Option Ref → Store → Store → Prop
  | some r, some r', st, st' => Paired x id r r' st st'
  | none, none, _, _ => True
  | _, _, _, _ => False

theorem getSession_same (h : Same x st st') {found : Option Ref}
    (hfound : (getSession id st).1 = .ok found) :
    ∃ found', (getSession id st').1 = .ok found' ∧
      FoundBoth x id found found' (getSession id st).2 (getSession id st').2 := by
  cases hs : st.saved id with
  | some s =>
    obtain ⟨r, st₁, -, hget, hsync, hdisk, hc, -⟩ := h.left.get hs
    obtain ⟨r', st₁', -, hget', hsync', hdisk', hc', -⟩ :=
      h.right.get ((saved_of_disk h.disk id).trans hs)
    rw [hget] at hfound ⊢
    rw [hget']
    obtain rfl : some r = found := Except.ok.inj hfound
    exact ⟨some r', rfl, ⟨hsync, hsync', by rw [hdisk, hdisk', h.disk]⟩, hc, hc'⟩
  | none =>
    have hget := h.left.get_absent hs
    have hget' := h.right.get_absent ((saved_of_disk h.disk id).trans hs)
    rw [entry_of_disk h.disk] at hget'
    rw [hget] at hfound
    rw [hget']
    refine ⟨found, hfound, ?_⟩
    cases found with
    | none => trivial
    | some r =>
      dsimp only at hfound
      unfold absent at hfound
      split at hfound <;> cases hfound

theorem requireSession_same :
    Eff.Sim (Same x) (requireSession id) (requireSession id) fun r r' => Paired x id r r' := by
  unfold requireSession
  refine Eff.Sim.bind (Eff.Sim.act fun st st' h found hfound => getSession_same h hfound) ?_
  intro found found'
  match found, found' with
  | some r, some r' => exact Eff.Sim.pure fun _ _ h => h
  | none, _ => exact Eff.Sim.raise
  | some _, none => exact fun _ _ h => h.elim

theorem mkdir_of_saved {s : Session} (hs : st.saved id = some s) : st.mkdir id = st := by
  unfold Store.mkdir
  cases hd : st.disk.get? id with
  | some d => rfl
  | none =>
    rw [Store.saved, Store.entry, hd] at hs
    cases hs

theorem Paired.saved {r r' : Ref} (h : Paired x id r r' st st') :
    ∃ s, st.saved id = some s := by
  obtain ⟨o, -, -, hsaved⟩ := h.same.left.cached id r h.left
  exact ⟨_, hsaved⟩

theorem sessionAudioDir_paired {r r' : Ref} {w : TurnWorld} :
    Eff.Sim (Paired x id r r') (sessionAudioDir w id) (sessionAudioDir w id)
      fun _ _ => Paired x id r r' := by
  apply Eff.Sim.ofExcept_bind
  intro _ _
  apply Eff.Sim.modify
  intro st st' h
  obtain ⟨s, hs⟩ := h.saved
  obtain ⟨s', hs'⟩ := h.symm.saved
  rw [mkdir_of_saved hs, mkdir_of_saved hs']
  exact h

theorem sessionAt_paired {r r' : Ref} :
    Eff.Sim (Paired x id r r') (sessionAt r) (sessionAt r') (Fetched x id r r') := by
  refine Eff.Sim.bind Eff.Sim.read fun st₀ st₀' => ?_
  refine Eff.Sim.ghost fun st st' h => ?_
  obtain ⟨⟨rfl, rfl⟩, h⟩ := h
  obtain ⟨o, ho, -⟩ := h.same.left.cached id r h.left
  obtain ⟨o', ho', -⟩ := h.same.right.cached id r' h.right
  simp only [ho, ho']
  apply Eff.Sim.pure
  intro t t' ht
  obtain ⟨rfl, rfl⟩ := ht
  exact ⟨h, ho, ho'⟩

/-! ## The save -/

/-- The session with the turn in it. -/
def withTurn (w : TurnWorld) (i : TurnInfo) (mem : Memory) (s : Session) : Session :=
  { s with agentMemory := mem, turns := s.turns ++ [i.record w], updatedAt := w.updatedAt }

theorem withTurn_canon {p : Json.FloatPrinter} {s s' : Session} (w : TurnWorld) (i : TurnInfo)
    (mem : Memory) (h : s'.canon p = s.canon p) :
    (withTurn w i mem s').canon p = (withTurn w i mem s).canon p := by
  have hid := congrArg Session.sessionId h
  have hcreated := congrArg Session.createdAt h
  have hturns := congrArg Session.turns h
  simp only [Session.canon] at hid hcreated hturns
  simp only [withTurn, Session.canon, List.map_append, hid, hcreated, hturns]

theorem withTurn_valid {w : TurnWorld} {i : TurnInfo} {mem : Memory} {s : Session} (h : s.Valid)
    (hrecord : (i.record w).Valid) (hmem : mem.keys.Nodup) : (withTurn w i mem s).Valid where
  turns := by
    intro t ht
    rcases List.mem_append.mp ht with ht | ht
    · exact h.turns t ht
    · rw [List.mem_singleton.mp ht]
      exact hrecord
  memory := hmem

/-- `append` and `update` on the object of a touched store. -/
theorem update_touched {r : Ref} {s : Session} {mem : Memory} {w : TurnWorld} {i : TurnInfo}
    {st₀ : Store} (hs : st₀.deref r = some s) (ht : Touched id st₀ r mem st) :
    ∃ st₁, (st.mutate r fun s => { s with turns := s.turns ++ [i.record w] }).update r w.updatedAt =
        some (st₁, withTurn w i mem s) ∧
      st₁.heap = st₀.heap.modify r (withTurn w i mem) ∧
      st₁.cache = st₀.cache.set s.sessionId r ∧
      st₁.disk = st.disk.set s.sessionId (((st.disk.get? s.sessionId).getD []).set sessionJson
        (.session (withTurn w i mem s))) := by
  have hup : ∃ o, (st.mutate r fun s => { s with turns := s.turns ++ [i.record w] }).update r
      w.updatedAt = some (o, withTurn w i mem s) := by
    simp only [Store.update, Store.deref_mutate, ht.deref hs, Option.map_some]
    exact ⟨_, rfl⟩
  obtain ⟨st₁, hup⟩ := hup
  refine ⟨st₁, hup, ?_⟩
  obtain ⟨o, -, heq⟩ := Option.map_eq_some_iff.mp hup
  obtain ⟨hstore, rfl⟩ := Prod.mk.inj heq
  rw [← hstore]
  refine ⟨?_, ?_, rfl⟩
  · show (st.heap.modify r _).modify r _ = _
    rw [ht.heap]
    show ((st₀.heap.modify r _).modify r _).modify r _ = _
    rw [List.modify_modify_eq, List.modify_modify_eq]
    rfl
  · show st.cache.set s.sessionId r = _
    rw [ht.cache]

/-- The turn is saved. -/
theorem touched_stored {r : Ref} {s : Session} {mem : Memory} {w : TurnWorld} {i : TurnInfo}
    {st₀ : Store} (hsync : InSync x st₀) (hc : st₀.cache.get? id = some r)
    (hs : st₀.deref r = some s) (ht : Touched id st₀ r mem st) (hrecord : (i.record w).Valid)
    (hmem : mem.keys.Nodup) :
    ∃ st₁, (st.mutate r fun s => { s with turns := s.turns ++ [i.record w] }).update r w.updatedAt =
        some (st₁, withTurn w i mem s) ∧
      Stored id st₀ st₁ r (withTurn w i mem s) st.disk ((st.disk.get? id).getD []) := by
  obtain ⟨hvalid, rfl, -⟩ := hsync.fetched hc hs
  obtain ⟨st₁, hup, hheap, hcache, hdisk⟩ := update_touched (w := w) (i := i) hs ht
  obtain ⟨-, -, -, -, hobject, -, -, hsaved⟩ := Store.update_spec hup
  refine ⟨st₁, hup, hobject, ?_, ?_, ?_, hdisk, withTurn_valid hvalid hrecord hmem, rfl⟩
  · intro id' q hid hq
    -- an object is cached under one id
    have hqr : r ≠ q := by
      intro hqr
      rw [← hqr] at hq
      exact hid (hsync.fetched hq hs).2.1
    show st₁.heap[q]? = st₀.heap[q]?
    rw [hheap, List.getElem?_modify_ne _ _ hqr]
  · intro id'
    rw [hcache, Dict.get?_set]
  · intro id'
    rw [hsaved id', ← ht.saved id']
    rfl

theorem saveEnd_of_canon {p : Json.FloatPrinter} {s s' : Session} (w : TurnWorld)
    (h : s'.canon p = s.canon p) : saveEnd w s' = saveEnd w s := by
  have hok := Session.encodable_of_canon w.dumpDepth h
  unfold saveEnd
  cases he : Json.encodable w.dumpDepth s.toDict with
  | ok u => rw [hok.2 he]
  | error e =>
    cases he' : Json.encodable w.dumpDepth s'.toDict with
    | ok u => exact absurd ((hok.1 he').symm.trans he) nofun
    | error e' => rfl

/-- What is known at the end of the two `try` blocks. -/
structure Answered (x : Interpreter) (id : Str) (r r' : Ref) (s s' : Session) (mem : Memory)
    (st₀ st₀' : Store) (profile : StageProfile) (st st' : Store) : Prop where
  fetched : Fetched x id r r' s s' st₀ st₀'
  level : Level r r' st st'
  touched : Touched id st₀ r mem st
  touched' : Touched id st₀' r' mem st'
  dict : mem.keys.Nodup
  recorded : MetaDistinct profile.agentMeta

theorem saveTurnAndRespond_same {r r' : Ref} {s s' : Session} {mem : Memory} {st₀ st₀' : Store}
    {w : TurnWorld} {i : TurnInfo} (hmode : i.inputMode ≠ []) :
    Eff.Sim (Answered x id r r' s s' mem st₀ st₀' i.profile) (saveTurnAndRespond v w r i)
      (saveTurnAndRespond v w r' i) fun a b st st' => b = a ∧ StoredBoth x id st st' := by
  refine Eff.Sim.ghost fun st st' h => ?_
  have hrecord : (i.record w).Valid := record_valid w h.recorded hmode
  obtain ⟨st₁, hup, hstored⟩ := touched_stored h.fetched.same.left h.fetched.left h.fetched.object
    h.touched hrecord h.dict
  obtain ⟨st₁', hup', hstored'⟩ := touched_stored h.fetched.same.right h.fetched.right
    h.fetched.object' h.touched' hrecord h.dict
  rw [h.level.disk] at hstored'
  have hcanon := withTurn_canon w i mem h.fetched.canon
  refine Eff.Sim.bind (Eff.Sim.modify (T := fun t t' =>
    t = st.mutate r (fun s => { s with turns := s.turns ++ [i.record w] }) ∧
    t' = st'.mutate r' fun s => { s with turns := s.turns ++ [i.record w] }) ?_) fun _ _ => ?_
  · intro t t' ht
    exact ⟨by rw [ht.1], by rw [ht.2]⟩
  · refine Eff.Sim.bind (S := fun o o' t t' => o'.turns.length = o.turns.length ∧
      StoredBoth x id t t') ?_ fun o o' => ?_
    · apply Eff.Sim.act
      intro t t' ht o ho
      obtain ⟨rfl, rfl⟩ := ht
      simp only [hup, hup', saveEnd_of_canon w hcanon] at ho ⊢
      cases hend : saveEnd w (withTurn w i mem s) with
      | raised opened =>
        rw [hend] at ho
        cases ho
      | saved =>
        rw [hend] at ho
        obtain rfl : withTurn w i mem s = o := Except.ok.inj ho
        exact ⟨_, rfl, turns_length_of_canon hcanon, st₀, st₀', r, r', _, _, _, _,
          h.fetched.same.left, h.fetched.same.right, hstored, hstored', hcanon⟩
    · refine Eff.Sim.assume (fun _ _ ht => ht.1) fun hlen => ?_
      rw [hlen]
      exact Eff.Sim.ofExcept_bind fun _ _ => Eff.Sim.pure fun _ _ ht => ⟨rfl, ht.2⟩

/-! ## Turns -/

theorem Fetched.start {r r' : Ref} {s s' : Session} (h : Fetched x id r r' s s' st st') :
    Level r r' st st' ∧ Touched id st r s.agentMemory st ∧ MemoryDict r st := by
  obtain ⟨hvalid, -, hsaved⟩ := h.same.left.fetched h.left h.object
  have hmem : memoryOf r st = s.agentMemory := by rw [memoryOf, h.object]; rfl
  have hmem' : memoryOf r' st' = s'.agentMemory := by rw [memoryOf, h.object']; rfl
  have hdir : (st.disk.get? id).isSome := by
    rw [Store.saved, Store.entry] at hsaved
    cases hd : st.disk.get? id with
    | some d => rfl
    | none =>
      rw [hd] at hsaved
      cases hsaved
  refine ⟨⟨h.same.disk, ?_, ?_, ?_⟩, Touched.start h.object hdir, ?_⟩
  · rw [hmem, hmem', agentMemory_of_canon h.canon]
  · rw [h.object]
    rfl
  · rw [h.object']
    rfl
  · rw [MemoryDict, hmem]
    exact hvalid.memory

/-- What is known of a `try` block alone. -/
structure Block (id : Str) (r : Ref) (calls : List (Str × Str)) (m : TurnProg StageProfile) :
    Prop where
  touched : ∀ {st₀ s mem}, st₀.deref r = some s → mem.keys.Nodup →
    Eff.Triple (Touched id st₀ r mem) m (fun _ => True)
      (fun _ => Touched id st₀ r (mem.update calls)) fun _ => Touched id st₀ r (mem.update calls)
  recorded : Eff.Triple (MemoryDict r) m (fun _ => True)
    (fun profile _ => MetaDistinct profile.agentMeta) fun _ _ => True

/-- From the `try` block to the answer.  `t` is the statement with its clauses. -/
theorem finish_same {r r' : Ref} {s s' : Session} {m m' : TurnProg StageProfile}
    {t t' : HandlerProg StageProfile} {calls : List (Str × Str)} {w : TurnWorld}
    {info : StageProfile → TurnInfo} (hlevel : InStep r r' m m') (hm : Block id r calls m)
    (hm' : Block id r' calls m') (hclauses : ∀ {R S}, Eff.Sim R m m' S → Eff.Sim R t t' S)
    (hprofile : ∀ p, (info p).profile = p) (hmode : ∀ p, (info p).inputMode ≠ []) :
    Eff.Sim (Fetched x id r r' s s')
      (do
        let profile ← t
        saveTurnAndRespond v w r (info profile))
      (do
        let profile ← t'
        saveTurnAndRespond v w r' (info profile))
      fun a b st st' => b = a ∧ StoredBoth x id st st' := by
  refine Eff.Sim.ghost fun st₀ st₀' h => ?_
  obtain ⟨hstart, htouched, hdict⟩ := h.start
  obtain ⟨-, htouched', -⟩ := h.symm.start
  obtain ⟨hvalid, -⟩ := h.same.left.fetched h.left h.object
  rw [agentMemory_of_canon h.canon] at htouched'
  have hblock := (hlevel.and_triples (hm.touched h.object hvalid.memory)
    (hm'.touched h.object' hvalid.memory)).and_triples hm.recorded
    (Eff.Triple.any (P := fun _ => True) m')
  have htry : Eff.Sim (fun st st' => st = st₀ ∧ st' = st₀') t t' fun p p' st st' => p' = p ∧
      Answered x id r r' s s' (s.agentMemory.update calls) st₀ st₀' p st st' := by
    apply hclauses
    apply hblock.conseq
    · intro st st' hst
      rw [hst.1, hst.2]
      exact ⟨⟨hstart, htouched, htouched'⟩, hdict, trivial⟩
    · intro p p' st st' hst
      obtain ⟨⟨⟨hp, hlevel⟩, hleft, hright⟩, hmeta, -⟩ := hst
      exact ⟨hp, h, hlevel, hleft, hright, Dict.nodup_keys_update hvalid.memory, hmeta⟩
  refine Eff.Sim.bind htry fun p p' => ?_
  refine Eff.Sim.assume (fun _ _ hst => hst.1) fun hp => ?_
  rw [hp]
  apply Eff.Sim.conseq (R := Answered x id r r' s s' (s.agentMemory.update calls) st₀ st₀'
    (info p).profile) (saveTurnAndRespond_same (hmode p)) ?_ fun _ _ _ _ hst => hst
  intro st st' hst
  rw [hprofile p]
  exact hst.2

theorem runTurn_block {r : Ref} {w : TurnWorld} {input : TurnInput} {history : List ChatMessage}
    {outWav llmModel : Option Str} {toolsEnabled : Bool}
    (hname : ∀ name ∈ outWav, name ≠ sessionJson) :
    Block id r (v.remembers w input llmModel toolsEnabled)
      (v.runTurn w r id input history outWav llmModel toolsEnabled) :=
  ⟨fun hs hmem => runTurn_touched hs hmem hname, runTurn_meta _ _ _ _ _⟩

theorem voiceTurn_block {r : Ref} {w : TurnWorld} {suffix : Str} {s : Session}
    {llmModel : Option Str} {useTools : Bool} :
    Block id r (voiceRemembers v w llmModel useTools)
      (voiceTurn v w r id suffix s llmModel useTools) :=
  ⟨fun hs hmem => voiceTurn_touched hs hmem, voiceTurn_meta _ _ _ _⟩

theorem postTurn_same {w : TurnWorld} (upload llmModel toolsEnabled : Option Str) :
    Eff.Sim (Same x) (postTurn v w id upload llmModel toolsEnabled)
      (postTurn v w id upload llmModel toolsEnabled)
      fun a b st st' => b = a ∧ StoredBoth x id st st' := by
  refine Eff.Sim.bind requireSession_same fun r r' => ?_
  apply Eff.Sim.ofExcept_bind
  intro _ _
  refine Eff.Sim.bind sessionAudioDir_paired fun _ _ => ?_
  refine Eff.Sim.bind sessionAt_paired fun s s' => ?_
  refine Eff.Sim.assume (fun _ _ h => h.canon) fun hcanon => ?_
  have hlength := turns_length_of_canon hcanon
  have hhistory := historyMessages_of_canon hcanon
  dsimp only
  rw [hlength, hhistory]
  apply Eff.Sim.ofExcept_bind
  intro _ _
  exact finish_same (voiceTurn_level hlength hhistory) voiceTurn_block voiceTurn_block
    (fun h => h.reraise.withCleanup) (fun _ => rfl) fun _ => nofun

theorem postTextTurn_same {w : TurnWorld} (text : Str) (llmModel : Option Str)
    (toolsEnabled speakReply : Bool) :
    Eff.Sim (Same x) (postTextTurn v w id text llmModel toolsEnabled speakReply)
      (postTextTurn v w id text llmModel toolsEnabled speakReply)
      fun a b st st' => b = a ∧ StoredBoth x id st st' := by
  refine Eff.Sim.bind requireSession_same fun r r' => ?_
  apply Eff.Sim.ofExcept_bind
  intro _ _
  apply Eff.Sim.ofExcept_bind
  intro _ _
  refine Eff.Sim.bind sessionAudioDir_paired fun _ _ => ?_
  refine Eff.Sim.bind sessionAt_paired fun s s' => ?_
  refine Eff.Sim.assume (fun _ _ h => h.canon) fun hcanon => ?_
  dsimp only
  rw [turns_length_of_canon hcanon, historyMessages_of_canon hcanon]
  have hname := spokenName_ne (s.turns.length + 1) speakReply
  exact finish_same (runTurn_level _ _ _ _ _) (runTurn_block hname) (runTurn_block hname)
    (fun h => h.reraise) (fun _ => rfl) fun _ => nofun

theorem handle_same (w : TurnWorld) (req : TurnRequest) :
    Eff.Sim (Same x) (handle v w req) (handle v w req)
      fun a b st st' => b = a ∧ StoredBoth x req.id st st' := by
  cases req with
  | voice id upload llmModel toolsEnabled => exact postTurn_same upload llmModel toolsEnabled
  | text id text llmModel toolsEnabled speakReply =>
    exact postTextTurn_same text llmModel toolsEnabled speakReply

/-! ## Steps -/

/-- The operation is no restart. -/
def Op.isRequest : Op → Bool
  | .restart => false
  | _ => true

theorem InSync.uncached (h : InSync x st) (hd : st.disk.get? id = none) :
    st.cache.get? id = none := by
  cases hc : st.cache.get? id with
  | none => rfl
  | some r =>
    obtain ⟨o, -, -, hsaved⟩ := h.cached id r hc
    rw [Store.saved, Store.entry, hd] at hsaved
    cases hsaved

theorem create_same (h : Same x st st') {sid now : Str} {st₁ : Store} {results : List Result}
    (hstep : step x v st (.create sid now) = some (st₁, results)) :
    ∃ st₁', step x v st' (.create sid now) = some (st₁', results) ∧ Same x st₁ st₁' := by
  simp only [step] at hstep
  split_ifs at hstep with hfree
  obtain ⟨st₂, hw, heq⟩ := Option.map_eq_some_iff.mp hstep
  obtain ⟨rfl, rfl⟩ := Prod.mk.inj heq
  obtain ⟨st₂', hw', hsame⟩ := (create_storedBoth h sid now).written hw
  rw [Bool.and_eq_true, Option.isNone_iff_eq_none] at hfree
  have hd : st'.disk.get? sid = none := by rw [h.disk]; exact hfree.1
  refine ⟨st₂', ?_, hsame⟩
  simp only [step, hd, h.right.uncached hd, Option.isNone_none, Bool.and_self, if_true, hw',
    Option.map_some]

theorem turn_same (h : Same x st st') {w : TurnWorld} {req : TurnRequest} {st₁ : Store}
    {results : List Result} (hstep : step x v st (.turn w req) = some (st₁, results)) :
    ∃ st₁', step x v st' (.turn w req) = some (st₁', results) ∧ Same x st₁ st₁' := by
  have hsim := handle_same (v := v) w req st st' h
  simp only [step] at hstep
  rcases hrun : handle v w req st with ⟨answer, st₂, calls⟩
  rw [hrun] at hstep hsim
  cases answer with
  | error e => cases hstep
  | ok response =>
    obtain ⟨b, hb, hcalls, rfl, hstored⟩ := hsim response rfl
    obtain ⟨st₃, hw, heq⟩ := Option.map_eq_some_iff.mp hstep
    obtain ⟨rfl, rfl⟩ := Prod.mk.inj heq
    obtain ⟨st₃', hw', hsame⟩ := hstored.written hw
    refine ⟨st₃', ?_, hsame⟩
    rcases hrun' : handle v w req st' with ⟨answer', st₂', calls'⟩
    rw [hrun'] at hb hcalls hw'
    obtain rfl : answer' = .ok b := hb
    obtain rfl : calls' = calls := hcalls
    simp only [step, hrun', hw', Option.map_some]

theorem get_same (h : Same x st st') {st₁ : Store} {results : List Result}
    (hstep : step x v st (.get id) = some (st₁, results)) :
    ∃ st₁', step x v st' (.get id) = some (st₁', results) ∧ Same x st₁ st₁' := by
  cases hs : st.saved id with
  | some s =>
    obtain ⟨r, st₂, o, hget, hsync, hdisk, -, ho, -, hcanon⟩ := h.left.get hs
    obtain ⟨r', st₂', o', hget', hsync', hdisk', -, ho', -, hcanon'⟩ :=
      h.right.get ((saved_of_disk h.disk id).trans hs)
    simp only [step, hget, Option.bind_some, ho, Option.map_some, hcanon] at hstep
    obtain ⟨rfl, rfl⟩ := Prod.mk.inj (Option.some.inj hstep)
    refine ⟨st₂', ?_, hsync, hsync', by rw [hdisk, hdisk', h.disk]⟩
    simp only [step, hget', Option.bind_some, ho', Option.map_some, hcanon']
  | none =>
    have hget' := h.right.get_absent ((saved_of_disk h.disk id).trans hs)
    rw [entry_of_disk h.disk] at hget'
    simp only [step, h.left.get_absent hs] at hstep
    simp only [step, hget']
    cases hres : absent (st.entry id sessionJson) with
    | error e =>
      rw [hres] at hstep
      obtain ⟨rfl, rfl⟩ := Prod.mk.inj (Option.some.inj hstep)
      exact ⟨st', rfl, h⟩
    | ok found =>
      rw [hres] at hstep
      cases found with
      | none =>
        obtain ⟨rfl, rfl⟩ := Prod.mk.inj (Option.some.inj hstep)
        exact ⟨st', rfl, h⟩
      | some r =>
        unfold absent at hres
        split at hres <;> cases hres

/-- Two servers with the same disk give the same results. -/
theorem step_same (h : Same x st st') {op : Op} (hop : op.isRequest = true) {st₁ : Store}
    {results : List Result} (hstep : step x v st op = some (st₁, results)) :
    ∃ st₁', step x v st' op = some (st₁', results) ∧ Same x st₁ st₁' := by
  cases op with
  | create sid now => exact create_same h hstep
  | turn w req => exact turn_same h hstep
  | get id => exact get_same h hstep
  | restart => cases hop
  | listSessions =>
    have hsame := listFrom_same st.disk.keys [] h
    simp only [step, listSessions, h.disk] at hstep ⊢
    rcases hl : listFrom st.disk.keys [] st with ⟨res, st₂⟩
    rcases hl' : listFrom st.disk.keys [] st' with ⟨res', st₂'⟩
    rw [hl, hl'] at hsame
    obtain ⟨hres, hsame⟩ := hsame
    obtain rfl : res' = res := hres
    rw [hl] at hstep
    cases res' with
    | ok rows =>
      obtain ⟨rfl, rfl⟩ := Prod.mk.inj (Option.some.inj hstep)
      exact ⟨st₂', rfl, hsame⟩
    | error e =>
      obtain ⟨rfl, rfl⟩ := Prod.mk.inj (Option.some.inj hstep)
      exact ⟨st₂', rfl, hsame⟩
  | delete id =>
    have hsame := deleteSession_same h id
    simp only [step] at hstep ⊢
    rcases hl : deleteSession id st with ⟨res, st₂⟩
    rcases hl' : deleteSession id st' with ⟨res', st₂'⟩
    rw [hl, hl'] at hsame
    obtain ⟨hres, hsame⟩ := hsame
    obtain rfl : res' = res := hres
    rw [hl] at hstep
    cases res' with
    | ok ok =>
      obtain ⟨rfl, rfl⟩ := Prod.mk.inj (Option.some.inj hstep)
      exact ⟨st₂', rfl, hsame⟩
    | error e =>
      obtain ⟨rfl, rfl⟩ := Prod.mk.inj (Option.some.inj hstep)
      exact ⟨st₂', rfl, hsame⟩

/-! ## Runs -/

theorem Same.restart (h : Same x st st') : Same x ⟨[], [], st.disk⟩ st' :=
  ⟨h.left.restart, h.right, h.disk⟩

/-- A run has the same results without its restarts. -/
theorem run_without {ops : List Op} (h : Same x st st') {st₁ : Store} {results : List Result}
    (hrun : run (step x v) st ops = some (st₁, results)) :
    ∃ st₁', run (step x v) st' (ops.filter Op.isRequest) = some (st₁', results) ∧
      Same x st₁ st₁' := by
  induction ops generalizing st st' results with
  | nil =>
    obtain ⟨rfl, rfl⟩ := Prod.mk.inj (Option.some.inj hrun)
    exact ⟨st', rfl, h⟩
  | cons op ops ih =>
    obtain ⟨st₂, res₁, res₂, hstep, hrest, rfl⟩ := run_cons_eq_some.mp hrun
    cases hop : op.isRequest with
    | true =>
      obtain ⟨st₂', hstep', h₂⟩ := step_same h hop hstep
      obtain ⟨st₁', hrest', h₁⟩ := ih h₂ hrest
      rw [List.filter_cons_of_pos hop]
      exact ⟨st₁', run_cons_eq_some.mpr ⟨st₂', res₁, res₂, hstep', hrest', rfl⟩, h₁⟩
    | false =>
      obtain rfl : op = .restart := by
        cases op with
        | restart => rfl
        | _ => cases hop
      obtain ⟨rfl, rfl⟩ := Prod.mk.inj (Option.some.inj hstep)
      exact ih h.restart hrest

/-- A run has the same results with restarts put in. -/
theorem run_with {ops : List Op} (h : Same x st st') {st₁ : Store} {results : List Result}
    (hrun : run (step x v) st (ops.filter Op.isRequest) = some (st₁, results)) :
    ∃ st₁', run (step x v) st' ops = some (st₁', results) ∧ Same x st₁ st₁' := by
  induction ops generalizing st st' results with
  | nil =>
    obtain ⟨rfl, rfl⟩ := Prod.mk.inj (Option.some.inj hrun)
    exact ⟨st', rfl, h⟩
  | cons op ops ih =>
    cases hop : op.isRequest with
    | true =>
      rw [List.filter_cons_of_pos hop] at hrun
      obtain ⟨st₂, res₁, res₂, hstep, hrest, rfl⟩ := run_cons_eq_some.mp hrun
      obtain ⟨st₂', hstep', h₂⟩ := step_same h hop hstep
      obtain ⟨st₁', hrest', h₁⟩ := ih h₂ hrest
      exact ⟨st₁', run_cons_eq_some.mpr ⟨st₂', res₁, res₂, hstep', hrest', rfl⟩, h₁⟩
    | false =>
      obtain rfl : op = .restart := by
        cases op with
        | restart => rfl
        | _ => cases hop
      obtain ⟨st₁', hrest', h₁⟩ := ih h.symm.restart.symm hrun
      exact ⟨st₁', run_cons_eq_some.mpr ⟨_, [], results, rfl, hrest', rfl⟩, h₁⟩

/-- The session is cached, or it is what is on disk. -/
def Held (st : Store) (s : Session) : Prop :=
  ∃ id, (∃ r, st.cache.get? id = some r ∧ st.deref r = some s) ∨ st.saved id = some s

theorem InSync.held (h : InSync x st) {s : Session} (hs : Held st s) :
    s.Valid ∧ ∃ text, s.text x = .ok text := by
  obtain ⟨id, ⟨r, hc, ho⟩ | hsaved⟩ := hs
  · obtain ⟨hvalid, -, hsaved⟩ := h.fetched hc ho
    obtain ⟨-, -, -, text, htext⟩ := h.saved id _ hsaved
    exact ⟨hvalid, Session.text_ok_of_canon htext s.canon_canon.symm⟩
  · obtain ⟨hvalid, -, -, htext⟩ := h.saved id s hsaved
    exact ⟨hvalid, htext⟩

/-- Restarts are not seen.  The same requests with restarts at other points, or
without any, have the same results, and each session that is in memory or on disk
is read back from the text that is written of it, with its floats as they are
printed. -/
theorem restart_transparent {ops ops' : List Op} {results : List Result}
    (hops : ops'.filter Op.isRequest = ops.filter Op.isRequest)
    (hrun : run (step x v) emptyStore ops = some (st, results)) :
    (∃ st', run (step x v) emptyStore ops' = some (st', results)) ∧
      ∀ s, Held st s → ∃ text data, s.text x = .ok text ∧
        Json.loads x.loadDepth text = .ok data ∧
        Session.fromDict x data = .ok (s.canon x.floats) ∧
        readSession x (writeText text) = .ok (s.canon x.floats) := by
  have hempty : Same x emptyStore emptyStore := ⟨emptyStore_inSync, emptyStore_inSync, rfl⟩
  obtain ⟨st₁, hrun₁, hsame⟩ := run_without hempty hrun
  refine ⟨?_, ?_⟩
  · rw [← hops] at hrun₁
    obtain ⟨st', hrun', -⟩ := run_with hempty hrun₁
    exact ⟨st', hrun'⟩
  · intro s hs
    obtain ⟨hvalid, text, htext⟩ := hsame.left.held hs
    obtain ⟨data, hloads, hdata⟩ := Session.fromDict_loads hvalid htext
    exact ⟨text, data, htext, hloads, hdata, readSession_text hvalid htext⟩

/-- An interpreter that reads no number from a text. -/
def plainInterpreter : Interpreter where
  floats := .verbatim
  printer := ⟨fun s => '\'' :: s ++ ['\''], fun s => s⟩
  isZero := fun l => l = ("0.0" : Str)
  parseInt := fun _ => none
  pairsToDict := fun _ => none
  dumpDepth := 100
  loadDepth := 100
  dump_le_load := Nat.le_refl 100

/-- A session with one turn, which is then read, listed and deleted. -/
def oneTurn : List Op :=
  [.create "a" "1",
    .turn (localWorld [] fun _ => .ok ["\u00e9t\u00e9"]) (.text "a" "hi" none false false),
    .get "a", .listSessions, .delete "a", .get "a"]

/-- The server is restarted before each request. -/
theorem filter_restarts (ops : List Op) :
    (ops.flatMap fun op => [.restart, op]).filter Op.isRequest = ops.filter Op.isRequest := by
  induction ops with
  | nil => rfl
  | cons op ops ih =>
    show (op :: ops.flatMap fun op => [.restart, op]).filter Op.isRequest = _
    rw [List.filter_cons, List.filter_cons, ih]

theorem oneTurn_restarted :
    ∃ st st' results, run (step plainInterpreter localService) emptyStore oneTurn =
        some (st, results) ∧
      run (step plainInterpreter localService) emptyStore
        (oneTurn.flatMap fun op => [.restart, op]) = some (st', results) ∧
      results.length = 6 := by
  have hcount : (run (step plainInterpreter localService) emptyStore oneTurn).map
      (fun p => p.2.length) = some 6 := by
    decide +kernel
  obtain ⟨⟨st, results⟩, hrun, hlen⟩ := Option.map_eq_some_iff.mp hcount
  obtain ⟨⟨st', hrun'⟩, -⟩ := restart_transparent (filter_restarts oneTurn) hrun
  exact ⟨st, st', results, hrun, hrun', hlen⟩

end AiPipelines.Turn.Restart
