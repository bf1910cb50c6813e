import AiPipelines.SessionStore.Store
import AiPipelines.Transition

/-!
# The store under concurrent requests

The routes of `server/app/main.py` that reach the session store, as one
system of threads.

* `get_session`, `list_sessions`, `get_audio`, `create_session` and
  `delete_session` are plain functions, so each request runs in a worker
  thread of its own.  A worker is a program counter, and `worker w` lets
  worker `w` do its next locked block or file operation.
* `post_turn` and `post_text_turn` are `async` functions without an `await`.
  Two of them never overlap, so the system has one `handler`.  Between
  `_require_session` and the save it writes audio files and its tools may
  mutate `agent_memory`; the rest of the pipeline does not touch the store.

`step` gives the events that a client can see.  A `get` that returns shows
the contents of the object at that moment, and `update` shows the session
that it wrote.
-/

namespace AiPipelines.SessionStore

open PyStd Transition

/-! ## Audio file names -/

/-- The format `{n:03d}`. -/
def pad3 (n : Nat) : Str :=
  let ds := Nat.toDigits 10 n
  List.replicate (3 - ds.length) '0' ++ ds

/-- The audio files of one turn. -/
inductive AudioFile where
  /-- the upload, under the suffix that the client gave -/
  | upload (suffix : Str)
  /-- the upload after conversion -/
  | userWav
  /-- the synthesized reply -/
  | reply
  deriving Repr, DecidableEq

/-- The name of an audio file of turn `turnIndex`. -/
def AudioFile.name (turnIndex : Nat) : AudioFile → Str
  | .upload suffix => ("turn_" : Str) ++ pad3 turnIndex ++ ("_user" : Str) ++ suffix
  | .userWav => ("turn_" : Str) ++ pad3 turnIndex ++ ("_user.wav" : Str)
  | .reply => ("turn_" : Str) ++ pad3 turnIndex ++ ("_reply.wav" : Str)

/-- No audio file is taken for the session file. -/
theorem AudioFile.name_ne_sessionJson (n : Nat) (f : AudioFile) :
    f.name n ≠ sessionJson := by
  intro h
  have hhead : (f.name n).head? = sessionJson.head? := congrArg List.head? h
  have ht : (f.name n).head? = some 't' := by cases f <;> rfl
  rw [ht] at hhead
  exact absurd hhead (by decide)

/-! ## Threads -/

/-- What a worker does with the session that `get` returns. -/
inductive GetFor where
  /-- `get_session` answers with it. -/
  | direct
  /-- `list_sessions` makes a row of it and goes on with the next directory. -/
  | listing (todo : List Str) (rows : List Summary)
  /-- `get_audio` checks that it is there. -/
  | audio (filename : Str)
  deriving Repr, DecidableEq

/-- A worker thread. -/
inductive Worker where
  | idle
  | getting (id : Str) (pc : Store.GetPc) (k : GetFor)
  | listing (todo : List Str) (rows : List Summary)
  | audioDir (id filename : Str)
  | deleting (id : Str) (pc : Store.DeletePc)
  deriving Repr, DecidableEq

/-- The turn handler. -/
inductive Handler where
  | idle
  | getting (id : Str) (pc : Store.GetPc)
  /-- the pipeline runs on the object `r` -/
  | holding (id : Str) (r : Ref)
  /-- the turn is appended to the object, `update` is next -/
  | appended (id : Str) (r : Ref) (turn : TurnRecord)

/-- The server state that the routes share. -/
structure System where
  store : Store
  workers : Dict Nat Worker
  handler : Handler

/-- What the running turn handler does next. -/
inductive TurnAction where
  /-- the next step of `sessions.get` -/
  | get
  /-- `session_audio_dir` -/
  | mkdir
  | writeAudio (f : AudioFile)
  /-- the tool `remember` -/
  | remember (key value : Str)
  /-- the pipeline raised -/
  | fail
  /-- `session.turns.append(turn)` -/
  | append (turn : TurnRecord)
  /-- `sessions.update(session)` -/
  | update (now : Str)

/-- One choice of the scheduler. -/
inductive Action where
  | create (sid now : Str)
  | startGet (w : Nat) (id : Str)
  | startList (w : Nat)
  | startAudio (w : Nat) (id filename : Str)
  | startDelete (w : Nat) (id : Str)
  | worker (w : Nat)
  | startTurn (id : Str)
  | turn (a : TurnAction)

/-- What clients see. -/
inductive Event where
  | created (id : Str)
  | getReturned (id : Str) (result : Option Session)
  | getRaised (id : Str)
  | listed (rows : List Summary)
  | deleted (id : Str) (ok : Bool)
  | deleteRaised (id : Str)
  | turnFailed (id : Str)
  | updated (id : Str) (turn : TurnRecord) (written : Session)

namespace System

/-- The server after a start: whatever is on disk, nothing in the cache. -/
def init (disk : Dict Str Dir) : System := ⟨⟨[], [], disk⟩, [], .idle⟩

/-- The program counter of worker `w`. -/
def workerAt (σ : System) (w : Nat) : Worker := (σ.workers.get? w).getD .idle

/-- Move worker `w`, on a store that may have changed. -/
def setWorker (σ : System) (w : Nat) (st : Store) (pc : Worker) : System :=
  { σ with store := st, workers := σ.workers.set w pc }

/-- Move the turn handler. -/
def setHandler (σ : System) (st : Store) (h : Handler) : System :=
  { σ with store := st, handler := h }

/-- Where a worker goes when its `get` returned. -/
def afterGet (st : Store) (id : Str) (r : Option Ref) : GetFor → Worker
  | .direct => .idle
  | .listing todo rows =>
    .listing todo (rows ++ ((r.bind st.deref).map Session.summary).toList)
  | .audio filename => if r.isSome then .audioDir id filename else .idle

/-- The next step of worker `w`. -/
def workerStep (σ : System) (w : Nat) : Option (System × List Event) :=
  match σ.workerAt w with
  | .idle => none
  | .getting id pc k =>
    match σ.store.getStep id pc with
    | (st, .next pc') => some (σ.setWorker w st (.getting id pc' k), [])
    | (st, .ret r) =>
      some (σ.setWorker w st (afterGet st id r k), [.getReturned id (r.bind st.deref)])
    | (st, .raised) => some (σ.setWorker w st .idle, [.getRaised id])
  | .listing [] rows => some (σ.setWorker w σ.store .idle, [.listed (sortSummaries rows)])
  | .listing (sid :: todo) rows =>
    -- `path.is_dir()`
    match σ.store.disk.get? sid with
    | some _ => some (σ.setWorker w σ.store (.getting sid .start (.listing todo rows)), [])
    | none => some (σ.setWorker w σ.store (.listing todo rows), [])
  | .audioDir id filename =>
    if contains ".." filename || contains "/" filename then
      some (σ.setWorker w σ.store .idle, [])
    else some (σ.setWorker w (σ.store.mkdir id) .idle, [])
  | .deleting id pc =>
    match σ.store.deleteStep id pc with
    | (st, .next pc') => some (σ.setWorker w st (.deleting id pc'), [])
    | (st, .ret ok) => some (σ.setWorker w st .idle, [.deleted id ok])
    | (st, .raised) => some (σ.setWorker w st .idle, [.deleteRaised id])

/-- Start a request in the idle worker `w`. -/
def startWorker (σ : System) (w : Nat) (pc : Worker) : Option (System × List Event) :=
  match σ.workerAt w with
  | .idle => some (σ.setWorker w σ.store pc, [])
  | _ => none

/-- The next step of the turn handler. -/
def turnStep (σ : System) : TurnAction → Option (System × List Event)
  | .get =>
    match σ.handler with
    | .getting id pc =>
      match σ.store.getStep id pc with
      | (st, .next pc') => some (σ.setHandler st (.getting id pc'), [])
      | (st, .ret (some r)) =>
        some (σ.setHandler st (.holding id r), [.getReturned id (st.deref r)])
      | (st, .ret none) =>
        some (σ.setHandler st .idle, [.getReturned id none, .turnFailed id])
      | (st, .raised) => some (σ.setHandler st .idle, [.getRaised id, .turnFailed id])
    | _ => none
  | .mkdir =>
    match σ.handler with
    | .holding id r => some (σ.setHandler (σ.store.mkdir id) (.holding id r), [])
    | _ => none
  | .writeAudio f =>
    match σ.handler with
    | .holding id r =>
      let turnIndex := ((σ.store.deref r).map (·.turns.length)).getD 0 + 1
      match σ.store.writeFile id (f.name turnIndex) .raw with
      | some st => some (σ.setHandler st (.holding id r), [])
      | none => some (σ.setHandler σ.store .idle, [.turnFailed id])
    | _ => none
  | .remember key value =>
    match σ.handler with
    | .holding id r =>
      let st := σ.store.mutate r
        (fun s => { s with agentMemory := s.agentMemory.set (strip key) (strip value) })
      some (σ.setHandler st (.holding id r), [])
    | _ => none
  | .fail =>
    match σ.handler with
    | .holding id _ => some (σ.setHandler σ.store .idle, [.turnFailed id])
    | _ => none
  | .append t =>
    match σ.handler with
    | .holding id r =>
      some (σ.setHandler (σ.store.mutate r (fun s => { s with turns := s.turns ++ [t] }))
        (.appended id r t), [])
    | _ => none
  | .update now =>
    match σ.handler with
    | .appended _ r t =>
      match σ.store.update r now with
      | some (st, s) => some (σ.setHandler st .idle, [.updated s.sessionId t s])
      | none => none
    | _ => none

/-- One step of the server. -/
def step (σ : System) : Action → Option (System × List Event)
  | .create sid now =>
    -- `uuid4().hex` names no session that is there.
    if (σ.store.disk.get? sid).isNone && (σ.store.cache.get? sid).isNone then
      some ({ σ with store := σ.store.create sid now }, [.created sid])
    else none
  | .startGet w id => σ.startWorker w (.getting id .start .direct)
  | .startList w => σ.startWorker w (.listing σ.store.disk.keys [])
  | .startAudio w id filename => σ.startWorker w (.getting id .start (.audio filename))
  | .startDelete w id => σ.startWorker w (.deleting id .start)
  | .worker w => σ.workerStep w
  | .startTurn id =>
    match σ.handler with
    | .idle => some (σ.setHandler σ.store (.getting id .start), [])
    | _ => none
  | .turn a => σ.turnStep a

end System

end AiPipelines.SessionStore
