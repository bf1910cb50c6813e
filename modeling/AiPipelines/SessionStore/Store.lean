import AiPipelines.PyStd.Json
import Mathlib.Data.List.Sort

/-!
# The session store

The model of `server/app/session_store.py`: the records, and the store as a
cache of live objects over a directory tree.

A cached `Session` is a Python object that several threads may hold at the
same time, and a turn handler mutates the object that it got.  The store
therefore has a heap: the cache maps an id to a reference, and two callers
that got the same reference see each other's changes.  The disk holds values:
`session.json` is what `_save` wrote, not the object itself.

Each definition in the second half is one lock-protected block or one file
operation, because these are the steps that other threads can come between.
`AiPipelines.SessionStore.System` puts them in order.

`root/<id>` is keyed by the id.  `AiPipelines.SessionStore.Paths` says for
which ids that directory is a child of the root of its own.
-/

namespace AiPipelines.SessionStore

open PyStd

/-! ## The records -/

/-- `TurnRecord`.  The keys of `timings` are the four stage names and its
values are floats. -/
structure TurnRecord where
  turnIndex : Nat
  createdAt : Str
  userTranscript : Str
  assistantReply : Str
  userAudio : Str := []
  replyAudio : Str := []
  inputMode : Str := "voice"
  timings : Dict Str Json := []
  agent : Dict Str Json := []

/-- `Session`. -/
structure Session where
  sessionId : Str
  createdAt : Str
  updatedAt : Str
  turns : List TurnRecord := []
  agentMemory : Dict Str Str := []

/-- The two roles that the server puts into a message list. -/
inductive Role where
  | user
  | assistant
  deriving Repr, DecidableEq

/-- `ChatMessage`. -/
structure ChatMessage where
  role : Role
  content : Str
  deriving Repr, DecidableEq

/-- The messages of one turn: each half is left out when it is blank. -/
def TurnRecord.messages (t : TurnRecord) : List ChatMessage :=
  (if strip t.userTranscript ≠ [] then [⟨.user, strip t.userTranscript⟩] else []) ++
    (if strip t.assistantReply ≠ [] then [⟨.assistant, strip t.assistantReply⟩] else [])

/-- `Session.history_messages`. -/
def Session.historyMessages (s : Session) : List ChatMessage :=
  s.turns.flatMap TurnRecord.messages

/-- One row of `list_sessions`. -/
structure Summary where
  sessionId : Str
  createdAt : Str
  updatedAt : Str
  turnCount : Nat
  previewFirstUser : Str
  previewLastAssistant : Str
  deriving Repr, DecidableEq

/-- The row of one session in `list_sessions`. -/
def Session.summary (s : Session) : Summary where
  sessionId := s.sessionId
  createdAt := s.createdAt
  updatedAt := s.updatedAt
  turnCount := s.turns.length
  previewFirstUser := ((s.turns.head?.map (·.userTranscript)).getD []).take 120
  previewLastAssistant := ((s.turns.getLast?.map (·.assistantReply)).getD []).take 120

/-- `summaries.sort(key=updated_at, reverse=True)`, which keeps the order of
equal keys. -/
def sortSummaries (rows : List Summary) : List Summary :=
  rows.insertionSort (fun a b => b.updatedAt ≤ a.updatedAt)

/-! ## The store -/

/-- What a directory entry is: a `session.json` that decodes to a session, any
other file, or a directory. -/
inductive Node where
  | session (s : Session)
  | raw
  | folder

/-- Whether the entry is a regular file. -/
def Node.isFile : Node → Bool
  | .folder => false
  | _ => true

/-- The entries of a session directory by name. -/
abbrev Dir := Dict Str Node

/-- A reference to a live `Session` object. -/
abbrev Ref := Nat

/-- `SessionStore`: the live objects, `_cache`, and the tree below `_root`. -/
structure Store where
  heap : List Session
  cache : Dict Str Ref
  disk : Dict Str Dir

/-- The name of the session file. -/
def sessionJson : Str := "session.json"

namespace Store

/-- The object behind a reference. -/
def deref (st : Store) (r : Ref) : Option Session := st.heap[r]?

/-- A new object. -/
def alloc (st : Store) (s : Session) : Store × Ref :=
  (⟨st.heap ++ [s], st.cache, st.disk⟩, st.heap.length)

/-- Mutate the object behind a reference. -/
def mutate (st : Store) (r : Ref) (f : Session → Session) : Store :=
  { st with heap := st.heap.modify r f }

/-- The entry `root/id/name`. -/
def entry (st : Store) (id name : Str) : Option Node := (st.disk.get? id).bind (·.get? name)

/-- The session that `root/id/session.json` holds. -/
def saved (st : Store) (id : Str) : Option Session :=
  match st.entry id sessionJson with
  | some (.session s) => some s
  | _ => none

/-- `d.mkdir(parents=True, exist_ok=True)` for `d = root/id`. -/
def mkdir (st : Store) (id : Str) : Store :=
  match st.disk.get? id with
  | some _ => st
  | none => { st with disk := st.disk.set id [] }

/-- Write the file `root/id/name`. The directory must be there. -/
def writeFile (st : Store) (id name : Str) (n : Node) : Option Store :=
  (st.disk.get? id).map (fun d => { st with disk := st.disk.set id (d.set name n) })

/-- `_save`: create the directory and write `session.json`. -/
def save (st : Store) (s : Session) : Store :=
  { st with
    disk := st.disk.set s.sessionId (((st.disk.get? s.sessionId).getD []).set sessionJson
      (.session s)) }

/-! ## Blocks of `create` and `update` -/

/-- The locked block of `create`. -/
def create (st : Store) (sid now : Str) : Store :=
  let s : Session := { sessionId := sid, createdAt := now, updatedAt := now }
  let (st₁, r) := st.alloc s
  { st₁ with cache := st₁.cache.set sid r }.save s

/-- `update`: stamp the object, cache it under its own id, and save it. -/
def update (st : Store) (r : Ref) (now : Str) : Option (Store × Session) :=
  let st₁ := st.mutate r (fun s => { s with updatedAt := now })
  (st₁.deref r).map (fun s =>
    ({ st₁ with cache := st₁.cache.set s.sessionId r }.save s, s))

/-! ## Blocks of `get` -/

/-- Where a call of `get` stands. -/
inductive GetPc where
  /-- before the first locked block -/
  | start
  /-- the cache had no entry; `is_file` is next -/
  | missed
  /-- `session.json` was there; `read_text` is next -/
  | present
  /-- a new object was decoded; the second locked block is next -/
  | loaded (r : Ref)
  deriving Repr, DecidableEq

/-- What one step of `get` came to. -/
inductive GetOut where
  | next (pc : GetPc)
  | ret (r : Option Ref)
  | raised
  deriving Repr, DecidableEq

/-- One step of `get(id)`. -/
def getStep (st : Store) (id : Str) : GetPc → Store × GetOut
  | .start =>
    match st.cache.get? id with
    | some r => (st, .ret (some r))
    | none => (st, .next .missed)
  | .missed =>
    match st.entry id sessionJson with
    | some n => if n.isFile then (st, .next .present) else (st, .ret none)
    | none => (st, .ret none)
  | .present =>
    -- The file may have gone since `is_file`, or may not decode: both raise.
    match st.saved id with
    | some s =>
      let (st₁, r) := st.alloc s
      (st₁, .next (.loaded r))
    | none => (st, .raised)
  | .loaded r => ({ st with cache := st.cache.set id r }, .ret (some r))

/-! ## Blocks of `delete` -/

/-- Where a call of `delete` stands. -/
inductive DeletePc where
  /-- before the locked block -/
  | start
  /-- the cache entry is gone; `d.exists()` is next -/
  | popped
  /-- the directory was there; `glob` is next -/
  | found
  /-- the paths that are still to be looked at -/
  | files (todo : List Str)
  /-- the first of the paths was a file; `unlink` is next -/
  | unlink (name : Str) (todo : List Str)
  deriving Repr, DecidableEq

/-- What one step of `delete` came to. -/
inductive DeleteOut where
  | next (pc : DeletePc)
  | ret (ok : Bool)
  | raised
  deriving Repr, DecidableEq

/-- `sorted(d.glob("*"), reverse=True)`, by name. -/
def globReversed (d : Dir) : List Str := d.keys.insertionSort (fun a b => b ≤ a)

/-- One step of `delete(id)`. -/
def deleteStep (st : Store) (id : Str) : DeletePc → Store × DeleteOut
  | .start => ({ st with cache := st.cache.pop id }, .next .popped)
  | .popped =>
    match st.disk.get? id with
    | some _ => (st, .next .found)
    | none => (st, .ret false)
  | .found => (st, .next (.files (globReversed ((st.disk.get? id).getD []))))
  | .files (name :: todo) =>
    match st.entry id name with
    | some n => if n.isFile then (st, .next (.unlink name todo)) else (st, .next (.files todo))
    | none => (st, .next (.files todo))
  | .unlink name todo =>
    match st.disk.get? id with
    | some d =>
      if (d.get? name).isSome then
        ({ st with disk := st.disk.set id (d.pop name) }, .next (.files todo))
      else (st, .raised)
    | none => (st, .raised)
  | .files [] =>
    -- `rmdir` raises unless the directory is there and empty.
    match st.disk.get? id with
    | some [] => ({ st with disk := st.disk.pop id }, .ret true)
    | _ => (st, .raised)

end Store

end AiPipelines.SessionStore
