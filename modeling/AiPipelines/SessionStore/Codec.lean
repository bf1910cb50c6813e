import AiPipelines.PyStd.JsonRoundTrip
import AiPipelines.SessionStore.Store

/-!
# The text of a session

`to_dict` and `from_dict` of `server/app/session_store.py`, and the file
`session.json` between them.

The decoder does not undo the encoder field by field.  It calls `int` and `str`
on what it reads, takes a default for what is missing or counts as false, and
builds the dictionaries anew.  What these calls do to values that the encoder
never writes depends on the interpreter, and comes from outside (`Interpreter`).

* `Session.canon` carries the floats of a session as they are printed, so two
  sessions with the same `canon` are the same Python value.
* `Session.Valid` says what the records of the server have in common: their
  dictionaries have distinct keys, and every turn names its input mode.
* `readSession_text` is the round trip: what `_save` writes of a valid session
  is read as that session.
-/

namespace AiPipelines.SessionStore

open PyStd

/-! ## The encoder -/

/-- `TurnRecord.to_dict`. -/
def TurnRecord.toDict (t : TurnRecord) : Json :=
  .obj [("turn_index", .int t.turnIndex), ("created_at", .str t.createdAt),
    ("user_transcript", .str t.userTranscript), ("assistant_reply", .str t.assistantReply),
    ("user_audio", .str t.userAudio), ("reply_audio", .str t.replyAudio),
    ("input_mode", .str t.inputMode), ("timings", .obj t.timings), ("agent", .obj t.agent)]

/-- `Session.to_dict`. -/
def Session.toDict (s : Session) : Json :=
  .obj [("session_id", .str s.sessionId), ("created_at", .str s.createdAt),
    ("updated_at", .str s.updatedAt), ("turns", .arr (s.turns.map TurnRecord.toDict)),
    ("agent_memory", .obj (s.agentMemory.map fun kv => (kv.1, .str kv.2)))]

/-! ## The decoder -/

/-- What the interpreter does with values. -/
structure Interpreter where
  /-- how floats are dumped -/
  floats : Json.FloatPrinter
  /-- `str(v)` of what is no text -/
  printer : Json.Printer
  /-- whether a float literal denotes zero -/
  isZero : Str → Bool
  /-- `int(v)` of what is no integer -/
  parseInt : Json → Option Int
  /-- `dict(v)` of what is no object -/
  pairsToDict : Json → Option (Dict Str Json)
  /-- how deep values may nest that are written, and that are read -/
  dumpDepth : Nat
  loadDepth : Nat
  dump_le_load : dumpDepth ≤ loadDepth

/-- Why a file is not read as a session. -/
inductive DecodeError where
  | notUtf8
  | load (e : LoadError)
  | keyError (key : Str)
  /-- a `TypeError`, `ValueError` or `AttributeError` -/
  | badType
  deriving Repr, DecidableEq

namespace Interpreter

variable (x : Interpreter)

/-- `bool(v)`. -/
def truthy : Json → Bool
  | .null => false
  | .bool b => b
  | .int n => n ≠ 0
  | .float l => !x.isZero l
  | .str s => !s.isEmpty
  | .arr xs => !xs.isEmpty
  | .obj kvs => !kvs.isEmpty

/-- `int(v)`. -/
def toInt : Json → Except DecodeError Int
  | .int n => .ok n
  | .bool b => .ok (if b then 1 else 0)
  | v => (x.parseInt v).elim (.error .badType) .ok

/-- `dict(v)`. -/
def toDict : Json → Except DecodeError (Dict Str Json)
  | .obj kvs => .ok kvs
  | v => (x.pairsToDict v).elim (.error .badType) .ok

/-- `data[key]`. -/
def item (data : Json) (key : Str) : Except DecodeError Json :=
  match data with
  | .obj kvs => (Dict.get? kvs key).elim (.error (.keyError key)) .ok
  | _ => .error .badType

/-- `data.get(key) or default`. -/
def getOr (data : Json) (key : Str) (default : Json) : Except DecodeError Json :=
  match data with
  | .obj kvs =>
    match Dict.get? kvs key with
    | some v => .ok (if x.truthy v then v else default)
    | none => .ok default
  | _ => .error .badType

/-- `str(data[key])`. -/
def itemStr (data : Json) (key : Str) : Except DecodeError Str :=
  (item data key).map (Json.toStr x.printer)

/-- `str(data.get(key) or default)`. -/
def getStrOr (data : Json) (key default : Str) : Except DecodeError Str :=
  (x.getOr data key (.str default)).map (Json.toStr x.printer)

/-- `dict(data.get(key) or {})`. -/
def getDict (data : Json) (key : Str) : Except DecodeError (Dict Str Json) := do
  x.toDict (← x.getOr data key (.obj []))

end Interpreter

/-- `TurnRecord.from_dict`.  No turn has a negative index. -/
def TurnRecord.fromDict (x : Interpreter) (data : Json) : Except DecodeError TurnRecord := do
  let turnIndex ← x.toInt (← Interpreter.item data "turn_index")
  let createdAt ← x.itemStr data "created_at"
  let userTranscript ← x.itemStr data "user_transcript"
  let assistantReply ← x.itemStr data "assistant_reply"
  let userAudio ← x.getStrOr data "user_audio" []
  let replyAudio ← x.getStrOr data "reply_audio" []
  let inputMode ← x.getStrOr data "input_mode" "voice"
  let timings ← x.getDict data "timings"
  let agent ← x.getDict data "agent"
  return {
    turnIndex := turnIndex.toNat
    createdAt := createdAt
    userTranscript := userTranscript
    assistantReply := assistantReply
    userAudio := userAudio
    replyAudio := replyAudio
    inputMode := inputMode
    timings := timings
    agent := agent }

/-- The turns of `data`.  Of what is no list, the items are no objects. -/
def turnsFromDict (x : Interpreter) : Json → Except DecodeError (List TurnRecord)
  | .arr ts => ts.mapM (TurnRecord.fromDict x)
  | _ => .error .badType

/-- `{str(k): str(v) for k, v in items}`. -/
def memoryFromDict (x : Interpreter) : Json → Except DecodeError (Dict Str Str)
  | .obj kvs => .ok (Dict.update [] (kvs.map fun kv => (kv.1, kv.2.toStr x.printer)))
  | _ => .error .badType

/-- `Session.from_dict`. -/
def Session.fromDict (x : Interpreter) (data : Json) : Except DecodeError Session := do
  let sessionId ← x.itemStr data "session_id"
  let createdAt ← x.itemStr data "created_at"
  let updatedAt ← x.itemStr data "updated_at"
  let turns ← turnsFromDict x (← x.getOr data "turns" (.arr []))
  let agentMemory ← memoryFromDict x (← x.getOr data "agent_memory" (.obj []))
  return {
    sessionId := sessionId
    createdAt := createdAt
    updatedAt := updatedAt
    turns := turns
    agentMemory := agentMemory }

/-! ## The file -/

/-- `json.dumps(session.to_dict(), indent=2)`. -/
def Session.text (x : Interpreter) (s : Session) : Except Json.DumpError Str :=
  Json.dumps x.floats true x.dumpDepth s.toDict

/-- `Session.from_dict(json.loads(path.read_text(encoding="utf-8")))`. -/
def readSession (x : Interpreter) (file : Bytes) : Except DecodeError Session := do
  let text ← (readText file).elim (.error .notUtf8) .ok
  let data ← (Json.loads x.loadDepth text).mapError .load
  Session.fromDict x data

/-! ## The same session -/

/-- The record with its floats as they are printed. -/
def TurnRecord.canon (p : Json.FloatPrinter) (t : TurnRecord) : TurnRecord :=
  { t with timings := Json.canonPairs p t.timings, agent := Json.canonPairs p t.agent }

/-- The session with its floats as they are printed. -/
def Session.canon (p : Json.FloatPrinter) (s : Session) : Session :=
  { s with turns := s.turns.map (TurnRecord.canon p) }

/-- What the records of the server have in common. -/
structure TurnRecord.Valid (t : TurnRecord) : Prop where
  inputMode : t.inputMode ≠ []
  timings : Json.DistinctKeys (.obj t.timings)
  agent : Json.DistinctKeys (.obj t.agent)

/-- What the sessions of the server have in common. -/
structure Session.Valid (s : Session) : Prop where
  turns : ∀ t ∈ s.turns, t.Valid
  memory : s.agentMemory.keys.Nodup

variable {x : Interpreter} {p : Json.FloatPrinter}

theorem canonPairs_canonPairs (kvs : Dict Str Json) :
    Json.canonPairs p (Json.canonPairs p kvs) = Json.canonPairs p kvs :=
  Json.obj.inj (Json.canon_canon (.obj kvs))

theorem TurnRecord.canon_canon (t : TurnRecord) : (t.canon p).canon p = t.canon p := by
  unfold TurnRecord.canon
  rw [canonPairs_canonPairs, canonPairs_canonPairs]

theorem Session.canon_canon (s : Session) : (s.canon p).canon p = s.canon p := by
  have hturns : (s.canon p).turns.map (TurnRecord.canon p) = s.turns.map (TurnRecord.canon p) := by
    show (s.turns.map (TurnRecord.canon p)).map (TurnRecord.canon p) = _
    rw [List.map_map]
    exact List.map_congr_left fun t _ => t.canon_canon
  show { s.canon p with turns := (s.canon p).turns.map (TurnRecord.canon p) } = s.canon p
  rw [hturns]
  rfl

theorem TurnRecord.Valid.canon {t : TurnRecord} (h : t.Valid) : (t.canon p).Valid where
  inputMode := h.inputMode
  timings := (Json.distinctKeys_canon (.obj t.timings)).mpr h.timings
  agent := (Json.distinctKeys_canon (.obj t.agent)).mpr h.agent

theorem Session.Valid.canon {s : Session} (h : s.Valid) : (s.canon p).Valid where
  turns := List.forall_mem_map.mpr fun t ht => (h.turns t ht).canon
  memory := h.memory

theorem canonPairs_memory (mem : Dict Str Str) :
    Json.canonPairs p (mem.map fun kv => (kv.1, .str kv.2)) =
      mem.map fun kv => (kv.1, .str kv.2) := by
  rw [Json.canonPairs_eq, List.map_map]
  rfl

theorem canonItems_turns (ts : List TurnRecord) :
    Json.canonItems p (ts.map TurnRecord.toDict) =
      (ts.map (TurnRecord.canon p)).map TurnRecord.toDict := by
  rw [Json.canonItems_eq, List.map_map, List.map_map]
  rfl

theorem Session.toDict_canon (s : Session) : (s.canon p).toDict = Json.canon p s.toDict := by
  simp only [Session.toDict, Json.canon, Json.canonPairs, canonItems_turns, canonPairs_memory]
  rfl

/-! ## The round trip -/

theorem getStrOr_eq {kvs : Dict Str Json} {key s default : Str}
    (hget : kvs.get? key = some (.str s)) (hdefault : s = [] → default = []) :
    x.getStrOr (.obj kvs) key default = .ok s := by
  unfold Interpreter.getStrOr Interpreter.getOr
  simp only [hget]
  cases s with
  | nil =>
    rw [hdefault rfl]
    rfl
  | cons c s => rfl

theorem getOr_obj {kvs d : Dict Str Json} {key : Str} (hget : kvs.get? key = some (.obj d)) :
    x.getOr (.obj kvs) key (.obj []) = .ok (.obj d) := by
  unfold Interpreter.getOr
  simp only [hget]
  cases d with
  | nil => rfl
  | cons kv d => rfl

theorem getDict_eq {kvs d : Dict Str Json} {key : Str} (hget : kvs.get? key = some (.obj d)) :
    x.getDict (.obj kvs) key = .ok d := by
  unfold Interpreter.getDict
  rw [getOr_obj hget]
  rfl

theorem TurnRecord.fromDict_toDict {t : TurnRecord} (h : t.Valid) :
    TurnRecord.fromDict x t.toDict = .ok t := by
  have hindex : Interpreter.item t.toDict "turn_index" = .ok (.int t.turnIndex) := rfl
  have hcreated : x.itemStr t.toDict "created_at" = .ok t.createdAt := rfl
  have huser : x.itemStr t.toDict "user_transcript" = .ok t.userTranscript := rfl
  have hassistant : x.itemStr t.toDict "assistant_reply" = .ok t.assistantReply := rfl
  have huserAudio : x.getStrOr t.toDict "user_audio" [] = .ok t.userAudio :=
    getStrOr_eq rfl fun _ => rfl
  have hreplyAudio : x.getStrOr t.toDict "reply_audio" [] = .ok t.replyAudio :=
    getStrOr_eq rfl fun _ => rfl
  have hmode : x.getStrOr t.toDict "input_mode" "voice" = .ok t.inputMode :=
    getStrOr_eq rfl fun hnil => absurd hnil h.inputMode
  have htimings : x.getDict t.toDict "timings" = .ok t.timings := getDict_eq rfl
  have hagent : x.getDict t.toDict "agent" = .ok t.agent := getDict_eq rfl
  unfold TurnRecord.fromDict
  rw [hindex, hcreated, huser, hassistant, huserAudio, hreplyAudio, hmode, htimings, hagent]
  rfl

theorem turnsFromDict_toDict {ts : List TurnRecord} (h : ∀ t ∈ ts, t.Valid) :
    turnsFromDict x (.arr (ts.map TurnRecord.toDict)) = .ok ts := by
  show (ts.map TurnRecord.toDict).mapM (TurnRecord.fromDict x) = .ok ts
  induction ts with
  | nil => rfl
  | cons t ts ih =>
    obtain ⟨ht, hts⟩ := List.forall_mem_cons.mp h
    rw [List.map_cons, List.mapM_cons, TurnRecord.fromDict_toDict ht, ih hts]
    rfl

theorem memoryFromDict_toDict {mem : Dict Str Str} (h : mem.keys.Nodup) :
    memoryFromDict x (.obj (mem.map fun kv => (kv.1, .str kv.2))) = .ok mem := by
  have hitems : (mem.map fun kv => (kv.1, Json.str kv.2)).map
      (fun kv => (kv.1, kv.2.toStr x.printer)) = mem := by
    rw [List.map_map]
    exact List.map_id mem
  show Except.ok (Dict.update [] _) = Except.ok mem
  rw [hitems, Dict.update_eq_append (d := []) (e := mem) h, List.nil_append]

/-- What is read of an empty list or dictionary is the default, which is the same. -/
theorem getOr_turns {kvs : Dict Str Json} {key : Str} {ts : List Json}
    (hget : kvs.get? key = some (.arr ts)) : x.getOr (.obj kvs) key (.arr []) = .ok (.arr ts) := by
  unfold Interpreter.getOr
  simp only [hget]
  cases ts with
  | nil => rfl
  | cons t ts => rfl

theorem Session.fromDict_toDict {s : Session} (h : s.Valid) :
    Session.fromDict x s.toDict = .ok s := by
  have hid : x.itemStr s.toDict "session_id" = .ok s.sessionId := rfl
  have hcreated : x.itemStr s.toDict "created_at" = .ok s.createdAt := rfl
  have hupdated : x.itemStr s.toDict "updated_at" = .ok s.updatedAt := rfl
  have hturns : x.getOr s.toDict "turns" (.arr []) = .ok (.arr (s.turns.map TurnRecord.toDict)) :=
    getOr_turns rfl
  have hmemory : x.getOr s.toDict "agent_memory" (.obj []) =
      .ok (.obj (s.agentMemory.map fun kv => (kv.1, .str kv.2))) :=
    getOr_obj rfl
  unfold Session.fromDict
  rw [hid, hcreated, hupdated, hturns, hmemory]
  show (do
    let turns ← turnsFromDict x (.arr (s.turns.map TurnRecord.toDict))
    let agentMemory ← memoryFromDict x (.obj (s.agentMemory.map fun kv => (kv.1, .str kv.2)))
    return { sessionId := s.sessionId, createdAt := s.createdAt, updatedAt := s.updatedAt,
             turns := turns, agentMemory := agentMemory }) = Except.ok s
  rw [turnsFromDict_toDict h.turns, memoryFromDict_toDict h.memory]
  rfl

theorem TurnRecord.Valid.distinctKeys {t : TurnRecord} (h : t.Valid) :
    Json.DistinctKeys t.toDict := by
  refine ⟨?_, ?_⟩
  · show (["turn_index", "created_at", "user_transcript", "assistant_reply", "user_audio",
      "reply_audio", "input_mode", "timings", "agent"] : List Str).Nodup
    decide
  · exact ⟨trivial, trivial, trivial, trivial, trivial, trivial, trivial, h.timings, h.agent,
      trivial⟩

/-- A memory as an object. -/
theorem distinctKeys_memory {mem : Dict Str Str} (h : mem.keys.Nodup) :
    Json.DistinctKeys (.obj (mem.map fun kv => (kv.1, .str kv.2))) := by
  refine ⟨?_, ?_⟩
  · rw [List.map_map]
    exact h
  · rw [Json.distinctKeysPairs_iff, List.forall_mem_map]
    exact fun _ _ => trivial

theorem Session.Valid.distinctKeys {s : Session} (h : s.Valid) : Json.DistinctKeys s.toDict := by
  have hturns : Json.DistinctKeysItems (s.turns.map TurnRecord.toDict) := by
    rw [Json.distinctKeysItems_iff, List.forall_mem_map]
    exact fun t ht => (h.turns t ht).distinctKeys
  refine ⟨?_, ?_⟩
  · show (["session_id", "created_at", "updated_at", "turns", "agent_memory"] : List Str).Nodup
    decide
  · exact ⟨trivial, trivial, trivial, hturns, distinctKeys_memory h.memory, trivial⟩

theorem readSession_eq {file : Bytes} {text : Str} {data : Json} (hread : readText file = some text)
    (hloads : Json.loads x.loadDepth text = .ok data) :
    readSession x file = Session.fromDict x data := by
  unfold readSession
  rw [hread]
  show (Json.loads x.loadDepth text).mapError DecodeError.load >>= Session.fromDict x = _
  rw [hloads]
  rfl

/-- Whatever can be written is shallow enough to be read. -/
theorem Session.dumps_loadDepth {s : Session} {text : Str} (htext : s.text x = .ok text) :
    Json.dumps x.floats true x.loadDepth s.toDict = .ok text := by
  obtain ⟨hok, hdump⟩ := Json.dumps_eq_ok htext
  unfold Json.dumps
  rw [Json.encodable_mono x.dump_le_load hok, hdump]
  rfl

/-- What is written of a session is read as that session. -/
theorem readSession_text {s : Session} {text : Str} (h : s.Valid) (htext : s.text x = .ok text) :
    readSession x (writeText text) = .ok (s.canon x.floats) := by
  obtain ⟨text', hread, hloads⟩ :=
    Json.loads_readText h.distinctKeys (Session.dumps_loadDepth htext)
  rw [readSession_eq hread hloads, ← Session.toDict_canon, Session.fromDict_toDict h.canon]

/-- The text alone, without the file. -/
theorem Session.fromDict_loads {s : Session} {text : Str} (h : s.Valid)
    (htext : s.text x = .ok text) :
    ∃ data, Json.loads x.loadDepth text = .ok data ∧
      Session.fromDict x data = .ok (s.canon x.floats) := by
  refine ⟨_, Json.loads_dumps h.distinctKeys (Session.dumps_loadDepth htext), ?_⟩
  rw [← Session.toDict_canon, Session.fromDict_toDict h.canon]

/-- Whether a session can be dumped does not depend on how its floats are
carried. -/
theorem Session.encodable_of_canon {q : Json.FloatPrinter} {s s' : Session} (depth : Nat)
    (hsame : s'.canon q = s.canon q) :
    Json.encodable depth s'.toDict = .ok () ↔ Json.encodable depth s.toDict = .ok () := by
  rw [← Json.encodable_canon (p := q), ← Session.toDict_canon, hsame, Session.toDict_canon,
    Json.encodable_canon]

theorem Session.text_ok_of_canon {s s' : Session} {text : Str} (h : s.text x = .ok text)
    (hsame : s'.canon x.floats = s.canon x.floats) : ∃ text', s'.text x = .ok text' := by
  have hok : Json.encodable x.dumpDepth s.toDict = .ok () := (Json.dumps_eq_ok h).1
  have hok' : Json.encodable x.dumpDepth s'.toDict = .ok () :=
    (Session.encodable_of_canon x.dumpDepth hsame).2 hok
  refine ⟨Json.dump x.floats true 0 s'.toDict, ?_⟩
  unfold Session.text Json.dumps
  rw [hok']
  rfl

end AiPipelines.SessionStore
