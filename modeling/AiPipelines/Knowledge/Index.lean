import AiPipelines.Knowledge.Chunks
import AiPipelines.PyStd.JsonDump

/-!
# The saved index of a knowledge folder

The index of `server/app/agent/rag.py`: the chunks of a folder, together with a
fingerprint of each file, as one JSON file.  `KnowledgeBase.load` takes the
chunks from it if the fingerprints are still those of the folder, and cuts the
files anew otherwise.

The file may hold anything, so `indexIsFresh` and `loadedChunks` are about every
JSON value: what is no dictionary has no `get`, a string runs through its
characters, and a subscript raises by the kind of the value.
-/

namespace AiPipelines.Knowledge

open PyStd

/-- What the interpreter decides: how it prints, what a float literal equals, and
how deep JSON may nest. -/
structure Interp where
  printer : Json.Printer
  floats : Json.FloatPrinter
  /-- whether the float that the literal denotes equals the integer -/
  floatEq : Str → Int → Bool
  jsonDepth : Nat

/-! ## Fingerprints -/

/-- `source_fingerprint`. -/
structure Fingerprint where
  path : Str
  mtimeNs : Int
  size : Nat
  deriving Repr, DecidableEq

def sourceFingerprint (path : Str) (f : File) : Fingerprint := ⟨path, f.mtimeNs, f.size⟩

/-- `path.stat()` of a file of the folder. -/
def statFile (t : Tree) (path : Str) : Except Exc Fingerprint :=
  match t.files.get? path with
  | none => .error .os
  | some f => .ok (sourceFingerprint path f)

/-- `collect_source_fingerprints`. -/
def collectSourceFingerprints (t : Tree) : Except Exc (List Fingerprint) :=
  (discover t).mapM (statFile t)

/-! ## The payload -/

def indexVersion : Int := 1

def Fingerprint.toJson (s : Fingerprint) : Json :=
  .obj [("path", .str s.path), ("mtime_ns", .int s.mtimeNs), ("size", .int s.size)]

def DocumentChunk.toJson (c : DocumentChunk) : Json :=
  .obj [("doc_id", .str c.docId), ("text", .str c.text), ("source", .str c.source)]

/-- The dictionary that `build_index_payload` returns. -/
def indexPayload (chunkChars : Int) (knowledgeDir builtAt : Str) (sources : List Fingerprint)
    (chunks : List DocumentChunk) : Json :=
  .obj [("version", .int indexVersion), ("chunk_chars", .int chunkChars),
    ("knowledge_dir", .str knowledgeDir), ("built_at", .str builtAt),
    ("sources", .arr (sources.map Fingerprint.toJson)),
    ("chunks", .arr (chunks.map DocumentChunk.toJson))]

/-- What `build_and_save_index` writes. -/
def indexFile (e : Interp) (payload : Json) : Except Json.DumpError Bytes :=
  (Json.dumps e.floats false e.jsonDepth payload).map writeText

/-! ## JSON values as Python values -/

/-- `v == n`. -/
def eqInt (e : Interp) : Json → Int → Bool
  | .int m, n => m = n
  | .bool b, n => (if b then 1 else 0) = n
  | .float l, n => e.floatEq l n
  | _, _ => false

/-- `bool(v)`. -/
def truthy (e : Interp) : Json → Bool
  | .null => false
  | .str s => s ≠ []
  | .arr xs => !xs.isEmpty
  | .obj kvs => !kvs.isEmpty
  | v => !eqInt e v 0

/-- `v.get(k)`. -/
def getKey (v : Json) (k : Str) : Except Exc Json :=
  match v with
  | .obj kvs => .ok ((Dict.get? kvs k).getD .null)
  | _ => .error .attribute

/-- `for x in v or []`. -/
def iterate (e : Interp) (v : Json) : Except Exc (List Json) :=
  if truthy e v then
    match v with
    | .arr xs => .ok xs
    | .obj kvs => .ok (kvs.map fun kv => .str kv.1)
    | .str s => .ok (s.map fun c => .str [c])
    | _ => .error .type
  else .ok []

/-- `v[k]` for a text `k`. -/
def subscript (v : Json) (k : Str) : Except Exc Json :=
  match v with
  | .obj kvs =>
    match Dict.get? kvs k with
    | some x => .ok x
    | none => .error .key
  | _ => .error .type

/-- A value as the key of a dictionary.  The keys that are no texts are kept
apart from the texts only. -/
def dictKey : Json → Except Exc (Option Str)
  | .str s => .ok (some s)
  | .arr _ => .error .type
  | .obj _ => .error .type
  | _ => .ok none

/-! ## Freshness -/

/-- `s == source_fingerprint(...)`. -/
def eqFingerprint (e : Interp) (s : Json) (fp : Fingerprint) : Bool :=
  match s with
  | .obj kvs =>
    kvs.length == 3 &&
      (match Dict.get? kvs "path" with
        | some (.str p) => p == fp.path
        | _ => false) &&
      eqInt e ((Dict.get? kvs "mtime_ns").getD .null) fp.mtimeNs &&
      eqInt e ((Dict.get? kvs "size").getD .null) fp.size
  | _ => false

/-- `{s["path"]: s for s in sources}`. -/
def indexed (sources : List Json) : Except Exc (Dict (Option Str) Json) :=
  sources.foldlM (fun d s => do
    let path ← subscript s "path"
    let k ← dictKey path
    return d.set k s) []

/-- `{s["path"]: s for s in collect_source_fingerprints(root)}`. -/
def current (sources : List Fingerprint) : Dict (Option Str) Fingerprint :=
  sources.foldl (fun d s => d.set (some s.path) s) []

/-- `indexed == current`. -/
def sameSources (e : Interp) (d : Dict (Option Str) Json) (d' : Dict (Option Str) Fingerprint) :
    Bool :=
  d.length == d'.length && d.all fun kv =>
    match d'.get? kv.1 with
    | some fp => eqFingerprint e kv.2 fp
    | none => false

/-- `index_is_fresh`. -/
def indexIsFresh (e : Interp) (payload : Json) (t : Tree) (chunkChars : Int) : Except Exc Bool := do
  let version ← getKey payload "version"
  let chars ← getKey payload "chunk_chars"
  if eqInt e version indexVersion && eqInt e chars chunkChars then
    let sources ← iterate e (← getKey payload "sources")
    let d ← indexed sources
    let fps ← collectSourceFingerprints t
    return sameSources e d (current fps)
  else return false

/-! ## Loading -/

/-- `DocumentChunk(...)` of a row of the index. -/
def loadedChunk (e : Interp) (c : Json) : Except Exc DocumentChunk := do
  let docId ← subscript c "doc_id"
  let text ← subscript c "text"
  let source ← subscript c "source"
  return ⟨docId.toStr e.printer, text.toStr e.printer, source.toStr e.printer⟩

/-- The chunks of an index. -/
def loadedChunks (e : Interp) (payload : Json) : Except Exc (List DocumentChunk) := do
  let rows ← iterate e (← getKey payload "chunks")
  rows.mapM (loadedChunk e)

/-- The exception of `json.loads`. -/
def loadExc : LoadError → Exc
  | .decode => .decode
  | .recursion => .recursion
  | .intDigits => .value

/-- The `try` block of `load`: the chunks of the index if it is fresh. -/
def fromIndex (e : Interp) (bytes : Bytes) (t : Tree) (chunkChars : Int) :
    Except Exc (Option (List DocumentChunk)) := do
  -- a `UnicodeDecodeError` is a `ValueError`
  let text ← (readText bytes).elim (.error .value) .ok
  let payload ← (Json.loads e.jsonDepth text).mapError loadExc
  if ← indexIsFresh e payload t chunkChars then
    let chunks ← loadedChunks e payload
    return some chunks
  else return none

/-- The exceptions that the `except` clause of `load` names. -/
def Exc.caught : Exc → Bool
  | .decode | .key | .type | .os => true
  | _ => false

/-- What `load` leaves behind. -/
structure Loaded where
  chunks : List DocumentChunk
  fromIndex : Bool
  deriving Repr, DecidableEq

/-- The end of `load`: the files are cut anew. -/
def loadSlow (t : Tree) (chunkChars : Int) : Except Exc Loaded :=
  (chunksFromRoot t chunkChars).map (⟨·, false⟩)

/-- `KnowledgeBase.load`.  `index` is what the index file holds, if it is
there. -/
def load (e : Interp) (index : Option Bytes) (t : Tree) (chunkChars : Int) : Except Exc Loaded :=
  if t.isDir then
    match index with
    | none => loadSlow t chunkChars
    | some bytes =>
      match fromIndex e bytes t chunkChars with
      | .ok (some chunks) => .ok ⟨chunks, true⟩
      | .ok none => loadSlow t chunkChars
      | .error x => if x.caught then loadSlow t chunkChars else .error x
  else .ok ⟨[], false⟩

end AiPipelines.Knowledge
