import AiPipelines.PyStd.Dict
import AiPipelines.PyStd.Path
import AiPipelines.PyStd.TextFile
import Mathlib.Data.List.Sort

/-!
# The chunks of a knowledge folder

The first half of `server/app/agent/rag.py`: which files of a folder are
knowledge, and how their texts are cut into chunks.

A folder is the list of the files below it, each under its path relative to the
folder.  Folders below it do not matter to the source, which looks at regular
files only.  A file has its bytes and the time of its last change; its size is
the number of its bytes.
-/

namespace AiPipelines.Knowledge

open PyStd

/-- The exceptions that the callers tell apart. -/
inductive Exc where
  | os
  /-- `JSONDecodeError` -/
  | decode
  | key
  | type
  | attribute
  /-- any other `ValueError` -/
  | value
  | recursion
  deriving Repr, DecidableEq

/-- `DocumentChunk`. -/
structure DocumentChunk where
  docId : Str
  text : Str
  source : Str
  deriving Repr, DecidableEq

/-! ## Files -/

/-- A regular file. -/
structure File where
  mtimeNs : Int
  content : Bytes
  deriving Repr, DecidableEq

def File.size (f : File) : Nat := f.content.length

/-- The folder `root`: whether it is there, and the files below it by relative
path. -/
structure Tree where
  isDir : Bool
  files : Dict Str File
  nodup : files.keys.Nodup
  isDir_of_mem : ∀ path ∈ files.keys, isDir = true

/-- `path.suffix.lower() in SUPPORTED_SUFFIXES`.  Only ASCII letters have a lower
case that matters here. -/
def supported (path : Str) : Bool :=
  ([".md", ".txt", ".rst"] : List Str).contains ((pathSuffix path).map Char.toLower)

/-- The order of paths: part by part. -/
def pathLe (p q : Str) : Prop := p.splitOn '/' ≤ q.splitOn '/'

instance (p q : Str) : Decidable (pathLe p q) :=
  inferInstanceAs (Decidable (p.splitOn '/' ≤ q.splitOn '/'))

/-- `discover_knowledge_paths`. -/
def discover (t : Tree) : List Str :=
  if t.isDir then (t.files.keys.insertionSort pathLe).filter supported else []

instance : Std.Total pathLe := ⟨fun p q => le_total (p.splitOn '/') (q.splitOn '/')⟩

instance : IsTrans Str pathLe := ⟨fun _ _ _ hpq hqr => le_trans hpq hqr⟩

/-- The parts of a path give it back. -/
theorem pathLe_antisymm {p q : Str} (hpq : pathLe p q) (hqp : pathLe q p) : p = q := by
  have hparts : p.splitOn '/' = q.splitOn '/' := le_antisymm hpq hqp
  have hp : ['/'].intercalate (p.splitOn '/') = p := List.intercalate_splitOn '/'
  have hq : ['/'].intercalate (q.splitOn '/') = q := List.intercalate_splitOn '/'
  rw [← hp, ← hq, hparts]

theorem mem_discover {t : Tree} {path : Str} :
    path ∈ discover t ↔ supported path = true ∧ (t.files.get? path).isSome = true := by
  rw [Dict.get?_isSome]
  unfold discover
  split_ifs with hdir
  · rw [List.mem_filter, List.mem_insertionSort, and_comm]
  · constructor
    · intro h
      cases h
    · intro h
      exact absurd (t.isDir_of_mem path h.2) hdir

theorem discover_sorted (t : Tree) : (discover t).Pairwise pathLe := by
  unfold discover
  split_ifs
  · exact (List.pairwise_insertionSort pathLe _).filter _
  · exact List.Pairwise.nil

theorem discover_nodup (t : Tree) : (discover t).Nodup := by
  unfold discover
  split_ifs
  · exact ((List.perm_insertionSort pathLe _).nodup_iff.mpr t.nodup).filter _
  · exact List.nodup_nil

/-- A listing is given by what is in it. -/
theorem eq_discover {t : Tree} {paths : List Str} (hsorted : paths.Pairwise pathLe)
    (hnodup : paths.Nodup) (hmem : ∀ path, path ∈ paths ↔ path ∈ discover t) :
    paths = discover t := by
  have hperm : paths.Perm (discover t) :=
    (List.perm_ext_iff_of_nodup hnodup (discover_nodup t)).mpr hmem
  exact hperm.eq_of_pairwise (fun _ _ _ _ => pathLe_antisymm) hsorted (discover_sorted t)

/-! ## Splitting a text -/

/-- The length of the match of `\n\s*\n` at the front, and 0 if there is none.
The blanks are taken as far as they go and given back up to the last line feed. -/
def breakLength : Str → Nat
  | '\n' :: s =>
    let blanks := (s.takeWhile isSpace).rdropWhile (· ≠ '\n')
    if blanks = [] then 0 else blanks.length + 1
  | _ => 0

/-- The scan of `re.split`; the first argument counts the characters that still
belong to the last match. -/
def splitFrom : Nat → Str → List Str
  | _, [] => [[]]
  | skip + 1, _ :: s => splitFrom skip s
  | 0, c :: s =>
    match breakLength (c :: s) with
    | 0 => (splitFrom 0 s).modifyHead (c :: ·)
    | n + 1 => [] :: splitFrom n s

/-- The paragraphs of a text. -/
def paragraphs (text : Str) : List Str := ((splitFrom 0 text).map strip).filter (· ≠ [])

/-- The pieces of a paragraph that is too long: `range` refuses the step 0, and
runs through nothing with a negative one. -/
def slices (maxChars : Int) (para : Str) : Except Exc (List Str) :=
  if maxChars = 0 then .error .value
  else
    let n := maxChars.toNat
    .ok (if maxChars < 0 then []
      else (List.range ((para.length + n - 1) / n)).map fun i => strip ((para.drop (i * n)).take n))

/-- `if buf: out.append(buf.strip())`. -/
def flush (buf : Str) : List Str := if buf = [] then [] else [strip buf]

/-- One round of the loop over the paragraphs, on `out` and `buf`. -/
def addParagraph (maxChars : Int) (st : List Str × Str) (para : Str) :
    Except Exc (List Str × Str) :=
  if maxChars < para.length then
    (slices maxChars para).map fun pieces => (st.1 ++ flush st.2 ++ pieces, [])
  else
    let candidate := if st.2 = [] then para else strip (st.2 ++ '\n' :: '\n' :: para)
    if candidate.length ≤ maxChars then .ok (st.1, candidate) else .ok (st.1 ++ flush st.2, para)

/-- `_split_text`. -/
def splitText (text : Str) (maxChars : Int) : Except Exc (List Str) :=
  ((paragraphs text).foldlM (addParagraph maxChars) ([], [])).map fun st => st.1 ++ flush st.2

/-! ## The chunks -/

/-- The chunks of one file. -/
def fileChunks (chunkChars : Int) (path : Str) (content : Bytes) :
    Except Exc (List DocumentChunk) :=
  let text := strip (readTextReplace content)
  if text = [] then .ok []
  else (splitText text chunkChars).map fun pieces => pieces.zipIdx.map fun (piece, i) =>
    { docId := path ++ '#' :: Nat.toDigits 10 i, text := piece, source := path }

/-- Read a file of the folder and cut it. -/
def readChunks (chunkChars : Int) (t : Tree) (path : Str) : Except Exc (List DocumentChunk) :=
  match t.files.get? path with
  | none => .error .os
  | some f => fileChunks chunkChars path f.content

/-- `chunks_from_root`. -/
def chunksFromRoot (t : Tree) (chunkChars : Int) : Except Exc (List DocumentChunk) :=
  ((discover t).mapM (readChunks chunkChars t)).map List.flatten

end AiPipelines.Knowledge
