import AiPipelines.Knowledge.Index
import AiPipelines.Transition

/-!
# Building the index while the folder changes

`build_and_save_index` of `server/app/agent/rag.py`, one file operation after the
other, with changes of the folder in between.  The chunks are read in a first
pass over the folder and the fingerprints are taken in a second pass, so a file
that is changed after it was read and before it was stamped gets the fingerprint
of its new content, and the index with the old chunks passes for fresh.

`step` takes a run through all this, and `Undisturbed` says which changes do no
harm.  `AiPipelines.Knowledge.FreshLoad` proves that without the others an index
that `load` accepts holds the chunks of the folder.
-/

namespace AiPipelines.Knowledge

open PyStd Transition

/-! ## The system -/

/-- Where a build stands. -/
inductive Builder where
  | idle
  /-- the files that are still to be read, and the chunks so far -/
  | reading (chunkChars : Int) (todo : List Str) (chunks : List DocumentChunk)
  /-- the files that are still to be stamped, and the fingerprints so far -/
  | stamping (chunkChars : Int) (chunks : List DocumentChunk) (todo : List Str)
      (sources : List Fingerprint)

/-- The folder, the build, and the index file. -/
structure State where
  tree : Tree
  builder : Builder
  index : Option Bytes

/-- One choice of the scheduler. -/
inductive Action where
  /-- a file is created or changed -/
  | write (path : Str) (f : File)
  | remove (path : Str)
  /-- a build starts with the listing of `chunks_from_root` -/
  | start (chunkChars : Int)
  /-- the next file is read and cut -/
  | read
  /-- the listing of `collect_source_fingerprints` -/
  | relist
  /-- the next file is stamped -/
  | stamp
  /-- the payload is written -/
  | save (knowledgeDir builtAt : Str)
  /-- a `KnowledgeBase` loads -/
  | load (chunkChars : Int)

/-- What a load came to, in the folder as it was then. -/
structure Event where
  result : Except Exc Loaded
  tree : Tree
  chunkChars : Int

/-- The folder with a file written, which may be the first. -/
def Tree.write (t : Tree) (path : Str) (f : File) : Tree where
  isDir := true
  files := t.files.set path f
  nodup := Dict.nodup_keys_set t.nodup
  isDir_of_mem := fun _ _ => rfl

/-- The folder without a file. -/
def Tree.remove (t : Tree) (path : Str) : Tree where
  isDir := t.isDir
  files := t.files.pop path
  nodup := t.nodup.sublist (t.files.keys_pop_sublist path)
  isDir_of_mem := fun p hp => t.isDir_of_mem p ((t.files.keys_pop_sublist path).subset hp)

/-- One step of a build.  An exception ends the build, and the index file stays
as it is. -/
def buildStep (e : Interp) (s : State) : Action → Option State
  | .start chunkChars =>
    match s.builder with
    | .idle => some { s with builder := .reading chunkChars (discover s.tree) [] }
    | _ => none
  | .read =>
    match s.builder with
    | .reading chunkChars (path :: todo) chunks =>
      match readChunks chunkChars s.tree path with
      | .ok more => some { s with builder := .reading chunkChars todo (chunks ++ more) }
      | .error _ => some { s with builder := .idle }
    | _ => none
  | .relist =>
    match s.builder with
    | .reading chunkChars [] chunks =>
      some { s with builder := .stamping chunkChars chunks (discover s.tree) [] }
    | _ => none
  | .stamp =>
    match s.builder with
    | .stamping chunkChars chunks (path :: todo) sources =>
      match statFile s.tree path with
      | .ok fp => some { s with builder := .stamping chunkChars chunks todo (sources ++ [fp]) }
      | .error _ => some { s with builder := .idle }
    | _ => none
  | .save knowledgeDir builtAt =>
    match s.builder with
    | .stamping chunkChars chunks [] sources =>
      match indexFile e (indexPayload chunkChars knowledgeDir builtAt sources chunks) with
      | .ok bytes => some { s with builder := .idle, index := some bytes }
      | .error _ => some { s with builder := .idle }
    | _ => none
  | _ => none

/-- One step of the system. -/
def step (e : Interp) (s : State) : Action → Option (State × List Event)
  | .write path f => some ({ s with tree := s.tree.write path f }, [])
  | .remove path =>
    if (s.tree.files.get? path).isSome then some ({ s with tree := s.tree.remove path }, [])
    else none
  | .load chunkChars => some (s, [⟨load e s.index s.tree chunkChars, s.tree, chunkChars⟩])
  | a => (buildStep e s a).map fun s' => (s', [])

/-- The folder as it is found, no build and no index. -/
def State.init (t : Tree) : State := ⟨t, .idle, none⟩

/-! ## Versions of files -/

/-- A file under its path, at one time. -/
structure Version where
  path : Str
  file : File

/-- A file that has the same path, time and size has the same content. -/
def Stamped (vs : List Version) : Prop :=
  ∀ v ∈ vs, ∀ w ∈ vs, v.path = w.path → v.file.mtimeNs = w.file.mtimeNs →
    v.file.size = w.file.size → v.file.content = w.file.content

instance (vs : List Version) : Decidable (Stamped vs) :=
  inferInstanceAs (Decidable (∀ v ∈ vs, ∀ w ∈ vs, v.path = w.path →
    v.file.mtimeNs = w.file.mtimeNs → v.file.size = w.file.size → v.file.content = w.file.content))

def Tree.versions (t : Tree) : List Version := t.files.map fun kv => ⟨kv.1, kv.2⟩

/-- The versions that a run writes. -/
def written (as : List Action) : List Version :=
  as.filterMap fun
    | .write path f => some ⟨path, f⟩
    | _ => none

/-! ## Faithful loads -/

/-- If the chunks come from the index, they are those of the folder. -/
def Event.Faithful (ev : Event) : Prop :=
  ∀ chunks, ev.result = .ok ⟨chunks, true⟩ → chunksFromRoot ev.tree ev.chunkChars = .ok chunks

/-- A change that leaves the content of the file as it is. -/
def Tree.keeps (t : Tree) (path : Str) (f : File) : Prop :=
  (t.files.get? path).map File.content = some f.content

/-- The step disturbs no build.  While the files are read, only a file that is
still to be read may be changed or removed, and none may be added.  While they
are stamped, a file that is still to be stamped may not be changed. -/
def Undisturbed (s : State) : Action → Prop
  | .write path f =>
    match s.builder with
    | .idle => True
    | .reading _ todo _ => supported path = true → path ∈ todo ∨ s.tree.keeps path f
    | .stamping _ _ todo _ => path ∈ todo → s.tree.keeps path f
  | .remove path =>
    match s.builder with
    | .reading _ todo _ => supported path = true → path ∈ todo
    | _ => True
  | _ => True

end AiPipelines.Knowledge
