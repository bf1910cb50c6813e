import AiPipelines.Effect
import AiPipelines.PyStd.Path
import AiPipelines.SessionStore.WellKeyed

/-!
# The paths that the server touches

The store and the routes once more, this time with paths for ids: what
`session_store.py` and `main.py` do to the file system when the id comes from
a URL.  Starlette matches `{session_id}` with any non-empty text without a
slash, so the id may be `.` or `..`.

* `Fs` is the tree of files, and `Access` what a program does to it.  The
  handlers are programs over `Fs` that leave their accesses in the trace.
* `Confined` says of an access that it stays in `root/<id>`: files are read,
  written and unlinked strictly inside, and only that directory itself is
  created, listed and removed.
* A turn saves the session under the id inside the object.  `SavedAtHome` says
  that this leads to the directory where the session was found.  It holds
  whenever every session is kept under its own id (`savedAtHome_ofSystem`).
* `handle_confined` proves confinement from it, and `pathsConfined_iff` adds
  that nothing less will do and that `.` and `..` are the two ids that break it
  anyway.  `deleteParent_unlinks` runs the `DELETE` that removes files above
  the root.

Uploads pass through a temporary file of the operating system, which is no
path of a session; the access `temp` stands for it.
-/

namespace AiPipelines.SessionStore

open PyStd

/-! ## The file system -/

/-- What a path leads to. -/
inductive FileKind where
  | file
  | dir
  deriving Repr, DecidableEq

/-- The tree of files by their resolved paths. -/
structure Fs where
  entries : List (Path × FileKind)
  /-- The operating system makes no entry under anything but a name. -/
  valid : ∀ e ∈ entries, ∀ c ∈ e.1, IsName c

namespace Fs

/-- What is at a resolved path. -/
def kind (fs : Fs) (p : Path) : Option FileKind :=
  (fs.entries.find? fun e => e.1 = p).map Prod.snd

/-- The path is taken by something of the given kind. -/
def put (fs : Fs) (p : Path) (k : FileKind) : Fs :=
  if h : ∀ c ∈ p, IsName c then
    ⟨(p, k) :: fs.entries.filter (fun e => e.1 ≠ p), by
      intro e he
      rcases List.mem_cons.1 he with rfl | he
      · exact h
      · exact fs.valid e (List.mem_of_mem_filter he)⟩
  else fs

/-- Nothing is at the path any more. -/
def remove (fs : Fs) (p : Path) : Fs :=
  ⟨fs.entries.filter (fun e => e.1 ≠ p), fun e he => fs.valid e (List.mem_of_mem_filter he)⟩

/-- The name of `p` in the directory `d`. -/
def childName (d p : Path) : Option Str := if p.dropLast = d then p.getLast? else none

/-- The names in a directory. -/
def names (fs : Fs) (d : Path) : List Str := fs.entries.filterMap fun e => childName d e.1

theorem names_valid {fs : Fs} {d : Path} {c : Str} (h : c ∈ fs.names d) : IsName c := by
  obtain ⟨e, he, hc⟩ := List.mem_filterMap.1 h
  unfold childName at hc
  split_ifs at hc
  exact fs.valid e he c (List.mem_of_mem_getLast? hc)

end Fs

/-- What a program does to a path. -/
inductive Access where
  | stat (p : Path)
  | read (p : Path)
  | write (p : Path)
  | unlink (p : Path)
  | mkdir (p : Path)
  | list (p : Path)
  | rmdir (p : Path)
  /-- the temporary file of an upload -/
  | temp
  deriving Repr, DecidableEq

/-- How a handler ends early: with an answer of its own, or with an exception
of the store or the pipeline. -/
inductive Raised where
  | http (status : Nat) (detail : Str)
  | exception
  deriving Repr, DecidableEq

/-- A program over the file system. -/
abbrev FileProg := Eff Fs Access Raised

namespace FileProg

/-- `p.is_file()`. -/
def isFile (p : Path) : FileProg Bool := do
  Eff.emit (.stat p)
  let fs ← Eff.read
  return fs.kind p.resolve = some .file

/-- `p.exists()`. -/
def exists? (p : Path) : FileProg Bool := do
  Eff.emit (.stat p)
  let fs ← Eff.read
  return fs.kind p.resolve ≠ none

/-- `p.read_text()`. -/
def readText (p : Path) : FileProg Unit := Eff.emit (.read p)

/-- A file is created or replaced. -/
def write (p : Path) : FileProg Unit := do
  Eff.emit (.write p)
  Eff.modify fun fs => fs.put p.resolve .file

/-- `p.unlink()`. -/
def unlink (p : Path) : FileProg Unit := do
  Eff.emit (.unlink p)
  Eff.modify fun fs => fs.remove p.resolve

/-- `p.mkdir(parents=True, exist_ok=True)`. -/
def mkdir (p : Path) : FileProg Unit := do
  Eff.emit (.mkdir p)
  let fs ← Eff.read
  match fs.kind p.resolve with
  | some .dir => return ()
  | some .file => Eff.raise .exception
  | none => Eff.modify fun fs => fs.put p.resolve .dir

/-- `p.glob("*")`. -/
def glob (p : Path) : FileProg (List Path) := do
  Eff.emit (.list p)
  let fs ← Eff.read
  return (fs.names p.resolve).map p.join

/-- `p.rmdir()`. -/
def rmdir (p : Path) : FileProg Unit := do
  Eff.emit (.rmdir p)
  let fs ← Eff.read
  if fs.names p.resolve = [] then Eff.modify fun fs => fs.remove p.resolve
  else Eff.raise .exception

end FileProg

open FileProg

/-! ## The store -/

/-- The server, as far as the handlers read it. -/
structure Server where
  /-- `cfg.sessions_dir`, which `ServerConfig.from_env` resolves -/
  root : Path
  root_names : ∀ c ∈ root, IsName c
  /-- the object that the cache has for an id -/
  cached : Str → Option Session
  /-- what a `session.json` decodes to, if it does -/
  decode : Path → Option Session
  ready : Bool := true
  pipelineError : Str := []
  ffmpeg : Bool := true

namespace Server

/-- `SessionStore._session_dir`. -/
def sessionDir (v : Server) (id : Str) : Path := v.root.join id

/-- `SessionStore._session_json`. -/
def sessionJsonPath (v : Server) (id : Str) : Path := (v.sessionDir id).join sessionJson

/-- `SessionStore._load_from_disk`. -/
def loadFromDisk (v : Server) (id : Str) : FileProg (Option Session) := do
  let path := v.sessionJsonPath id
  if !(← isFile path) then return none
  readText path
  match v.decode path.resolve with
  | some s => return some s
  | none => Eff.raise .exception

/-- `SessionStore.get`. -/
def get (v : Server) (id : Str) : FileProg (Option Session) :=
  match v.cached id with
  | some s => return some s
  | none => v.loadFromDisk id

/-- `SessionStore._save`.  It goes to the directory of the session's own id. -/
def save (v : Server) (s : Session) : FileProg Unit := do
  mkdir (v.sessionDir s.sessionId)
  write (v.sessionJsonPath s.sessionId)

/-- `sorted(d.glob("*"), reverse=True)`.  The paths share the parent, so their
names decide. -/
def sortedReverse (ps : List Path) : List Path :=
  ps.insertionSort fun p q => q.getLast?.getD [] ≤ p.getLast?.getD []

/-- `SessionStore.delete`. -/
def delete (v : Server) (id : Str) : FileProg Bool := do
  let d := v.sessionDir id
  if !(← exists? d) then return false
  let entries ← glob d
  Eff.forEach (sortedReverse entries) fun p => do
    if ← isFile p then unlink p
  rmdir d
  return true

/-- `SessionStore.session_audio_dir`. -/
def sessionAudioDir (v : Server) (id : Str) : FileProg Path := do
  let d := v.sessionDir id
  mkdir d
  return d

/-! ## The routes -/

/-- `_require_session`. -/
def requireSession (v : Server) (id : Str) : FileProg Session := do
  match ← v.get id with
  | some s => return s
  | none => Eff.raise (.http 404 "Session not found")

/-- `if not pipeline.ready: raise HTTPException(503, ...)`. -/
def requireReady (v : Server) : FileProg Unit :=
  if v.ready then return ()
  else Eff.raise
    (.http 503 (if v.pipelineError = [] then "Pipeline not ready" else v.pipelineError))

/-- `delete_session`. -/
def deleteSession (v : Server) (id : Str) : FileProg Unit := do
  if !(← v.delete id) then Eff.raise (.http 404 "Session not found")

/-- `get_audio`. -/
def getAudio (v : Server) (id filename : Str) : FileProg Unit := do
  let _ ← v.requireSession id
  if contains ['.', '.'] filename || contains ['/'] filename then
    Eff.raise (.http 400 "Invalid filename")
  let d ← v.sessionAudioDir id
  let path := d.join filename
  if !(← isFile path) then Eff.raise (.http 404 "Audio not found")
  readText path

/-- Where the pipeline of a turn may raise. -/
inductive Stage where
  | copy
  | prepare
  | asr
  | llm
  | tts
  deriving Repr, DecidableEq

/-- The stage is done, or it raises. -/
def stage (fails : Option Stage) (here : Stage) : FileProg Unit :=
  if fails = some here then Eff.raise .exception else return ()

/-- The suffix if it is one of an audio file, else `.wav`.  Of the letters that
matter only the ASCII ones have a lower case of one letter. -/
def audioSuffix (suffix : Str) : Str :=
  if ([".wav", ".webm", ".ogg", ".mp3", ".m4a"] : List Str).contains (suffix.map Char.toLower) then
    suffix
  else ".wav"

/-- The suffix under which an upload is stored. -/
def uploadSuffix (filename : Option Str) : Str :=
  let name := if filename.getD [] = [] then ("input.webm" : Str) else filename.getD []
  audioSuffix (if pathSuffix name = [] then ".wav" else pathSuffix name)

/-- `prepare_wav_for_asr`: a `.wav` is copied, anything else needs `ffmpeg`. -/
def prepareWavForAsr (v : Server) (suffix : Str) (dest : Path) : FileProg Unit := do
  mkdir dest.dropLast
  if suffix.map Char.toLower = (".wav" : Str) || v.ffmpeg then write dest
  else Eff.raise .exception

/-- The speech synthesis of `run_turn` writes the reply. -/
def synthesize (fails : Option Stage) (out : Path) : FileProg Unit := do
  let out := out.resolve
  mkdir out.dropLast
  write out
  stage fails .tts

/-- The reply is spoken if the client asked for it. -/
def speakReply (speak : Bool) (fails : Option Stage) (out : Path) : FileProg Unit :=
  if speak then synthesize fails out else return ()

/-- `_save_turn_and_respond`, as far as it touches files. -/
def saveTurn (v : Server) (s : Session) (turn : TurnRecord) : FileProg Unit :=
  v.save { s with turns := s.turns ++ [turn] }

/-- `post_turn`. -/
def postTurn (v : Server) (id : Str) (upload : Option Str) (fails : Option Stage)
    (turn : TurnRecord) : FileProg Unit := do
  let s ← v.requireSession id
  v.requireReady
  let suffix := uploadSuffix upload
  let d ← v.sessionAudioDir id
  let n := s.turns.length + 1
  Eff.emit .temp
  write (d.join ((AudioFile.upload suffix).name n))
  stage fails .copy
  let userWav := d.join (AudioFile.userWav.name n)
  v.prepareWavForAsr suffix userWav
  stage fails .prepare
  readText userWav.resolve
  stage fails .asr
  stage fails .llm
  synthesize fails (d.join (AudioFile.reply.name n))
  v.saveTurn s turn

/-- `if not text: raise HTTPException(400, ...)`. -/
def requireText (text : Str) : FileProg Unit :=
  if strip text = [] then Eff.raise (.http 400 "Message text is required") else return ()

/-- `post_text_turn`. -/
def postTextTurn (v : Server) (id text : Str) (speak : Bool) (fails : Option Stage)
    (turn : TurnRecord) : FileProg Unit := do
  let s ← v.requireSession id
  v.requireReady
  requireText text
  let d ← v.sessionAudioDir id
  let n := s.turns.length + 1
  stage fails .llm
  speakReply speak fails (d.join (AudioFile.reply.name n))
  v.saveTurn s turn

/-- The calls that take a session id. -/
inductive Request where
  | get
  | delete
  | sessionAudioDir
  | deleteSession
  | getAudio (filename : Str)
  | postTurn (upload : Option Str) (fails : Option Stage) (turn : TurnRecord)
  | postTextTurn (text : Str) (speak : Bool) (fails : Option Stage) (turn : TurnRecord)

/-- The program of a call. -/
def handle (v : Server) (id : Str) : Request → FileProg Unit
  | .get => do let _ ← v.get id
  | .delete => do let _ ← v.delete id
  | .sessionAudioDir => do let _ ← v.sessionAudioDir id
  | .deleteSession => v.deleteSession id
  | .getAudio filename => v.getAudio id filename
  | .postTurn upload fails turn => v.postTurn id upload fails turn
  | .postTextTurn text speak fails turn => v.postTextTurn id text speak fails turn

/-- What a call does to the file system. -/
def accesses (v : Server) (fs : Fs) (id : Str) (r : Request) : List Access := (v.handle id r fs).2.2

end Server

/-! ## Confinement -/

/-- `d` is the directory of the session, resolved.  Files are touched strictly
inside it, and of the directories only `d` itself. -/
def Access.Confined (d : Path) : Access → Prop
  | .stat p => d <+: p.resolve
  | .read p | .write p | .unlink p => ∃ rest, rest ≠ [] ∧ p.resolve = d ++ rest
  | .mkdir p | .list p | .rmdir p => p.resolve = d
  | .temp => True

namespace Server

/-- `get` finds the session under the id. -/
def Finds (v : Server) (id : Str) (s : Session) : Prop :=
  v.cached id = some s ∨ v.cached id = none ∧ v.decode (v.sessionJsonPath id).resolve = some s

/-- If turns are served at all, the session that is found under the id is saved
in the directory where it was found. -/
def SavedAtHome (v : Server) (id : Str) : Prop :=
  v.ready = true → ∀ s, v.Finds id s →
    (v.sessionDir s.sessionId).resolve = (v.sessionDir id).resolve

/-- The calls with this id stay in `root/<id>`, which is a child of the
root. -/
structure PathsConfined (v : Server) (id : Str) : Prop where
  child : ∃ name, (v.sessionDir id).resolve = v.root ++ [name]
  confined : ∀ fs r, ∀ a ∈ v.accesses fs id r, a.Confined (v.sessionDir id).resolve

/-! ## Calls that stay in their directory -/

/-- Every access of the program is confined to `D`. -/
abbrev Safe {α : Type} (D : Path) (P : Fs → Prop) (m : FileProg α) (Q : α → Fs → Prop) : Prop :=
  Eff.Triple P m (Access.Confined D) Q fun _ _ => True

section Operations

variable {D p : Path} {P : Fs → Prop}

theorem safe_isFile (hp : D <+: p.resolve) :
    Safe D P (isFile p) fun b fs => P fs ∧ (b = true → fs.kind p.resolve = some .file) := by
  refine .bind (.emit hp) fun _ => ?_
  refine .bind .read fun fs => ?_
  apply Eff.Triple.pure
  rintro s ⟨rfl, hP⟩
  exact ⟨hP, fun h => by simpa using h⟩

theorem safe_exists (hp : D <+: p.resolve) : Safe D P (exists? p) fun _ => P := by
  refine .bind (.emit hp) fun _ => ?_
  refine .bind .read fun fs => ?_
  exact .pure fun s hs => hs.2

theorem safe_readText (hp : ∃ rest, rest ≠ [] ∧ p.resolve = D ++ rest) :
    Safe D P (readText p) fun _ => P :=
  .emit hp

theorem safe_write (hp : ∃ rest, rest ≠ [] ∧ p.resolve = D ++ rest) :
    Safe D P (write p) fun _ _ => True := by
  refine .bind (.emit hp) fun _ => ?_
  exact .modify fun _ _ => trivial

theorem safe_unlink (hp : ∃ rest, rest ≠ [] ∧ p.resolve = D ++ rest) :
    Safe D P (unlink p) fun _ _ => True := by
  refine .bind (.emit hp) fun _ => ?_
  exact .modify fun _ _ => trivial

/-- After `mkdir` there is no file at the path. -/
theorem safe_mkdir (hp : p.resolve = D) :
    Safe D P (mkdir p) fun _ fs => fs.kind D ≠ some .file := by
  refine .bind (.emit hp) fun _ => ?_
  refine .bind .read fun fs => ?_
  rw [hp]
  cases hk : fs.kind D with
  | none =>
    refine .modify fun s hs => ?_
    obtain ⟨rfl, -⟩ := hs
    unfold Fs.put
    split_ifs
    · simp [Fs.kind]
    · simp [hk]
  | some k =>
    cases k with
    | file => exact .raise fun _ _ => trivial
    | dir =>
      refine .pure fun s hs => ?_
      rw [← hs.1, hk]
      simp

theorem safe_glob (hp : p.resolve = D) :
    Safe D P (glob p) fun ps _ => ∀ q ∈ ps, ∃ c, IsName c ∧ q = p.join c := by
  refine .bind (.emit hp) fun _ => ?_
  refine .bind .read fun fs => ?_
  refine .pure fun s _ q hq => ?_
  obtain ⟨c, hc, rfl⟩ := List.mem_map.1 hq
  exact ⟨c, Fs.names_valid hc, rfl⟩

theorem safe_rmdir (hp : p.resolve = D) : Safe D P (rmdir p) fun _ _ => True := by
  refine .bind (.emit hp) fun _ => ?_
  refine .bind .read fun fs => ?_
  split_ifs
  · exact .modify fun _ _ => trivial
  · exact .raise fun _ _ => trivial

theorem safe_stage (fails : Option Stage) (here : Stage) :
    Safe D P (stage fails here) fun _ => P := by
  unfold stage
  split_ifs
  · exact .raise fun _ _ => trivial
  · exact .pure fun _ hs => hs

end Operations

section Handlers

variable {v : Server} {id : Str} {P : Fs → Prop}

theorem inside_join {d : Path} {c : Str} (hc : IsName c) :
    ∃ rest, rest ≠ [] ∧ (d.join c).resolve = d.resolve ++ rest :=
  ⟨[c], List.cons_ne_nil c [], Path.resolve_join_name hc⟩

theorem isName_sessionJson : IsName sessionJson := by decide

theorem safe_get : Safe (v.sessionDir id).resolve P (v.get id) fun r _ =>
    ∀ s, r = some s → v.Finds id s := by
  have hin := inside_join (d := v.sessionDir id) isName_sessionJson
  have hpre : (v.sessionDir id).resolve <+: (v.sessionJsonPath id).resolve := by
    obtain ⟨rest, -, h⟩ := hin
    exact ⟨rest, h.symm⟩
  unfold get
  cases hc : v.cached id with
  | some s => exact .pure fun _ _ s' hs' => .inl (hc.trans hs')
  | none =>
    refine .bind (safe_isFile hpre) fun b => ?_
    cases b with
    | false => exact .pure fun _ _ s' hs' => absurd hs' (by simp)
    | true =>
      refine .bind (safe_readText hin) fun _ => ?_
      cases hd : v.decode (v.sessionJsonPath id).resolve with
      | some s => exact .pure fun _ _ s' hs' => .inr ⟨hc, hd.trans hs'⟩
      | none => exact .raise fun _ _ => trivial

theorem safe_requireSession :
    Safe (v.sessionDir id).resolve P (v.requireSession id) fun s _ => v.Finds id s := by
  refine .bind safe_get fun r => ?_
  cases r with
  | none => exact .raise fun _ _ => trivial
  | some s => exact .pure fun _ hs => hs s rfl

theorem safe_delete : Safe (v.sessionDir id).resolve P (v.delete id) fun _ _ => True := by
  refine .bind (safe_exists List.prefix_rfl) fun b => ?_
  cases b with
  | false => exact .pure fun _ _ => trivial
  | true =>
    refine .bind (safe_glob rfl) fun ps => ?_
    refine .assume (fun _ h => h) fun hps => ?_
    refine .bind (R := fun _ _ => True) (.conseq (.forEach fun q hq => ?_) (fun _ _ => trivial)
      fun _ _ h => h) fun _ => ?_
    · show Safe _ (fun _ => True) _ fun _ _ => True
      obtain ⟨c, hc, rfl⟩ := hps q ((List.mem_insertionSort _).1 hq)
      obtain ⟨rest, hne, hrest⟩ := inside_join (d := v.sessionDir id) hc
      refine .bind (safe_isFile ⟨rest, hrest.symm⟩) fun b => ?_
      cases b with
      | false => exact .pure fun _ _ => trivial
      | true => exact safe_unlink ⟨rest, hne, hrest⟩
    · refine .bind (safe_rmdir rfl) fun _ => ?_
      exact .pure fun _ _ => trivial

theorem safe_sessionAudioDir : Safe (v.sessionDir id).resolve P (v.sessionAudioDir id) fun d fs =>
    d = v.sessionDir id ∧ fs.kind (v.sessionDir id).resolve ≠ some .file := by
  refine .bind (safe_mkdir rfl) fun _ => ?_
  exact .pure fun _ hs => ⟨rfl, hs⟩

/-- A file name that passes the checks of `get_audio` is a name, or leads to the
directory itself. -/
theorem filename_cases {filename : Str} (hdots : contains ['.', '.'] filename = false)
    (hslash : contains ['/'] filename = false) (d : Path) :
    d.join filename = d ∨ IsName filename := by
  have hns : '/' ∉ filename := by
    intro h
    have hin : ['/'] <:+: filename := by
      obtain ⟨a, b, rfl⟩ := List.append_of_mem h
      exact ⟨a, b, by simp⟩
    rw [contains_iff.2 hin] at hslash
    cases hslash
  have hdd : filename ≠ ['.', '.'] := by
    rintro rfl
    rw [contains_iff.2 List.infix_rfl] at hdots
    cases hdots
  rw [Path.join_of_no_slash hns]
  by_cases h : filename = [] ∨ filename = ['.']
  · exact .inl (if_pos h)
  · rw [not_or] at h
    exact .inr ⟨h.1, h.2, hdd, hns⟩

theorem safe_getAudio (filename : Str) :
    Safe (v.sessionDir id).resolve P (v.getAudio id filename) fun _ _ => True := by
  refine .bind safe_requireSession fun _ => ?_
  cases hbad : contains ['.', '.'] filename || contains ['/'] filename with
  | true => exact .raise_bind fun _ _ => trivial
  | false =>
    rw [Bool.or_eq_false_iff] at hbad
    refine .bind safe_sessionAudioDir fun d => ?_
    refine .assume (fun _ h => h.1) ?_
    rintro rfl
    rcases filename_cases hbad.1 hbad.2 (v.sessionDir id) with hself | hname
    · -- The directory itself is not a file.
      rw [hself]
      refine .bind (safe_isFile List.prefix_rfl) fun b => ?_
      cases b with
      | false => exact .raise_bind fun _ _ => trivial
      | true =>
        refine .assume (fun _ h => h.1.2 (h.2 rfl)) fun h => h.elim
    · obtain ⟨rest, hne, hrest⟩ := inside_join (d := v.sessionDir id) hname
      refine .bind (safe_isFile ⟨rest, hrest.symm⟩) fun b => ?_
      cases b with
      | false => exact .raise_bind fun _ _ => trivial
      | true =>
        exact .conseq (safe_readText (P := fun _ => True) ⟨rest, hne, hrest⟩)
          (fun _ _ => trivial) fun _ _ _ => trivial

/-! ### The files of a turn -/

theorem slash_not_mem_pad3 (n : Nat) : '/' ∉ pad3 n := by
  unfold pad3
  intro h
  rcases List.mem_append.1 h with h | h
  · exact absurd (List.eq_of_mem_replicate h) (by decide)
  · have hdigit := Nat.isDigit_of_mem_toDigits (by decide) (by decide) h
    exact absurd hdigit (by decide)

theorem slash_not_mem_audioSuffix (suffix : Str) : '/' ∉ audioSuffix suffix := by
  have hlist : ∀ x ∈ ([".wav", ".webm", ".ogg", ".mp3", ".m4a"] : List Str), '/' ∉ x := by decide
  unfold audioSuffix
  split_ifs with h
  · intro hslash
    exact hlist _ (List.contains_iff_mem.1 h) (List.mem_map.2 ⟨'/', hslash, by decide⟩)
  · decide

theorem isName_audioFile (n : Nat) (f : AudioFile)
    (h : ∀ suffix, f = .upload suffix → '/' ∉ suffix) : IsName (f.name n) := by
  have hhead : (f.name n).head? = some 't' := by cases f <;> rfl
  refine ⟨?_, ?_, ?_, ?_⟩
  · intro hnil
    rw [hnil] at hhead
    cases hhead
  · intro hdot
    rw [hdot] at hhead
    exact absurd hhead (by decide)
  · intro hdots
    rw [hdots] at hhead
    exact absurd hhead (by decide)
  · have hpad := slash_not_mem_pad3 n
    have happend : ∀ {a b : Str}, '/' ∉ a → '/' ∉ b → '/' ∉ a ++ b :=
      fun ha hb hab => (List.mem_append.1 hab).elim ha hb
    cases f with
    | upload suffix =>
      exact happend (happend (happend (by decide) hpad) (by decide)) (h suffix rfl)
    | userWav => exact happend (happend (by decide) hpad) (by decide)
    | reply => exact happend (happend (by decide) hpad) (by decide)

theorem safe_synthesize {c : Str} (hc : IsName c) (fails : Option Stage) :
    Safe (v.sessionDir id).resolve P (synthesize fails ((v.sessionDir id).join c))
      fun _ _ => True := by
  have hdir : Path.resolve ((v.sessionDir id).join c).resolve.dropLast =
      (v.sessionDir id).resolve := by
    rw [Path.resolve_join_name hc, List.dropLast_concat, Path.resolve_resolve]
  refine .bind (safe_mkdir hdir) fun _ => ?_
  refine .bind (safe_write ?_) fun _ => safe_stage fails .tts
  rw [Path.resolve_resolve]
  exact inside_join hc

theorem safe_saveTurn {s : Session}
    (hs : (v.sessionDir s.sessionId).resolve = (v.sessionDir id).resolve) (turn : TurnRecord) :
    Safe (v.sessionDir id).resolve P (v.saveTurn s turn) fun _ _ => True := by
  rw [← hs]
  refine .bind (safe_mkdir rfl) fun _ => ?_
  exact safe_write (inside_join isName_sessionJson)

/-- What follows `requireReady` may rely on it. -/
theorem safe_requireReady :
    Safe (v.sessionDir id).resolve P v.requireReady fun _ _ => v.ready = true := by
  unfold requireReady
  cases v.ready with
  | true => exact .pure fun _ _ => rfl
  | false => exact .raise fun _ _ => trivial

theorem safe_requireText (text : Str) :
    Safe (v.sessionDir id).resolve P (requireText text) fun _ => P := by
  unfold requireText
  split_ifs
  · exact .raise fun _ _ => trivial
  · exact .pure fun _ hs => hs

theorem safe_speakReply {c : Str} (hc : IsName c) (speak : Bool) (fails : Option Stage) :
    Safe (v.sessionDir id).resolve P (speakReply speak fails ((v.sessionDir id).join c))
      fun _ _ => True := by
  cases speak with
  | true => exact safe_synthesize hc fails
  | false => exact .pure fun _ _ => trivial

theorem safe_prepareWavForAsr {c : Str} (hc : IsName c) (suffix : Str) :
    Safe (v.sessionDir id).resolve P (v.prepareWavForAsr suffix ((v.sessionDir id).join c))
      fun _ _ => True := by
  have hdir : Path.resolve ((v.sessionDir id).join c).dropLast = (v.sessionDir id).resolve := by
    rw [Path.join_name hc, List.dropLast_concat]
  refine .bind (safe_mkdir hdir) fun _ => ?_
  split_ifs
  · exact safe_write (inside_join hc)
  · exact .raise fun _ _ => trivial

theorem safe_postTurn (hhome : v.SavedAtHome id) (upload : Option Str) (fails : Option Stage)
    (turn : TurnRecord) :
    Safe (v.sessionDir id).resolve P (v.postTurn id upload fails turn) fun _ _ => True := by
  refine .bind safe_requireSession fun s => ?_
  refine .assume (fun _ h => h) fun hs => ?_
  have hupload := isName_audioFile (s.turns.length + 1) (.upload (uploadSuffix upload))
    (by rintro _ ⟨⟩; exact slash_not_mem_audioSuffix _)
  have huser := isName_audioFile (s.turns.length + 1) .userWav nofun
  have hreply := isName_audioFile (s.turns.length + 1) .reply nofun
  refine .bind safe_requireReady fun _ => ?_
  refine .assume (fun _ h => h) fun hready => ?_
  refine .bind safe_sessionAudioDir fun d => ?_
  refine .assume (fun _ h => h.1) ?_
  rintro rfl
  refine .bind (.emit trivial) fun _ => ?_
  refine .bind (safe_write (inside_join hupload)) fun _ => ?_
  refine .bind (safe_stage fails .copy) fun _ => ?_
  refine .bind (safe_prepareWavForAsr huser _) fun _ => ?_
  refine .bind (safe_stage fails .prepare) fun _ => ?_
  refine .bind (safe_readText ?_) fun _ => ?_
  · rw [Path.resolve_resolve]
    exact inside_join huser
  refine .bind (safe_stage fails .asr) fun _ => ?_
  refine .bind (safe_stage fails .llm) fun _ => ?_
  refine .bind (safe_synthesize hreply fails) fun _ => ?_
  exact safe_saveTurn (hhome hready s hs) turn

theorem safe_postTextTurn (hhome : v.SavedAtHome id) (text : Str) (speak : Bool)
    (fails : Option Stage) (turn : TurnRecord) :
    Safe (v.sessionDir id).resolve P (v.postTextTurn id text speak fails turn)
      fun _ _ => True := by
  refine .bind safe_requireSession fun s => ?_
  refine .assume (fun _ h => h) fun hs => ?_
  have hreply := isName_audioFile (s.turns.length + 1) .reply nofun
  refine .bind safe_requireReady fun _ => ?_
  refine .assume (fun _ h => h) fun hready => ?_
  refine .bind (safe_requireText text) fun _ => ?_
  refine .bind safe_sessionAudioDir fun d => ?_
  refine .assume (fun _ h => h.1) ?_
  rintro rfl
  refine .bind (safe_stage fails .llm) fun _ => ?_
  refine .bind (safe_speakReply hreply speak fails) fun _ => ?_
  exact safe_saveTurn (hhome hready s hs) turn

end Handlers

/-- A call stays where `root/<id>` leads, whatever the id is, if the session is
saved where it was found. -/
theorem handle_confined {v : Server} {id : Str} (hhome : v.SavedAtHome id) (r : Request) :
    Safe (v.sessionDir id).resolve (fun _ => True) (v.handle id r) fun _ _ => True := by
  cases r with
  | get => exact .bind safe_get fun _ => .pure fun _ _ => trivial
  | delete => exact .bind safe_delete fun _ => .pure fun _ _ => trivial
  | sessionAudioDir => exact .bind safe_sessionAudioDir fun _ => .pure fun _ _ => trivial
  | deleteSession =>
    refine .bind safe_delete fun b => ?_
    cases b with
    | true => exact .pure fun _ _ => trivial
    | false => exact .raise fun _ _ => trivial
  | getAudio filename => exact safe_getAudio filename
  | postTurn upload fails turn => exact safe_postTurn hhome upload fails turn
  | postTextTurn text speak fails turn => exact safe_postTextTurn hhome text speak fails turn

/-! ## A turn saves where the object says

The converse: a text turn without a spoken reply gets as far as the save, and
there it makes the directory of the id inside the object. -/

section TextTurn

variable {v : Server} {id : Str}

/-- A tree in which the session file is there and nothing else is in the
way. -/
def savedFs (v : Server) {id : Str} (hid : IsName id) : Fs where
  entries := [(v.root ++ [id, sessionJson], .file)]
  valid := by
    intro e he c hc
    rw [List.mem_singleton.1 he] at hc
    rcases List.mem_append.1 hc with hc | hc
    · exact v.root_names c hc
    · rcases List.mem_cons.1 hc with rfl | hc
      · exact hid
      · rw [List.mem_singleton.1 hc]
        exact isName_sessionJson

theorem root_resolved (v : Server) : v.root.resolve = v.root :=
  Path.resolve_eq_self fun c hc => (v.root_names c hc).2.2.1

theorem sessionDir_resolve_name (v : Server) (hid : IsName id) :
    (v.sessionDir id).resolve = v.root ++ [id] := by
  unfold sessionDir
  rw [Path.resolve_join_name hid, v.root_resolved]

theorem sessionJsonPath_resolve (v : Server) (hid : IsName id) :
    (v.sessionJsonPath id).resolve = v.root ++ [id, sessionJson] := by
  unfold sessionJsonPath
  rw [Path.resolve_join_name isName_sessionJson, v.sessionDir_resolve_name hid]
  simp

theorem requireSession_savedFs (hid : IsName id) {s : Session} (hs : v.Finds id s) :
    ∃ es, v.requireSession id (v.savedFs hid) = (.ok s, v.savedFs hid, es) := by
  unfold requireSession get
  rcases hs with hs | ⟨hnone, hs⟩
  · exact ⟨[], by rw [hs]; rfl⟩
  · have hfile : (v.savedFs hid).kind (v.sessionJsonPath id).resolve = some .file := by
      rw [v.sessionJsonPath_resolve hid]
      simp [Fs.kind, savedFs]
    refine ⟨[.stat (v.sessionJsonPath id), .read (v.sessionJsonPath id)], ?_⟩
    rw [hnone]
    simp [loadFromDisk, isFile, FileProg.readText, hfile, hs, bind, pure, Eff.andThen, Eff.ret,
      Eff.emit, Eff.read]

theorem sessionAudioDir_savedFs (hid : IsName id) :
    ∃ fs es, v.sessionAudioDir id (v.savedFs hid) = (.ok (v.sessionDir id), fs, es) := by
  have hfree : (v.savedFs hid).kind (v.sessionDir id).resolve = none := by
    rw [v.sessionDir_resolve_name hid]
    simp [Fs.kind, savedFs]
  refine ⟨(v.savedFs hid).put (v.sessionDir id).resolve .dir, [.mkdir (v.sessionDir id)], ?_⟩
  simp [sessionAudioDir, mkdir, bind, pure, Eff.andThen, Eff.ret, Eff.emit, Eff.read, Eff.modify,
    hfree]

/-- The directory that a text turn makes when it saves. -/
theorem textTurn_mkdir (hid : IsName id) (hready : v.ready = true) {s : Session}
    (hs : v.Finds id s) (turn : TurnRecord) :
    Eff.Emits (v.postTextTurn id "a" false none turn) (v.savedFs hid)
      (.mkdir (v.sessionDir s.sessionId)) := by
  obtain ⟨es, hsession⟩ := requireSession_savedFs hid hs
  obtain ⟨fs, es', hdir⟩ := sessionAudioDir_savedFs (v := v) hid
  have hok : v.requireReady (v.savedFs hid) = (.ok (), v.savedFs hid, []) := by
    unfold requireReady
    rw [if_pos hready]
    rfl
  refine .right hsession ?_
  refine .right hok ?_
  refine .right (t := v.savedFs hid) rfl ?_
  refine .right hdir ?_
  refine .right (t := fs) rfl ?_
  refine .right (t := fs) rfl ?_
  exact .left (.left (List.mem_singleton_self _))

end TextTurn

/-! ## Which ids are confined -/

/-- Where `root/<id>` leads, for an id that a route can deliver. -/
theorem sessionDir_resolve {v : Server} {id : Str} (hne : id ≠ []) (hslash : '/' ∉ id) :
    (v.sessionDir id).resolve =
      if id = ['.'] then v.root else if id = ['.', '.'] then v.root.dropLast
        else v.root ++ [id] := by
  unfold sessionDir
  rw [Path.join_of_no_slash hslash]
  by_cases hdot : id = ['.']
  · rw [if_pos (.inr hdot), if_pos hdot, v.root_resolved]
  · rw [if_neg (by simp [hne, hdot]), if_neg hdot, Path.resolve_concat, v.root_resolved]
    rfl

/-- The calls with a name for an id stay in a directory of their own, if the
session is saved where it was found. -/
theorem pathsConfined_of_isName {v : Server} {id : Str} (hid : IsName id)
    (hhome : v.SavedAtHome id) : v.PathsConfined id := by
  refine ⟨⟨id, v.sessionDir_resolve_name hid⟩, ?_⟩
  intro fs r a ha
  exact (handle_confined hhome r fs trivial).2 a ha

/-- The calls with an id stay in a directory of their own exactly when the id
is neither `.` nor `..` and the session that it finds is saved where it was
found. -/
theorem pathsConfined_iff {v : Server} {id : Str} (hne : id ≠ []) (hslash : '/' ∉ id) :
    v.PathsConfined id ↔ id ≠ ['.'] ∧ id ≠ ['.', '.'] ∧ v.SavedAtHome id := by
  have hdir := sessionDir_resolve (v := v) hne hslash
  constructor
  · intro h
    obtain ⟨name, hname⟩ := h.child
    have hlen := congrArg List.length (hdir.symm.trans hname)
    have hdot : id ≠ ['.'] := by
      intro hdot
      simp [hdot] at hlen
    have hdots : id ≠ ['.', '.'] := by
      intro hdots
      simp only [hdots, List.cons.injEq, reduceCtorEq, and_false, if_false, if_true,
        List.length_dropLast, List.length_append, List.length_singleton] at hlen
      omega
    refine ⟨hdot, hdots, ?_⟩
    intro hready s hs
    let turn : TurnRecord := ⟨0, [], [], [], [], [], [], [], []⟩
    have hmkdir := textTurn_mkdir ⟨hne, hdot, hdots, hslash⟩ hready hs turn
    exact h.confined _ (.postTextTurn "a" false none turn) _ hmkdir
  · rintro ⟨hdot, hdots, hhome⟩
    exact pathsConfined_of_isName ⟨hne, hdot, hdots, hslash⟩ hhome

/-- Two names lead to two directories.  This is why the store may be modelled
with its directories keyed by the id. -/
theorem sessionDir_injective {v : Server} {id id' : Str} (hid : IsName id) (hid' : IsName id')
    (h : (v.sessionDir id).resolve = (v.sessionDir id').resolve) : id = id' := by
  rw [v.sessionDir_resolve_name hid, v.sessionDir_resolve_name hid'] at h
  simpa using h

/-- The server over the store of a system. -/
def ofSystem (root : Path) (hroot : ∀ c ∈ root, IsName c) (σ : System) : Server where
  root := root
  root_names := hroot
  cached id := (σ.store.cache.get? id).bind σ.store.deref
  decode p := if p.getLast? = some sessionJson then (p.dropLast.getLast?).bind σ.store.saved
    else none

/-- A store that keeps every session under its own id saves it where it was
found. -/
theorem savedAtHome_ofSystem {root : Path} {hroot : ∀ c ∈ root, IsName c} {σ : System}
    (h : σ.WellKeyed) {id : Str} (hid : IsName id) : (ofSystem root hroot σ).SavedAtHome id := by
  intro _ s hs
  have hkeyed : s.sessionId = id := by
    rcases hs with hs | ⟨-, hs⟩
    · obtain ⟨r, hr, hs⟩ := Option.bind_eq_some_iff.1 hs
      obtain ⟨s', hs', hid⟩ := h.cache id r hr
      rw [hs, Option.some.injEq] at hs'
      rw [hs', hid]
    · rw [sessionJsonPath_resolve _ hid] at hs
      refine h.disk id s ?_
      simpa [ofSystem, List.dropLast_append_of_ne_nil] using hs
  rw [hkeyed]

/-- Whatever the server has been through, the calls with a name for an id stay
in the directory of that session. -/
theorem run_pathsConfined {disk : Dict Str Dir} {as : List Action} {σ : System}
    {es : List Event} {root : Path} {id : Str} (hroot : ∀ c ∈ root, IsName c)
    (hdisk : ∀ id s, (System.init disk).store.saved id = some s → s.sessionId = id)
    (hrun : Transition.run System.step (System.init disk) as = some (σ, es)) (hid : IsName id) :
    (ofSystem root hroot σ).PathsConfined id := by
  have hwk := System.run_wellKeyed (System.init_wellKeyed hdisk) hrun
  exact pathsConfined_of_isName hid (savedAtHome_ofSystem hwk hid)

/-- A server with its sessions under `/srv/data/sessions`, of which one has been
loaded. -/
def demoServer : Server where
  root := ["srv", "data", "sessions"]
  root_names := by decide
  cached := fun id =>
    if id = ("0c9f" : Str) then some { sessionId := id, createdAt := "t0", updatedAt := "t0" }
    else none
  decode := fun _ => none

/-- A file of another program next to the sessions root. -/
def demoFs : Fs where
  entries := [(["srv", "data"], .dir), (["srv", "data", "sessions"], .dir),
    (["srv", "data", "keys.db"], .file)]
  valid := by decide

theorem uuid_confined : demoServer.PathsConfined "0c9f" := by
  refine (pathsConfined_iff (by decide) (by decide)).2 ⟨by decide, by decide, ?_⟩
  intro _ s hs
  rcases hs with hs | ⟨hnone, -⟩
  · rw [← Option.some.inj hs]
  · cases hnone

/-- `DELETE /api/sessions/..` unlinks a file that is in no session directory. -/
theorem deleteParent_unlinks :
    Access.unlink ["srv", "data", "sessions", "..", "keys.db"] ∈
        demoServer.accesses demoFs ".." .deleteSession ∧
      Path.resolve ["srv", "data", "sessions", "..", "keys.db"] = ["srv", "data", "keys.db"] ∧
      ¬ demoServer.PathsConfined ".." := by
  refine ⟨by decide, by decide, ?_⟩
  intro h
  obtain ⟨name, hname⟩ := h.child
  have hlen := congrArg List.length hname
  cases hlen

end Server

end AiPipelines.SessionStore
