import AiPipelines.PyStd.Dict
import AiPipelines.PyStd.Path

/-!
# A file system as a tree

Files and directories without links.  A directory is the dictionary of its
entries, so that whatever exists has a parent, and a path is followed from the
root entry by entry.

The calls of `shutil` and `pathlib` that change the tree are cases of one,
`alter`, which follows a path to its last part and lets a function decide what
becomes of the entry there.  Its lemmas say what `get` finds afterwards:
`get_alter_self` at the path, and `get_append_of_none` below a path with
nothing.

A call does what it does where the system lets it.  That a path is a link, or
that the user may not change it, is not in the tree.

The module names nothing of the repository.
-/

namespace AiPipelines.PyStd

/-- A file or a directory. -/
inductive FileTree where
  | file (data : Str)
  | dir (entries : List (Str × FileTree))

/-- The exceptions of the operating system. -/
inductive OsError where
  | fileNotFound
  | fileExists
  | notADirectory
  | isADirectory
  /-- Any other `OSError`. -/
  | other
  deriving Repr, DecidableEq

namespace FileTree

/-- What stands at a path. -/
def get : FileTree → Path → Option FileTree
  | t, [] => some t
  | .file _, _ :: _ => none
  | .dir entries, c :: p =>
    match Dict.get? entries c with
    | some t => t.get p
    | none => none

/-- `Path(p).exists()`. -/
def pathExists (t : FileTree) (p : Path) : Bool := (t.get p).isSome

/-- `Path(p).is_dir()`. -/
def isDir (t : FileTree) (p : Path) : Bool :=
  match t.get p with
  | some (.dir _) => true
  | _ => false

/-- Follow the path to its last part, and put there what `f` makes of it; with
`none` the entry is taken away.  The root itself cannot be taken away. -/
def alter (f : Option FileTree → Except OsError (Option FileTree)) :
    Path → FileTree → Except OsError FileTree
  | [], t =>
    match f (some t) with
    | .ok (some t') => .ok t'
    | .ok none => .error .other
    | .error e => .error e
  | _ :: _, .file _ => .error .notADirectory
  | c :: p, .dir entries =>
    match p, Dict.get? entries c with
    | [], entry =>
      match f entry with
      | .ok (some t') => .ok (.dir (Dict.set entries c t'))
      | .ok none => .ok (.dir (Dict.pop entries c))
      | .error e => .error e
    | _ :: _, none => .error .fileNotFound
    | _ :: _, some t =>
      match t.alter f p with
      | .ok t' => .ok (.dir (Dict.set entries c t'))
      | .error e => .error e

/-- A directory is taken away, with all that is in it. -/
def removeDir : Path → FileTree → Except OsError FileTree :=
  alter fun
    | some (.dir _) => .ok none
    | some (.file _) => .error .notADirectory
    | none => .error .fileNotFound

/-- `Path(p).mkdir()`. -/
def mkdir : Path → FileTree → Except OsError FileTree :=
  alter fun
    | none => .ok (some (.dir []))
    | some _ => .error .fileExists

/-- `Path(p).mkdir(parents=True, exist_ok=True)`. -/
def mkdirs : Path → FileTree → Except OsError FileTree
  | _, .file _ => .error .fileExists
  | [], .dir entries => .ok (.dir entries)
  | c :: p, .dir entries =>
    match mkdirs p ((Dict.get? entries c).getD (.dir [])) with
    | .ok t => .ok (.dir (Dict.set entries c t))
    | .error e => .error e

/-- The data of the file at `p`. -/
def readFile (t : FileTree) (p : Path) : Except OsError Str :=
  match t.get p with
  | some (.file data) => .ok data
  | some (.dir _) => .error .isADirectory
  | none => .error .fileNotFound

/-- Write a file. -/
def writeFile (data : Str) : Path → FileTree → Except OsError FileTree :=
  alter fun
    | some (.dir _) => .error .isADirectory
    | _ => .ok (some (.file data))

/-- `shutil.copyfile(src, dst)`. -/
def copyfile (src dst : Path) (t : FileTree) : Except OsError FileTree :=
  match t.readFile src with
  | .ok data => writeFile data dst t
  | .error e => .error e

/-- `shutil.copy(src, dst)`: a directory `dst` gets a file of the same name. -/
def copy (src dst : Path) (t : FileTree) : Except OsError FileTree :=
  copyfile src (if t.isDir dst then dst ++ [src.getLast?.getD []] else dst) t

/-- `shutil.copytree(src, dst)`. -/
def copytree (src dst : Path) (t : FileTree) : Except OsError FileTree :=
  match t.get src with
  | none => .error .fileNotFound
  | some (.file _) => .error .notADirectory
  | some (.dir entries) =>
    if t.pathExists dst then .error .fileExists
    else
      match mkdirs dst t with
      | .ok t' => alter (fun _ => .ok (some (.dir entries))) dst t'
      | .error e => .error e

/-! ## What is found afterwards -/

/-- A path in two parts is followed part by part. -/
theorem get_append (t : FileTree) (p q : Path) : t.get (p ++ q) = (t.get p).bind (·.get q) := by
  induction p generalizing t with
  | nil => rfl
  | cons c p ih =>
    cases t with
    | file data => rfl
    | dir entries =>
      rw [List.cons_append, get, get]
      cases Dict.get? entries c with
      | none => rfl
      | some t' => exact ih t'

/-- Below a path with nothing there is nothing. -/
theorem get_append_of_none {t : FileTree} {p : Path} (q : Path) (h : t.get p = none) :
    t.get (p ++ q) = none := by
  rw [get_append, h]
  rfl

/-- The step of `alter` that enters a directory. -/
theorem alter_enter (f : Option FileTree → Except OsError (Option FileTree)) (c c' : Str)
    (p : Path) (entries : List (Str × FileTree)) :
    alter f (c :: c' :: p) (.dir entries) =
      match Dict.get? entries c with
      | none => .error .fileNotFound
      | some t => (alter f (c' :: p) t).map fun t' => .dir (Dict.set entries c t') := by
  cases hentry : Dict.get? entries c with
  | none => simp [alter, hentry]
  | some t =>
    cases hrest : alter f (c' :: p) t <;> simp [alter, hentry, hrest, Except.map]

theorem get_singleton (c : Str) (entries : List (Str × FileTree)) :
    (dir entries).get [c] = Dict.get? entries c := by
  rw [get]
  cases Dict.get? entries c <;> rfl

/-- What `f` put at the path. -/
theorem get_alter_self {f : Option FileTree → Except OsError (Option FileTree)} {p : Path}
    {t t' : FileTree} (hp : p ≠ []) (h : alter f p t = .ok t') : f (t.get p) = .ok (t'.get p) := by
  induction p generalizing t t' with
  | nil => exact absurd rfl hp
  | cons c p ih =>
    cases t with
    | file data => cases h
    | dir entries =>
      cases p with
      | nil =>
        rw [alter] at h
        rw [get_singleton]
        cases hf : f (Dict.get? entries c) with
        | error e =>
          rw [hf] at h
          cases h
        | ok entry =>
          rw [hf] at h
          cases entry with
          | some t₁ =>
            obtain rfl := Except.ok.inj h
            simp [get]
          | none =>
            obtain rfl := Except.ok.inj h
            simp [get, Dict.get?_pop]
      | cons c' p =>
        rw [alter_enter] at h
        cases hentry : Dict.get? entries c with
        | none =>
          rw [hentry] at h
          cases h
        | some t₁ =>
          rw [hentry] at h
          cases hrest : alter f (c' :: p) t₁ with
          | error e =>
            simp only [hrest] at h
            cases h
          | ok t₂ =>
            simp only [hrest] at h
            obtain rfl := Except.ok.inj h
            have hih := ih (by simp) hrest
            rw [get, hentry, get, Dict.get?_set_self]
            exact hih

/-- What is there can be altered, as far as `f` allows. -/
theorem alter_of_get_some {f : Option FileTree → Except OsError (Option FileTree)} {p : Path}
    {t x : FileTree} {y : Option FileTree} (hp : p ≠ []) (h : t.get p = some x)
    (hf : f (some x) = .ok y) : ∃ t', alter f p t = .ok t' := by
  induction p generalizing t with
  | nil => exact absurd rfl hp
  | cons c p ih =>
    cases t with
    | file data => cases h
    | dir entries =>
      rw [get] at h
      cases hentry : Dict.get? entries c with
      | none =>
        rw [hentry] at h
        cases h
      | some t₁ =>
        rw [hentry] at h
        cases p with
        | nil =>
          obtain rfl := Option.some.inj h
          cases y <;> simp [alter, hentry, hf]
        | cons c' p =>
          obtain ⟨t₂, ht₂⟩ := ih (by simp) h
          refine ⟨.dir (Dict.set entries c t₂), ?_⟩
          rw [alter_enter, hentry]
          simp only [ht₂, Except.map]

/-- A path that was altered can be altered again, as far as `g` allows. -/
theorem alter_of_alter {f g : Option FileTree → Except OsError (Option FileTree)} {p : Path}
    {t t₁ : FileTree} {y : Option FileTree} (hp : p ≠ []) (h : alter f p t = .ok t₁)
    (hg : g (t₁.get p) = .ok y) : ∃ t₂, alter g p t₁ = .ok t₂ := by
  induction p generalizing t t₁ with
  | nil => exact absurd rfl hp
  | cons c p ih =>
    cases t with
    | file data => cases h
    | dir entries =>
      cases p with
      | nil =>
        obtain ⟨entries₁, rfl⟩ : ∃ entries₁, t₁ = .dir entries₁ := by
          rw [alter] at h
          cases hf : f (Dict.get? entries c) with
          | error e => simp [hf] at h
          | ok entry => cases entry <;> simp only [hf, Except.ok.injEq] at h <;> exact ⟨_, h.symm⟩
        rw [get_singleton] at hg
        cases y <;> simp [alter, hg]
      | cons c' p =>
        rw [alter_enter] at h
        cases hentry : Dict.get? entries c with
        | none => simp [hentry] at h
        | some t' =>
          rw [hentry] at h
          cases hrest : alter f (c' :: p) t' with
          | error e => simp [hrest, Except.map] at h
          | ok t₂ =>
            simp only [hrest] at h
            obtain rfl := Except.ok.inj h
            rw [get, Dict.get?_set_self] at hg
            obtain ⟨t₃, ht₃⟩ := ih (by simp) hrest hg
            refine ⟨.dir (Dict.set (Dict.set entries c t₂) c t₃), ?_⟩
            rw [alter_enter, Dict.get?_set_self]
            simp only [ht₃, Except.map]

/-- A path whose parent is missing cannot be altered. -/
theorem alter_of_get_none {f : Option FileTree → Except OsError (Option FileTree)} {p q : Path}
    {t : FileTree} (hq : q ≠ []) (h : t.get p = none) : ∃ e, alter f (p ++ q) t = .error e := by
  induction p generalizing t with
  | nil => simp [get] at h
  | cons c p ih =>
    cases t with
    | file data => exact ⟨.notADirectory, rfl⟩
    | dir entries =>
      obtain ⟨c', q', hpq⟩ : ∃ c' q', p ++ q = c' :: q' := List.exists_cons_of_ne_nil (by simp [hq])
      rw [get] at h
      rw [List.cons_append, hpq, alter_enter]
      cases hentry : Dict.get? entries c with
      | none => exact ⟨.fileNotFound, rfl⟩
      | some t₁ =>
        rw [hentry] at h
        obtain ⟨e, he⟩ := ih h
        rw [hpq] at he
        exact ⟨e, by simp only [he, Except.map]⟩

theorem get_of_isDir {t : FileTree} {p : Path} (h : t.isDir p = true) :
    ∃ entries, t.get p = some (.dir entries) := by
  unfold isDir at h
  split at h
  · next entries hget => exact ⟨entries, hget⟩
  · cases h

/-- A directory can be removed, and then nothing is there. -/
theorem removeDir_of_dir {t : FileTree} {p : Path} {entries : List (Str × FileTree)} (hp : p ≠ [])
    (h : t.get p = some (.dir entries)) : ∃ t', removeDir p t = .ok t' :=
  alter_of_get_some hp h rfl

theorem get_removeDir {t t' : FileTree} {p : Path} (hp : p ≠ []) (h : removeDir p t = .ok t') :
    t'.get p = none := by
  have hself := get_alter_self hp h
  split at hself
  · exact (Except.ok.inj hself).symm
  · cases hself
  · cases hself

theorem removeDir_of_missing {t : FileTree} {p : Path} (hp : p ≠ []) (h : t.get p = none) :
    ∃ e, removeDir p t = .error e := by
  cases hrun : removeDir p t with
  | error e => exact ⟨e, rfl⟩
  | ok t' =>
    have hself := get_alter_self hp hrun
    rw [h] at hself
    cases hself

/-- A new directory is empty. -/
theorem get_mkdir {t t' : FileTree} {p : Path} (hp : p ≠ []) (h : mkdir p t = .ok t') :
    t'.get p = some (.dir []) := by
  have hself := get_alter_self hp h
  split at hself
  · exact (Except.ok.inj hself).symm
  · cases hself

end FileTree

end AiPipelines.PyStd
