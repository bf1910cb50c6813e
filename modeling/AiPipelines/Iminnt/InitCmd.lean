import AiPipelines.Effect
import AiPipelines.PyStd.FileTree
import AiPipelines.Iminnt.RunCmd

/-!
# Fetching the sources of a target

`BenchSimRunner.init` of `iminnt/core.py` removes the directory of a target when
it is asked to, looks whether it is there, and clones, unpacks or copies the
sources.  It runs on a file tree; the commands that it starts belong to the
`Host` and may do anything to the tree, and the `Host` says where the system
does not let a directory be removed.  The trace holds what `init` logs.

`init` begins with the removal.  The test for uncommitted changes comes after
it, and sees a directory only if there was nothing to remove
(`init_reinit_eq`): it protects nothing.  The content survives just when the
removal itself raises before it has taken anything away (`reinit_keeps_iff`).

`pull` calls `init` again when the directory is missing, so `init` counts the
frames that the interpreter has left.
-/

namespace AiPipelines.Iminnt

open PyStd

/-! ## Commands -/

/-- A command for `shell`: a list of arguments, or a line with `shell=True`. -/
inductive Cmd where
  | argv (args : List Str)
  | line (text : Str)
  deriving Repr, DecidableEq

/-- How a command ended, what it printed and what the file system is then. -/
structure CmdResult where
  exitCode : Int
  msg : Str
  tree : FileTree

/-- The machine: what a command does from a working directory with an
environment, what unpacking an archive into a directory gives, and where the
system refuses. -/
structure Host where
  run : Cmd → Option Path → Option (Dict Str Str) → FileTree → CmdResult
  extractall : Str → Path → FileTree → Except OsError FileTree
  /-- Where `shutil.rmtree` does not come through (the path is a link, an entry
  may not be removed): what it raises, and what it has left by then. -/
  rmtreeFails : Path → FileTree → Option (OsError × FileTree) := fun _ _ => none
  /-- Where `mkdir` is refused: what it raises. -/
  mkdirFails : Path → FileTree → Option OsError := fun _ _ => none
  devScriptPaths : Path
  baseEnv : Dict Str Str := []

/-- What `init` raises. -/
inductive InitError where
  | os (e : OsError)
  | assertion (msg : Str)
  /-- `RecursionError` -/
  | recursion
  deriving Repr, DecidableEq

/-- A program that works on the file tree and logs. -/
abbrev Prog (α : Type) := Eff FileTree Str InitError α

/-- A call that changes the tree. -/
def osCall (op : FileTree → Except OsError FileTree) : Prog Unit :=
  Eff.act fun t =>
    match op t with
    | .ok t' => (.ok (), t')
    | .error e => (.error (.os e), t)

/-- `assert cond, msg`. -/
def assertThat (cond : FileTree → Bool) (msg : Str) : Prog Unit :=
  Eff.act fun t => (if cond t then .ok () else .error (.assertion msg), t)

/-- The command as the message of a failure shows it.  A line is a text, and
joining a text puts a blank between its characters. -/
def Cmd.shown : Cmd → Str
  | .argv args => joinWith [' '] ("stdbuf" :: "-oL" :: "-eL" :: args)
  | .line text => joinWith [' '] ((("stdbuf -oL -eL " : Str) ++ text).map fun c => [c])

/-- The message of a command that failed. -/
def failedMessage (cmd : Cmd) (exitCode : Int) (out : Str) : Str :=
  ("The process returned an non-zero exit code " : Str) ++ (toString exitCode).toList ++
    ("! (CMD: " : Str) ++ Char.ofNat 96 :: cmd.shown ++ Char.ofNat 96 :: (").\nError:" : Str) ++ out

/-- `shell(cmd, env=env, cwd=cwd)["msg"]`. -/
def shell (h : Host) (cmd : Cmd) (cwd : Option Path) (env : Option (Dict Str Str)) : Prog Str :=
  Eff.act fun t =>
    if cwd.any fun p => !t.isDir p then (.error (.os .fileNotFound), t)
    else
      let result := h.run cmd cwd env t
      if result.exitCode = 0 then (.ok result.msg, result.tree)
      else (.error (.assertion (failedMessage cmd result.exitCode result.msg)), result.tree)

/-- `shutil.rmtree(p)`. -/
def rmtree (h : Host) (p : Path) : Prog Unit :=
  Eff.act fun t =>
    match h.rmtreeFails p t with
    | some (e, left) => (.error (.os e), left)
    | none =>
      match FileTree.removeDir p t with
      | .ok t' => (.ok (), t')
      | .error e => (.error (.os e), t)

/-- `if reinit: shutil.rmtree(root)`. -/
def removal (h : Host) (reinit : Bool) (root : Path) : Prog Unit :=
  if reinit then rmtree h root else Eff.ret ()

/-! ## The target -/

/-- The properties of `BenchSimRunner` that `init` reads.  The sources lie
somewhere below the root of the file system. -/
structure Runner where
  target : Str
  root : Path
  remotePath : Str
  gitTag : Option Str := none
  /-- File names in `DEV_SCRIPT_PATHS`. -/
  customScripts : List Str := []
  pullCmd : List Str := []
  /-- The property `shell`. -/
  viaShell : Bool := false
  env : Dict Str Str := []
  postInit : List Str := []
  root_ne_nil : root ≠ []

namespace Runner

variable (h : Host) (r : Runner)

/-- `is_git`. -/
def isGit : Bool := contains "github.com" r.remotePath

/-- `is_tgz`. -/
def isTgz : Bool := contains ".tgz" r.remotePath

/-- `git -C root ...`. -/
def git (args : List Str) : Cmd := .argv ("git" :: "-C" :: pathStr r.root :: args)

/-- `git status -uno --porcelain`. -/
def gitStatus : Cmd := r.git ["status", "-uno", "--porcelain"]

/-- The archive is copied to a file beside the directory. -/
def tgzPath : Path := r.root.dropLast ++ [r.root.getLast?.getD [] ++ (".tgz" : Str)]

/-- `env = dict(BASE_ENV, **self.env)`. -/
def shellEnv : Dict Str Str := h.baseEnv.update r.env

/-- The end of the messages for a remote path that is missing. -/
def askAdministrator : Str :=
  (" to copy locally. Ask your administrator for access, or manually copy " : Str) ++
    ("the source code from elsewhere instead." : Str)

/-- Get the sources, for a directory that is not there. -/
def fetch : Prog Unit :=
  if r.isGit then do
    Eff.emit (("Cloning code for " : Str) ++ r.target ++ (" from " : Str) ++ r.remotePath)
    let _ ← shell h (.argv ["git", "clone", "--progress", "--filter=blob:none", r.remotePath,
      pathStr r.root]) none none
    let _ ← shell h (r.git ["submodule", "update", "--init", "--progress"]) none none
    if r.gitTag.getD [] ≠ [] then do
      let _ ← shell h (r.git ["checkout", r.gitTag.getD []]) none none
    else pure ()
  else if r.isTgz then do
    Eff.emit (("Retrieving compressed code " : Str) ++ r.target ++ (" from " : Str) ++
      r.remotePath)
    assertThat (·.pathExists (pathParts r.remotePath))
      (("Unable to find the remote path " : Str) ++ r.remotePath ++ (" for target " : Str) ++
        r.target ++ askAdministrator)
    osCall (FileTree.mkdirs r.root)
    osCall (FileTree.copyfile (pathParts r.remotePath) r.tgzPath)
    osCall fun t =>
      match t.readFile r.tgzPath with
      | .ok data => h.extractall data r.root t
      | .error e => .error e
    Eff.emit (("Successfully extracted '" : Str) ++ pathStr r.tgzPath ++ ("' to '" : Str) ++
      pathStr r.root ++ ("'" : Str))
  else do
    Eff.emit (("Retrieving code for " : Str) ++ r.target ++ (" from " : Str) ++ r.remotePath)
    assertThat (·.pathExists (pathParts r.remotePath))
      (("Unable to find the remote path for target " : Str) ++ r.target ++ askAdministrator)
    osCall (FileTree.copytree (pathParts r.remotePath) r.root)

/-- `shutil.copy(DEV_SCRIPT_PATHS / cs, str(self.root / cs))`. -/
def copyScript (cs : Str) : Prog Unit :=
  osCall (FileTree.copy (h.devScriptPaths ++ [cs]) (r.root ++ [cs]))

/-- `pull` for a target with pull commands; `setup` is `self.init()`. -/
def pull (setup : Prog Unit) : Prog Unit := do
  let t ← Eff.read
  if t.pathExists r.root then pure ()
  else do
    Eff.emit (("Code for " : Str) ++ r.target ++
      (" does not yet exist locally. Proceeding to setup" : Str))
    setup
  Eff.forEach r.pullCmd fun cmd => do
    let _ ← shell h (if r.viaShell then .line cmd else .argv (split cmd)) (some r.root)
      (some (r.shellEnv h))

/-- What `init` does once the guards let it: copy the scripts only, or get
the sources and prepare them. -/
def setup (extras : Bool) (again : Prog Unit) : Prog Unit :=
  if extras then do
    Eff.emit (("Copying extra scripts for " : Str) ++ r.target ++ (" to " : Str) ++
      pathStr r.root)
    Eff.forEach r.customScripts (r.copyScript h)
  else do
    r.fetch h
    Eff.forEach r.customScripts fun cs => do
      assertThat (·.pathExists (h.devScriptPaths ++ [cs])) []
      r.copyScript h cs
    if r.pullCmd ≠ [] then r.pull h again else pure ()
    Eff.forEach r.postInit fun pi => do
      let _ ← shell h (.argv (split pi)) (some r.root) (some (r.shellEnv h))

/-- The part of `init` behind the removal. -/
def afterRemoval (reinit extras : Bool) (again : Prog Unit) : Prog Unit := do
  let t ← Eff.read
  if t.pathExists r.root && !extras then
    if r.isGit then do
      let status ← shell h r.gitStatus none none
      if reinit && (strip status ≠ [] : Bool) then
        Eff.emit (("Target " : Str) ++ r.target ++
          (" has uncommitted changes and cannot be forcibly reset. " : Str) ++
          ("Please commit the changes before force resetting" : Str))
      else if reinit then r.setup h extras again
      else
        Eff.emit (("Target " : Str) ++ r.target ++ (" already initialized to " : Str) ++
          pathStr r.root)
    else pure ()
  else r.setup h extras again

/-- `init`, with a number of frames left.  `check_deps` does nothing. -/
def init : Nat → Bool → Bool → Prog Unit
  | 0, _, _ => Eff.raise .recursion
  | frames + 1, reinit, extras => do
    removal h reinit r.root
    r.afterRemoval h reinit extras (init frames false false)

/-! ## Forced re-initialisation -/

/-- Git reports uncommitted changes. -/
def ReportsChanges (t : FileTree) : Prop :=
  (h.run r.gitStatus none none t).exitCode = 0 ∧ strip (h.run r.gitStatus none none t).msg ≠ []

/-- After `init(reinit=True, extras)`, however it ends, the directory has the
content that it had before. -/
def Unchanged (frames : Nat) (t : FileTree) (extras : Bool) : Prop :=
  (r.init h (frames + 1) true extras t).2.1.get r.root = t.get r.root

variable {h r} {t t₁ : FileTree}

theorem osCall_ok {op : FileTree → Except OsError FileTree} {t t' : FileTree} (h : op t = .ok t') :
    osCall op t = (.ok (), t', []) := by
  simp [osCall, Eff.act, h]

theorem osCall_error {op : FileTree → Except OsError FileTree} {t : FileTree} {e : OsError}
    (h : op t = .error e) : osCall op t = (.error (.os e), t, []) := by
  simp [osCall, Eff.act, h]

/-- Without the directory, nothing is guarded. -/
theorem afterRemoval_of_missing (reinit extras : Bool) (again : Prog Unit)
    (h₁ : t.get r.root = none) :
    r.afterRemoval h reinit extras again t = r.setup h extras again t := by
  have hmissing : t.pathExists r.root = false := by simp [FileTree.pathExists, h₁]
  rw [afterRemoval, Eff.bind_ok rfl, hmissing]
  rfl

/-- Where the system lets it, a directory is removed. -/
theorem rmtree_of_isDir (hdir : t.isDir r.root = true) (hlets : h.rmtreeFails r.root t = none) :
    ∃ t₁, rmtree h r.root t = (.ok (), t₁, []) ∧ t₁.get r.root = none := by
  obtain ⟨entries, hget⟩ := FileTree.get_of_isDir hdir
  obtain ⟨t₁, h₁⟩ := FileTree.removeDir_of_dir r.root_ne_nil hget
  refine ⟨t₁, ?_, FileTree.get_removeDir r.root_ne_nil h₁⟩
  simp [rmtree, Eff.act, hlets, h₁]

/-- Where there is nothing, the removal raises. -/
theorem rmtree_of_missing {p : Path} (hp : p ≠ []) (hmissing : t.get p = none) :
    ∃ e t₁, rmtree h p t = (.error e, t₁, []) := by
  cases hfails : h.rmtreeFails p t with
  | some failure => exact ⟨.os failure.1, failure.2, by simp [rmtree, Eff.act, hfails]⟩
  | none =>
    obtain ⟨e, he⟩ := FileTree.removeDir_of_missing hp hmissing
    exact ⟨.os e, t, by simp [rmtree, Eff.act, hfails, he]⟩

/-- A forced initialisation is the removal of the directory and an ordinary
initialisation after it. -/
theorem init_reinit_eq (frames : Nat) (extras : Bool)
    (hremove : rmtree h r.root t = (.ok (), t₁, [])) (hgone : t₁.get r.root = none) :
    r.init h (frames + 1) true extras t = r.init h (frames + 1) false extras t₁ := by
  have hfirst : removal h true r.root t = (.ok (), t₁, []) := hremove
  have hskip : removal h false r.root t₁ = (.ok (), t₁, []) := rfl
  rw [init, init, Eff.bind_ok hfirst, Eff.bind_ok hskip, afterRemoval_of_missing _ _ _ hgone,
    afterRemoval_of_missing _ _ _ hgone]

/-- With the directory gone, no script can be copied into it. -/
theorem copyScript_missing (cs : Str) (hgone : t.get r.root = none) :
    ∃ e, r.copyScript h cs t = (.error (.os e), t, []) := by
  have hdst : t.isDir (r.root ++ [cs]) = false := by
    simp [FileTree.isDir, FileTree.get_append_of_none [cs] hgone]
  have hcopy : ∃ e, FileTree.copy (h.devScriptPaths ++ [cs]) (r.root ++ [cs]) t = .error e := by
    rw [FileTree.copy, hdst, FileTree.copyfile]
    cases t.readFile (h.devScriptPaths ++ [cs]) with
    | error e => exact ⟨e, rfl⟩
    | ok data => exact FileTree.alter_of_get_none (by simp) hgone
  obtain ⟨e, he⟩ := hcopy
  exact ⟨e, osCall_error he⟩

theorem setup_extras_missing (again : Prog Unit) (hgone : t.get r.root = none) :
    (r.setup h true again t).2.1.get r.root = none := by
  have hstate : (r.setup h true again t).2.1 =
      (Eff.forEach r.customScripts (r.copyScript h) t).2.1 := Eff.bind_state rfl
  rw [hstate]
  cases r.customScripts with
  | nil => exact hgone
  | cons cs rest =>
    obtain ⟨e, he⟩ := copyScript_missing (h := h) cs hgone
    have hraise : Eff.forEach (cs :: rest) (r.copyScript h) t = (.error (.os e), t, []) :=
      Eff.bind_error he
    rw [hraise]
    exact hgone

/-- Without the directory, `extras` does not bring it back. -/
theorem init_extras_missing (frames : Nat) (hgone : t.get r.root = none) :
    (r.init h (frames + 1) false true t).2.1.get r.root = none := by
  have hskip : removal h false r.root t = (.ok (), t, []) := rfl
  rw [init, Eff.bind_ok hskip, afterRemoval_of_missing _ _ _ hgone]
  exact setup_extras_missing _ hgone

/-- A forced initialisation keeps the content of the directory, with either
value of `extras`, if and only if the removal it begins with raises and has
taken nothing away.  The changes that Git reports play no part. -/
theorem reinit_keeps_iff (h : Host) (r : Runner) (frames : Nat) (t : FileTree)
    (hdir : t.isDir r.root = true) :
    (∀ extras, r.Unchanged h frames t extras) ↔
      ∃ e left, h.rmtreeFails r.root t = some (e, left) ∧ left.get r.root = t.get r.root := by
  cases hfails : h.rmtreeFails r.root t with
  | none =>
    obtain ⟨t₁, hremove, hgone⟩ := rmtree_of_isDir hdir hfails
    obtain ⟨entries, hcontent⟩ := FileTree.get_of_isDir hdir
    refine iff_of_false (fun hall => ?_) (by simp)
    have hextras := hall true
    rw [Unchanged, init_reinit_eq frames true hremove hgone, init_extras_missing frames hgone,
      hcontent] at hextras
    cases hextras
  | some failure =>
    obtain ⟨e, left⟩ := failure
    -- nothing comes after the removal
    have hrun (extras : Bool) : r.init h (frames + 1) true extras t = (.error (.os e), left, []) :=
      Eff.bind_error (by simp [removal, rmtree, Eff.act, hfails])
    simp only [Unchanged, hrun]
    constructor
    · intro hall
      exact ⟨e, left, rfl, hall true⟩
    · rintro ⟨_, _, heq, hkept⟩ _
      cases heq
      exact hkept

/-! ## A target with uncommitted changes -/

/-- The directory as it is cloned. -/
def clonedDir : FileTree := .dir [("README", .file "hello")]

/-- A machine with Git: a clone has a file `README`, and a file `work.c` is an
uncommitted change. -/
def demoHost : Host where
  run cmd _ _ t :=
    match cmd with
    | .argv args =>
      if args.contains "clone" then
        ⟨0, [], ((FileTree.alter (fun _ => .ok (some clonedDir)) ["dev", "app"] t).toOption).getD t⟩
      else if args.contains "status" then
        ⟨0, if t.pathExists ["dev", "app", "work.c"] then " M work.c\n" else [], t⟩
      else ⟨0, [], t⟩
    | .line _ => ⟨0, [], t⟩
  extractall _ _ t := .ok t
  devScriptPaths := ["dev", "scripts"]

/-- A target that is cloned. -/
def demoRunner : Runner where
  target := "app"
  root := ["dev", "app"]
  remotePath := "https://github.com/I-Machines/app"
  root_ne_nil := by simp

/-- Its directory, with a file that was changed. -/
def demoTree : FileTree :=
  .dir [("dev", .dir [("app", .dir [("README", .file "hello"), ("work.c", .file "int x;")])])]

/-- The same machine, where the directory is a link to another place. -/
def linkedHost : Host :=
  { demoHost with rmtreeFails := fun p t => if p = ["dev", "app"] then some (.other, t) else none }

theorem linked_kept :
    demoRunner.Unchanged linkedHost 9 demoTree false ∧
      demoRunner.Unchanged linkedHost 9 demoTree true :=
  have hkept := (reinit_keeps_iff linkedHost demoRunner 9 demoTree (by decide)).mpr
    ⟨.other, demoTree, rfl, rfl⟩
  ⟨hkept false, hkept true⟩

/-- Git reports the change, and it is gone after `init(reinit=True)`, with
either value of `extras`. -/
theorem demo_work_lost :
    demoRunner.isGit = true ∧ demoTree.isDir demoRunner.root = true ∧
      demoRunner.ReportsChanges demoHost demoTree ∧
      ¬ demoRunner.Unchanged demoHost 9 demoTree false ∧
      ¬ demoRunner.Unchanged demoHost 9 demoTree true := by
  have hlost (extras : Bool) (h : demoRunner.Unchanged demoHost 9 demoTree extras) :
      ((demoRunner.init demoHost 10 true extras demoTree).2.1.get demoRunner.root).any
        (·.pathExists ["work.c"]) =
          (demoTree.get demoRunner.root).any (·.pathExists ["work.c"]) := by
    rw [Unchanged] at h
    rw [h]
  refine ⟨by decide +kernel, by decide +kernel, ⟨by decide +kernel, by decide +kernel⟩, ?_, ?_⟩
  · intro h
    have hwork := hlost false h
    revert hwork
    decide +kernel
  · intro h
    have hwork := hlost true h
    revert hwork
    decide +kernel

end Runner

end AiPipelines.Iminnt
