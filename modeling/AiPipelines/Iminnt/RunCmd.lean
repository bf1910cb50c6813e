import AiPipelines.PyStd.Dict
import AiPipelines.PyStd.Path
import AiPipelines.PyStd.Shlex

/-!
# Running a benchmark

`BenchSimRunner._get_run_cmd` of `iminnt/core.py` finds the binary and its
arguments, once as a list and once as a text, and `run` and `simulate` start
the program from what it returns.

* Under QEMU in user mode the program gets the path and the list
  (`qemuArgv`).
* Natively it gets the words of the command line (`runArgv`, `simulateArgv`).
  `simulate` puts the place of its result file behind those of a benchmark
  (`resultWords`).

The list and the text come from one another: arguments from the command line
are joined with blanks, and the text of a default run is split by `shlex`.
`str.split` undoes neither of the two in general, and `sameArgv_iff` says when
it does.  `debugTest_argv_differs` is a default run of the llama.cpp target, whose
text has backslashes in it.
-/

namespace AiPipelines.Iminnt

open PyStd

/-! ## The command -/

/-- `str(path)`. -/
def pathStr (p : Path) : Str := '/' :: joinWith ['/'] p

/-- An entry of `default_runs`. -/
structure DefaultRun where
  bin : Str
  args : Str := []
  env : Dict Str Str := []

/-- The target of `BenchSimRunner`. -/
structure Target where
  target : Str
  root : Path
  installDir : Path
  buildDir : Path
  defaultBin : Option Str
  defaultRuns : Dict Str DefaultRun := []
  env : Dict Str Str := []
  baseEnv : Dict Str Str := []

/-- What `_get_run_cmd` raises. -/
inductive RunError where
  | noDefaultBinary (target : Str)
  | invalidDefault (cmd target : Str) (options : List Str)
  | noSuchBinary (path : Path)
  | unableToLocate (bin target : Str)
  | shlex (e : ShlexError)
  deriving Repr, DecidableEq

/-- `cmd_info`. -/
structure CmdInfo where
  env : Dict Str Str
  cmd : Str
  binName : Str
  binPath : Path
  binArgs : Str
  binArgsList : List Str
  deriving Repr, DecidableEq

/-- The command line as one text. -/
def commandText (binPath : Path) (binArgs : Str) : Str :=
  if binArgs ≠ [] then pathStr binPath ++ ' ' :: binArgs else pathStr binPath

/-- Where a binary given by name lies: at an absolute path, or in the first of
three directories that has it. -/
def locate (t : Target) (isThere : Path → Bool) (bin : Str) : Except RunError Path :=
  if bin.head? = some '/' then .ok (pathParts bin)
  else if isThere (t.installDir.join bin) then .ok (t.installDir.join bin)
  else if isThere (t.buildDir.join bin) then .ok (t.buildDir.join bin)
  else if isThere (t.root.join bin) then .ok (t.root.join bin)
  else .error (.unableToLocate bin t.target)

/-- `assert bin_path.exists()`. -/
def requireBinary (isThere : Path → Bool) (p : Path) : Except RunError Unit :=
  if isThere p then .ok () else .error (.noSuchBinary p)

/-- The part of `_get_run_cmd` for a default run. -/
def defaultRunCmd (t : Target) (isThere : Path → Bool) (defaultCmd : Str) :
    Except RunError CmdInfo := do
  match t.defaultRuns.get? defaultCmd with
  | none => .error (.invalidDefault defaultCmd t.target t.defaultRuns.keys)
  | some di =>
    let binPath := t.root.join di.bin
    requireBinary isThere binPath
    let binArgsList ← match shlexSplit di.args with
      | .ok toks => .ok toks
      | .error e => .error (.shlex e)
    return {
      env := t.baseEnv.update di.env
      cmd := commandText binPath di.args
      binName := di.bin
      binPath := binPath
      binArgs := di.args
      binArgsList := binArgsList }

/-- The part of `_get_run_cmd` for a binary and a list of arguments. -/
def binRunCmd (t : Target) (isThere : Path → Bool) (bin : Str) (binArgs : List Str) :
    Except RunError CmdInfo := do
  let binPath ← locate t isThere bin
  requireBinary isThere binPath
  return {
    env := t.baseEnv.update t.env
    cmd := commandText binPath (joinWith [' '] binArgs)
    binName := bin
    binPath := binPath
    binArgs := joinWith [' '] binArgs
    binArgsList := binArgs }

/-- `_get_run_cmd`.  An empty name or default command counts as none, and an
empty list of arguments as no arguments. -/
def getRunCmd (t : Target) (isThere : Path → Bool) (binName defaultCmd : Str)
    (binArgs : List Str) : Except RunError CmdInfo :=
  match t.defaultBin with
  | none => .error (.noDefaultBinary t.target)
  | some defaultBin =>
    if defaultCmd ≠ [] then defaultRunCmd t isThere defaultCmd
    else binRunCmd t isThere (if binName ≠ [] then binName else defaultBin) binArgs

/-! ## The argument vectors -/

/-- What the program gets from `run` under QEMU. -/
def qemuArgv (info : CmdInfo) : List Str := pathStr info.binPath :: info.binArgsList

/-- What the program gets from `run` natively. -/
def runArgv (info : CmdInfo) : List Str := split info.cmd

/-- `simulate` adds the place of the result file. -/
def addsBenchmarkOut (cmd : Str) : Bool :=
  contains "benchmark" cmd && !contains "benchmark_out" cmd

/-- The command line of `simulate`. -/
def simulateCmd (outDir : Path) (cmd : Str) : Str :=
  if addsBenchmarkOut cmd then
    cmd ++ ' ' :: (("--benchmark_out_format=json" : Str) ++ ' ' :: (("--benchmark_out=" : Str)
      ++ pathStr outDir ++ ("/stats.json" : Str)))
  else cmd

/-- What the program gets from `simulate` natively. -/
def simulateArgv (outDir : Path) (info : CmdInfo) : List Str := split (simulateCmd outDir info.cmd)

/-- The words that `simulate` adds. -/
def resultWords (outDir : Path) (cmd : Str) : List Str :=
  if addsBenchmarkOut cmd then
    ("--benchmark_out_format=json" : Str) ::
      split (("--benchmark_out=" : Str) ++ pathStr outDir ++ ("/stats.json" : Str))
  else []

/-- The program gets the same arguments on every path, but for some that
`simulate` adds. -/
structure SameArgv (outDir : Path) (info : CmdInfo) (added : List Str) : Prop where
  run : runArgv info = qemuArgv info
  simulate : simulateArgv outDir info = qemuArgv info ++ added

/-! ## Words -/

/-- Joining with blanks and splitting again gives back exactly the lists of
words. -/
theorem split_joinWith_iff {ws : List Str} :
    split (joinWith [' '] ws) = ws ↔ ∀ w ∈ ws, IsWord w := by
  constructor
  · intro h w hw
    rw [← h] at hw
    exact mem_split hw
  · exact split_joinWith_blank

theorem split_commandText {binPath : Path} {binArgs : Str} (h : IsWord (pathStr binPath)) :
    split (commandText binPath binArgs) = pathStr binPath :: split binArgs := by
  unfold commandText
  split_ifs with hargs
  · rw [split_append_cons _ _ (by decide), split_word h]
    rfl
  · rw [not_not] at hargs
    rw [hargs, split_word h, split_nil]

theorem simulateArgv_eq (outDir : Path) (info : CmdInfo) :
    simulateArgv outDir info = runArgv info ++ resultWords outDir info.cmd := by
  unfold simulateArgv simulateCmd resultWords runArgv
  split_ifs with hadds
  · rw [split_append_cons _ _ (by decide), split_append_cons _ _ (by decide),
      split_word (w := "--benchmark_out_format=json") (by decide)]
    rfl
  · rw [List.append_nil]

/-! ## When the vectors agree -/

/-- The arguments survive the detour through the text: the text of a default run
is plain, or the given arguments are words. -/
def ArgsSurvive (t : Target) (defaultCmd : Str) (binArgs : List Str) : Prop :=
  if defaultCmd ≠ [] then ∀ di, t.defaultRuns.get? defaultCmd = some di → ShellPlain di.args
  else ∀ a ∈ binArgs, IsWord a

/-- The text of the arguments. -/
def argsText (t : Target) (defaultCmd : Str) (binArgs : List Str) : Str :=
  if defaultCmd ≠ [] then ((t.defaultRuns.get? defaultCmd).map DefaultRun.args).getD []
  else joinWith [' '] binArgs

theorem defaultRunCmd_args {t : Target} {isThere : Path → Bool} {defaultCmd : Str}
    {info : CmdInfo} (h : defaultRunCmd t isThere defaultCmd = .ok info) :
    info.cmd = commandText info.binPath info.binArgs ∧
      info.binArgs = ((t.defaultRuns.get? defaultCmd).map DefaultRun.args).getD [] ∧
      (split info.binArgs = info.binArgsList ↔
        ∀ di, t.defaultRuns.get? defaultCmd = some di → ShellPlain di.args) := by
  unfold defaultRunCmd at h
  cases hdi : t.defaultRuns.get? defaultCmd with
  | none => rw [hdi] at h; cases h
  | some di =>
    rw [hdi] at h
    cases hthere : requireBinary isThere (t.root.join di.bin) with
    | error e => simp [hthere, bind, Except.bind] at h
    | ok u =>
      cases hsplit : shlexSplit di.args with
      | error e => simp [hthere, hsplit, bind, Except.bind] at h
      | ok toks =>
        simp only [hthere, hsplit, bind, Except.bind, pure, Except.pure, Except.ok.injEq] at h
        subst h
        refine ⟨rfl, rfl, ?_⟩
        show split di.args = toks ↔ _
        rw [show (split di.args = toks ↔ shlexSplit di.args = .ok (split di.args)) by
          rw [hsplit, Except.ok.injEq, eq_comm], shlexSplit_eq_split_iff]
        simp

theorem binRunCmd_args {t : Target} {isThere : Path → Bool} {bin : Str} {binArgs : List Str}
    {info : CmdInfo} (h : binRunCmd t isThere bin binArgs = .ok info) :
    info.cmd = commandText info.binPath info.binArgs ∧
      info.binArgs = joinWith [' '] binArgs ∧
      (split info.binArgs = info.binArgsList ↔ ∀ a ∈ binArgs, IsWord a) := by
  unfold binRunCmd at h
  cases hloc : locate t isThere bin with
  | error e => rw [hloc] at h; cases h
  | ok binPath =>
    rw [hloc] at h
    cases hthere : requireBinary isThere binPath with
    | error e => simp [hthere, bind, Except.bind] at h
    | ok u =>
      simp only [hthere, bind, Except.bind, pure, Except.pure, Except.ok.injEq] at h
      subst h
      exact ⟨rfl, rfl, split_joinWith_iff⟩

theorem getRunCmd_args {t : Target} {isThere : Path → Bool} {binName defaultCmd : Str}
    {binArgs : List Str} {info : CmdInfo}
    (h : getRunCmd t isThere binName defaultCmd binArgs = .ok info) :
    info.cmd = commandText info.binPath info.binArgs ∧
      info.binArgs = argsText t defaultCmd binArgs ∧
      (split info.binArgs = info.binArgsList ↔ ArgsSurvive t defaultCmd binArgs) := by
  unfold getRunCmd at h
  unfold ArgsSurvive argsText
  cases hbin : t.defaultBin with
  | none => rw [hbin] at h; cases h
  | some defaultBin =>
    rw [hbin] at h
    by_cases hd : defaultCmd ≠ []
    · rw [if_pos hd, if_pos hd]
      exact defaultRunCmd_args (by simpa [hd] using h)
    · rw [if_neg hd, if_neg hd]
      exact binRunCmd_args (by simpa [hd] using h)

/-- For a binary path without blanks, the program gets the same arguments on
every path, those for the result file apart, exactly when they survive the detour
through the text; and `simulate` adds none exactly when the command is no
benchmark or says itself where its results go. -/
theorem sameArgv_iff {t : Target} {isThere : Path → Bool} {binName defaultCmd : Str}
    {binArgs : List Str} {outDir : Path} {info : CmdInfo}
    (h : getRunCmd t isThere binName defaultCmd binArgs = .ok info)
    (hpath : IsWord (pathStr info.binPath)) :
    (SameArgv outDir info (resultWords outDir info.cmd) ↔ ArgsSurvive t defaultCmd binArgs) ∧
      (SameArgv outDir info [] ↔ ArgsSurvive t defaultCmd binArgs ∧
        addsBenchmarkOut (commandText info.binPath (argsText t defaultCmd binArgs)) = false) := by
  obtain ⟨hcmd, htext, hargs⟩ := getRunCmd_args h
  have hrun : runArgv info = qemuArgv info ↔ ArgsSurvive t defaultCmd binArgs := by
    rw [← hargs]
    unfold runArgv qemuArgv
    rw [hcmd, split_commandText hpath, List.cons.injEq, and_iff_right rfl]
  have hsame : SameArgv outDir info (resultWords outDir info.cmd) ↔
      ArgsSurvive t defaultCmd binArgs := by
    constructor
    · intro hs
      exact hrun.1 hs.run
    · intro hs
      refine ⟨hrun.2 hs, ?_⟩
      rw [simulateArgv_eq, hrun.2 hs]
  refine ⟨hsame, ?_⟩
  rw [← htext, ← hcmd]
  constructor
  · intro hs
    refine ⟨hrun.1 hs.run, ?_⟩
    have hwords : resultWords outDir info.cmd = [] := by
      have hsim := hs.simulate
      rw [simulateArgv_eq, hs.run] at hsim
      exact List.append_cancel_left hsim
    by_contra hadds
    rw [Bool.not_eq_false] at hadds
    unfold resultWords at hwords
    rw [if_pos hadds] at hwords
    cases hwords
  · intro hs
    have hwords : resultWords outDir info.cmd = [] := by
      unfold resultWords
      rw [hs.2]
      rfl
    rw [← hwords]
    exact hsame.2 hs.1

/-! ## A default run -/

/-- The llama.cpp target with two of its default runs. -/
def llamaCpp : Target where
  target := "llamacpp"
  root := ["llama.cpp"]
  installDir := ["opt"]
  buildDir := ["build"]
  defaultBin := some "test-backend-ops"
  defaultRuns :=
    [("optest_help", { bin := "/opt/bin/test-backend-ops", args := "--help" }),
      ("debug_test",
        { bin := "/opt/bin/test-backend-ops",
          args := ("test -o MUL_MAT -b REF -p type_a=q8_0,type_b=f32,m=16,n=1,k=256," : Str) ++
            ("bs=\\[1,1\\],nr=\\[1,1\\],per=\\[0,1,2,3\\]" : Str) })]

/-- `_get_run_cmd` for a default run of it. -/
def llamaRun (defaultCmd : Str) : Except RunError CmdInfo :=
  getRunCmd llamaCpp (fun _ => true) [] defaultCmd []

/-- The command of `optest_help`. -/
def optestHelp : CmdInfo where
  env := []
  cmd := "/opt/bin/test-backend-ops --help"
  binName := "/opt/bin/test-backend-ops"
  binPath := ["opt", "bin", "test-backend-ops"]
  binArgs := "--help"
  binArgsList := ["--help"]

theorem optestHelp_argv_same :
    llamaRun "optest_help" = .ok optestHelp ∧ SameArgv ["out"] optestHelp [] := by
  have hrun : llamaRun "optest_help" = .ok optestHelp := by decide
  refine ⟨hrun, (sameArgv_iff hrun (by decide)).2.2 ⟨?_, by decide⟩⟩
  rw [ArgsSurvive, if_pos (by decide)]
  intro di hdi
  have hargs : di.args = "--help" := by
    rw [← Option.some.inj hdi]
  rw [hargs]
  decide

/-- Natively the brackets come with the backslashes that were meant for the
shell. -/
theorem debugTest_argv_differs :
    ∃ info, llamaRun "debug_test" = .ok info ∧ IsWord (pathStr info.binPath) ∧
      (qemuArgv info).getLast? = some
        "type_a=q8_0,type_b=f32,m=16,n=1,k=256,bs=[1,1],nr=[1,1],per=[0,1,2,3]" ∧
      (runArgv info).getLast? = some
        "type_a=q8_0,type_b=f32,m=16,n=1,k=256,bs=\\[1,1\\],nr=\\[1,1\\],per=\\[0,1,2,3\\]" ∧
      ∀ added, ¬ SameArgv ["out"] info added := by
  refine ⟨_, rfl, by decide, by decide, by decide, ?_⟩
  intro added h
  exact absurd h.run (by decide)

end AiPipelines.Iminnt
