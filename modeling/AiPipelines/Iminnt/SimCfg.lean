import AiPipelines.PyStd.Dict
import AiPipelines.PyStd.Lines

/-!
# Custom simulator configurations

`BenchSimRunner._check_sim_cfg` of `iminnt/core.py` takes the lines of a
configuration that the user supplied, refuses those that touch what `iminnt`
keeps for itself, and inserts the lines of `iminnt`.  `get_sim_cfg` of
`iminnt/trace_gen.py` reads a configuration back.

Four options are reserved: after the check each of them should be read with the
value that `iminnt` gives it (`ReservedKept`).  The check looks for the key as
it stands before the first `=`, and only in lines that have one.  The reader
strips blanks around the key, and takes a line without `=` for a key with an
empty value.  `overridden` is a configuration that passes the check and is
read with another `perf`.

A definition counts only when it comes after the inserted lines, so
`reservedKept_iff` has to say which lines these are: `userFrom` is the index of
the first one.  The proof follows the insertions from the last to the first.
-/

namespace AiPipelines.Iminnt

open PyStd

/-! ## Lines of a configuration -/

/-- `l.lstrip().split("=")`, as the part before the first `=` and the others put
together. -/
def keyVal (l : Str) : Str × Str :=
  let parts := (lstrip l).splitOn '='
  (parts.headD [], parts.tail.flatten)

/-- `l.lstrip().startswith("#")`. -/
def isComment (l : Str) : Bool := startsWith ['#'] (lstrip l)

/-- `s.replace("\n", "").replace("\r", "")`. -/
def dropNewlines (s : Str) : Str := s.filter fun c => c ≠ '\n' && c ≠ '\r'

/-- What the loop of `get_sim_cfg` makes of a line. -/
def readLine (l : Str) : Option (Str × Str) :=
  if strip l = [] then none
  else if isComment l then none
  else some (dropNewlines (strip (keyVal l).1), dropNewlines (lstrip (keyVal l).2))

/-- One round of the loop of `get_sim_cfg`. -/
def addLine (cfg : Dict Str Str) (l : Str) : Dict Str Str :=
  match readLine l with
  | some (key, value) => cfg.set key value
  | none => cfg

/-- The dictionary that the loop of `get_sim_cfg` collects. -/
def readCfg (lines : List Str) : Dict Str Str := lines.foldl addLine []

/-! ## The lines of `iminnt` -/

/-- The paths and names of `constants.py` that go into a configuration. -/
structure SimEnv where
  qemuUserDir : Str
  spikeDir : Str
  devEnvRoot : Str
  spikeImiRiscvArch : Str
  imiCpuAlias : Str

/-- The options that the user may not define. -/
inductive Reserved where
  | liveTrace
  | memory
  | execution
  | perf
  deriving Repr, DecidableEq

/-- The key of a reserved option. -/
def Reserved.key : Reserved → Str
  | .liveTrace => "func::live_trace"
  | .memory => "func::memory"
  | .execution => "func::execution"
  | .perf => "perf"

/-- The value that `iminnt` writes for a reserved option. -/
def Reserved.path (env : SimEnv) : Reserved → Str
  | .liveTrace => env.qemuUserDir ++ ("/bin/qemu-riscv64.so" : Str)
  | .memory => env.qemuUserDir ++ ("/bin/qemu-riscv64.so" : Str)
  | .execution => env.spikeDir ++ ("/build/libriscv.so" : Str)
  | .perf => env.devEnvRoot ++ ("/Pilos/build/libpilos.so" : Str)

/-- The line of `PERMAFROST_SIM_CFG` for a reserved option. -/
def Reserved.line (env : SimEnv) (r : Reserved) : Str := r.key ++ '=' :: r.path env

/-- The value of a reserved option as the reader sees it. -/
def Reserved.value (env : SimEnv) (r : Reserved) : Str :=
  dropNewlines (lstrip ((r.path env).splitOn '=').flatten)

/-- `func::argv` when the user does not give it. -/
def defaultArgv (env : SimEnv) : Str :=
  ("func::argv=qemu.so -one-insn-per-tb -d nochain -umode -internal-syscall -cosim -plugin " : Str)
    ++ env.qemuUserDir ++ ("/plugins/libcosim.so " : Str) ++ env.imiCpuAlias
    ++ (" $carbon<SIM_BIN> $SIM_ARGS$" : Str)

/-- `func::imi_spike::no_args::m_pk` when the user does not give it. -/
def defaultImiSpike (env : SimEnv) : Str :=
  ("func::imi_spike::no_args::m_pk=--isa=" : Str) ++ env.spikeImiRiscvArch ++ (" " : Str)
    ++ env.spikeDir ++ ("/pk_binary/pk $carbon<SIM_BIN> $SIM_ARGS$" : Str)

/-! ## The check -/

/-- `FLAGGED_CFG_OPTS`. -/
def flaggedCfgOpts : List Str := [Reserved.liveTrace, .memory, .execution, .perf].map (·.key)

/-- `RESERVED_VARS`. -/
def reservedVars : List Str := ["SIM_BIN", "COSIM_LIB", "PK_BIN"]

/-- What the check found in a line that it keeps. -/
inductive LineKind where
  | comment
  | argv
  | imiSpike
  | other
  deriving Repr, DecidableEq

/-- The two definitions that name the binary must not bring their own library
(`own`), must use the variable for the binary and the template for its
arguments. -/
def checkBinaryLine (key own hint : Str) (l val : Str) : Except Str Unit :=
  if contains own val then .error (("User-supplied " : Str) ++ key ++ hint ++ l)
  else if !contains "$carbon<SIM_BIN>" val then
    .error (("User-supplied " : Str) ++ key ++ (" value must specify the binary with the " : Str)
      ++ ("'$carbon<SIM_BIN>' variable, but it was not supplied: " : Str) ++ l)
  else if !contains "$SIM_ARGS$" val then
    .error (("User-supplied " : Str) ++ key
      ++ (" value must specify the binary arguments with " : Str)
      ++ ("the '$SIM_ARGS$' template variable, but it was not supplied: " : Str) ++ l)
  else .ok ()

/-- The key under which the user may define the command line of the emulator. -/
def argvKey : Str := "func::argv"

/-- The key under which the user may define the command line of `spike`. -/
def imiSpikeKey : Str := "func::imi_spike::no_args::m_pk"

/-- A `-carbon_set` must not define a variable of `iminnt`. -/
def checkCarbonSet (val : Str) : Except Str Unit :=
  let varName := (val.splitOn ',').headD []
  if varName ∈ reservedVars then
    .error (("Encountered reserved variable " : Str) ++ varName
      ++ (" in `-carbon_set` config. The following variables are reserved for internal " : Str)
      ++ ("use: ['SIM_BIN', 'COSIM_LIB', 'PK_BIN']" : Str))
  else .ok ()

/-- The checks of a line `l` that defines `key` as `val`. -/
def checkDefinition (l key val : Str) : Except Str LineKind :=
  if key ∈ flaggedCfgOpts then
    .error (("Invalid custom config. The following config options cannot be supplied by the " : Str)
      ++ ("user-supplied config: ['func::live_trace', 'func::memory', " : Str)
      ++ ("'func::execution', 'perf']" : Str))
  else if key = argvKey then do
    checkBinaryLine key "libcosim.so"
      ((" value cannot include the path to libcosim.so plugin. " : Str) ++
        ("Instead, use the $carbon<COSIM_LIB> variable: " : Str)) l val
    return .argv
  else if key = imiSpikeKey then do
    checkBinaryLine key "/pk"
      ((" value cannot include the path to pk binary. " : Str) ++
        ("Instead, use the $carbon<PK_BIN> variable: " : Str)) l val
    return .imiSpike
  else if key = ("-carbon_set" : Str) then do
    checkCarbonSet val
    return .other
  else .ok .other

/-- The checks of one line. -/
def checkLine (l : Str) : Except Str LineKind :=
  if isComment l then .ok .comment
  else if '=' ∈ l then checkDefinition l (keyVal l).1 (keyVal l).2
  else .ok .other

/-- A line as the new configuration keeps it: comments as they are, others
without the newlines at their end. -/
def keepLine (l : Str) : Str := if isComment l then l else l.rdropWhile (· = '\n')

/-- What the loop of `_check_sim_cfg` has found so far. -/
structure CheckState where
  newCfg : List Str := []
  argvIdx : Nat := 0
  imiSpikeIdx : Nat := 0
  deriving Repr, DecidableEq

/-- One round of the loop, for the line at index `i`. -/
def CheckState.add (st : CheckState) (i : Nat) (l : Str) (k : LineKind) : CheckState where
  newCfg := st.newCfg ++ [keepLine l]
  argvIdx := if k = .argv then i else st.argvIdx
  imiSpikeIdx := if k = .imiSpike then i else st.imiSpikeIdx

/-- The loop of `_check_sim_cfg`. -/
def checkLoop : Nat → List Str → CheckState → Except Str CheckState
  | _, [], st => .ok st
  | i, l :: ls, st => do
    let k ← checkLine l
    checkLoop (i + 1) ls (st.add i l k)

/-- `xs.insert(i, x)`. -/
def insertAt {α : Type} (xs : List α) (i : Nat) (x : α) : List α := xs.take i ++ x :: xs.drop i

/-- The configuration with the two definitions that the user left out. -/
def CheckState.withDefaults (env : SimEnv) (st : CheckState) : List Str :=
  let newCfg := if st.argvIdx = 0 then insertAt st.newCfg 1 (defaultArgv env) else st.newCfg
  if st.imiSpikeIdx = 0 then insertAt newCfg 2 (defaultImiSpike env) else newCfg

/-- The four reserved lines go in at one index. -/
def insertReserved (env : SimEnv) (cfg : List Str) (i : Nat) : List Str :=
  let cfg := insertAt cfg i (Reserved.line env .liveTrace)
  let cfg := insertAt cfg i (Reserved.line env .memory)
  let cfg := insertAt cfg i (Reserved.line env .execution)
  insertAt cfg i (Reserved.line env .perf)

/-- `_check_sim_cfg`. -/
def checkSimCfg (env : SimEnv) (cfg : List Str) : Except Str (List Str) := do
  let st ← checkLoop 0 cfg {}
  let imiSpikeIdx := if st.imiSpikeIdx = 0 then 2 else st.imiSpikeIdx
  return insertReserved env (st.withDefaults env) (imiSpikeIdx + 1)

/-! ## The promise -/

/-- The check raises, or every reserved option is read with the value of
`iminnt`. -/
def ReservedKept (env : SimEnv) (cfg : List Str) : Prop :=
  (∃ e, checkSimCfg env cfg = .error e) ∨
    ∃ newCfg, checkSimCfg env cfg = .ok newCfg ∧
      ∀ r : Reserved, (readCfg newCfg).get? r.key = some (r.value env)

/-! ## The reader -/

theorem addLine_get? (d : Dict Str Str) (l k : Str) :
    (addLine d l).get? k = ((addLine [] l).get? k).or (d.get? k) := by
  unfold addLine
  cases readLine l with
  | none => rfl
  | some kv =>
    obtain ⟨key, value⟩ := kv
    show (d.set key value).get? k = ((Dict.set [] key value).get? k).or (d.get? k)
    rw [Dict.get?_set, Dict.get?_set]
    split_ifs <;> rfl

theorem foldl_addLine_get? (lines : List Str) (d : Dict Str Str) (k : Str) :
    (lines.foldl addLine d).get? k = ((readCfg lines).get? k).or (d.get? k) := by
  unfold readCfg
  induction lines generalizing d with
  | nil => rfl
  | cons l lines ih =>
    show (lines.foldl addLine (addLine d l)).get? k =
      ((lines.foldl addLine (addLine [] l)).get? k).or (d.get? k)
    rw [ih, ih (addLine [] l), addLine_get?, Option.or_assoc]

/-- The last definition wins. -/
theorem readCfg_append (a b : List Str) (k : Str) :
    (readCfg (a ++ b)).get? k = ((readCfg b).get? k).or ((readCfg a).get? k) := by
  show ((a ++ b).foldl addLine []).get? k = _
  rw [List.foldl_append, foldl_addLine_get?]
  rfl

theorem readCfg_cons (l : Str) (ls : List Str) (k : Str) :
    (readCfg (l :: ls)).get? k = ((readCfg ls).get? k).or ((readCfg [l]).get? k) :=
  readCfg_append [l] ls k

theorem readCfg_singleton {l key value : Str} (h : readLine l = some (key, value)) (k : Str) :
    (readCfg [l]).get? k = if key = k then some value else none := by
  show (addLine [] l).get? k = _
  unfold addLine
  rw [h]
  exact Dict.get?_set [] key k value

/-! ## Insertions -/

section Insertions

variable {key value k : Str} {x : Str} {xs : List Str} {p : Nat}

theorem readCfg_insertAt_of_ne (hx : readLine x = some (key, value)) (hne : key ≠ k) :
    (readCfg (insertAt xs p x)).get? k = (readCfg xs).get? k := by
  unfold insertAt
  rw [readCfg_append, readCfg_cons, readCfg_singleton hx, if_neg hne, Option.or_none,
    ← readCfg_append, List.take_append_drop]

theorem readCfg_insertAt_self (hx : readLine x = some (k, value)) :
    (readCfg (insertAt xs p x)).get? k = ((readCfg (xs.drop p)).get? k).or (some value) := by
  unfold insertAt
  rw [readCfg_append, readCfg_cons, readCfg_singleton hx, if_pos rfl, Option.or_assoc,
    Option.some_or]

theorem readCfg_drop_insertAt_of_ne (hx : readLine x = some (key, value)) (hne : key ≠ k) :
    (readCfg ((insertAt xs p x).drop p)).get? k = (readCfg (xs.drop p)).get? k := by
  by_cases hp : p ≤ xs.length
  · have hdrop : (insertAt xs p x).drop p = x :: xs.drop p := by
      unfold insertAt
      exact List.drop_left' (List.length_take_of_le hp)
    rw [hdrop, readCfg_cons, readCfg_singleton hx, if_neg hne, Option.or_none]
  · have hdrop : (insertAt xs p x).drop p = xs.drop p := by
      unfold insertAt
      rw [List.take_of_length_le (by omega), List.drop_of_length_le (l := xs) (by omega)]
      exact List.drop_of_length_le (by simp; omega)
    rw [hdrop]

/-- An insertion before an index moves what comes after it by one. -/
theorem drop_insertAt {q : Nat} (h : q ≤ p) : (insertAt xs q x).drop (p + 1) = xs.drop p := by
  unfold insertAt
  by_cases hq : q ≤ xs.length
  · rw [List.drop_append, List.length_take_of_le hq,
      List.drop_of_length_le (by rw [List.length_take_of_le hq]; omega), List.nil_append,
      show p + 1 - q = (p - q) + 1 by omega, List.drop_succ_cons, List.drop_drop]
    congr 1
    omega
  · rw [List.take_of_length_le (by omega), List.drop_of_length_le (l := xs) (by omega),
      List.drop_of_length_le (l := xs) (by omega)]
    exact List.drop_of_length_le (by simp; omega)

end Insertions

/-! ## The lines of `iminnt` -/

theorem splitOn_flatten (s : Str) (c : Char) : (s.splitOn c).flatten = s.filter (· ≠ c) := by
  rw [List.splitOn_eq_splitOnP, splitOnP_flatten]
  apply List.filter_congr
  intro a _
  by_cases h : a = c <;> simp [h]

theorem all_ne_of_not_mem {s : Str} {a : Char} (h : a ∉ s) :
    ∀ c ∈ s, decide (c ≠ a) = true := by
  intro c hc
  exact decide_eq_true fun heq => h (heq ▸ hc)

/-- The key is what stands before the first `=`, and the value drops the other
ones. -/
theorem keyVal_eq (l : Str) : keyVal l =
    ((lstrip l).takeWhile (· ≠ '='), ((lstrip l).dropWhile (· ≠ '=')).filter (· ≠ '=')) := by
  unfold keyVal
  generalize lstrip l = s
  by_cases h : '=' ∈ s
  · obtain ⟨a, b, rfl, ha⟩ := List.eq_append_cons_of_mem h
    have hall := all_ne_of_not_mem ha
    rw [List.splitOn_append_cons_self_of_not_mem ha, List.takeWhile_append_of_pos hall,
      List.dropWhile_append_of_pos hall]
    simp [splitOn_flatten]
  · have hall := all_ne_of_not_mem h
    rw [List.splitOn_eq_singleton h, List.takeWhile_eq_self_iff.2 hall,
      List.dropWhile_eq_nil_iff.2 hall]
    simp

theorem startsWith_hash_of_ne {a : Char} {t : Str} (h : a ≠ '#') :
    startsWith ['#'] (a :: t) = false := by
  simp [startsWith, List.isPrefixOf, Ne.symm h]

theorem dropNewlines_eq_self_iff {t : Str} : dropNewlines t = t ↔ '\n' ∉ t ∧ '\r' ∉ t := by
  unfold dropNewlines
  rw [List.filter_eq_self]
  constructor
  · intro h
    exact ⟨fun hn => absurd (h _ hn) (by decide), fun hr => absurd (h _ hr) (by decide)⟩
  · rintro ⟨hn, hr⟩ c hc
    have hcn : c ≠ '\n' := fun h => hn (h ▸ hc)
    have hcr : c ≠ '\r' := fun h => hr (h ▸ hc)
    simp [hcn, hcr]

section Definitions

variable {key : Str} (hne : key ≠ []) (hstrip : strip key = key)
include hne hstrip

/-- A line `key=value` starts with its key. -/
theorem lstrip_line (value : Str) : lstrip (key ++ '=' :: value) = key ++ '=' :: value := by
  have hkey : lstrip key = key := by rw [← hstrip, lstrip_strip]
  obtain ⟨a, t, rfl⟩ := List.exists_cons_of_ne_nil hne
  have hfirst := List.dropWhile_eq_self_iff.1 hkey (Nat.succ_pos _)
  exact List.dropWhile_cons_of_neg (by simpa using hfirst)

theorem isComment_line (hhash : startsWith ['#'] key = false) (value : Str) :
    isComment (key ++ '=' :: value) = false := by
  unfold isComment
  rw [lstrip_line hne hstrip]
  obtain ⟨a, t, rfl⟩ := List.exists_cons_of_ne_nil hne
  simpa [startsWith, List.isPrefixOf] using hhash

theorem keyVal_line (hequals : '=' ∉ key) (value : Str) :
    keyVal (key ++ '=' :: value) = (key, value.filter (· ≠ '=')) := by
  have hall := all_ne_of_not_mem hequals
  rw [keyVal_eq, lstrip_line hne hstrip, List.takeWhile_append_of_pos hall,
    List.dropWhile_append_of_pos hall]
  simp

/-- How the reader takes a line `key=value`. -/
theorem readLine_line (hequals : '=' ∉ key) (hhash : startsWith ['#'] key = false) (value : Str) :
    readLine (key ++ '=' :: value) =
      some (dropNewlines key, dropNewlines (lstrip (value.filter (· ≠ '=')))) := by
  have hblank : strip (key ++ '=' :: value) ≠ [] := by
    rw [ne_eq, strip_eq_nil_iff]
    exact fun h => absurd (h '=' (List.mem_append_right _ List.mem_cons_self)) (by decide)
  unfold readLine
  rw [if_neg hblank, isComment_line hne hstrip hhash, if_neg (by decide),
    keyVal_line hne hstrip hequals, hstrip]

end Definitions

theorem startsWith_hash_of_not_mem {key : Str} (hhash : '#' ∉ key) :
    startsWith ['#'] key = false := by
  cases key with
  | nil => rfl
  | cons a t => exact startsWith_hash_of_ne fun h => hhash (h ▸ List.mem_cons_self)

/-- How a definition with a plain key is read. -/
theorem readLine_definition {key path : Str} (hkey : IsWord key) (heq : '=' ∉ key)
    (hhash : '#' ∉ key) :
    readLine (key ++ '=' :: path) =
      some (key, dropNewlines (lstrip (path.splitOn '=').flatten)) := by
  have hdrop : dropNewlines key = key := dropNewlines_eq_self_iff.2
    ⟨fun hn => absurd (hkey.2 _ hn) (by decide), fun hr => absurd (hkey.2 _ hr) (by decide)⟩
  rw [readLine_line hkey.1 (strip_eq_self hkey.2) heq (startsWith_hash_of_not_mem hhash), hdrop,
    splitOn_flatten]

theorem Reserved.readLine_line (env : SimEnv) (r : Reserved) :
    readLine (r.line env) = some (r.key, r.value env) := by
  cases r <;> exact readLine_definition (by decide) (by decide) (by decide)

theorem Reserved.key_injective {r r' : Reserved} (h : r.key = r'.key) : r = r' := by
  revert h
  cases r <;> cases r' <;> decide

/-- The four reserved lines, inserted at one index, are overridden by what
comes after that index and by nothing else. -/
theorem readCfg_insertReserved (env : SimEnv) (xs : List Str) (p : Nat) (r : Reserved) :
    (readCfg (insertReserved env xs p)).get? r.key =
      ((readCfg (xs.drop p)).get? r.key).or (some (r.value env)) := by
  unfold insertReserved
  have hline := Reserved.readLine_line env
  have hkeys : ∀ {a b : Reserved}, a ≠ b → a.key ≠ b.key :=
    fun h hk => h (Reserved.key_injective hk)
  cases r with
  | liveTrace =>
    rw [readCfg_insertAt_of_ne (hline .perf) (hkeys (by decide)),
      readCfg_insertAt_of_ne (hline .execution) (hkeys (by decide)),
      readCfg_insertAt_of_ne (hline .memory) (hkeys (by decide)),
      readCfg_insertAt_self (hline .liveTrace)]
  | memory =>
    rw [readCfg_insertAt_of_ne (hline .perf) (hkeys (by decide)),
      readCfg_insertAt_of_ne (hline .execution) (hkeys (by decide)),
      readCfg_insertAt_self (hline .memory),
      readCfg_drop_insertAt_of_ne (hline .liveTrace) (hkeys (by decide))]
  | execution =>
    rw [readCfg_insertAt_of_ne (hline .perf) (hkeys (by decide)),
      readCfg_insertAt_self (hline .execution),
      readCfg_drop_insertAt_of_ne (hline .memory) (hkeys (by decide)),
      readCfg_drop_insertAt_of_ne (hline .liveTrace) (hkeys (by decide))]
  | perf =>
    rw [readCfg_insertAt_self (hline .perf),
      readCfg_drop_insertAt_of_ne (hline .execution) (hkeys (by decide)),
      readCfg_drop_insertAt_of_ne (hline .memory) (hkeys (by decide)),
      readCfg_drop_insertAt_of_ne (hline .liveTrace) (hkeys (by decide))]

/-! ## Kept lines are read as they were -/

section KeptLines

variable {s nls : Str}

theorem isBlank_newlines (h : ∀ c ∈ nls, c = '\n') : IsBlank nls := by
  intro c hc
  rw [h c hc]
  decide

theorem lstrip_append_newlines (h : ∀ c ∈ nls, c = '\n') :
    lstrip (s ++ nls) = if lstrip s = [] then [] else lstrip s ++ nls := by
  unfold lstrip
  rw [List.dropWhile_append]
  by_cases hs : s.dropWhile isSpace = []
  · simp only [hs, List.isEmpty_nil, if_true]
    exact List.dropWhile_eq_nil_iff.2 (isBlank_newlines h)
  · simp [hs]

theorem strip_append_newlines (h : ∀ c ∈ nls, c = '\n') : strip (s ++ nls) = strip s :=
  strip_append_of_blank (a := []) (List.forall_mem_nil _) (isBlank_newlines h) s

theorem dropNewlines_append_newlines (h : ∀ c ∈ nls, c = '\n') :
    dropNewlines (s ++ nls) = dropNewlines s := by
  unfold dropNewlines
  rw [List.filter_append]
  have hnil : nls.filter (fun c => c ≠ '\n' && c ≠ '\r') = [] := by
    apply List.filter_eq_nil_iff.2
    intro c hc
    simp [h c hc]
  rw [hnil, List.append_nil]

theorem isComment_append_newlines (h : ∀ c ∈ nls, c = '\n') :
    isComment (s ++ nls) = isComment s := by
  unfold isComment
  rw [lstrip_append_newlines h]
  split_ifs with hs
  · rw [hs]
  · obtain ⟨a, t, hat⟩ := List.exists_cons_of_ne_nil hs
    rw [hat]
    simp [startsWith, List.isPrefixOf]

/-- Newlines at the end of a line go to its key if it has no `=`, and else to
its value. -/
theorem keyVal_append_newlines (h : ∀ c ∈ nls, c = '\n') :
    ∃ a b, keyVal (s ++ nls) = ((keyVal s).1 ++ a, (keyVal s).2 ++ b) ∧
      (∀ c ∈ a, c = '\n') ∧ ∀ c ∈ b, c = '\n' := by
  rw [keyVal_eq, keyVal_eq, lstrip_append_newlines h]
  by_cases hs : lstrip s = []
  · exact ⟨[], [], by simp [hs], by simp, by simp⟩
  · rw [if_neg hs]
    by_cases heq : '=' ∈ lstrip s
    · refine ⟨[], nls, ?_, by simp, h⟩
      obtain ⟨a, b, hab, ha⟩ := List.eq_append_cons_of_mem heq
      have hall := all_ne_of_not_mem ha
      rw [hab, List.append_assoc, List.takeWhile_append_of_pos hall,
        List.takeWhile_append_of_pos hall, List.dropWhile_append_of_pos hall,
        List.dropWhile_append_of_pos hall]
      have hne : ∀ c ∈ nls, ¬ c = '=' := fun c hc => by simp [h c hc]
      simpa using hne
    · refine ⟨nls, [], ?_, h, by simp⟩
      have hnls : '=' ∉ nls := fun hc => absurd (h '=' hc) (by decide)
      have hall := all_ne_of_not_mem (s := lstrip s ++ nls)
        fun hc => (List.mem_append.1 hc).elim heq hnls
      have hall' := all_ne_of_not_mem heq
      rw [List.takeWhile_eq_self_iff.2 hall, List.dropWhile_eq_nil_iff.2 hall,
        List.takeWhile_eq_self_iff.2 hall', List.dropWhile_eq_nil_iff.2 hall']
      simp

theorem readLine_append_newlines (h : ∀ c ∈ nls, c = '\n') : readLine (s ++ nls) = readLine s := by
  obtain ⟨a, b, hkv, ha, hb⟩ := keyVal_append_newlines (s := s) h
  have hval : dropNewlines (lstrip ((keyVal s).2 ++ b)) = dropNewlines (lstrip (keyVal s).2) := by
    rw [lstrip_append_newlines hb]
    split_ifs with hnil
    · rw [hnil]
    · exact dropNewlines_append_newlines hb
  unfold readLine
  rw [strip_append_newlines h, isComment_append_newlines h, hkv]
  simp only [strip_append_newlines ha, hval]

end KeptLines

/-- A line is kept up to newlines at its end. -/
theorem exists_keepLine (l : Str) : ∃ nls, (∀ c ∈ nls, c = '\n') ∧ l = keepLine l ++ nls := by
  unfold keepLine
  split_ifs
  · exact ⟨[], List.forall_mem_nil _, (List.append_nil l).symm⟩
  · refine ⟨l.rtakeWhile (· = '\n'), fun c hc => ?_, (List.rdropWhile_append_rtakeWhile).symm⟩
    simpa using List.mem_rtakeWhile_imp hc

/-- The reader does not see that the check took newlines away. -/
theorem readLine_keepLine (l : Str) : readLine (keepLine l) = readLine l := by
  obtain ⟨nls, hnls, hl⟩ := exists_keepLine l
  calc readLine (keepLine l) = readLine (keepLine l ++ nls) := (readLine_append_newlines hnls).symm
    _ = readLine l := by rw [← hl]

theorem readCfg_map_keepLine (ls : List Str) : readCfg (ls.map keepLine) = readCfg ls := by
  unfold readCfg
  rw [List.foldl_map]
  congr 1
  funext d l
  unfold addLine
  rw [readLine_keepLine]

/-! ## The loop -/

/-- The line is a definition of the given key, as the check sees it. -/
def definesKey (key l : Str) : Bool :=
  !isComment l && decide ('=' ∈ l) && decide ((keyVal l).1 = key)

/-- The index of the last line with a property, counted from `i`; `d` if there
is none. -/
def lastIndex (p : Str → Bool) : Nat → List Str → Nat → Nat
  | _, [], d => d
  | i, l :: ls, d => lastIndex p (i + 1) ls (if p l then i else d)

/-- A check that only raises or goes on leaves the kind alone. -/
theorem kind_of_check {c : Except Str Unit} {k k' : LineKind}
    (h : (do c; return k : Except Str LineKind) = .ok k') : k' = k := by
  cases c with
  | error e => cases h
  | ok u => cases h; rfl

/-- What the check takes a line for. -/
theorem checkLine_kind {l : Str} {k : LineKind} (h : checkLine l = .ok k) :
    (k = .argv ↔ definesKey argvKey l = true) ∧
      (k = .imiSpike ↔ definesKey imiSpikeKey l = true) := by
  have hkeys : argvKey ≠ imiSpikeKey := by decide
  unfold checkLine at h
  unfold definesKey
  cases hc : isComment l with
  | true =>
    rw [hc, if_pos rfl] at h
    cases h
    simp
  | false =>
    rw [hc, if_neg (by decide)] at h
    by_cases heq : '=' ∈ l
    · rw [if_pos heq] at h
      simp only [heq, decide_true, Bool.not_false, Bool.true_and, decide_eq_true_eq]
      unfold checkDefinition at h
      split_ifs at h with hflag hargv hspike hset
      · obtain rfl := kind_of_check h
        simp [hargv, hkeys]
      · obtain rfl := kind_of_check h
        simp [hspike, Ne.symm hkeys]
      · obtain rfl := kind_of_check h
        simp [hargv, hspike]
      · cases h
        simp [hargv, hspike]
    · rw [if_neg heq] at h
      cases h
      simp [heq]

theorem checkLoop_spec {ls : List Str} {i : Nat} {st st' : CheckState}
    (h : checkLoop i ls st = .ok st') :
    st'.newCfg = st.newCfg ++ ls.map keepLine ∧
      st'.argvIdx = lastIndex (definesKey argvKey) i ls st.argvIdx ∧
      st'.imiSpikeIdx =
        lastIndex (definesKey imiSpikeKey) i ls st.imiSpikeIdx := by
  induction ls generalizing i st with
  | nil =>
    cases h
    simp [lastIndex]
  | cons l ls ih =>
    unfold checkLoop at h
    cases hl : checkLine l with
    | error e => rw [hl] at h; cases h
    | ok k =>
      rw [hl] at h
      obtain ⟨hcfg, hargv, hspike⟩ := ih h
      obtain ⟨hka, hks⟩ := checkLine_kind hl
      refine ⟨?_, ?_, ?_⟩
      · rw [hcfg]
        simp [CheckState.add]
      · rw [hargv]
        simp only [CheckState.add, lastIndex, hka]
      · rw [hspike]
        simp only [CheckState.add, lastIndex, hks]

/-- The loop raises exactly when a line is refused. -/
theorem checkLoop_error_iff {ls : List Str} {i : Nat} {st : CheckState} :
    (∃ e, checkLoop i ls st = .error e) ↔ ∃ l ∈ ls, ∃ e, checkLine l = .error e := by
  induction ls generalizing i st with
  | nil => simp [checkLoop]
  | cons l ls ih =>
    unfold checkLoop
    cases hl : checkLine l with
    | error e => simp [bind, Except.bind, hl]
    | ok k =>
      simp only [bind, Except.bind, List.mem_cons, exists_eq_or_imp, hl, reduceCtorEq, exists_false,
        false_or]
      exact ih

/-! ## Which definitions count -/

/-- The index of the user's last `func::argv` line, as the check counts it: `0`
also means that there is none. -/
def argvIndex (cfg : List Str) : Nat := lastIndex (definesKey argvKey) 0 cfg 0

/-- The index of the user's last `func::imi_spike::no_args::m_pk` line, with the
same `0`. -/
def imiSpikeIndex (cfg : List Str) : Nat := lastIndex (definesKey imiSpikeKey) 0 cfg 0

/-- The index of the first line of the user that comes after the lines of
`iminnt`.  These are put behind the user's `func::imi_spike` line, or behind the
first line if there is none; and one line further if the user has a `func::argv`
line. -/
def userFrom (cfg : List Str) : Nat :=
  (if imiSpikeIndex cfg = 0 then 1 else imiSpikeIndex cfg) + (if argvIndex cfg = 0 then 0 else 1)

theorem checkSimCfg_error_iff {env : SimEnv} {cfg : List Str} :
    (∃ e, checkSimCfg env cfg = .error e) ↔ ∃ l ∈ cfg, ∃ e, checkLine l = .error e := by
  rw [← @checkLoop_error_iff cfg 0 {}]
  unfold checkSimCfg
  cases checkLoop 0 cfg {} with
  | error e => simp [bind, Except.bind]
  | ok st => simp [bind, Except.bind, pure, Except.pure]

/-- What comes after the reserved lines are lines of the user. -/
theorem drop_withDefaults (env : SimEnv) {cfg : List Str} {st : CheckState}
    (h : checkLoop 0 cfg {} = .ok st) :
    (st.withDefaults env).drop ((if st.imiSpikeIdx = 0 then 2 else st.imiSpikeIdx) + 1) =
      (cfg.drop (userFrom cfg)).map keepLine := by
  obtain ⟨hcfg, hargv, hspike⟩ := checkLoop_spec h
  have hargv' : argvIndex cfg = st.argvIdx := hargv.symm
  have hspike' : imiSpikeIndex cfg = st.imiSpikeIdx := hspike.symm
  rw [List.nil_append] at hcfg
  unfold CheckState.withDefaults userFrom
  rw [hargv', hspike', List.map_drop, ← hcfg]
  by_cases hs : st.imiSpikeIdx = 0
  · simp only [hs, if_true]
    rw [drop_insertAt (by omega)]
    split_ifs
    · exact drop_insertAt (by omega)
    · rfl
  · simp only [hs, if_false]
    split_ifs
    · exact drop_insertAt (by omega)
    · rfl

/-- What an accepted configuration becomes. -/
theorem checkSimCfg_ok {env : SimEnv} {cfg newCfg : List Str}
    (h : checkSimCfg env cfg = .ok newCfg) :
    ∃ st, checkLoop 0 cfg {} = .ok st ∧ newCfg = insertReserved env (st.withDefaults env)
      ((if st.imiSpikeIdx = 0 then 2 else st.imiSpikeIdx) + 1) := by
  unfold checkSimCfg at h
  cases hloop : checkLoop 0 cfg {} with
  | error e => rw [hloop] at h; cases h
  | ok st =>
    rw [hloop] at h
    exact ⟨st, rfl, (Except.ok.inj h).symm⟩

/-- How a reserved option is read from the new configuration. -/
theorem checkSimCfg_get? {env : SimEnv} {cfg newCfg : List Str}
    (h : checkSimCfg env cfg = .ok newCfg) (r : Reserved) :
    (readCfg newCfg).get? r.key =
      ((readCfg (cfg.drop (userFrom cfg))).get? r.key).or (some (r.value env)) := by
  obtain ⟨st, hloop, rfl⟩ := checkSimCfg_ok h
  rw [readCfg_insertReserved, drop_withDefaults env hloop, readCfg_map_keepLine]

/-- The reserved options keep their values exactly when a line is refused, or
when among the lines of the user that come after those of `iminnt` the last
definition of each reserved option, as the reader takes it, agrees with
`iminnt`. -/
theorem reservedKept_iff (env : SimEnv) (cfg : List Str) :
    ReservedKept env cfg ↔
      (∃ l ∈ cfg, ∃ e, checkLine l = .error e) ∨
        ∀ (r : Reserved) (v : Str),
          (readCfg (cfg.drop (userFrom cfg))).get? r.key = some v → v = r.value env := by
  unfold ReservedKept
  rw [checkSimCfg_error_iff]
  constructor
  · rintro (hrefused | ⟨newCfg, hok, hkept⟩)
    · exact .inl hrefused
    · refine .inr fun r v hv => ?_
      have h := hkept r
      rw [checkSimCfg_get? hok, hv, Option.some_or] at h
      exact Option.some.inj h
  · rintro (hrefused | hagree)
    · exact .inl hrefused
    · cases hcheck : checkSimCfg env cfg with
      | error e => exact .inl (checkSimCfg_error_iff.1 ⟨e, hcheck⟩)
      | ok newCfg =>
        refine .inr ⟨newCfg, rfl, fun r => ?_⟩
        rw [checkSimCfg_get? hcheck]
        cases hv : (readCfg (cfg.drop (userFrom cfg))).get? r.key with
        | none => rfl
        | some v => rw [hagree r v hv, Option.some_or]

/-- Some paths. -/
def demoEnv : SimEnv where
  qemuUserDir := "/q"
  spikeDir := "/s"
  devEnvRoot := "/d"
  spikeImiRiscvArch := "rv64"
  imiCpuAlias := "imicpu-v1"

/-- A blank before `=` hides the key from the check and not from the reader. -/
theorem overridden : ¬ ReservedKept demoEnv ["threads=1", "perf =/tmp/other.so"] := by
  rintro (⟨e, he⟩ | ⟨newCfg, hok, hkept⟩)
  · have hpass : (checkSimCfg demoEnv ["threads=1", "perf =/tmp/other.so"]).isOk = true := by decide
    rw [he] at hpass
    cases hpass
  · have hread := checkSimCfg_get? hok .perf
    rw [hkept .perf] at hread
    exact absurd hread (by decide)

end AiPipelines.Iminnt
