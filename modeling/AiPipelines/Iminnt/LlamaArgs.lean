import AiPipelines.PyStd.JsonRoundTrip
import AiPipelines.PyStd.Raise
import Mathlib.Data.Rat.Defs

/-!
# The command line of llama-cli

A request to `/generate` has checked fields and free `extra_args`.  `LlamaCppService.generate`
passes both on, and `_build_qemu_command` puts them into one list, the free ones last.  For
llama-cli the last occurrence of an option counts.

The checked fields are in their ranges, but a seed may be null, and what comes last is an extra
argument if there is one.  `withinLimits_iff` says which requests keep the limits on the command
line.
-/

namespace AiPipelines.Iminnt

open PyStd

/-! ## The request -/

/-- The text of an absolute path. -/
abbrev PathText := {s : Str // ∃ t, s = '/' :: t}

/-- A Python float, with `repr` of it. -/
structure PyFloat where
  value : ℚ
  text : Str
  text_digits : text ≠ [] ∧ ∀ c ∈ text,
    (c.isDigit || c == '.' || c == 'e' || c == '-' || c == '+') = true

/-- `GenerateRequest`, behind its validation. -/
structure GenerateRequest where
  prompt : Str
  maxTokens : Int
  threads : Int
  temperature : PyFloat
  seed : Option Int
  extraArgs : Option (Dict Str Json)
  prompt_ok : prompt ≠ [] ∧ strip prompt = prompt ∧ prompt.length ≤ 10000
  maxTokens_ok : 1 ≤ maxTokens ∧ maxTokens ≤ 4096
  threads_ok : 1 ≤ threads ∧ threads ≤ 4
  temperature_ok : 0 ≤ temperature.value ∧ temperature.value ≤ 2
  seed_ok : ∀ n, seed = some n → 0 ≤ n

/-- The paths of the service, and what `IMI_ENV` has for `CROSS_SYSROOT`. -/
structure LlamaService where
  qemuUserBin : PathText
  llamaCli : PathText
  model : PathText
  isStatic : Bool
  crossSysroot : Option PathText

/-- What is raised before llama-cli is started. -/
inductive GenerateError where
  /-- An argument that is given twice. -/
  | typeError (name : Str)
  | valueError (message : Str)
  deriving DecidableEq

/-! ## The command -/

/-- `IMI_CPU_ALIAS`. -/
def cpuAlias : Str := "imicpu-v1"

/-- The option that a key becomes. -/
def flag (key : Str) : Str :=
  if startsWith "--" key then key
  else if startsWith "-" key then key
  else "--".toList ++ key.map fun c => if c = '_' then '-' else c

/-- What stands behind it: `str(value)`, unless the value is null or empty. -/
def valueText (p : Json.Printer) : Json → Option Str
  | .null => none
  | .str [] => none
  | value => some (value.toStr p)

/-- The round of the loop over `kwargs`. -/
def extraTokens (p : Json.Printer) (entry : Str × Json) : List Str :=
  flag entry.1 :: (valueText p entry.2).toList

/-- `str(seed)`. -/
def seedText : Option Int → Str
  | some n => (toString n).toList
  | none => "None"

/-- The options that come from the service and the checked fields. -/
def llamaArgs (service : LlamaService) (promptFile : PathText) (maxTokens threads : Int)
    (temperature : PyFloat) (seed : Option Int) : List Str :=
  [service.llamaCli.1, "-m", service.model.1, "-t", (toString threads).toList,
    "-n", (toString maxTokens).toList, "--file", promptFile.1, "--seed", seedText seed,
    "-ngl", "0", "--no-warmup", "-no-cnv", "-st"] ++
  if temperature.text ≠ "0.8".toList then ["--temp".toList, temperature.text] else []

/-- `LlamaCppService._build_qemu_command`. -/
def buildQemuCommand (service : LlamaService) (p : Json.Printer) (promptFile : PathText)
    (maxTokens threads : Int) (temperature : PyFloat) (seed : Option Int)
    (kwargs : Dict Str Json) : Except GenerateError (List Str) := do
  let qemuCmd : List Str := [service.qemuUserBin.1, "-cpu", cpuAlias]
  let qemuCmd ←
    if service.isStatic then pure qemuCmd
    else
      match service.crossSysroot with
      | none => .error (.valueError
          "CROSS_SYSROOT not found in IMI_ENV. Required for dynamic binaries.")
      | some sysroot => pure (qemuCmd ++ ["-L".toList, sysroot.1])
  let args := llamaArgs service promptFile maxTokens threads temperature seed ++
    kwargs.flatMap (extraTokens p)
  return qemuCmd ++ args

/-- Python binds the keyword arguments of a call. -/
def bindKwargs (names : List Str) (kwargs : Dict Str Json) : Except GenerateError Unit :=
  match kwargs.keys.find? fun key => names.contains key with
  | some key => .error (.typeError key)
  | none => .ok ()

/-- `LlamaCppService.generate`, up to the argument vector that `subprocess.run` gets. -/
def generateArgv (service : LlamaService) (p : Json.Printer) (promptFile : PathText) (prompt : Str)
    (maxTokens threads : Int) (temperature : PyFloat) (seed : Option Int)
    (kwargs : Dict Str Json) : Except GenerateError (List Str) := do
  if prompt = [] ∨ strip prompt = [] then .error (.valueError "Prompt cannot be empty")
  if maxTokens < 1 then .error (.valueError "max_tokens must be >= 1")
  if threads < 1 then .error (.valueError "threads must be >= 1")
  if ¬ (0 ≤ temperature.value ∧ temperature.value ≤ 2) then
    .error (.valueError "temperature must be between 0.0 and 2.0")
  bindKwargs ["self", "prompt_file", "max_tokens", "threads", "temperature", "seed"] kwargs
  buildQemuCommand service p promptFile maxTokens threads temperature seed kwargs

/-- The endpoint `generate`, up to the argument vector. -/
def requestArgv (service : LlamaService) (p : Json.Printer) (promptFile : PathText)
    (request : GenerateRequest) : Except GenerateError (List Str) := do
  let kwargs := request.extraArgs.getD []
  bindKwargs ["self", "prompt", "max_tokens", "threads", "temperature", "seed"] kwargs
  generateArgv service p promptFile request.prompt request.maxTokens request.threads
    request.temperature request.seed kwargs

/-! ## How llama-cli reads it -/

/-- A decimal integer. -/
def decimal? : Str → Option Int
  | '-' :: ds =>
    if !ds.isEmpty && ds.all Json.isDigit then some (-(Json.digitsToNat ds : Int)) else none
  | ds => if !ds.isEmpty && ds.all Json.isDigit then some (Json.digitsToNat ds : Int) else none

/-- What stands behind the last occurrence of an option. -/
def afterLast (names : List Str) : List Str → Option (List Str)
  | [] => none
  | a :: rest => (afterLast names rest).or (if names.contains a then some rest else none)

/-- The values of an option. -/
def valuesAfter (name : Str) : List Str → List Str
  | [] => []
  | a :: rest => (if a = name then rest.take 1 else []) ++ valuesAfter name rest

/-- `-n` and its long forms. -/
def tokenNames : List Str := ["-n", "--predict", "--n-predict"]

/-- `-t` and its long form. -/
def threadNames : List Str := ["-t", "--threads"]

def IsBetween (lo hi : Int) (text : Str) : Prop := ∃ n, decimal? text = some n ∧ lo ≤ n ∧ n ≤ hi

/-- The value that counts is in a range. -/
def LastBetween (names : List Str) (lo hi : Int) (argv : List Str) : Prop :=
  ∃ value rest, afterLast names argv = some (value :: rest) ∧ IsBetween lo hi value

/-- The limits of the request, on the command line. -/
structure WithinLimits (argv : List Str) : Prop where
  tokens : LastBetween tokenNames 1 4096 argv
  threads : LastBetween threadNames 1 4 argv
  seeds : ∀ value ∈ valuesAfter "--seed" argv, (decimal? value).isSome = true

/-! ## Requests that keep the limits -/

/-- The entry becomes an option of these names, or has one as its value. -/
def touches (p : Json.Printer) (names : List Str) (entry : Str × Json) : Bool :=
  names.contains (flag entry.1) || (valueText p entry.2).any names.contains

/-- The last entry that has to do with an option is the option, with a value in the range. -/
def LastKept (p : Json.Printer) (names : List Str) (lo hi : Int) (extras : Dict Str Json) : Prop :=
  ∀ entry, extras.reverse.find? (touches p names) = some entry →
    flag entry.1 ∈ names ∧ ∃ value, valueText p entry.2 = some value ∧ IsBetween lo hi value

/-- What an entry ends with. -/
def lastToken (p : Json.Printer) (entry : Str × Json) : Str :=
  (valueText p entry.2).getD (flag entry.1)

/-- What stands behind `--seed` is a decimal integer: the value of the entry, or else the key of the
next one. -/
def SeedsFollowed (p : Json.Printer) : Dict Str Json → Prop
  | [] => True
  | entry :: rest =>
    (flag entry.1 = "--seed" → ∀ value ∈ valueText p entry.2, (decimal? value).isSome = true) ∧
    (lastToken p entry = "--seed" → ∀ next ∈ rest.head?, (decimal? (flag next.1)).isSome = true) ∧
    SeedsFollowed p rest

/-- The requests that keep the limits on the command line. -/
structure KeepsLimits (p : Json.Printer) (request : GenerateRequest) : Prop where
  seed : request.seed ≠ none
  tokens : LastKept p tokenNames 1 4096 (request.extraArgs.getD [])
  threads : LastKept p threadNames 1 4 (request.extraArgs.getD [])
  seeds : SeedsFollowed p (request.extraArgs.getD [])

/-! ## Reading a list of arguments -/

variable {names xs ys rest : List Str} {lo hi : Int} {name a : Str}

theorem afterLast_cons (names : List Str) (a : Str) (rest : List Str) :
    afterLast names (a :: rest) =
    (afterLast names rest).or (if names.contains a then some rest else none) := rfl

theorem afterLast_append (names xs ys : List Str) : afterLast names (xs ++ ys) =
    (afterLast names ys).or ((afterLast names xs).map (· ++ ys)) := by
  induction xs with
  | nil => exact (Option.or_none).symm
  | cons a xs ih =>
    rw [List.cons_append, afterLast_cons, afterLast_cons, ih]
    cases afterLast names ys with
    | some behind => rfl
    | none =>
      cases afterLast names xs with
      | some behind => rfl
      | none => split_ifs <;> rfl

theorem afterLast_eq_none (h : ∀ a ∈ xs, a ∉ names) : afterLast names xs = none := by
  induction xs with
  | nil => rfl
  | cons a xs ih =>
    rw [List.forall_mem_cons] at h
    rw [afterLast_cons, ih h.2, if_neg (by simpa using h.1)]
    rfl

theorem exists_afterLast (ha : a ∈ xs) (hname : a ∈ names) :
    ∃ behind, afterLast names xs = some behind := by
  induction xs with
  | nil => exact absurd ha List.not_mem_nil
  | cons x xs ih =>
    rw [afterLast_cons]
    cases hrest : afterLast names xs with
    | some behind => exact ⟨behind, rfl⟩
    | none =>
      rcases List.mem_cons.1 ha with hx | hxs
      · rw [← hx, if_pos (by simpa using hname)]
        exact ⟨xs, rfl⟩
      · obtain ⟨behind, hbehind⟩ := ih hxs
        rw [hrest] at hbehind
        cases hbehind

/-- An option behind counts, and the ones in front do not. -/
theorem lastBetween_append_some {behind : List Str} (h : afterLast names ys = some behind) :
    LastBetween names lo hi (xs ++ ys) ↔ LastBetween names lo hi ys := by
  unfold LastBetween
  rw [afterLast_append, h]
  rfl

theorem lastBetween_append_none (h : afterLast names ys = none)
    (hxs : afterLast names xs = some (a :: rest)) :
    LastBetween names lo hi (xs ++ ys) ↔ IsBetween lo hi a := by
  unfold LastBetween
  rw [afterLast_append, h, hxs]
  constructor
  · rintro ⟨value, behind, heq, hbetween⟩
    rw [← (List.cons.inj (Option.some.inj heq)).1] at hbetween
    exact hbetween
  · intro hbetween
    exact ⟨a, rest ++ ys, rfl, hbetween⟩

theorem valuesAfter_append (h : name ∉ xs) (ys : List Str) :
    valuesAfter name (xs ++ ys) = valuesAfter name ys := by
  induction xs with
  | nil => rfl
  | cons a xs ih =>
    rw [List.mem_cons, not_or] at h
    rw [List.cons_append, valuesAfter, if_neg (Ne.symm h.1), ih h.2]
    rfl

theorem valuesAfter_at {front back : List Str} (hfront : name ∉ front) (ha : name ≠ a)
    (hback : name ∉ back) (ys : List Str) :
    valuesAfter name ((front ++ name :: a :: back) ++ ys) = a :: valuesAfter name ys := by
  have hbehind : valuesAfter name ((a :: back) ++ ys) = valuesAfter name ys :=
    valuesAfter_append (by rw [List.mem_cons, not_or]; exact ⟨ha, hback⟩) ys
  rw [List.append_assoc, valuesAfter_append hfront, List.cons_append, valuesAfter, if_pos rfl,
    hbehind]
  rfl

/-! ## Decimal integers -/

theorem decimal?_digits {ds : Str} (hne : ds ≠ []) (hdigits : ∀ c ∈ ds, Json.isDigit c = true) :
    decimal? ds = some (Json.digitsToNat ds : Int) := by
  obtain ⟨c, cs, rfl⟩ := List.exists_cons_of_ne_nil hne
  have hall : (!(c :: cs).isEmpty && (c :: cs).all Json.isDigit) = true := by
    rw [Bool.and_eq_true]
    exact ⟨rfl, List.all_eq_true.2 hdigits⟩
  rw [decimal?]
  · exact if_pos hall
  · intro ds hcons
    have hc := hdigits c List.mem_cons_self
    rw [(List.cons.inj hcons).1] at hc
    exact absurd hc (by decide)

/-- The text of a natural number. -/
theorem decimal?_toString {n : Int} (h : 0 ≤ n) : decimal? (toString n).toList = some n := by
  obtain ⟨m, rfl⟩ := Int.eq_ofNat_of_zero_le h
  have htext : (toString (m : Int)).toList = Nat.toDigits 10 m := by
    show (Nat.repr m).toList = _
    simp [Nat.repr]
  have hvalue : Json.digitsToNat (Nat.toDigits 10 m) = m := Nat.ofDigitChars_ten_toDigits
  rw [htext, decimal?_digits Nat.toDigits_ne_nil fun c => Json.isDigit_of_mem_toDigits, hvalue]

/-- A text that starts with a hyphen is no positive number. -/
theorem not_isBetween_hyphen (hlo : 0 < lo) (t : Str) : ¬ IsBetween lo hi ('-' :: t) := by
  rintro ⟨n, hn, hle, -⟩
  rw [decimal?] at hn
  split_ifs at hn
  have hneg := Option.some.inj hn
  omega

theorem flag_hyphen (key : Str) : ∃ t, flag key = '-' :: t := by
  unfold flag
  split_ifs with hlong hshort
  · obtain ⟨t, ht⟩ := startsWith_iff.1 hlong
    exact ⟨'-' :: t, ht.symm⟩
  · obtain ⟨t, ht⟩ := startsWith_iff.1 hshort
    exact ⟨t, ht.symm⟩
  · exact ⟨_, rfl⟩

/-! ## The extra arguments -/

variable {p : Json.Printer} {entry : Str × Json} {extras : Dict Str Json}

/-- What the entries become starts with a hyphen. -/
theorem head_extraTokens {value : Str} (h : extras.flatMap (extraTokens p) = value :: rest) :
    ∃ t, value = '-' :: t := by
  cases extras with
  | nil => exact absurd h.symm (List.cons_ne_nil value rest)
  | cons entry extras =>
    rw [← (List.cons.inj h).1]
    exact flag_hyphen entry.1

theorem touches_iff : touches p names entry = true ↔ ∃ a ∈ extraTokens p entry, a ∈ names := by
  unfold touches extraTokens
  cases valueText p entry.2 <;> simp

theorem afterLast_extras_none (h : ∀ entry ∈ extras, touches p names entry = false) :
    afterLast names (extras.flatMap (extraTokens p)) = none := by
  apply afterLast_eq_none
  intro a ha
  obtain ⟨entry, hentry, ha⟩ := List.mem_flatMap.1 ha
  intro hname
  have htouch := touches_iff.2 ⟨a, ha, hname⟩
  rw [h entry hentry] at htouch
  exact absurd htouch (by decide)

/-- An option that has no value of its own gets the next option for its value. -/
theorem not_lastBetween_extras (hlo : 0 < lo)
    (hlast : afterLast names xs = some (extras.flatMap (extraTokens p))) :
    ¬ LastBetween names lo hi xs := by
  rintro ⟨value, rest, heq, hbetween⟩
  rw [hlast] at heq
  obtain ⟨t, rfl⟩ := head_extraTokens (Option.some.inj heq)
  exact not_isBetween_hyphen hlo t hbetween

theorem lastBetween_iff_of_last {value : Str} (hlast : afterLast names xs = some (value :: rest)) :
    LastBetween names lo hi xs ↔ IsBetween lo hi value := by
  constructor
  · rintro ⟨value', rest', heq, hbetween⟩
    rw [hlast] at heq
    rw [(List.cons.inj (Option.some.inj heq)).1]
    exact hbetween
  · exact fun hbetween => ⟨value, rest, hlast, hbetween⟩

/-- The last entry that has to do with an option decides what counts. -/
theorem lastBetween_entry (hlo : 0 < lo) (hnames : ∀ a ∈ names, decimal? a = none)
    (htouch : touches p names entry = true)
    (hbehind : ∀ entry ∈ extras, touches p names entry = false) :
    LastBetween names lo hi (extraTokens p entry ++ extras.flatMap (extraTokens p)) ↔
      flag entry.1 ∈ names ∧ ∃ value, valueText p entry.2 = some value ∧ IsBetween lo hi value := by
  have hnone := afterLast_extras_none hbehind
  unfold extraTokens
  unfold touches at htouch
  cases hvalue : valueText p entry.2 with
  | none =>
    rw [hvalue] at htouch
    have hflag : names.contains (flag entry.1) = true := by simpa using htouch
    have hlast : afterLast names (flag entry.1 :: extras.flatMap (extraTokens p)) =
        some (extras.flatMap (extraTokens p)) := by
      rw [afterLast_cons, hnone, if_pos hflag]
      rfl
    refine iff_of_false (not_lastBetween_extras hlo hlast) ?_
    rintro ⟨-, value, heq, -⟩
    cases heq
  | some text =>
    rw [hvalue] at htouch
    have hcons : afterLast names (flag entry.1 :: text :: extras.flatMap (extraTokens p)) =
        (if names.contains text then some (extras.flatMap (extraTokens p)) else none).or
          (if names.contains (flag entry.1) then some (text :: extras.flatMap (extraTokens p))
            else none) := by
      rw [afterLast_cons, afterLast_cons, hnone]
      rfl
    by_cases htext : names.contains text = true
    · -- the text is taken for an option
      rw [if_pos htext, Option.some_or] at hcons
      refine iff_of_false (not_lastBetween_extras hlo hcons) ?_
      rintro ⟨-, value, heq, n, hn, -⟩
      rw [← Option.some.inj heq, hnames text (by simpa using htext)] at hn
      cases hn
    · have hflag : names.contains (flag entry.1) = true := by
        rw [Option.any_some, Bool.or_eq_true] at htouch
        exact htouch.resolve_right htext
      rw [if_neg htext, if_pos hflag, Option.none_or] at hcons
      refine (lastBetween_iff_of_last hcons).trans ⟨fun hbetween => ?_, ?_⟩
      · exact ⟨by simpa using hflag, text, rfl, hbetween⟩
      · rintro ⟨-, value, heq, hbetween⟩
        rw [Option.some.inj heq]
        exact hbetween

/-- An option that is in its range stays there exactly if the extra arguments keep it. -/
theorem lastBetween_extras (hlo : 0 < lo) (hnames : ∀ a ∈ names, decimal? a = none)
    (hxs : afterLast names xs = some (a :: rest)) (hbetween : IsBetween lo hi a) :
    LastBetween names lo hi (xs ++ extras.flatMap (extraTokens p)) ↔
      LastKept p names lo hi extras := by
  cases hfind : extras.reverse.find? (touches p names) with
  | none =>
    have hno : ∀ entry ∈ extras, touches p names entry = false := by
      intro entry hentry
      exact Bool.eq_false_iff.2 (List.find?_eq_none.1 hfind entry (List.mem_reverse.2 hentry))
    rw [lastBetween_append_none (afterLast_extras_none hno) hxs]
    refine iff_of_true hbetween ?_
    intro entry hentry
    rw [hfind] at hentry
    cases hentry
  | some entry =>
    obtain ⟨htouch, behind, front, hsplit, hbehind⟩ := List.find?_eq_some_iff_append.1 hfind
    have hextras : extras = front.reverse ++ entry :: behind.reverse := by
      have hrev := congrArg List.reverse hsplit
      rw [List.reverse_reverse] at hrev
      rw [hrev]
      simp
    have hno : ∀ other ∈ behind.reverse, touches p names other = false := by
      intro other hother
      simpa using hbehind other (List.mem_reverse.1 hother)
    have hentry :
        LastBetween names lo hi (extraTokens p entry ++ behind.reverse.flatMap (extraTokens p)) ↔
        flag entry.1 ∈ names ∧ ∃ value, valueText p entry.2 = some value ∧ IsBetween lo hi value :=
      lastBetween_entry hlo hnames htouch hno
    obtain ⟨b, hb, hname⟩ := touches_iff.1 htouch
    obtain ⟨after, hafter⟩ := exists_afterLast
      (List.mem_append_left (behind.reverse.flatMap (extraTokens p)) hb) hname
    rw [hextras, List.flatMap_append, List.flatMap_cons, ← List.append_assoc,
      lastBetween_append_some hafter, hentry, ← hextras]
    constructor
    · intro hkept other hother
      rw [hfind] at hother
      rw [← Option.some.inj hother]
      exact hkept
    · intro hkept
      exact hkept entry hfind

theorem take_extras (extras : Dict Str Json) :
    (extras.flatMap (extraTokens p)).take 1 =
    (extras.head?.map fun next => flag next.1).toList := by
  cases extras <;> rfl

theorem forall_mem_ite {c : Prop} [Decidable c] {P : Str → Prop} (xs : List Str) :
    (∀ value ∈ (if c then xs else []), P value) ↔ (c → ∀ value ∈ xs, P value) := by
  by_cases hc : c
  · rw [if_pos hc]
    exact ⟨fun h _ => h, fun h => h hc⟩
  · rw [if_neg hc]
    exact iff_of_true (List.forall_mem_nil _) fun h => absurd h hc

/-- The seeds among the extra arguments. -/
theorem seeds_extras (extras : Dict Str Json) :
    (∀ value ∈ valuesAfter "--seed" (extras.flatMap (extraTokens p)), (decimal? value).isSome =
      true) ↔
      SeedsFollowed p extras := by
  induction extras with
  | nil => exact iff_of_true (List.forall_mem_nil _) trivial
  | cons entry extras ih =>
    have hnext :
        (∀ value ∈ (extras.flatMap (extraTokens p)).take 1, (decimal? value).isSome = true) ↔
        ∀ next ∈ extras.head?, (decimal? (flag next.1)).isSome = true := by
      rw [take_extras]
      cases extras.head? <;> simp
    have htokens : extraTokens p entry = flag entry.1 :: (valueText p entry.2).toList := rfl
    unfold SeedsFollowed lastToken
    rw [← ih, ← hnext, List.flatMap_cons, htokens]
    cases valueText p entry.2 with
    | none =>
      show (∀ value ∈ valuesAfter "--seed" (flag entry.1 :: extras.flatMap (extraTokens p)), _) ↔ _
      rw [valuesAfter, List.forall_mem_append, forall_mem_ite]
      simp
    | some text =>
      show (∀ value ∈ valuesAfter "--seed" (flag entry.1 :: text :: extras.flatMap (extraTokens p)),
        _) ↔ _
      rw [valuesAfter, valuesAfter, List.forall_mem_append, List.forall_mem_append, forall_mem_ite,
        forall_mem_ite]
      simp

/-! ## The command of a request -/

/-- The options that are limited. -/
def limitedNames : List Str := tokenNames ++ threadNames ++ ["--seed".toList]

/-- The argument is none of them. -/
def isPlain (a : Str) : Bool := !limitedNames.contains a

theorem isPlain_iff :
    isPlain a = true ↔ a ∉ tokenNames ∧ a ∉ threadNames ∧ a ≠ "--seed".toList := by
  unfold isPlain limitedNames
  rw [Bool.not_eq_true', ← Bool.not_eq_true, List.contains_iff_mem, List.mem_append,
    List.mem_append, List.mem_singleton, not_or, not_or, and_assoc]

theorem isPlain_of_ne (h : ∀ s ∈ limitedNames, a ≠ s) : isPlain a = true := by
  unfold isPlain
  rw [Bool.not_eq_true', ← Bool.not_eq_true, List.contains_iff_mem]
  exact fun hmem => h a hmem rfl

theorem isPlain_path (path : PathText) : isPlain path.1 = true := by
  have hhead : ∀ s ∈ limitedNames, s.head? ≠ some '/' := by decide
  apply isPlain_of_ne
  intro s hs heq
  obtain ⟨t, ht⟩ := path.2
  apply hhead s hs
  rw [← heq, ht]
  rfl

theorem isPlain_float (x : PyFloat) : isPlain x.text = true := by
  have hletter : ∀ s ∈ limitedNames,
      s.all (fun c => c.isDigit || c == '.' || c == 'e' || c == '-' || c == '+') = false := by
        decide
  apply isPlain_of_ne
  intro s hs heq
  have hfalse := hletter s hs
  rw [← heq, List.all_eq_true.2 x.text_digits.2] at hfalse
  exact absurd hfalse (by decide)

variable {service : LlamaService} {promptFile : PathText} {request : GenerateRequest}
  {argv : List Str}

/-- A command that is started has passed the checks. -/
theorem requestArgv_build (h : requestArgv service p promptFile request = .ok argv) :
    buildQemuCommand service p promptFile request.maxTokens request.threads request.temperature
      request.seed (request.extraArgs.getD []) = .ok argv := by
  unfold requestArgv at h
  obtain ⟨-, -, h⟩ := bind_eq_ok_iff.1 h
  unfold generateArgv at h
  split_ifs at h <;> first | cases h | obtain ⟨-, -, h⟩ := bind_eq_ok_iff.1 h
  exact h

/-- The command in front of the options of llama-cli. -/
theorem buildQemuCommand_ok {maxTokens threads : Int} {temperature : PyFloat} {seed : Option Int}
    {kwargs : Dict Str Json}
    (h : buildQemuCommand service p promptFile maxTokens threads temperature seed kwargs =
      .ok argv) :
    ∃ front, (∀ a ∈ front, isPlain a = true) ∧ argv = front ++
      (llamaArgs service promptFile maxTokens threads temperature seed ++
        kwargs.flatMap (extraTokens p)) := by
  have hqemu : ∀ a ∈ [service.qemuUserBin.1, "-cpu".toList, cpuAlias], isPlain a = true := by
    rw [List.forall_mem_cons, List.forall_mem_cons, List.forall_mem_singleton]
    exact ⟨isPlain_path _, by decide, by decide⟩
  unfold buildQemuCommand at h
  cases hstatic : service.isStatic with
  | true =>
    simp only [hstatic, if_true] at h
    exact ⟨_, hqemu, (Except.ok.inj h).symm⟩
  | false =>
    cases hsysroot : service.crossSysroot with
    | none =>
      simp only [hstatic, hsysroot] at h
      cases h
    | some sysroot =>
      simp only [hstatic, hsysroot] at h
      refine ⟨_, ?_, (Except.ok.inj h).symm⟩
      refine List.forall_mem_append.2 ⟨hqemu, ?_⟩
      rw [List.forall_mem_cons, List.forall_mem_singleton]
      exact ⟨by decide, isPlain_path sysroot⟩

/-- The arguments from the thread count to the seed. -/
def checkedArgs (promptFile : PathText) (request : GenerateRequest) : List Str :=
  ["-t".toList, (toString request.threads).toList, "-n".toList, (toString request.maxTokens).toList,
    "--file".toList, promptFile.1, "--seed".toList, seedText request.seed]

/-- The parts of the argument vector. -/
theorem requestArgv_split (h : requestArgv service p promptFile request = .ok argv) :
    ∃ front back, (∀ a ∈ front, isPlain a = true) ∧ (∀ a ∈ back, isPlain a = true) ∧
      argv = front ++ checkedArgs promptFile request ++ back ++
        (request.extraArgs.getD []).flatMap (extraTokens p) := by
  obtain ⟨front, hfront, rfl⟩ := buildQemuCommand_ok (requestArgv_build h)
  refine ⟨front ++ [service.llamaCli.1, "-m".toList, service.model.1],
    ["-ngl".toList, "0".toList, "--no-warmup".toList, "-no-cnv".toList, "-st".toList] ++
      if request.temperature.text ≠ "0.8".toList then ["--temp".toList, request.temperature.text]
        else [],
    ?_, ?_, ?_⟩
  · refine List.forall_mem_append.2 ⟨hfront, ?_⟩
    rw [List.forall_mem_cons, List.forall_mem_cons, List.forall_mem_singleton]
    exact ⟨isPlain_path _, by decide, isPlain_path _⟩
  · refine List.forall_mem_append.2 ⟨by decide, ?_⟩
    split_ifs
    · rw [List.forall_mem_cons, List.forall_mem_singleton]
      exact ⟨by decide, isPlain_float _⟩
    · exact List.forall_mem_nil _
  · unfold llamaArgs checkedArgs
    simp only [List.append_assoc, List.cons_append, List.nil_append]

theorem limited_not_decimal : ∀ s ∈ limitedNames, decimal? s = none := by decide

theorem isPlain_decimal (h : (decimal? a).isSome = true) : isPlain a = true := by
  apply isPlain_of_ne
  intro s hs heq
  rw [heq, limited_not_decimal s hs] at h
  cases h

theorem isPlain_seedText (seed : Option Int) (h : ∀ n, seed = some n → 0 ≤ n) :
    isPlain (seedText seed) = true := by
  cases seed with
  | none => rfl
  | some n =>
    apply isPlain_decimal
    unfold seedText
    rw [decimal?_toString (h n rfl)]
    rfl

theorem seedText_decimal (seed : Option Int) (h : ∀ n, seed = some n → 0 ≤ n) :
    (decimal? (seedText seed)).isSome = true ↔ seed ≠ none := by
  cases seed with
  | none => exact iff_of_false (by decide) fun hne => hne rfl
  | some n =>
    unfold seedText
    rw [decimal?_toString (h n rfl)]
    exact iff_of_true rfl (Option.some_ne_none n)

theorem afterLast_at {behind : List Str} (hname : a ∈ names) (hbehind : ∀ b ∈ behind, b ∉ names)
    (front : List Str) : afterLast names (front ++ a :: behind) = some behind := by
  rw [afterLast_append, afterLast_cons, afterLast_eq_none hbehind,
    if_pos (by simpa using hname)]
  rfl

section Checked

variable {front back : List Str}

theorem decimal?_threads (request : GenerateRequest) :
    decimal? (toString request.threads).toList = some request.threads :=
  decimal?_toString (Int.le_trans (by decide) request.threads_ok.1)

theorem decimal?_maxTokens (request : GenerateRequest) :
    decimal? (toString request.maxTokens).toList = some request.maxTokens :=
  decimal?_toString (Int.le_trans (by decide) request.maxTokens_ok.1)

theorem isPlain_threads (request : GenerateRequest) :
    isPlain (toString request.threads).toList = true :=
  isPlain_decimal (by rw [decimal?_threads]; rfl)

theorem isPlain_maxTokens (request : GenerateRequest) :
    isPlain (toString request.maxTokens).toList = true :=
  isPlain_decimal (by rw [decimal?_maxTokens]; rfl)

/-- The last value behind `-n` is the checked one or an extra argument. -/
theorem lastTokens_iff (hback : ∀ a ∈ back, isPlain a = true) :
    LastBetween tokenNames 1 4096
        (front ++ checkedArgs promptFile request ++ back ++ extras.flatMap (extraTokens p)) ↔
      LastKept p tokenNames 1 4096 extras := by
  have hsplit : front ++ checkedArgs promptFile request ++ back =
      (front ++ ["-t".toList, (toString request.threads).toList]) ++ "-n".toList ::
        (toString request.maxTokens).toList :: "--file".toList :: promptFile.1 :: "--seed".toList ::
          seedText request.seed :: back := by
    simp only [checkedArgs, List.append_assoc, List.cons_append, List.nil_append]
  have hplainSeed := isPlain_seedText request.seed request.seed_ok
  rw [hsplit]
  refine lastBetween_extras (by decide) (by decide) (afterLast_at (by decide) ?_ _)
    ⟨_, decimal?_maxTokens request, request.maxTokens_ok⟩
  simp only [List.forall_mem_cons]
  exact ⟨(isPlain_iff.1 (isPlain_maxTokens request)).1, by decide,
    (isPlain_iff.1 (isPlain_path promptFile)).1, by decide, (isPlain_iff.1 hplainSeed).1,
    fun b hb => (isPlain_iff.1 (hback b hb)).1⟩

/-- The last value behind `-t`. -/
theorem lastThreads_iff (hback : ∀ a ∈ back, isPlain a = true) :
    LastBetween threadNames 1 4
        (front ++ checkedArgs promptFile request ++ back ++ extras.flatMap (extraTokens p)) ↔
      LastKept p threadNames 1 4 extras := by
  have hsplit : front ++ checkedArgs promptFile request ++ back =
      front ++ "-t".toList :: (toString request.threads).toList :: "-n".toList ::
        (toString request.maxTokens).toList :: "--file".toList :: promptFile.1 :: "--seed".toList ::
          seedText request.seed :: back := by
    simp only [checkedArgs, List.append_assoc, List.cons_append, List.nil_append]
  have hplainSeed := isPlain_seedText request.seed request.seed_ok
  rw [hsplit]
  refine lastBetween_extras (by decide) (by decide) (afterLast_at (by decide) ?_ _)
    ⟨_, decimal?_threads request, request.threads_ok⟩
  simp only [List.forall_mem_cons]
  exact ⟨(isPlain_iff.1 (isPlain_threads request)).2.1, by decide,
    (isPlain_iff.1 (isPlain_maxTokens request)).2.1, by decide,
    (isPlain_iff.1 (isPlain_path promptFile)).2.1, by decide, (isPlain_iff.1 hplainSeed).2.1,
    fun b hb => (isPlain_iff.1 (hback b hb)).2.1⟩

/-- The values behind `--seed`. -/
theorem seeds_checked (hfront : ∀ a ∈ front, isPlain a = true)
    (hback : ∀ a ∈ back, isPlain a = true) :
    valuesAfter "--seed"
        (front ++ checkedArgs promptFile request ++ back ++ extras.flatMap (extraTokens p)) =
      seedText request.seed :: valuesAfter "--seed" (extras.flatMap (extraTokens p)) := by
  have hsplit : front ++ checkedArgs promptFile request ++ back =
      (front ++ ["-t".toList, (toString request.threads).toList, "-n".toList,
        (toString request.maxTokens).toList, "--file".toList, promptFile.1]) ++ "--seed".toList ::
          seedText request.seed :: back := by
    simp only [checkedArgs, List.append_assoc, List.cons_append, List.nil_append]
  have hplainSeed := isPlain_seedText request.seed request.seed_ok
  rw [hsplit]
  refine valuesAfter_at ?_ (Ne.symm (isPlain_iff.1 hplainSeed).2.2) ?_ _
  · intro hmem
    rcases List.mem_append.1 hmem with hmem | hmem
    · exact (isPlain_iff.1 (hfront _ hmem)).2.2 rfl
    · simp only [List.mem_cons, List.not_mem_nil, or_false] at hmem
      rcases hmem with hmem | hmem | hmem | hmem | hmem | hmem
      · exact absurd hmem (by decide)
      · exact (isPlain_iff.1 (isPlain_threads request)).2.2 hmem.symm
      · exact absurd hmem (by decide)
      · exact (isPlain_iff.1 (isPlain_maxTokens request)).2.2 hmem.symm
      · exact absurd hmem (by decide)
      · exact (isPlain_iff.1 (isPlain_path promptFile)).2.2 hmem.symm
  · exact fun hmem => (isPlain_iff.1 (hback _ hmem)).2.2 rfl

end Checked

/-- The limits hold on the command line of exactly these requests. -/
theorem withinLimits_iff (h : requestArgv service p promptFile request = .ok argv) :
    WithinLimits argv ↔ KeepsLimits p request := by
  obtain ⟨front, back, hfront, hback, rfl⟩ := requestArgv_split h
  constructor
  · rintro ⟨hn, ht, hs⟩
    rw [seeds_checked hfront hback, List.forall_mem_cons, seedText_decimal _ request.seed_ok,
      seeds_extras] at hs
    exact ⟨hs.1, (lastTokens_iff hback).1 hn, (lastThreads_iff hback).1 ht, hs.2⟩
  · rintro ⟨hseed, hn, ht, hs⟩
    refine ⟨(lastTokens_iff hback).2 hn, (lastThreads_iff hback).2 ht, ?_⟩
    rw [seeds_checked hfront hback, List.forall_mem_cons, seedText_decimal _ request.seed_ok,
      seeds_extras]
    exact ⟨hseed, hs⟩

/-- A service with a static binary. -/
def staticService : LlamaService where
  qemuUserBin := ⟨"/opt/csqemu/bin/qemu-riscv64", "opt/csqemu/bin/qemu-riscv64", rfl⟩
  llamaCli := ⟨"/opt/llama/bin/llama-cli", "opt/llama/bin/llama-cli", rfl⟩
  model := ⟨"/opt/llama/models/stories15M-q4_0.gguf", "opt/llama/models/stories15M-q4_0.gguf", rfl⟩
  isStatic := true
  crossSysroot := none

def promptPath : PathText := ⟨"/tmp/prompt.txt", "tmp/prompt.txt", rfl⟩

/-- Texts in quotes, without escapes, and floats as they are written. -/
def plainPrinter : Json.Printer where
  reprStr := fun s => '\'' :: s ++ ['\'']
  reprFloat := fun literal => literal

/-- A request with these extra arguments. -/
def greeting (extraArgs : Dict Str Json) : GenerateRequest where
  prompt := "Hello"
  maxTokens := 32
  threads := 2
  temperature := ⟨1, "1.0", by decide, List.all_eq_true.1 (by decide)⟩
  seed := some 42
  extraArgs := some extraArgs
  prompt_ok := by decide
  maxTokens_ok := by decide
  threads_ok := by decide
  temperature_ok := by decide
  seed_ok := fun n hn => Option.some.inj hn ▸ by decide

/-- An extra argument in the range. -/
theorem withinLimits_sixtyFour :
    ∃ argv, requestArgv staticService plainPrinter promptPath (greeting [("-n", .int 64)]) =
      .ok argv ∧
      WithinLimits argv := by
  have hkeeps : KeepsLimits plainPrinter (greeting [("-n", .int 64)]) := by
    refine ⟨by decide, ?_, ?_, ?_⟩
    · intro entry hentry
      obtain rfl := Option.some.inj hentry
      exact ⟨by decide, "64".toList, by decide, 64, by decide, by decide⟩
    · intro entry hentry
      cases hentry
    · exact ⟨by decide, by decide, trivial⟩
  have hargv : ∃ argv,
      requestArgv staticService plainPrinter promptPath (greeting [("-n", .int 64)]) = .ok argv :=
        ⟨_, rfl⟩
  obtain ⟨argv, hargv⟩ := hargv
  exact ⟨argv, hargv, (withinLimits_iff hargv).2 hkeeps⟩

/-- An extra argument that lifts the limit. -/
theorem unlimitedTokens :
    ∃ argv, requestArgv staticService plainPrinter promptPath (greeting [("-n", .int 100000)]) =
      .ok argv ∧
      ¬ WithinLimits argv := by
  refine ⟨_, rfl, ?_⟩
  rintro ⟨⟨value, rest, hafter, n, hn, -, hle⟩, -, -⟩
  have hlast := (List.cons.inj (Option.some.inj hafter)).1
  rw [← hlast] at hn
  have hvalue : n = 100000 := (Option.some.inj hn).symm
  omega

end AiPipelines.Iminnt
