import AiPipelines.PyStd.Json

/-!
# Python's `json` encoder

`json.dumps(v, indent=2)`, with and without `ensure_ascii`.
`AiPipelines.PyStd.JsonRoundTrip` proves that `loads` reads the value back.

* A float is dumped as the shortest literal that denotes it.  The literal comes
  from outside, and `FloatPrinter` says what the encoder relies on.  `canon`
  carries every float as that literal, so two values with the same `canon` are
  the same Python value.
* The encoder raises when a value is nested too deep and when an integer has too
  many digits; `encodable` is that check, in the order of the encoder.
* The keys of a Python object are distinct, which the list in `Json.obj` does not
  say; `DistinctKeys` says it.

The module names nothing of the repository.
-/

namespace AiPipelines.PyStd.Json

/-- Why `json.dumps` raised. -/
inductive DumpError where
  | recursion
  | intDigits
  deriving Repr, DecidableEq

/-! ## Strings -/

/-- A line feed and the blanks of a nesting level. -/
def newline (level : Nat) : Str := '\n' :: List.replicate (2 * level) ' '

/-- The escape of one code unit: four hexadecimal digits. -/
def escapeUnit (n : Nat) : Str :=
  ['\\', 'u', Nat.digitChar (n / 4096), Nat.digitChar (n / 256 % 16),
    Nat.digitChar (n / 16 % 16), Nat.digitChar (n % 16)]

/-- The two units of a character outside of the basic plane. -/
def surrogates (n : Nat) : List Nat :=
  [0xd800 + (n - 0x10000) / 1024, 0xdc00 + (n - 0x10000) % 1024]

/-- A character that is written as it is. -/
def isPlain (ensureAscii : Bool) (c : Char) : Bool :=
  0x20 ≤ c.toNat && (!ensureAscii || c.toNat ≤ 0x7e)

/-- One character of a string. -/
def escapeChar (ensureAscii : Bool) (c : Char) : Str :=
  if c = '"' then ['\\', '"']
  else if c = '\\' then ['\\', '\\']
  else if c = '\n' then ['\\', 'n']
  else if c = '\r' then ['\\', 'r']
  else if c = '\t' then ['\\', 't']
  else if c = '\x0c' then ['\\', 'f']
  else if c = '\x08' then ['\\', 'b']
  else if isPlain ensureAscii c then [c]
  else if c.toNat < 0x10000 then escapeUnit c.toNat
  else (surrogates c.toNat).flatMap escapeUnit

/-- A string with its quotes. -/
def quote (ensureAscii : Bool) (s : Str) : Str := '"' :: s.flatMap (escapeChar ensureAscii) ++ ['"']

/-! ## Numbers -/

/-- `int.__repr__`. -/
def intLiteral : Int → Str
  | .ofNat n => Nat.toDigits 10 n
  | .negSucc n => '-' :: Nat.toDigits 10 (n + 1)

/-- The number scanner reads exactly this float. -/
def scansFloat (neg : Bool) (s l : Str) : Bool :=
  match scanNumber neg s with
  | .ok (.float l', []) => l' == l
  | _ => false

/-- A literal that the decoder reads as the float that it is. -/
def isFloat (l : Str) : Bool :=
  l == ("NaN" : Str) || l == ("Infinity" : Str) || l == ("-Infinity" : Str) ||
    match l with
    | '-' :: s => scansFloat true s l
    | s => scansFloat false s l

/-- What `json.dumps` writes for the float that a literal denotes. -/
structure FloatPrinter where
  literal : Str → Str
  literal_isFloat : ∀ l, isFloat (literal l) = true
  literal_literal : ∀ l, literal (literal l) = literal l

/-- The printer for literals that are already the shortest. -/
def FloatPrinter.verbatim : FloatPrinter where
  literal l := if isFloat l then l else "0.0"
  literal_isFloat l := by
    split_ifs with h
    · exact h
    · rfl
  literal_literal l := by
    by_cases h : isFloat l = true
    · rw [if_pos h, if_pos h]
    · rw [if_neg h, ite_self]

/-! ## Values -/

variable (p : FloatPrinter) (ensureAscii : Bool)

mutual

/-- The text of a value at a nesting level. -/
def dump (level : Nat) : Json → Str
  | null => "null"
  | bool b => if b then "true" else "false"
  | int n => intLiteral n
  | float l => p.literal l
  | str s => quote ensureAscii s
  | arr [] => "[]"
  | arr (x :: xs) =>
    '[' :: newline (level + 1) ++ dump (level + 1) x ++ dumpItems (level + 1) xs ++
      newline level ++ [']']
  | obj [] => "\x7b\x7d"
  | obj ((k, v) :: kvs) =>
    '\x7b' :: newline (level + 1) ++ quote ensureAscii k ++ [':', ' '] ++ dump (level + 1) v ++
      dumpPairs (level + 1) kvs ++ newline level ++ ['\x7d']

/-- The further items of an array. -/
def dumpItems (level : Nat) : List Json → Str
  | [] => []
  | x :: xs => ',' :: newline level ++ dump level x ++ dumpItems level xs

/-- The further items of an object. -/
def dumpPairs (level : Nat) : List (Str × Json) → Str
  | [] => []
  | (k, v) :: kvs =>
    ',' :: newline level ++ quote ensureAscii k ++ [':', ' '] ++ dump level v ++ dumpPairs level kvs

end

mutual

/-- Whether the encoder comes through, where `depth` is how deep the interpreter
lets arrays and objects nest. -/
def encodable : Nat → Json → Except DumpError Unit
  | _, int n =>
    if intMaxStrDigits < (Nat.toDigits 10 n.natAbs).length then .error .intDigits else .ok ()
  | 0, arr _ => .error .recursion
  | depth + 1, arr xs => encodableItems depth xs
  | 0, obj _ => .error .recursion
  | depth + 1, obj kvs => encodablePairs depth kvs
  | _, _ => .ok ()

def encodableItems (depth : Nat) : List Json → Except DumpError Unit
  | [] => .ok ()
  | x :: xs => do
    encodable depth x
    encodableItems depth xs

def encodablePairs (depth : Nat) : List (Str × Json) → Except DumpError Unit
  | [] => .ok ()
  | (_, v) :: kvs => do
    encodable depth v
    encodablePairs depth kvs

end

/-- `json.dumps(v, indent=2, ensure_ascii=ensureAscii)`. -/
def dumps (depth : Nat) (v : Json) : Except DumpError Str := do
  encodable depth v
  return dump p ensureAscii 0 v

/-! ## Python values -/

mutual

/-- The same value, with every float carried as the literal that is printed. -/
def canon : Json → Json
  | float l => float (p.literal l)
  | arr xs => arr (canonItems xs)
  | obj kvs => obj (canonPairs kvs)
  | v => v

def canonItems : List Json → List Json
  | [] => []
  | x :: xs => canon x :: canonItems xs

def canonPairs : List (Str × Json) → List (Str × Json)
  | [] => []
  | (k, v) :: kvs => (k, canon v) :: canonPairs kvs

end

mutual

/-- No object has a key twice. -/
def DistinctKeys : Json → Prop
  | arr xs => DistinctKeysItems xs
  | obj kvs => (kvs.map Prod.fst).Nodup ∧ DistinctKeysPairs kvs
  | _ => True

def DistinctKeysItems : List Json → Prop
  | [] => True
  | x :: xs => DistinctKeys x ∧ DistinctKeysItems xs

def DistinctKeysPairs : List (Str × Json) → Prop
  | [] => True
  | (_, v) :: kvs => DistinctKeys v ∧ DistinctKeysPairs kvs

end

/-! ## Induction over a value -/

/-- The items of an array and the values of an object come first. -/
theorem induct {P : Json → Prop} (hnull : P null) (hbool : ∀ b, P (bool b)) (hint : ∀ n, P (int n))
    (hfloat : ∀ l, P (float l)) (hstr : ∀ s, P (str s))
    (harr : ∀ xs, (∀ x ∈ xs, P x) → P (arr xs))
    (hobj : ∀ kvs, (∀ kv ∈ kvs, P kv.2) → P (obj kvs)) (v : Json) : P v :=
  match v with
  | null => hnull
  | bool b => hbool b
  | int n => hint n
  | float l => hfloat l
  | str s => hstr s
  | arr xs => harr xs fun x _ => induct hnull hbool hint hfloat hstr harr hobj x
  | obj kvs => hobj kvs fun kv _ => induct hnull hbool hint hfloat hstr harr hobj kv.2
termination_by sizeOf v
decreasing_by
  · simp only [arr.sizeOf_spec]
    have := List.sizeOf_lt_of_mem ‹x ∈ xs›
    omega
  · simp only [obj.sizeOf_spec]
    have hkv := List.sizeOf_lt_of_mem ‹kv ∈ kvs›
    have hv : sizeOf kv = 1 + sizeOf kv.1 + sizeOf kv.2 := Prod.mk.sizeOf_spec kv.1 kv.2
    omega

/-! ## The items of arrays and objects -/

variable {p} {ensureAscii}

theorem canonItems_eq (xs : List Json) : canonItems p xs = xs.map (canon p) := by
  induction xs with
  | nil => rfl
  | cons x xs ih => rw [canonItems, ih, List.map_cons]

theorem canonPairs_eq (kvs : List (Str × Json)) :
    canonPairs p kvs = kvs.map fun kv => (kv.1, canon p kv.2) := by
  induction kvs with
  | nil => rfl
  | cons kv kvs ih => rw [canonPairs, ih, List.map_cons]

theorem distinctKeysItems_iff {xs : List Json} :
    DistinctKeysItems xs ↔ ∀ x ∈ xs, DistinctKeys x := by
  induction xs with
  | nil => simp [DistinctKeysItems]
  | cons x xs ih => rw [DistinctKeysItems, ih, List.forall_mem_cons]

theorem distinctKeysPairs_iff {kvs : List (Str × Json)} :
    DistinctKeysPairs kvs ↔ ∀ kv ∈ kvs, DistinctKeys kv.2 := by
  induction kvs with
  | nil => simp [DistinctKeysPairs]
  | cons kv kvs ih => rw [DistinctKeysPairs, ih, List.forall_mem_cons]

theorem bind_ok_unit_iff {r r' : Except DumpError Unit} :
    (do r; r') = .ok () ↔ r = .ok () ∧ r' = .ok () := by
  cases r with
  | error e =>
    constructor
    · intro h
      cases h
    · intro h
      cases h.1
  | ok u =>
    constructor
    · intro h
      exact ⟨rfl, h⟩
    · intro h
      exact h.2

theorem encodableItems_iff {depth : Nat} {xs : List Json} :
    encodableItems depth xs = .ok () ↔ ∀ x ∈ xs, encodable depth x = .ok () := by
  induction xs with
  | nil => simp [encodableItems]
  | cons x xs ih => rw [encodableItems, bind_ok_unit_iff, ih, List.forall_mem_cons]

theorem encodablePairs_iff {depth : Nat} {kvs : List (Str × Json)} :
    encodablePairs depth kvs = .ok () ↔ ∀ kv ∈ kvs, encodable depth kv.2 = .ok () := by
  induction kvs with
  | nil => simp [encodablePairs]
  | cons kv kvs ih => rw [encodablePairs, bind_ok_unit_iff, ih, List.forall_mem_cons]

/-! ## The same value

Printing a float again gives the same literal, and neither the keys nor the
nesting of a value depend on its literals. -/

theorem canon_canon (v : Json) : canon p (canon p v) = canon p v := by
  induction v using induct with
  | hnull => rfl
  | hbool b => rfl
  | hint n => rfl
  | hfloat l => rw [canon, canon, p.literal_literal]
  | hstr s => rfl
  | harr xs ih =>
    simp only [canon, canonItems_eq, List.map_map]
    congr 1
    exact List.map_congr_left ih
  | hobj kvs ih =>
    simp only [canon, canonPairs_eq, List.map_map]
    congr 1
    apply List.map_congr_left
    intro kv hkv
    exact Prod.ext rfl (ih kv hkv)

theorem distinctKeys_canon (v : Json) : DistinctKeys (canon p v) ↔ DistinctKeys v := by
  induction v using induct with
  | hnull => exact Iff.rfl
  | hbool b => exact Iff.rfl
  | hint n => exact Iff.rfl
  | hfloat l => exact Iff.rfl
  | hstr s => exact Iff.rfl
  | harr xs ih =>
    rw [canon, DistinctKeys, DistinctKeys, distinctKeysItems_iff, distinctKeysItems_iff,
      canonItems_eq, List.forall_mem_map]
    exact forall₂_congr ih
  | hobj kvs ih =>
    have hkeys : (canonPairs p kvs).map Prod.fst = kvs.map Prod.fst := by
      rw [canonPairs_eq, List.map_map]
      rfl
    rw [canon, DistinctKeys, DistinctKeys, distinctKeysPairs_iff, distinctKeysPairs_iff, hkeys,
      canonPairs_eq, List.forall_mem_map]
    exact and_congr_right fun _ => forall₂_congr ih

theorem encodable_canon (depth : Nat) (v : Json) :
    encodable depth (canon p v) = .ok () ↔ encodable depth v = .ok () := by
  induction v using induct generalizing depth with
  | hnull => exact Iff.rfl
  | hbool b => exact Iff.rfl
  | hint n => exact Iff.rfl
  | hfloat l => cases depth <;> exact Iff.rfl
  | hstr s => exact Iff.rfl
  | harr xs ih =>
    cases depth with
    | zero => exact Iff.rfl
    | succ depth =>
      rw [canon, encodable, encodable, encodableItems_iff, encodableItems_iff, canonItems_eq,
        List.forall_mem_map]
      exact forall₂_congr fun x hx => ih x hx depth
  | hobj kvs ih =>
    cases depth with
    | zero => exact Iff.rfl
    | succ depth =>
      rw [canon, encodable, encodable, encodablePairs_iff, encodablePairs_iff, canonPairs_eq,
        List.forall_mem_map]
      exact forall₂_congr fun kv hkv => ih kv hkv depth

/-- What can be encoded can be encoded where more nesting is allowed. -/
theorem encodable_mono {depth depth' : Nat} (hle : depth ≤ depth') {v : Json}
    (h : encodable depth v = .ok ()) : encodable depth' v = .ok () := by
  induction v using induct generalizing depth depth' with
  | hnull => cases depth' <;> rfl
  | hbool b => cases depth' <;> rfl
  | hint n => cases depth <;> cases depth' <;> exact h
  | hfloat l => cases depth' <;> rfl
  | hstr s => cases depth' <;> rfl
  | harr xs ih =>
    cases depth with
    | zero => cases h
    | succ depth =>
      obtain ⟨depth', rfl⟩ : ∃ d, depth' = d + 1 := ⟨depth' - 1, by omega⟩
      rw [encodable, encodableItems_iff] at h ⊢
      exact fun x hx => ih x hx (Nat.le_of_succ_le_succ hle) (h x hx)
  | hobj kvs ih =>
    cases depth with
    | zero => cases h
    | succ depth =>
      obtain ⟨depth', rfl⟩ : ∃ d, depth' = d + 1 := ⟨depth' - 1, by omega⟩
      rw [encodable, encodablePairs_iff] at h ⊢
      exact fun kv hkv => ih kv hkv (Nat.le_of_succ_le_succ hle) (h kv hkv)

end AiPipelines.PyStd.Json
