import AiPipelines.PyStd.JsonDump

/-!
# Python values in front of the `json` encoder

`Json` is what the decoder returns.  The encoder is given more: `PyVal` has tuples, keys that are
no texts, objects that the encoder refuses, and texts with lone surrogates, which no file in UTF-8
can hold.

`toJson` is what the encoder writes for a value, and `asJson?` the value itself where the decoder
could return it.  The two agree (`toJson_of_asJson?`); the encoder also takes a tuple for a list and
a number for the text of a key, and then what it writes is another value.

The module names nothing of the repository.
-/

namespace AiPipelines.PyStd

open Json

/-! ## Texts -/

/-- A code point of a Python `str`: a character or a lone surrogate. -/
inductive CodePoint where
  | char (c : Char)
  | surrogate (n : Fin 2048)
  deriving Repr, DecidableEq

/-- Python `str`. -/
abbrev PyStr := List CodePoint

namespace PyStr

/-- A text without surrogates. -/
def ofStr (s : Str) : PyStr := s.map .char

/-- The text, if it has no surrogate. -/
def toStr? : PyStr → Option Str
  | [] => some []
  | .char c :: s => (toStr? s).map (c :: ·)
  | .surrogate _ :: _ => none

/-- The text with U+FFFD for each surrogate. -/
def toStr (s : PyStr) : Str :=
  s.map fun
    | .char c => c
    | .surrogate _ => '\ufffd'

theorem toStr?_ofStr (s : Str) : (ofStr s).toStr? = some s := by
  induction s with
  | nil => rfl
  | cons c s ih =>
    show (toStr? (ofStr s)).map (c :: ·) = _
    rw [ih]
    rfl

theorem toStr_of_toStr? {s : PyStr} {t : Str} (h : s.toStr? = some t) : s.toStr = t := by
  induction s generalizing t with
  | nil => exact Option.some.inj h
  | cons u s ih =>
    cases u with
    | surrogate n => cases h
    | char c =>
      obtain ⟨t', ht', rfl⟩ := Option.map_eq_some_iff.mp h
      exact congrArg (c :: ·) (ih ht')

end PyStr

/-! ## Values -/

/-- A key of a dictionary. -/
inductive PyKey where
  | text (s : PyStr)
  | int (n : Int)
  | float (literal : Str)
  | bool (b : Bool)
  | none
  /-- A key that the encoder refuses. -/
  | other
  deriving Repr, DecidableEq

/-- A value.  A float is the literal that denotes it. -/
inductive PyVal where
  | null
  | bool (b : Bool)
  | int (n : Int)
  | float (literal : Str)
  | str (s : PyStr)
  | list (xs : List PyVal)
  | tuple (xs : List PyVal)
  | dict (kvs : List (PyKey × PyVal))
  /-- An object that the encoder refuses. -/
  | other

namespace PyKey

/-- The text that the encoder writes for a key. -/
def toText? (p : FloatPrinter) : PyKey → Option Str
  | text s => some s.toStr
  | int n => some (intLiteral n)
  | float l => some (p.literal l)
  | bool b => some (if b then "true" else "false")
  | none => some "null"
  | other => .none

/-- The key, if the decoder could return it. -/
def asText? : PyKey → Option Str
  | text s => s.toStr?
  | _ => .none

/-- A file in UTF-8 can hold the key. -/
def isWritable : PyKey → Bool
  | text s => s.toStr?.isSome
  | _ => true

theorem toText?_of_asText? (p : FloatPrinter) {k : PyKey} {s : Str} (h : k.asText? = some s) :
    k.toText? p = some s ∧ k.isWritable = true := by
  cases k with
  | text t =>
    have ht : t.toStr? = some s := h
    exact ⟨congrArg some (PyStr.toStr_of_toStr? ht), Option.isSome_of_eq_some ht⟩
  | _ => cases h

end PyKey

namespace PyVal

variable (p : FloatPrinter)

mutual

/-- What the encoder writes for a value; `none` is a `TypeError`. -/
def toJson : PyVal → Option Json
  | null => some .null
  | bool b => some (.bool b)
  | int n => some (.int n)
  | float l => some (.float l)
  | str s => some (.str s.toStr)
  | list xs => (toJsonItems xs).map .arr
  | tuple xs => (toJsonItems xs).map .arr
  | dict kvs => (toJsonPairs kvs).map .obj
  | other => none

def toJsonItems : List PyVal → Option (List Json)
  | [] => some []
  | x :: xs => do return (← toJson x) :: (← toJsonItems xs)

def toJsonPairs : List (PyKey × PyVal) → Option (List (Str × Json))
  | [] => some []
  | (k, v) :: kvs => do return (← k.toText? p, ← toJson v) :: (← toJsonPairs kvs)

end

mutual

/-- The value, if the decoder could return it. -/
def asJson? : PyVal → Option Json
  | null => some .null
  | bool b => some (.bool b)
  | int n => some (.int n)
  | float l => some (.float l)
  | str s => s.toStr?.map .str
  | list xs => (asJsonItems? xs).map .arr
  | tuple _ => none
  | dict kvs => (asJsonPairs? kvs).map .obj
  | other => none

def asJsonItems? : List PyVal → Option (List Json)
  | [] => some []
  | x :: xs => do return (← asJson? x) :: (← asJsonItems? xs)

def asJsonPairs? : List (PyKey × PyVal) → Option (List (Str × Json))
  | [] => some []
  | (k, v) :: kvs => do return (← k.asText?, ← asJson? v) :: (← asJsonPairs? kvs)

end

mutual

/-- A file in UTF-8 can hold the texts of the value. -/
def isWritable : PyVal → Bool
  | str s => s.toStr?.isSome
  | list xs => isWritableItems xs
  | tuple xs => isWritableItems xs
  | dict kvs => isWritablePairs kvs
  | _ => true

def isWritableItems : List PyVal → Bool
  | [] => true
  | x :: xs => isWritable x && isWritableItems xs

def isWritablePairs : List (PyKey × PyVal) → Bool
  | [] => true
  | (k, v) :: kvs => k.isWritable && isWritable v && isWritablePairs kvs

end

/-! ## What the decoder could return -/

theorem asJsonItems?_cons {x : PyVal} {xs : List PyVal} {vs : List Json}
    (h : asJsonItems? (x :: xs) = some vs) :
    ∃ v vs', asJson? x = some v ∧ asJsonItems? xs = some vs' ∧ vs = v :: vs' := by
  simp only [asJsonItems?, Option.bind_eq_bind, Option.pure_def, Option.bind_eq_some_iff,
    Option.some.injEq] at h
  obtain ⟨v, hv, vs', hvs, rfl⟩ := h
  exact ⟨v, vs', hv, hvs, rfl⟩

theorem asJsonPairs?_cons {k : PyKey} {x : PyVal} {kvs : List (PyKey × PyVal)}
    {vs : List (Str × Json)} (h : asJsonPairs? ((k, x) :: kvs) = some vs) :
    ∃ s v vs', k.asText? = some s ∧ asJson? x = some v ∧ asJsonPairs? kvs = some vs' ∧
      vs = (s, v) :: vs' := by
  simp only [asJsonPairs?, Option.bind_eq_bind, Option.pure_def, Option.bind_eq_some_iff,
    Option.some.injEq] at h
  obtain ⟨s, hs, v, hv, vs', hvs, rfl⟩ := h
  exact ⟨s, v, vs', hs, hv, hvs, rfl⟩

mutual

/-- What the decoder could return is written as it is. -/
theorem toJson_of_asJson? (x : PyVal) {v : Json} (h : asJson? x = some v) :
    toJson p x = some v ∧ isWritable x = true :=
  match x with
  | null => ⟨h, rfl⟩
  | bool _ => ⟨h, rfl⟩
  | int _ => ⟨h, rfl⟩
  | float _ => ⟨h, rfl⟩
  | str s => by
    obtain ⟨t, ht, rfl⟩ := Option.map_eq_some_iff.mp h
    rw [toJson, PyStr.toStr_of_toStr? ht, isWritable, ht]
    exact ⟨rfl, rfl⟩
  | list xs => by
    obtain ⟨vs, hvs, rfl⟩ := Option.map_eq_some_iff.mp h
    obtain ⟨hwritten, hfile⟩ := toJsonItems_of_asJsonItems? xs hvs
    rw [toJson, hwritten, isWritable]
    exact ⟨rfl, hfile⟩
  | dict kvs => by
    obtain ⟨vs, hvs, rfl⟩ := Option.map_eq_some_iff.mp h
    obtain ⟨hwritten, hfile⟩ := toJsonPairs_of_asJsonPairs? kvs hvs
    rw [toJson, hwritten, isWritable]
    exact ⟨rfl, hfile⟩

theorem toJsonItems_of_asJsonItems? (xs : List PyVal) {vs : List Json}
    (h : asJsonItems? xs = some vs) :
    toJsonItems p xs = some vs ∧ isWritableItems xs = true :=
  match xs with
  | [] => ⟨h, rfl⟩
  | x :: xs => by
    obtain ⟨v, vs', hv, hvs, rfl⟩ := asJsonItems?_cons h
    obtain ⟨hx, hfile⟩ := toJson_of_asJson? x hv
    obtain ⟨hxs, hfiles⟩ := toJsonItems_of_asJsonItems? xs hvs
    simp [toJsonItems, isWritableItems, hx, hxs, hfile, hfiles]

theorem toJsonPairs_of_asJsonPairs? (kvs : List (PyKey × PyVal)) {vs : List (Str × Json)}
    (h : asJsonPairs? kvs = some vs) :
    toJsonPairs p kvs = some vs ∧ isWritablePairs kvs = true :=
  match kvs with
  | [] => ⟨h, rfl⟩
  | (k, x) :: kvs => by
    obtain ⟨s, v, vs', hs, hv, hvs, rfl⟩ := asJsonPairs?_cons h
    obtain ⟨hk, hkey⟩ := PyKey.toText?_of_asText? p hs
    obtain ⟨hx, hfile⟩ := toJson_of_asJson? x hv
    obtain ⟨hkvs, hfiles⟩ := toJsonPairs_of_asJsonPairs? kvs hvs
    simp [toJsonPairs, isWritablePairs, hk, hkey, hx, hkvs, hfile, hfiles]

end

/-- The keys of a dictionary that the decoder could return, and its values. -/
theorem map_of_asJsonPairs? {kvs : List (PyKey × PyVal)} {vs : List (Str × Json)}
    (h : asJsonPairs? kvs = some vs) :
    (kvs.map fun kv => (kv.1.asText?, asJson? kv.2)) = vs.map fun v => (some v.1, some v.2) := by
  induction kvs generalizing vs with
  | nil =>
    obtain rfl := Option.some.inj h
    rfl
  | cons kv kvs ih =>
    obtain ⟨s, v, vs', hs, hv, hvs, rfl⟩ := asJsonPairs?_cons h
    rw [List.map_cons, List.map_cons, hs, hv, ih hvs]

end PyVal

end AiPipelines.PyStd
