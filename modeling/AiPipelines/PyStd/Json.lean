import AiPipelines.PyStd.Dict
import AiPipelines.PyStd.Str

/-!
# Python's `json` decoder

`Json` is what `json.loads` returns, and `loads` is the decoder, written
after the scanner of the standard library: `scanOnce` looks at the first
character and reads one value, `scanString` reads up to the closing quote,
`scanNumber` reads a number literal.

Three points of the standard library are kept.

* Of a repeated key the last value counts, at the place of the first
  (`Dict.set`).
* `NaN`, `Infinity` and `-Infinity` are accepted.
* There are three ways to fail, and only the first is a `JSONDecodeError`:
  the text is not JSON; it is nested deeper than the interpreter allows
  (`RecursionError`); an integer has more digits than `int` converts
  (`ValueError`).

`repr` and `toStr` print a value.  A float is carried as the literal that
denotes it.  A `Str` holds Unicode
scalar values only, so the escape of a lone surrogate, which Python keeps as
it is, is read as U+FFFD.

The module names nothing of the repository.
-/

namespace AiPipelines.PyStd

/-- A decoded JSON value. -/
inductive Json where
  | null
  | bool (b : Bool)
  | int (n : Int)
  | float (literal : Str)
  | str (s : Str)
  | arr (xs : List Json)
  | obj (kvs : List (Str × Json))
  deriving Repr

/-- Why `json.loads` raised. -/
inductive LoadError where
  | decode
  | recursion
  | intDigits
  deriving Repr, DecidableEq

namespace Json

/-! ## Strings -/

/-- The blanks that JSON allows between tokens. -/
def skipWs (s : Str) : Str := s.dropWhile (fun c => c == ' ' || c == '\t' || c == '\n' || c == '\r')

def hexDigit? (c : Char) : Option Nat :=
  if '0' ≤ c ∧ c ≤ '9' then some (c.toNat - '0'.toNat)
  else if 'a' ≤ c ∧ c ≤ 'f' then some (c.toNat - 'a'.toNat + 10)
  else if 'A' ≤ c ∧ c ≤ 'F' then some (c.toNat - 'A'.toNat + 10)
  else none

/-- Four hexadecimal digits. -/
def hex4? (a b c d : Char) : Option Nat := do
  return 4096 * (← hexDigit? a) + 256 * (← hexDigit? b) + 16 * (← hexDigit? c) + (← hexDigit? d)

/-- The one-character escapes. -/
def escape? : Char → Option Char
  | '"' => some '"'
  | '\\' => some '\\'
  | '/' => some '/'
  | 'b' => some '\x08'
  | 'f' => some '\x0c'
  | 'n' => some '\n'
  | 'r' => some '\r'
  | 't' => some '\t'
  | _ => none

/-- `scanstring`, after the opening quote: the code units of the text and
what follows the closing quote.  A `\u` escape gives one unit, which may be
half of a surrogate pair. -/
def scanUnits : Str → Except LoadError (List Nat × Str)
  | [] => .error .decode
  | '"' :: rest => .ok ([], rest)
  | '\\' :: 'u' :: a :: b :: c :: d :: rest =>
    match hex4? a b c d with
    | none => .error .decode
    | some n => do
      let (ns, r) ← scanUnits rest
      return (n :: ns, r)
  | '\\' :: c :: rest =>
    match escape? c with
    | none => .error .decode
    | some c' => do
      let (ns, r) ← scanUnits rest
      return (c'.toNat :: ns, r)
  | c :: rest =>
    if c.toNat < 0x20 ∨ c = '\\' then .error .decode
    else do
      let (ns, r) ← scanUnits rest
      return (c.toNat :: ns, r)

/-- The character of one unit; a lone surrogate becomes U+FFFD. -/
def unicodeChar (n : Nat) : Char :=
  if h : n.isValidChar then Char.ofNatAux n h else '\ufffd'

/-- A high surrogate takes the low one that follows with it.  Only escapes
give surrogates, so the two units are neighbouring escapes. -/
def joinSurrogates : List Nat → Str
  | hi :: lo :: ns =>
    if 0xd800 ≤ hi ∧ hi ≤ 0xdbff ∧ 0xdc00 ≤ lo ∧ lo ≤ 0xdfff then
      unicodeChar (0x10000 + 1024 * (hi - 0xd800) + (lo - 0xdc00)) :: joinSurrogates ns
    else unicodeChar hi :: joinSurrogates (lo :: ns)
  | [n] => [unicodeChar n]
  | [] => []

/-- A JSON string after its opening quote. -/
def scanString (s : Str) : Except LoadError (Str × Str) := do
  let (ns, r) ← scanUnits s
  return (joinSurrogates ns, r)

/-! ## Numbers -/

def isDigit (c : Char) : Bool := '0' ≤ c && c ≤ '9'

/-- The number that a list of decimal digits denotes. -/
def digitsToNat (ds : Str) : Nat := ds.foldl (fun n c => 10 * n + (c.toNat - '0'.toNat)) 0

/-- The integer part of a number: `0`, or digits that do not start with
`0`. -/
def scanIntPart : Str → Option (Str × Str)
  | '0' :: rest => some (['0'], rest)
  | c :: rest =>
    if isDigit c then some (c :: rest.takeWhile isDigit, rest.dropWhile isDigit) else none
  | [] => none

/-- The optional fraction: a point and at least one digit. -/
def scanFrac : Str → Str × Str
  | '.' :: c :: rest =>
    if isDigit c then ('.' :: c :: rest.takeWhile isDigit, rest.dropWhile isDigit)
    else ([], '.' :: c :: rest)
  | s => ([], s)

/-- The optional exponent: `e` or `E`, a sign, and at least one digit. -/
def scanExp : Str → Str × Str
  | e :: sgn :: c :: rest =>
    if (e = 'e' ∨ e = 'E') ∧ (sgn = '+' ∨ sgn = '-') ∧ isDigit c then
      (e :: sgn :: c :: rest.takeWhile isDigit, rest.dropWhile isDigit)
    else if (e = 'e' ∨ e = 'E') ∧ isDigit sgn then
      (e :: sgn :: (c :: rest).takeWhile isDigit, (c :: rest).dropWhile isDigit)
    else ([], e :: sgn :: c :: rest)
  | [e, c] => if (e = 'e' ∨ e = 'E') ∧ isDigit c then ([e, c], []) else ([], [e, c])
  | s => ([], s)

/-- The digits that `int` converts at most. -/
def intMaxStrDigits : Nat := 4300

/-- A number literal with its sign already read. -/
def scanNumber (neg : Bool) (s : Str) : Except LoadError (Json × Str) :=
  match scanIntPart s with
  | none => .error .decode
  | some (ip, r) =>
    let (fp, r₁) := scanFrac r
    let (ep, r₂) := scanExp r₁
    let sign : Str := if neg then ['-'] else []
    if fp = [] ∧ ep = [] then
      if intMaxStrDigits < ip.length then .error .intDigits
      else .ok (.int (if neg then -(digitsToNat ip : Int) else digitsToNat ip), r)
    else .ok (.float (sign ++ ip ++ fp ++ ep), r₂)

/-! ## Arrays, objects and the value scanner -/

/-- The values of an array after `[`, when it is not empty.  The fuel is the
length of the text, and each value takes at least one character. -/
def scanItems (scan : Str → Except LoadError (Json × Str)) :
    Nat → Str → Except LoadError (List Json × Str)
  | 0, _ => .error .decode
  | fuel + 1, s => do
    let (v, s₁) ← scan s
    match skipWs s₁ with
    | ']' :: r => return ([v], r)
    | ',' :: r => do
      let (vs, r') ← scanItems scan fuel (skipWs r)
      return (v :: vs, r')
    | _ => .error .decode

/-- The items of an object after its first quote. -/
def scanPairs (scan : Str → Except LoadError (Json × Str)) :
    Nat → Dict Str Json → Str → Except LoadError (Dict Str Json × Str)
  | 0, _, _ => .error .decode
  | fuel + 1, d, s => do
    let (k, s₁) ← scanString s
    match skipWs s₁ with
    | ':' :: s₂ => do
      let (v, s₃) ← scan (skipWs s₂)
      match skipWs s₃ with
      | '}' :: r => return (d.set k v, r)
      | ',' :: r =>
        match skipWs r with
        | '"' :: r' => scanPairs scan fuel (d.set k v) r'
        | _ => .error .decode
      | _ => .error .decode
    | _ => .error .decode

/-- `scan_once`: one value and what follows it.  `depth` is how deep the
interpreter lets arrays and objects nest from here. -/
def scanOnce : Nat → Str → Except LoadError (Json × Str)
  | _, '"' :: rest => do
    let (s, r) ← scanString rest
    return (.str s, r)
  | 0, '\x7b' :: _ => .error .recursion
  | depth + 1, '\x7b' :: rest =>
    match skipWs rest with
    | '\x7d' :: r => .ok (.obj [], r)
    | '"' :: r => do
      let (d, r') ← scanPairs (scanOnce depth) rest.length [] r
      return (.obj d, r')
    | _ => .error .decode
  | 0, '[' :: _ => .error .recursion
  | depth + 1, '[' :: rest =>
    match skipWs rest with
    | ']' :: r => .ok (.arr [], r)
    | s => do
      let (vs, r) ← scanItems (scanOnce depth) rest.length s
      return (.arr vs, r)
  | _, 'n' :: 'u' :: 'l' :: 'l' :: r => .ok (.null, r)
  | _, 't' :: 'r' :: 'u' :: 'e' :: r => .ok (.bool true, r)
  | _, 'f' :: 'a' :: 'l' :: 's' :: 'e' :: r => .ok (.bool false, r)
  | _, 'N' :: 'a' :: 'N' :: r => .ok (.float "NaN", r)
  | _, 'I' :: 'n' :: 'f' :: 'i' :: 'n' :: 'i' :: 't' :: 'y' :: r => .ok (.float "Infinity", r)
  | _, '-' :: 'I' :: 'n' :: 'f' :: 'i' :: 'n' :: 'i' :: 't' :: 'y' :: r =>
    .ok (.float "-Infinity", r)
  | _, '-' :: r => scanNumber true r
  | _, s => scanNumber false s

/-- `json.loads`. -/
def loads (depth : Nat) (s : Str) : Except LoadError Json :=
  match s with
  -- A byte order mark is refused before anything is read.
  | '\ufeff' :: _ => .error .decode
  | _ => do
    let (v, r) ← scanOnce depth (skipWs s)
    if skipWs r = [] then return v else .error .decode

/-! ## Printing -/

/-- What the interpreter prints for a text and for a float.  The first depends
on its Unicode tables, the second on the shortest decimal that denotes the
float; a model that prints takes both from outside. -/
structure Printer where
  reprStr : Str → Str
  reprFloat : Str → Str

/-- `type(v).__name__`. -/
def typeName : Json → Str
  | null => "NoneType"
  | bool _ => "bool"
  | int _ => "int"
  | float _ => "float"
  | str _ => "str"
  | arr _ => "list"
  | obj _ => "dict"

mutual

/-- `repr(v)`. -/
def repr (p : Printer) : Json → Str
  | null => "None"
  | bool b => if b then "True" else "False"
  | int n => toString n
  | float l => p.reprFloat l
  | str s => p.reprStr s
  | arr xs => '[' :: joinWith (", " : Str) (reprItems p xs) ++ [']']
  | obj kvs => '\x7b' :: joinWith (", " : Str) (reprPairs p kvs) ++ ['\x7d']

def reprItems (p : Printer) : List Json → List Str
  | [] => []
  | x :: xs => repr p x :: reprItems p xs

def reprPairs (p : Printer) : List (Str × Json) → List Str
  | [] => []
  | (k, v) :: kvs => (p.reprStr k ++ ':' :: ' ' :: repr p v) :: reprPairs p kvs

end

/-- `str(v)`. -/
def toStr (p : Printer) : Json → Str
  | str s => s
  | v => repr p v

end Json

end AiPipelines.PyStd
