import AiPipelines.PyStd.Str

/-!
# Text files

What `write_text(encoding="utf-8")` puts into a file and what `read_text`
makes of the bytes that it finds there.

`utf8Units` cuts bytes into characters and errors.  An error is as long as the
bytes that could still have become a character, so that `errors="replace"` puts
one U+FFFD for it; a strict reader raises at the first one.  Reading a text also
turns every line end into a line feed (`universalNewlines`), and that is the one
thing that a round trip may change: `readText_writeText`.

The module names nothing of the repository.
-/

namespace AiPipelines.PyStd

/-- Python `bytes`. -/
abbrev Bytes := List UInt8

/-! ## UTF-8 -/

/-- `s.encode("utf-8")`. -/
def utf8Encode (s : Str) : Bytes := s.flatMap String.utf8EncodeChar

/-- The character that the bytes start with, which has four bytes at most. -/
def utf8First (bs : Bytes) : Option Char := (bs.take 4).toByteArray.utf8DecodeChar? 0

/-- How many bytes follow a first byte, and between which bounds the next of
them has to lie. -/
def utf8Follow (b : UInt8) : Option (Nat × UInt8 × UInt8) :=
  if 0xc2 ≤ b ∧ b ≤ 0xdf then some (1, 0x80, 0xbf)
  else if b = 0xe0 then some (2, 0xa0, 0xbf)
  else if b = 0xed then some (2, 0x80, 0x9f)
  else if 0xe1 ≤ b ∧ b ≤ 0xef then some (2, 0x80, 0xbf)
  else if b = 0xf0 then some (3, 0x90, 0xbf)
  else if b = 0xf4 then some (3, 0x80, 0x8f)
  else if 0xf1 ≤ b ∧ b ≤ 0xf3 then some (3, 0x80, 0xbf)
  else none

/-- The length of the error at the front of bytes that start with no
character. -/
def utf8ErrorLength : Bytes → Nat
  | b :: b' :: bs =>
    match utf8Follow b with
    | none => 1
    | some (n, lo, hi) =>
      if lo ≤ b' ∧ b' ≤ hi then
        2 + ((bs.take (n - 1)).takeWhile fun c => 0x80 ≤ c ∧ c ≤ 0xbf).length
      else 1
  | _ => 1

/-- The characters of the bytes, with `none` for each error.  The first argument
counts the bytes that still belong to the last unit. -/
def utf8Units : Nat → Bytes → List (Option Char)
  | _, [] => []
  | skip + 1, _ :: bs => utf8Units skip bs
  | 0, b :: bs =>
    match utf8First (b :: bs) with
    | some c => some c :: utf8Units (c.utf8Size - 1) bs
    | none => none :: utf8Units (utf8ErrorLength (b :: bs) - 1) bs

/-- `bs.decode("utf-8")`; `none` is a `UnicodeDecodeError`. -/
def utf8Decode (bs : Bytes) : Option Str := (utf8Units 0 bs).mapM id

/-- `bs.decode("utf-8", errors="replace")`. -/
def utf8Replace (bs : Bytes) : Str := (utf8Units 0 bs).map (·.getD '\ufffd')

theorem utf8Units_skip {skip : Nat} {bs : Bytes} (rest : Bytes) (h : bs.length = skip) :
    utf8Units skip (bs ++ rest) = utf8Units 0 rest := by
  subst h
  induction bs with
  | nil => rfl
  | cons b bs ih =>
    rw [List.cons_append, List.length_cons]
    show utf8Units bs.length (bs ++ rest) = utf8Units 0 rest
    exact ih

theorem utf8Units_encodeChar (c : Char) (rest : Bytes) :
    utf8Units 0 (String.utf8EncodeChar c ++ rest) = some c :: utf8Units 0 rest := by
  have hlen : (String.utf8EncodeChar c).length = c.utf8Size := String.length_utf8EncodeChar c
  have hfour : (String.utf8EncodeChar c).length ≤ 4 := by
    rw [hlen]
    exact c.utf8Size_le_four
  have hfirst : utf8First (String.utf8EncodeChar c ++ rest) = some c := by
    rw [utf8First, List.take_append, List.take_of_length_le hfour, List.toByteArray_append]
    exact ByteArray.utf8DecodeChar?_utf8EncodeChar_append
  cases hbytes : String.utf8EncodeChar c with
  | nil =>
    have hpos := c.utf8Size_pos
    rw [hbytes, List.length_nil] at hlen
    omega
  | cons b bs =>
    rw [hbytes, List.cons_append] at hfirst
    rw [hbytes, List.length_cons] at hlen
    rw [List.cons_append, utf8Units, hfirst]
    show some c :: utf8Units (c.utf8Size - 1) (bs ++ rest) = _
    rw [utf8Units_skip rest (by omega)]

/-- Decoding gives back what was encoded. -/
theorem utf8Units_encode (s : Str) : utf8Units 0 (utf8Encode s) = s.map some := by
  induction s with
  | nil => rfl
  | cons c s ih =>
    rw [utf8Encode, List.flatMap_cons, utf8Units_encodeChar, List.map_cons]
    exact congrArg (some c :: ·) ih

theorem utf8Encode_append (s t : Str) : utf8Encode (s ++ t) = utf8Encode s ++ utf8Encode t :=
  List.flatMap_append

theorem utf8Decode_encode (s : Str) : utf8Decode (utf8Encode s) = some s := by
  rw [utf8Decode, utf8Units_encode]
  induction s with
  | nil => rfl
  | cons c s ih => simp [List.mapM_cons, ih]

/-! ## Lines -/

/-- Reading a text file turns `\r\n` and `\r` into `\n`. -/
def universalNewlines : Str → Str
  | [] => []
  | '\r' :: '\n' :: s => '\n' :: universalNewlines s
  | '\r' :: s => '\n' :: universalNewlines s
  | c :: s => c :: universalNewlines s

theorem universalNewlines_eq_self {s : Str} (h : '\r' ∉ s) : universalNewlines s = s := by
  induction s with
  | nil => rfl
  | cons c s ih =>
    have hc : c ≠ '\r' := fun hc => h (hc ▸ List.mem_cons_self)
    have hs : universalNewlines s = s := ih fun hs => h (List.mem_cons_of_mem c hs)
    rw [universalNewlines]
    · rw [hs]
    · exact fun _ hr _ => hc hr
    · exact fun hr => hc hr

/-! ## Files -/

/-- `path.write_text(s, encoding="utf-8")`. -/
def writeText (s : Str) : Bytes := utf8Encode s

/-- `path.read_text(encoding="utf-8")`. -/
def readText (bs : Bytes) : Option Str := (utf8Decode bs).map universalNewlines

/-- `path.read_text(encoding="utf-8", errors="replace")`. -/
def readTextReplace (bs : Bytes) : Str := universalNewlines (utf8Replace bs)

theorem writeText_append (s t : Str) : writeText (s ++ t) = writeText s ++ writeText t :=
  utf8Encode_append s t

/-- A text without carriage returns is read as it was written. -/
theorem readText_writeText {s : Str} (h : '\r' ∉ s) : readText (writeText s) = some s := by
  rw [readText, writeText, utf8Decode_encode, Option.map_some, universalNewlines_eq_self h]

/-- `f.readlines()`, of the text of a file. -/
def readlines : Str → List Str
  | [] => []
  | c :: s =>
    if c = '\n' then ['\n'] :: readlines s
    else match readlines s with
      | [] => [[c]]
      | l :: ls => (c :: l) :: ls

theorem readlines_line {l : Str} (hl : '\n' ∉ l) (hne : l ≠ []) : readlines l = [l] := by
  induction l with
  | nil => exact absurd rfl hne
  | cons c l ih =>
    obtain ⟨hc, htail⟩ := not_or.1 (mt List.mem_cons.2 hl)
    unfold readlines
    rw [if_neg (Ne.symm hc)]
    cases l with
    | nil => rfl
    | cons d l => rw [ih htail (List.cons_ne_nil d l)]

theorem readlines_append {l : Str} (hl : '\n' ∉ l) (s : Str) :
    readlines (l ++ '\n' :: s) = (l ++ ['\n']) :: readlines s := by
  induction l with
  | nil => rfl
  | cons c l ih =>
    obtain ⟨hc, htail⟩ := not_or.1 (mt List.mem_cons.2 hl)
    rw [List.cons_append]
    conv_lhs => unfold readlines
    rw [if_neg (Ne.symm hc), ih htail]
    rfl

end AiPipelines.PyStd
