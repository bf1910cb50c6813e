import AiPipelines.PyStd.Str

/-!
# What Python takes from the Unicode database

`str.upper`, `str.lower`, the digits that `\d` matches and the printable
characters that `repr` keeps are tables of the Unicode version that an
interpreter is built with.  `Unicode` is such a table, as far as the modelled
programs look at it, with the laws that hold of every version: the ASCII part
is fixed, and digits, whitespace and the hyphen have no case.

`Unicode.ascii` is the part of the tables that all versions share.

The module names nothing of the repository.
-/

namespace AiPipelines.PyStd

/-- The Unicode tables of an interpreter. -/
structure Unicode where
  /-- `str.upper()` of one character, which may give several. -/
  upperChar : Char → Str
  /-- `str.lower()`.  The lower case of a sigma depends on its neighbours. -/
  lower : Str → Str
  /-- The characters that `\d` matches. -/
  isDigit : Char → Bool
  /-- `repr` of a text. -/
  repr : Str → Str
  upperChar_ascii : ∀ c, c.toNat < 128 → upperChar c = [c.toUpper]
  lower_ascii : ∀ s : Str, (∀ c ∈ s, c.toNat < 128) → lower s = s.map Char.toLower
  isDigit_ascii : ∀ c, c.toNat < 128 → isDigit c = c.isDigit
  upperChar_upperChar : ∀ c, (upperChar c).flatMap upperChar = upperChar c
  /-- A digit, a blank or a hyphen is its own upper case. -/
  upperChar_caseless : ∀ c, (isDigit c || isSpace c || c == '-') = true → upperChar c = [c]
  /-- They are the upper case of nothing else. -/
  caseless_of_upperChar : ∀ c d, d ∈ upperChar c →
    (isDigit d || isSpace d || d == '-') = true → d = c
  isDigit_not_isSpace : ∀ c, isDigit c = true → isSpace c = false

namespace Unicode

variable (u : Unicode)

/-- `str.upper()`. -/
def upper (s : Str) : Str := s.flatMap u.upperChar

/-- `re.sub(r"\D", "", s)`. -/
def digits (s : Str) : Str := s.filter u.isDigit

variable {u}

@[simp] theorem upper_nil : u.upper [] = [] := rfl

theorem upper_cons (c : Char) (s : Str) : u.upper (c :: s) = u.upperChar c ++ u.upper s := rfl

theorem upper_append (s t : Str) : u.upper (s ++ t) = u.upper s ++ u.upper t :=
  List.flatMap_append

@[simp] theorem upper_upper (s : Str) : u.upper (u.upper s) = u.upper s := by
  induction s with
  | nil => rfl
  | cons c s ih =>
    rw [upper_cons, upper_append, ih]
    congr 1
    exact u.upperChar_upperChar c

/-- Digits have no case. -/
theorem upper_of_isDigit {s : Str} (h : ∀ c ∈ s, u.isDigit c = true) : u.upper s = s := by
  induction s with
  | nil => rfl
  | cons c s ih =>
    rw [upper_cons, ih fun d hd => h d (List.mem_cons_of_mem c hd),
      u.upperChar_caseless c (by simp [h c List.mem_cons_self])]
    rfl

/-- A test that sees only characters without case may be made before or after
the text is turned to upper case. -/
theorem filter_upper {p : Char → Bool}
    (hp : ∀ c, p c = false → (u.isDigit c || isSpace c || c == '-') = true) (s : Str) :
    (u.upper (s.filter p)).filter p = (u.upper s).filter p := by
  induction s with
  | nil => rfl
  | cons c s ih =>
    by_cases hc : p c = true
    · rw [List.filter_cons_of_pos hc, upper_cons, upper_cons, List.filter_append,
        List.filter_append, ih]
    · have hfalse : p c = false := by simpa using hc
      rw [List.filter_cons_of_neg hc, ih, upper_cons, u.upperChar_caseless c (hp c hfalse),
        List.filter_append]
      simp [hfalse]

theorem isDigit_zero : u.isDigit '0' = true := u.isDigit_ascii '0' (by decide)

theorem isDigit_hyphen : u.isDigit '-' = false := u.isDigit_ascii '-' (by decide)

theorem isDigit_C : u.isDigit 'C' = false := u.isDigit_ascii 'C' (by decide)

end Unicode

/-! ## The ASCII part -/

/-- Outside of ASCII, `Char.toUpper` changes nothing. -/
theorem toUpper_of_not_ascii {c : Char} (h : 128 ≤ c.toNat) : c.toUpper = c := by
  have hval : ¬ ('a'.val ≤ c.val ∧ c.val ≤ 'z'.val) := by
    intro hle
    have hz : c.val.toNat ≤ 'z'.val.toNat := hle.2
    have hc : 128 ≤ c.val.toNat := h
    have hz' : 'z'.val.toNat = 122 := rfl
    omega
  exact dif_neg hval

/-- A property of all ASCII characters, by going through them. -/
theorem forall_ascii {P : Char → Prop} (h : ∀ n < 128, P (Char.ofNat n)) {c : Char}
    (hc : c.toNat < 128) : P c := by
  have hP := h c.toNat hc
  rwa [Char.ofNat_toNat] at hP

theorem ascii_of_isDigit {c : Char} (h : c.isDigit = true) : c.toNat < 128 := by
  have hle : c.val ≤ '9'.val := by
    simp only [Char.isDigit, Bool.and_eq_true, decide_eq_true_eq] at h
    exact h.2
  exact Nat.lt_of_le_of_lt hle (by decide)

/-- The tables of a text that is ASCII only. -/
def Unicode.ascii : Unicode where
  upperChar c := [c.toUpper]
  lower s := s.map Char.toLower
  isDigit c := c.isDigit
  repr s := Char.ofNat 39 :: s ++ [Char.ofNat 39]
  upperChar_ascii := fun _ _ => rfl
  lower_ascii := fun _ _ => rfl
  isDigit_ascii := fun _ _ => rfl
  upperChar_upperChar := by
    intro c
    by_cases hc : c.toNat < 128
    · exact forall_ascii (P := fun c => [c.toUpper].flatMap (fun c => [c.toUpper]) = [c.toUpper])
        (by decide) hc
    · simp [toUpper_of_not_ascii (Nat.le_of_not_lt hc)]
  upperChar_caseless := by
    intro c hclass
    by_cases hc : c.toNat < 128
    · exact forall_ascii (P := fun c => (c.isDigit || isSpace c || c == '-') = true →
        [c.toUpper] = [c]) (by decide) hc hclass
    · rw [toUpper_of_not_ascii (Nat.le_of_not_lt hc)]
  caseless_of_upperChar := by
    intro c d hd hclass
    obtain rfl := List.mem_singleton.mp hd
    by_cases hc : c.toNat < 128
    · exact forall_ascii (P := fun c =>
        (c.toUpper.isDigit || isSpace c.toUpper || c.toUpper == '-') = true → c.toUpper = c)
        (by decide) hc hclass
    · exact toUpper_of_not_ascii (Nat.le_of_not_lt hc)
  isDigit_not_isSpace := by
    intro c hdigit
    exact forall_ascii (P := fun c => c.isDigit = true → isSpace c = false) (by decide)
      (ascii_of_isDigit hdigit) hdigit

/-! ## Lower case -/

/-- Tables in which a text made of the characters that `str.lower` gives is in lower case. -/
structure CasedUnicode extends Unicode where
  lower_lowered : ∀ t : Str, (∀ c ∈ t, ∃ s, c ∈ lower s) → lower t = t

theorem toLower_of_not_ascii {c : Char} (h : 128 ≤ c.toNat) : c.toLower = c := by
  have hval : ¬ ('A'.val ≤ c.val ∧ c.val ≤ 'Z'.val) := by
    intro hle
    have hz : c.val.toNat ≤ 'Z'.val.toNat := hle.2
    have hc : 128 ≤ c.val.toNat := h
    have hz' : 'Z'.val.toNat = 90 := rfl
    omega
  exact dif_neg hval

theorem toLower_toLower (c : Char) : c.toLower.toLower = c.toLower := by
  by_cases hc : c.toNat < 128
  · exact forall_ascii (P := fun c => c.toLower.toLower = c.toLower) (by decide) hc
  · rw [toLower_of_not_ascii (Nat.le_of_not_lt hc), toLower_of_not_ascii (Nat.le_of_not_lt hc)]

/-- Lower case neither makes whitespace nor takes it away. -/
theorem isSpace_toLower (c : Char) : isSpace c.toLower = isSpace c := by
  by_cases hc : c.toNat < 128
  · exact forall_ascii (P := fun c => isSpace c.toLower = isSpace c) (by decide) hc
  · rw [toLower_of_not_ascii (Nat.le_of_not_lt hc)]

/-- The part that all versions share. -/
def CasedUnicode.ascii : CasedUnicode where
  toUnicode := Unicode.ascii
  lower_lowered := by
    intro t ht
    have hfixed : ∀ c ∈ t, c.toLower = c := by
      intro c hc
      obtain ⟨s, hs⟩ := ht c hc
      obtain ⟨d, -, rfl⟩ := List.mem_map.1 hs
      exact toLower_toLower d
    show t.map Char.toLower = t
    rw [List.map_congr_left hfixed, List.map_id']

end AiPipelines.PyStd
