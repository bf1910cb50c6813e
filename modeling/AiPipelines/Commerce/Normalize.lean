import AiPipelines.PyStd.Unicode

/-!
# Spoken identifiers

`normalize.py` of the server: callers spell customer numbers, e-mail addresses
and order numbers, and the functions here turn what was heard into the form
that the database may hold.
-/

namespace AiPipelines.Commerce

open PyStd

variable (u : Unicode)

/-- `digits.lstrip("0") or "0"`. -/
def trimZeros (digits : Str) : Str :=
  match digits.dropWhile (· = '0') with
  | [] => "0"
  | trimmed => trimmed

/-- `normalize_customer_id`. -/
def normalizeCustomerId (raw : Str) : Str :=
  match remove ' ' (u.upper (strip raw)) with
  | [] => []
  | 'C' :: rest =>
    let digits := u.digits rest
    if digits ≠ [] then
      if digits.length = 6 then 'C' :: '-' :: digits else 'C' :: '-' :: trimZeros digits
    else strip raw
  | _ => strip raw

/-- `normalize_email`. -/
def normalizeEmail (raw : Str) : Str :=
  let text := replace " dot " "." (replace " at " "@" (u.lower (strip raw)))
  text.filter fun c => !isSpace c

/-- Keep the first of equal entries. -/
def firstOfEach (candidates : List Str) : List Str :=
  candidates.foldl (fun seen c => if seen.contains c then seen else seen ++ [c]) []

/-- `order_id_candidates`. -/
def orderIdCandidates (raw : Str) : List Str :=
  let text := strip raw
  if text = [] then []
  else
    let digits := u.digits text
    let ord : Str := "ORD-"
    firstOfEach <|
      if digits = [] then [text]
      else if startsWith "ORD" (u.upper text) then [text, digits, ord ++ digits]
      else
        [text, digits, ord ++ digits,
          if digits.length > 4 then ord ++ digits.take 4 ++ '-' :: digits.drop 4
          else ord ++ digits]

theorem trimZeros_cases (digits : Str) :
    trimZeros digits = ['0'] ∨ trimZeros digits = digits.dropWhile (· = '0') := by
  unfold trimZeros
  split
  · exact .inl rfl
  · exact .inr rfl

/-- What is left of digits are digits. -/
theorem isDigit_trimZeros {u : Unicode} {digits : Str} (h : ∀ c ∈ digits, u.isDigit c = true) :
    ∀ c ∈ trimZeros digits, u.isDigit c = true := by
  intro c hc
  rcases trimZeros_cases digits with heq | heq
  · rw [heq, List.mem_singleton] at hc
    rw [hc]
    exact u.isDigit_zero
  · rw [heq] at hc
    exact h c ((List.dropWhile_suffix _).subset hc)

theorem trimZeros_ne_nil (digits : Str) : trimZeros digits ≠ [] := by
  unfold trimZeros
  split
  · simp
  · assumption

/-- Zeros are trimmed once. -/
theorem trimZeros_trimZeros (digits : Str) : trimZeros (trimZeros digits) = trimZeros digits := by
  rcases trimZeros_cases digits with heq | heq
  · rw [heq]
    rfl
  · have hne := trimZeros_ne_nil digits
    rw [heq] at hne ⊢
    unfold trimZeros
    rw [List.dropWhile_idempotent]
    split
    · contradiction
    · rfl

end AiPipelines.Commerce
