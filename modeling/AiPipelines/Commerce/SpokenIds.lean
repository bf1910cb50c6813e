import AiPipelines.Commerce.Identity

/-!
# Customer ids that are spoken

A caller spells the id of a customer with pauses: `C-1-9-3-8-2` for `C-19382`.  Of the
candidates of `_find_customer`, only the normal form is not the input itself, and
`normalize_customer_id` keeps the digits behind the C and nothing else.  So an id of digits is
found unless its leading zeros are trimmed, and an id with letters is found in its own spelling
only (`spokenId_found_iff`).
-/

namespace AiPipelines.Commerce

open PyStd

variable {u : Unicode} {db : Database} {id letters digits s : Str}

/-! ## Forms and spellings -/

/-- The documented forms of an id: `C-<digits>`, `C-<letters><digits>` and
`C-<letters>-<digits>`. -/
structure IdForm (u : Unicode) (id letters digits : Str) : Prop where
  letters_only : ∀ c ∈ letters, u.isDigit c = false ∧ keeps c = true
  digits_only : ∀ c ∈ digits, u.isDigit c = true
  digits_ne : digits ≠ []
  shape : id = 'C' :: '-' :: (letters ++ digits) ∨
    letters ≠ [] ∧ id = 'C' :: '-' :: (letters ++ '-' :: digits)

/-- The id in any letter case, with blanks and hyphens put in or left out behind the C. -/
structure Spelling (u : Unicode) (id s : Str) : Prop where
  same : squash u s = squash u id
  front : startsWith "C" (u.upper (strip s)) = true

/-- The digits that `normalize_customer_id` makes of the digits of an id. -/
def ownNumber (digits : Str) : Str := if digits.length = 6 then digits else trimZeros digits

theorem ownNumber_cases (digits : Str) :
    ownNumber digits = digits ∨ ownNumber digits = trimZeros digits := by
  unfold ownNumber
  split_ifs
  · exact .inl rfl
  · exact .inr rfl

theorem isDigit_ownNumber (h : ∀ c ∈ digits, u.isDigit c = true) :
    ∀ c ∈ ownNumber digits, u.isDigit c = true := by
  rcases ownNumber_cases digits with heq | heq
  · rw [heq]
    exact h
  · rw [heq]
    exact isDigit_trimZeros h

/-- Letters stay letters in upper case. -/
theorem upper_letters (h : ∀ c ∈ letters, u.isDigit c = false ∧ keeps c = true) :
    ∀ d ∈ u.upper letters, u.isDigit d = false ∧ keeps d = true := by
  intro d hd
  obtain ⟨c, hc, hdc⟩ := List.mem_flatMap.1 hd
  obtain ⟨hdigit, hkeep⟩ := h c hc
  by_cases hclass : (u.isDigit d || isSpace d || d == '-') = true
  · rw [u.caseless_of_upperChar c d hdc hclass]
    exact ⟨hdigit, hkeep⟩
  · simp only [Bool.or_eq_true, not_or, Bool.not_eq_true] at hclass
    obtain ⟨⟨hdigit', hspace⟩, hhyphen⟩ := hclass
    exact ⟨hdigit', by simp [keeps, hspace, hhyphen]⟩

theorem IdForm.squash (h : IdForm u id letters digits) :
    squash u id = 'C' :: (u.upper letters ++ digits) := by
  have hletters : (u.upper letters).filter keeps = u.upper letters :=
    List.filter_eq_self.2 fun c hc => (upper_letters h.letters_only c hc).2
  have hdigits : (u.upper digits).filter keeps = digits := squash_of_isDigit h.digits_only
  have hhyphen : u.upperChar '-' = ['-'] := u.upperChar_ascii '-' (by decide)
  rcases h.shape with rfl | ⟨-, rfl⟩
  · rw [squash_omitted, Commerce.squash, u.upper_append, List.filter_append, hletters, hdigits]
  · rw [squash_omitted, Commerce.squash, u.upper_append, List.filter_append, hletters,
      u.upper_cons, hhyphen, List.filter_append, hdigits]
    rfl

/-! ## The candidates of a spelling -/

/-- Whatever the spelling, the normal form has the digits of the id only. -/
theorem normalize_spelling (h : IdForm u id letters digits) (hs : Spelling u id s) :
    normalizeCustomerId u s = 'C' :: '-' :: ownNumber digits := by
  obtain ⟨t, ht⟩ := startsWith_iff.1 hs.front
  have htext : remove ' ' (u.upper (strip s)) = 'C' :: remove ' ' t := by
    rw [← ht]
    rfl
  have hsquash := hs.same
  rw [squash_eq_filter s, htext, List.filter_cons_of_pos (by rfl), h.squash] at hsquash
  have hrest : u.digits (remove ' ' t) = digits := by
    calc u.digits (remove ' ' t)
        = ((remove ' ' t).filter keeps).filter u.isDigit := by
          rw [List.filter_filter]
          refine List.filter_congr fun c _ => ?_
          by_cases hc : u.isDigit c = true
          · rw [hc, keeps_of_isDigit hc]
            rfl
          · rw [Bool.eq_false_iff.2 hc]
            rfl
      _ = (u.upper letters ++ digits).filter u.isDigit := by rw [(List.cons.inj hsquash).2]
      _ = digits := by
          rw [List.filter_append, List.filter_eq_self.2 h.digits_only,
            List.filter_eq_nil_iff.2 fun c hc => by simp [(upper_letters h.letters_only c hc).1]]
          rfl
  unfold ownNumber
  by_cases hsix : digits.length = 6
  · simp [normalizeCustomerId, htext, hrest, h.digits_ne, hsix]
  · simp [normalizeCustomerId, htext, hrest, h.digits_ne, hsix]

theorem mem_candidates_iff (h : IdForm u id letters digits) (hs : Spelling u id s) {cid : Str} :
    cid ∈ candidates u s ↔ cid = strip s ∨ cid = u.upper (strip s) ∨
      cid = 'C' :: '-' :: ownNumber digits ∨ cid = 'C' :: ownNumber digits := by
  have hraw : rawId u s = u.upper (strip s) := by
    unfold rawId
    dsimp only
    rw [hs.front]
    rfl
  have hhyphen : remove '-' ('C' :: '-' :: ownNumber digits) = 'C' :: ownNumber digits := by
    have hno : remove '-' (ownNumber digits) = ownNumber digits := by
      apply remove_eq_self
      intro hmem
      have hdigit := isDigit_ownNumber h.digits_only '-' hmem
      rw [u.isDigit_hyphen] at hdigit
      cases hdigit
    show 'C' :: remove '-' (ownNumber digits) = _
    rw [hno]
  unfold candidates
  dsimp only
  rw [hraw, normalize_spelling h hs, hhyphen]
  simp only [List.mem_cons, List.not_mem_nil, or_false]
  tauto

/-! ## What is found -/

/-- A customer is found in every order if its id is a candidate and nobody else's is. -/
theorem found_always_iff {c : Customer} (hc : c ∈ db.customers) (hs : strip s ≠ []) :
    (∀ order, IsOrder u s order → db.findCustomer u order s [] [] = some c) ↔
      c.id ∈ candidates u s ∧ ∀ c' ∈ db.customers, c'.id ∈ candidates u s → c' = c := by
  constructor
  · intro hall
    constructor
    · obtain ⟨order, horder⟩ := exists_isOrder u s
      have hfound := hall order horder
      rw [findCustomer_eq hs] at hfound
      exact (candidate_of_found horder hfound).2
    · intro c' hc' hid
      obtain ⟨order, horder, hfound⟩ := exists_order_first hc' hid
      have hfound' := hall order horder
      rw [findCustomer_eq hs, hfound] at hfound'
      exact Option.some.inj hfound'
  · intro hone order horder
    rw [findCustomer_eq hs]
    obtain ⟨c', hc'⟩ := Option.isSome_iff_exists.mp
      ((findSome_candidates_isSome horder).mpr ⟨c, hc, hone.1⟩)
    obtain ⟨hmem, hid⟩ := candidate_of_found horder hc'
    rw [hc', hone.2 c' hmem hid]

/-- The id is `C-<digits>` and its digits stay as they are; or the input is the id in its own
spelling or in upper case, and nobody has the number that is made of the digits. -/
def FoundAsSpoken (u : Unicode) (db : Database) (id letters digits s : Str) : Prop :=
  (letters = [] ∧ ownNumber digits = digits) ∨
    ((id = strip s ∨ id = u.upper (strip s)) ∧
      ∀ c ∈ db.customers, c.id ≠ 'C' :: '-' :: ownNumber digits ∧ c.id ≠ 'C' :: ownNumber digits)

theorem IdForm.ne_short (h : IdForm u id letters digits) : id ≠ 'C' :: ownNumber digits := by
  intro heq
  have hmem : '-' ∈ ownNumber digits := by
    rcases h.shape with hid | ⟨-, hid⟩
    · rw [hid] at heq
      rw [← (List.cons.inj heq).2]
      exact List.mem_cons_self
    · rw [hid] at heq
      rw [← (List.cons.inj heq).2]
      exact List.mem_cons_self
  have hdigit := isDigit_ownNumber h.digits_only '-' hmem
  rw [u.isDigit_hyphen] at hdigit
  cases hdigit

/-- An id is its own normal form only if it has no letters. -/
theorem IdForm.eq_normal (h : IdForm u id letters digits)
    (heq : id = 'C' :: '-' :: ownNumber digits) : letters = [] ∧ ownNumber digits = digits := by
  have hnumber := isDigit_ownNumber h.digits_only
  have hletters : ∀ t, letters ++ t = ownNumber digits → letters = [] := by
    intro t ht
    rw [List.eq_nil_iff_forall_not_mem]
    intro c hc
    have hdigit := hnumber c (ht ▸ List.mem_append_left t hc)
    rw [(h.letters_only c hc).1] at hdigit
    cases hdigit
  rcases h.shape with hid | ⟨hne, hid⟩
  · rw [hid] at heq
    have hrest := (List.cons.inj (List.cons.inj heq).2).2
    have hnil := hletters digits hrest
    rw [hnil] at hrest
    exact ⟨hnil, hrest.symm⟩
  · rw [hid] at heq
    exact absurd (hletters _ (List.cons.inj (List.cons.inj heq).2).2) hne

theorem Spelling.strip_ne (hs : Spelling u id s) : strip s ≠ [] := by
  intro hnil
  have hfront := hs.front
  rw [hnil] at hfront
  cases hfront

/-- The input itself spells no other id. -/
theorem Spelling.squash_own {cid : Str} (hs : Spelling u id s)
    (hcid : cid = strip s ∨ cid = u.upper (strip s)) : squash u cid = squash u id := by
  rcases hcid with rfl | rfl
  · rw [squash_strip, hs.same]
  · rw [squash_upper, squash_strip, hs.same]

/-- Without letters the normal form spells the same id. -/
theorem squash_normal {cid : Str} (h : IdForm u id [] digits) (hown : ownNumber digits = digits)
    (hcid : cid = 'C' :: '-' :: ownNumber digits ∨ cid = 'C' :: ownNumber digits) :
    squash u cid = squash u id := by
  have hsquash : squash u id = 'C' :: digits := by
    rw [h.squash]
    rfl
  rw [hown] at hcid
  rcases hcid with rfl | rfl
  · rcases h.shape with hid | ⟨hne, -⟩
    · rw [hid]
      rfl
    · exact absurd rfl hne
  · rw [hsquash, squash, u.upper_cons, u.upperChar_ascii 'C' (by decide)]
    show 'C' :: squash u digits = _
    rw [squash_of_isDigit h.digits_only]

theorem foundAsSpoken_of_found {c : Customer} (h : IdForm u c.id letters digits)
    (hs : Spelling u c.id s) (hfound : c.id ∈ candidates u s)
    (hone : ∀ c' ∈ db.customers, c'.id ∈ candidates u s → c' = c) :
    FoundAsSpoken u db c.id letters digits s := by
  have hmem : ∀ {cid : Str}, cid ∈ candidates u s ↔ _ := mem_candidates_iff h hs
  by_cases hkept : letters = [] ∧ ownNumber digits = digits
  · exact .inl hkept
  · right
    constructor
    · rcases hmem.1 hfound with hid | hid | hid | hid
      · exact .inl hid
      · exact .inr hid
      · exact absurd (h.eq_normal hid) hkept
      · exact absurd hid h.ne_short
    · intro c' hc'
      constructor
      · intro hid
        rw [hone c' hc' (hmem.2 (.inr (.inr (.inl hid))))] at hid
        exact hkept (h.eq_normal hid)
      · intro hid
        rw [hone c' hc' (hmem.2 (.inr (.inr (.inr hid))))] at hid
        exact h.ne_short hid

theorem found_of_foundAsSpoken {c : Customer} (h : IdForm u c.id letters digits)
    (hs : Spelling u c.id s) (honly : ∀ c' ∈ db.customers, squash u c'.id = squash u c.id → c' = c)
    (hspoken : FoundAsSpoken u db c.id letters digits s) :
    c.id ∈ candidates u s ∧ ∀ c' ∈ db.customers, c'.id ∈ candidates u s → c' = c := by
  have hmem : ∀ {cid : Str}, cid ∈ candidates u s ↔ _ := mem_candidates_iff h hs
  rcases hspoken with ⟨rfl, hown⟩ | ⟨hid, hnobody⟩
  · have hid : c.id = 'C' :: '-' :: ownNumber digits := by
      rw [hown]
      exact h.shape.resolve_right fun hlong => hlong.1 rfl
    refine ⟨hmem.2 (.inr (.inr (.inl hid))), fun c' hc' hcid => honly c' hc' ?_⟩
    rcases hmem.1 hcid with hcid | hcid | hcid | hcid
    · exact hs.squash_own (.inl hcid)
    · exact hs.squash_own (.inr hcid)
    · exact squash_normal h hown (.inl hcid)
    · exact squash_normal h hown (.inr hcid)
  · refine ⟨hmem.2 (hid.elim .inl fun hup => .inr (.inl hup)), fun c' hc' hcid => ?_⟩
    obtain ⟨hne, hne'⟩ := hnobody c' hc'
    rcases hmem.1 hcid with hcid | hcid | hcid | hcid
    · exact honly c' hc' (hs.squash_own (.inl hcid))
    · exact honly c' hc' (hs.squash_own (.inr hcid))
    · exact absurd hcid hne
    · exact absurd hcid hne'

/-- A spelling of the id of a customer, which nobody else has, is resolved to this customer
exactly under the condition. -/
theorem spokenId_found_iff {c : Customer} (hc : c ∈ db.customers)
    (h : IdForm u c.id letters digits) (hs : Spelling u c.id s)
    (honly : ∀ c' ∈ db.customers, squash u c'.id = squash u c.id → c' = c) :
    (∀ order, IsOrder u s order → db.findCustomer u order s [] [] = some c) ↔
      FoundAsSpoken u db c.id letters digits s := by
  rw [found_always_iff hc hs.strip_ne]
  exact ⟨fun hfound => foundAsSpoken_of_found h hs hfound.1 hfound.2,
    found_of_foundAsSpoken h hs honly⟩

theorem customer19382_form : IdForm .ascii "C-19382" [] "19382" where
  letters_only := nofun
  digits_only := List.all_eq_true.1 (by decide)
  digits_ne := by decide
  shape := .inl rfl

/-- `C-1-9-3-8-2` is `C-19382`. -/
theorem spokenId_found_19382 : Spelling .ascii "C-19382" "c-1-9-3 8 2" ∧
    ∀ order, IsOrder .ascii "c-1-9-3 8 2" order →
      demoDatabase.findCustomer .ascii order "c-1-9-3 8 2" [] [] =
        some { id := "C-19382", preferredName := "Chris", fullName := "Chris Taylor",
               email := "chris.taylor@example.test" } := by
  have hspelling : Spelling .ascii "C-19382" "c-1-9-3 8 2" :=
    ⟨by decide +kernel, by decide +kernel⟩
  refine ⟨hspelling, ?_⟩
  exact (spokenId_found_iff (List.mem_cons_of_mem _ List.mem_cons_self) customer19382_form
    hspelling (by decide +kernel)).2 (.inl ⟨rfl, by decide⟩)

/-- One customer, whose id has letters. -/
def minhDatabase : Database where
  customers :=
    [{ id := "C-AX921", preferredName := "Minh", fullName := "Nguyen Thi Minh",
       email := "minh@example.test" }]
  orders := []
  payments := []
  newestFirst := fun rows => rows
  customers_key := by decide
  orders_key := by decide
  newestFirst_perm := fun rows => List.Perm.refl rows

/-- Without its hyphen, the id with letters is taken for `C-921`. -/
theorem caxSpelling_lost :
    IdForm .ascii "C-AX921" "AX" "921" ∧ Spelling .ascii "C-AX921" "CAX921" ∧
      normalizeCustomerId .ascii "CAX921" = "C-921".toList ∧
      ∀ order, IsOrder .ascii "CAX921" order →
        minhDatabase.findCustomer .ascii order "CAX921" [] [] = none := by
  refine ⟨⟨?_, ?_, by decide, .inl rfl⟩, ⟨by decide +kernel, by decide +kernel⟩, by decide +kernel,
    ?_⟩
  · intro c hc
    have hall : ("AX" : Str).all (fun c => !Unicode.ascii.isDigit c && keeps c) = true := by decide
    simpa using List.all_eq_true.1 hall c hc
  · exact List.all_eq_true.1 (by decide)
  · intro order horder
    rw [findCustomer_eq (by decide), ← Option.not_isSome_iff_eq_none,
      findSome_candidates_isSome horder]
    decide +kernel

end AiPipelines.Commerce
