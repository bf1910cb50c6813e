import AiPipelines.Commerce.Payments

/-!
# Who a customer number identifies

`_find_customer` tries up to five rewritten forms of a customer number in the
order in which a Python set yields them.  What the number should identify is
stated here by `SameId`: the id of a customer that differs from the input in
letter case, blanks, hyphens, leading zeros and an omitted prefix only.

Two things go wrong.  Two candidates may both be ids of customers, and then the
set decides.  And `normalize_customer_id` keeps the digits behind a leading C
and drops all else, so that a number with letters in it (`DropsText`) becomes
the number of somebody else.  `identitySound_iff` says that nothing else goes
wrong.
-/

namespace AiPipelines.Commerce

open PyStd

variable {u : Unicode} {db : Database} {s id : Str} {order : List Str}

/-! ## Ids that differ in spelling only -/

/-- A character that is neither a blank nor a hyphen. -/
def keeps (c : Char) : Bool := !(isSpace c || c == '-')

/-- The id in upper case without blanks and hyphens. -/
def squash (u : Unicode) (id : Str) : Str := (u.upper id).filter keeps

/-- A squashed id without the leading zeros of its digits. -/
def canon (u : Unicode) : Str → Str
  | 'C' :: ds => if ds ≠ [] ∧ ds.all u.isDigit then 'C' :: trimZeros ds else 'C' :: ds
  | id => id

/-- The id is the input up to letter case, blanks, hyphens, leading zeros of
the digits and an omitted prefix. -/
def SameId (u : Unicode) (input id : Str) : Prop :=
  canon u (squash u input) = canon u (squash u id) ∨
    canon u ('C' :: squash u input) = canon u (squash u id)

theorem keeps_of_isDigit {c : Char} (h : u.isDigit c = true) : keeps c = true := by
  have hspace := u.isDigit_not_isSpace c h
  have hhyphen : c ≠ '-' := by
    intro heq
    rw [heq, u.isDigit_hyphen] at h
    cases h
  simp [keeps, hspace, hhyphen]

theorem caseless_of_not_keeps (c : Char) (h : keeps c = false) :
    (u.isDigit c || isSpace c || c == '-') = true := by
  simp only [keeps, Bool.not_eq_false'] at h
  rw [Bool.or_assoc, h, Bool.or_true]

/-- Blanks and hyphens may be taken out before. -/
theorem squash_congr {a b : Str} (h : a.filter keeps = b.filter keeps) :
    squash u a = squash u b := by
  unfold squash
  rw [← u.filter_upper caseless_of_not_keeps a, h, u.filter_upper caseless_of_not_keeps b]

theorem filter_lstrip (s : Str) : (lstrip s).filter keeps = s.filter keeps := by
  induction s with
  | nil => rfl
  | cons c s ih =>
    unfold lstrip at ih ⊢
    rw [List.dropWhile_cons]
    split_ifs with hc
    · rw [ih, List.filter_cons_of_neg (by simp [keeps, hc])]
    · rfl

theorem squash_strip (s : Str) : squash u (strip s) = squash u s := by
  apply squash_congr
  have hr (t : Str) : (rstrip t).filter keeps = t.filter keeps := by
    have h := filter_lstrip t.reverse
    unfold rstrip List.rdropWhile
    rw [List.filter_reverse]
    unfold lstrip at h
    rw [h, List.filter_reverse, List.reverse_reverse]
  rw [strip, hr, filter_lstrip]

theorem squash_remove_hyphen (s : Str) : squash u (remove '-' s) = squash u s := by
  apply squash_congr
  rw [remove, List.filter_filter]
  apply List.filter_congr
  intro c _
  simp only [keeps, Bool.not_or]
  grind

theorem squash_upper (s : Str) : squash u (u.upper s) = squash u s := by
  rw [squash, u.upper_upper, squash]

theorem squash_omitted (s : Str) : squash u ('C' :: '-' :: s) = 'C' :: squash u s := by
  have hC : u.upperChar 'C' = ['C'] := u.upperChar_ascii 'C' (by decide)
  have hhyphen : u.upperChar '-' = ['-'] := u.upperChar_ascii '-' (by decide)
  simp [squash, u.upper_cons, hC, hhyphen, keeps, isSpace]

theorem squash_of_isDigit {ds : Str} (h : ∀ c ∈ ds, u.isDigit c = true) : squash u ds = ds := by
  rw [squash, u.upper_of_isDigit h, List.filter_eq_self]
  exact fun c hc => keeps_of_isDigit (h c hc)

theorem canon_digits {ds : Str} (hne : ds ≠ []) (h : ∀ c ∈ ds, u.isDigit c = true) :
    canon u ('C' :: ds) = 'C' :: trimZeros ds := by
  have hall : ds ≠ [] ∧ ds.all u.isDigit := ⟨hne, List.all_eq_true.mpr h⟩
  rw [canon, if_pos hall]

theorem canon_other {ds : Str} (h : ∃ c ∈ ds, u.isDigit c = false) :
    canon u ('C' :: ds) = 'C' :: ds := by
  have hall : ¬ (ds ≠ [] ∧ ds.all u.isDigit) := by
    intro ⟨_, hds⟩
    obtain ⟨c, hc, hno⟩ := h
    rw [List.all_eq_true.mp hds c hc] at hno
    cases hno
  rw [canon, if_neg hall]

/-! ## What normalisation does to a number -/

/-- Behind a leading C stands a digit, and also something that is no digit, no
blank and no hyphen. -/
def DropsText (u : Unicode) (s : Str) : Prop :=
  ∃ rest, remove ' ' (u.upper (strip s)) = 'C' :: rest ∧ (∃ d ∈ rest, u.isDigit d = true) ∧
    ∃ c ∈ rest, u.isDigit c = false ∧ keeps c = true

/-- The squashed input, in terms of the text that `normalize_customer_id`
looks at. -/
theorem squash_eq_filter (s : Str) :
    squash u s = (remove ' ' (u.upper (strip s))).filter keeps := by
  rw [← squash_strip, squash, remove, List.filter_filter]
  apply List.filter_congr
  intro c _
  by_cases hc : c = ' '
  · subst hc
    rfl
  · simp [hc]

/-- The two things that `normalize_customer_id` may do. -/
theorem normalizeCustomerId_cases (u : Unicode) (s : Str) :
    (∃ rest, remove ' ' (u.upper (strip s)) = 'C' :: rest ∧ u.digits rest ≠ [] ∧
      (normalizeCustomerId u s = 'C' :: '-' :: u.digits rest ∨
        normalizeCustomerId u s = 'C' :: '-' :: trimZeros (u.digits rest))) ∨
    (¬ DropsText u s ∧ squash u (normalizeCustomerId u s) = squash u s) := by
  cases htext : remove ' ' (u.upper (strip s)) with
  | nil =>
    refine .inr ⟨fun ⟨rest, hrest, _⟩ => ?_, ?_⟩
    · rw [htext] at hrest
      cases hrest
    · rw [squash_eq_filter s, htext, normalizeCustomerId, htext]
      rfl
  | cons c rest =>
    by_cases hC : c = 'C'
    · subst hC
      by_cases hdigits : u.digits rest = []
      · refine .inr ⟨fun ⟨rest', hrest, ⟨d, hd, hdigit⟩, _⟩ => ?_, ?_⟩
        · rw [htext] at hrest
          obtain rfl := (List.cons.inj hrest).2
          have hmem : d ∈ u.digits rest := List.mem_filter.mpr ⟨hd, hdigit⟩
          rw [hdigits] at hmem
          cases hmem
        · have hnorm : normalizeCustomerId u s = strip s := by
            simp [normalizeCustomerId, htext, hdigits]
          rw [hnorm, squash_strip]
      · refine .inl ⟨rest, rfl, hdigits, ?_⟩
        by_cases hsix : (u.digits rest).length = 6
        · exact .inl (by simp [normalizeCustomerId, htext, hdigits, hsix])
        · exact .inr (by simp [normalizeCustomerId, htext, hdigits, hsix])
    · refine .inr ⟨fun ⟨rest', hrest, _⟩ => ?_, ?_⟩
      · rw [htext] at hrest
        exact hC (List.cons.inj hrest).1
      · have hnorm : normalizeCustomerId u s = strip s := by
          unfold normalizeCustomerId
          rw [htext]
          split
          · contradiction
          · next heq => exact absurd (List.cons.inj heq).1 hC
          · rfl
        rw [hnorm, squash_strip]

/-- The normal form of a number with digits, squashed and without zeros. -/
theorem canon_normalize {rest : Str} (hdigits : u.digits rest ≠ [])
    (hnorm : normalizeCustomerId u s = 'C' :: '-' :: u.digits rest ∨
      normalizeCustomerId u s = 'C' :: '-' :: trimZeros (u.digits rest)) :
    canon u (squash u (normalizeCustomerId u s)) = 'C' :: trimZeros (u.digits rest) := by
  have hall : ∀ c ∈ u.digits rest, u.isDigit c = true := fun c hc => (List.mem_filter.mp hc).2
  rcases hnorm with hnorm | hnorm
  · rw [hnorm, squash_omitted, squash_of_isDigit hall, canon_digits hdigits hall]
  · have htrim := isDigit_trimZeros hall
    rw [hnorm, squash_omitted, squash_of_isDigit htrim,
      canon_digits (trimZeros_ne_nil _) htrim, trimZeros_trimZeros]

/-- A number that is all digits, blanks and hyphens keeps its meaning. -/
theorem sameId_normalize (h : ¬ DropsText u s) : SameId u s (normalizeCustomerId u s) := by
  rcases normalizeCustomerId_cases u s with ⟨rest, htext, hdigits, hnorm⟩ | ⟨_, heq⟩
  · refine .inl ?_
    obtain ⟨d, hd⟩ := List.exists_mem_of_ne_nil _ hdigits
    have hrest : rest.filter keeps = u.digits rest := by
      apply List.filter_congr
      intro c hc
      by_cases hdigit : u.isDigit c = true
      · rw [hdigit, keeps_of_isDigit hdigit]
      · have hno : u.isDigit c = false := by simpa using hdigit
        rw [hno]
        by_contra hkeep
        have hkeep : keeps c = true := by simpa using hkeep
        exact h ⟨rest, htext, ⟨d, List.mem_filter.mp hd⟩, c, hc, hno, hkeep⟩
    have hall : ∀ c ∈ u.digits rest, u.isDigit c = true := fun c hc => (List.mem_filter.mp hc).2
    rw [canon_normalize hdigits hnorm, squash_eq_filter s, htext,
      List.filter_cons_of_pos (by rfl), hrest, canon_digits hdigits hall]
  · exact .inl (by rw [heq])

/-- A number with other text in it becomes another number. -/
theorem not_sameId_normalize (h : DropsText u s) : ¬ SameId u s (normalizeCustomerId u s) := by
  rcases normalizeCustomerId_cases u s with ⟨rest, htext, hdigits, hnorm⟩ | ⟨hno, _⟩
  · obtain ⟨rest', htext', -, c, hc, hdigit, hkeep⟩ := h
    rw [htext] at htext'
    obtain rfl := (List.cons.inj htext').2
    have hall : ∀ c ∈ u.digits rest, u.isDigit c = true := fun c hc => (List.mem_filter.mp hc).2
    have htrim := isDigit_trimZeros hall
    have hsquash : squash u s = 'C' :: rest.filter keeps := by
      rw [squash_eq_filter s, htext, List.filter_cons_of_pos (by rfl)]
    have hmem : c ∈ rest.filter keeps := List.mem_filter.mpr ⟨hc, hkeep⟩
    intro hsame
    rw [SameId, canon_normalize hdigits hnorm, hsquash,
      canon_other ⟨c, hmem, hdigit⟩, canon_other ⟨'C', List.mem_cons_self, u.isDigit_C⟩] at hsame
    rcases hsame with heq | heq
    · rw [(List.cons.inj heq).2] at hmem
      rw [htrim c hmem] at hdigit
      cases hdigit
    · have hC := htrim 'C' ((List.cons.inj heq).2 ▸ List.mem_cons_self)
      rw [u.isDigit_C] at hC
      cases hC
  · exact absurd h hno

/-- The other candidates spell the input differently. -/
theorem sameId_rawId (s : Str) : SameId u s (rawId u s) := by
  unfold rawId
  dsimp only
  split_ifs
  · refine .inr ?_
    rw [squash_omitted, squash_upper, squash_strip]
  · refine .inl ?_
    rw [squash_upper, squash_strip]

/-- A candidate is the input in another spelling, unless it is a normal form
that dropped text. -/
theorem candidate_cases (hid : id ∈ candidates u s) :
    SameId u s id ∨
      (DropsText u s ∧
        (id = normalizeCustomerId u s ∨ id = remove '-' (normalizeCustomerId u s))) := by
  have hnormal (h : squash u id = squash u (normalizeCustomerId u s)) (hdrop : ¬ DropsText u s) :
      SameId u s id := by
    unfold SameId
    rw [h]
    exact sameId_normalize hdrop
  simp only [candidates, List.mem_cons, List.not_mem_nil, or_false] at hid
  rcases hid with rfl | rfl | rfl | rfl | rfl
  · exact .inl (.inl (by rw [squash_strip]))
  · exact .inl (.inl (by rw [squash_upper, squash_strip]))
  · exact .inl (sameId_rawId s)
  · by_cases hdrop : DropsText u s
    · exact .inr ⟨hdrop, .inl rfl⟩
    · exact .inl (hnormal rfl hdrop)
  · by_cases hdrop : DropsText u s
    · exact .inr ⟨hdrop, .inr rfl⟩
    · exact .inl (hnormal (squash_remove_hyphen _) hdrop)

/-! ## What the lookup returns -/

theorem findCustomer_of_blank (h : strip s = []) : db.findCustomer u order s [] [] = none := by
  have hnil : strip [] = [] := rfl
  simp [Database.findCustomer, h, hnil]

theorem findCustomer_eq (h : strip s ≠ []) :
    db.findCustomer u order s [] [] = order.findSome? db.getCustomer := by
  have hnil : strip [] = [] := rfl
  simp [Database.findCustomer, h, hnil]

theorem getCustomer_eq_some {c : Customer} : db.getCustomer id = some c → c ∈ db.customers ∧
    c.id = id := by
  intro h
  exact ⟨List.mem_of_find?_eq_some h, by simpa using List.find?_some h⟩

/-- A customer that is found has a candidate id. -/
theorem candidate_of_found {c : Customer} (horder : IsOrder u s order)
    (h : order.findSome? db.getCustomer = some c) :
    c ∈ db.customers ∧ c.id ∈ candidates u s := by
  obtain ⟨cid, hcid, hget⟩ := List.exists_of_findSome?_eq_some h
  obtain ⟨hmem, rfl⟩ := getCustomer_eq_some hget
  exact ⟨hmem, (horder.2 _).mp hcid⟩

/-- Each candidate may be the first one to be tried. -/
theorem exists_order_first {c : Customer} (hc : c ∈ db.customers) (hid : c.id ∈ candidates u s) :
    ∃ order, IsOrder u s order ∧ order.findSome? db.getCustomer = some c := by
  have hfirst : c.id ∈ (candidates u s).dedup := List.mem_dedup.mpr hid
  refine ⟨c.id :: (candidates u s).dedup.erase c.id, ⟨?_, ?_⟩, ?_⟩
  · exact (List.perm_cons_erase hfirst).nodup_iff.mp (List.nodup_dedup _)
  · intro cid
    rw [← (List.perm_cons_erase hfirst).mem_iff, List.mem_dedup]
  · have hget : db.getCustomer c.id = some c := by
      obtain ⟨c', hc'⟩ := Option.isSome_iff_exists.mp (getCustomer_isSome.mpr ⟨c, hc, rfl⟩)
      obtain ⟨hmem, heq⟩ := getCustomer_eq_some hc'
      rw [hc', List.inj_on_of_nodup_map db.customers_key hmem hc heq]
    rw [List.findSome?_cons_of_isSome (by rw [hget]; rfl), hget]

/-! ## Sound resolution -/

/-- What a customer number alone should resolve to: the customer with that
very id if there is one, the same customer in whatever order the candidates
are tried, and only one whose id the number spells. -/
structure Database.IdentitySound (u : Unicode) (db : Database) (s : Str) : Prop where
  exact : ∀ c ∈ db.customers, c.id = strip s → ∀ order, IsOrder u s order →
    db.findCustomer u order s [] [] = some c
  anyOrder : ∀ order order', IsOrder u s order → IsOrder u s order' →
    db.findCustomer u order s [] [] = db.findCustomer u order' s [] []
  spelled : ∀ order, IsOrder u s order → ∀ c, db.findCustomer u order s [] [] = some c →
    SameId u s c.id

/-- At most one customer's id is among the candidates. -/
def Database.Unambiguous (u : Unicode) (db : Database) (s : Str) : Prop :=
  ∀ a ∈ db.customers, ∀ b ∈ db.customers, a.id ∈ candidates u s → b.id ∈ candidates u s → a = b

/-- Nobody has the number that is left when text is dropped. -/
def Database.NoTruncatedId (u : Unicode) (db : Database) (s : Str) : Prop :=
  DropsText u s → ∀ c ∈ db.customers,
    c.id ≠ normalizeCustomerId u s ∧ c.id ≠ remove '-' (normalizeCustomerId u s)

theorem found_of_unambiguous {c : Customer} (h : db.Unambiguous u s) (hc : c ∈ db.customers)
    (hid : c.id ∈ candidates u s) (horder : IsOrder u s order) :
    order.findSome? db.getCustomer = some c := by
  obtain ⟨c', hc'⟩ := Option.isSome_iff_exists.mp
    ((findSome_candidates_isSome horder).mpr ⟨c, hc, hid⟩)
  obtain ⟨hmem, hid'⟩ := candidate_of_found horder hc'
  rw [hc', h c' hmem c hc hid' hid]

theorem strip_mem_candidates (u : Unicode) (s : Str) : strip s ∈ candidates u s :=
  List.mem_cons_self

/-- A blank number finds nobody. -/
theorem identitySound_of_blank (hblank : strip s = []) :
    db.IdentitySound u s ↔ ∀ c ∈ db.customers, c.id ≠ [] := by
  constructor
  · intro h c hc hid
    obtain ⟨order, horder⟩ := exists_isOrder u s
    have hfound := h.exact c hc (hid.trans hblank.symm) order horder
    rw [findCustomer_of_blank hblank] at hfound
    cases hfound
  · intro hnobody
    refine ⟨?_, ?_, ?_⟩
    · intro c hc hid
      exact absurd (hid.trans hblank) (hnobody c hc)
    · intro order order' _ _
      rw [findCustomer_of_blank hblank, findCustomer_of_blank hblank]
    · intro order _ c hc
      rw [findCustomer_of_blank hblank] at hc
      cases hc

theorem Database.IdentitySound.unambiguous (h : db.IdentitySound u s) (hblank : strip s ≠ []) :
    db.Unambiguous u s := by
  intro a ha b hb hida hidb
  obtain ⟨order, horder, hfound⟩ := exists_order_first ha hida
  obtain ⟨order', horder', hfound'⟩ := exists_order_first hb hidb
  have heq := h.anyOrder order order' horder horder'
  rw [findCustomer_eq hblank, findCustomer_eq hblank, hfound, hfound'] at heq
  exact Option.some.inj heq

theorem Database.IdentitySound.noTruncatedId (h : db.IdentitySound u s) (hblank : strip s ≠ []) :
    db.NoTruncatedId u s := by
  intro hdrop c hc
  have hspelled (hid : c.id ∈ candidates u s) : SameId u s c.id := by
    obtain ⟨order, horder, hfound⟩ := exists_order_first hc hid
    exact h.spelled order horder c (by rw [findCustomer_eq hblank, hfound])
  constructor
  · intro hid
    exact not_sameId_normalize hdrop (hid ▸ hspelled (by simp [hid, candidates]))
  · intro hid
    have hsame := hspelled (by simp [hid, candidates])
    rw [SameId, hid, squash_remove_hyphen] at hsame
    exact not_sameId_normalize hdrop hsame

/-- Every order of the candidates finds the same. -/
theorem findSome_anyOrder {order' : List Str} (hone : db.Unambiguous u s)
    (horder : IsOrder u s order) (horder' : IsOrder u s order') :
    order.findSome? db.getCustomer = order'.findSome? db.getCustomer := by
  cases hfound : order.findSome? db.getCustomer with
  | some c =>
    obtain ⟨hc, hid⟩ := candidate_of_found horder hfound
    exact (found_of_unambiguous hone hc hid horder').symm
  | none =>
    have hnone : ¬ ∃ c ∈ db.customers, c.id ∈ candidates u s := by
      rw [← findSome_candidates_isSome horder, hfound]
      simp
    rw [← findSome_candidates_isSome horder', Option.not_isSome_iff_eq_none] at hnone
    exact hnone.symm

theorem identitySound_of_unambiguous (hblank : strip s ≠ []) (hone : db.Unambiguous u s)
    (htrunc : db.NoTruncatedId u s) : db.IdentitySound u s := by
  refine ⟨?_, ?_, ?_⟩
  · intro c hc hid order horder
    rw [findCustomer_eq hblank]
    exact found_of_unambiguous hone hc (hid ▸ strip_mem_candidates u s) horder
  · intro order order' horder horder'
    rw [findCustomer_eq hblank, findCustomer_eq hblank]
    exact findSome_anyOrder hone horder horder'
  · intro order horder c hc
    rw [findCustomer_eq hblank] at hc
    obtain ⟨hmem, hid⟩ := candidate_of_found horder hc
    rcases candidate_cases hid with hsame | ⟨hdrop, hnorm⟩
    · exact hsame
    · obtain ⟨hne, hne'⟩ := htrunc hdrop c hmem
      rcases hnorm with hnorm | hnorm
      · exact absurd hnorm hne
      · exact absurd hnorm hne'

/-- A customer number resolves soundly if it is blank and nobody has the empty
id, or if at most one customer's id is among its candidates and none is the
number left after text was dropped; and not otherwise. -/
theorem identitySound_iff (u : Unicode) (db : Database) (s : Str) :
    db.IdentitySound u s ↔
      (strip s = [] ∧ ∀ c ∈ db.customers, c.id ≠ []) ∨
        (strip s ≠ [] ∧ db.Unambiguous u s ∧ db.NoTruncatedId u s) := by
  by_cases hblank : strip s = []
  · rw [identitySound_of_blank hblank]
    exact ⟨fun h => .inl ⟨hblank, h⟩, fun h => (h.resolve_right fun hr => hr.1 hblank).2⟩
  · constructor
    · exact fun h => .inr ⟨hblank, h.unambiguous hblank, h.noTruncatedId hblank⟩
    · intro h
      obtain ⟨-, hone, htrunc⟩ := h.resolve_left fun hl => hblank hl.1
      exact identitySound_of_unambiguous hblank hone htrunc

/-- A number of the form of `CUST-100482` identifies the customer whose number
is its digits. -/
theorem custNumber_not_sound : ¬ demoDatabase.IdentitySound .ascii "CUST-19382" := by
  intro h
  have hcandidates : candidates .ascii "CUST-19382" =
      ["CUST-19382", "CUST-19382", "CUST-19382", "C-19382", "C19382"] := by decide +kernel
  have horder : IsOrder .ascii "CUST-19382" ["CUST-19382", "C-19382", "C19382"] := by
    refine ⟨by decide, fun id => ?_⟩
    rw [hcandidates]
    simp
  have hchris : (demoDatabase.findCustomer .ascii ["CUST-19382", "C-19382", "C19382"]
      "CUST-19382" [] []).map (·.id) = some ("C-19382" : Str) := by decide +kernel
  obtain ⟨c, hc, hid⟩ := Option.map_eq_some_iff.mp hchris
  have hsame := h.spelled _ horder c hc
  rw [hid] at hsame
  revert hsame
  unfold SameId
  decide +kernel

end AiPipelines.Commerce
