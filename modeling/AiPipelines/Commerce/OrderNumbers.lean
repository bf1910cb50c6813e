import AiPipelines.Commerce.Payments

/-!
# Order numbers that are spoken

`_find_order` tries the stripped input, its digits, and the digits behind `ORD-`.  The input
itself is compared letter by letter, so in another letter case an order is found by its digits
only, and of the digits only two groupings are tried.

`findOrder_eq_some_iff` is the search as a list of attempts, and `foundAs_iff` says whom an
attempt finds.
-/

namespace AiPipelines.Commerce

open PyStd

variable {u : Unicode} {db : Database} {o : Order} {key s x : Str}

/-! ## One attempt -/

/-- The order's id or display number. -/
def Order.HasKey (o : Order) (x : Str) : Prop := o.id = x ∨ o.displayOrderNumber = x

/-- The query for one candidate. -/
def Database.orderByKey (db : Database) (x : Str) : Option Order :=
  db.orders.find? fun o => o.id = x || o.displayOrderNumber = x

/-- The id of the order, or its display number, which no order before it in the table has. -/
def Database.FoundAs (db : Database) (x : Str) (o : Order) : Prop :=
  o.id = x ∨ o.displayOrderNumber = x ∧
    ∃ front back, db.orders = front ++ o :: back ∧ ∀ b ∈ front, b.displayOrderNumber ≠ x

/-- Nobody's id or display number. -/
def Database.FreeKey (db : Database) (x : Str) : Prop := ∀ b ∈ db.orders, ¬ b.HasKey x

/-- No display number is the id of another order. -/
def Database.KeysApart (db : Database) : Prop :=
  ∀ a ∈ db.orders, ∀ b ∈ db.orders, a.displayOrderNumber = b.id → a = b

theorem orderByKey_eq_none_iff : db.orderByKey x = none ↔ db.FreeKey x := by
  unfold Database.orderByKey Database.FreeKey Order.HasKey
  rw [List.find?_eq_none]
  simp

theorem hasKey_of_orderByKey (h : db.orderByKey x = some o) : o.HasKey x := by
  have hkey := List.find?_some h
  simpa [Order.HasKey] using hkey

/-- An id is found before anything else, and a display number in the first order that has it. -/
theorem foundAs_iff (hapart : db.KeysApart) (ho : o ∈ db.orders) :
    db.orderByKey x = some o ↔ db.FoundAs x o := by
  unfold Database.orderByKey
  rw [List.find?_eq_some_iff_append]
  constructor
  · rintro ⟨hkey, front, back, hsplit, hfront⟩
    simp only [Bool.or_eq_true, decide_eq_true_eq] at hkey
    rcases hkey with hid | hdisplay
    · exact .inl hid
    · refine .inr ⟨hdisplay, front, back, hsplit, ?_⟩
      intro b hb hbx
      simpa [hbx] using hfront b hb
  · rintro (hid | ⟨hdisplay, front, back, hsplit, hfront⟩)
    · obtain ⟨front, back, hsplit⟩ := List.append_of_mem ho
      refine ⟨by simp [hid], front, back, hsplit, ?_⟩
      intro b hb
      have hmem : b ∈ db.orders := by
        rw [hsplit]
        exact List.mem_append_left _ hb
      have hne : b ≠ o := by
        intro heq
        have hnodup := List.Nodup.of_map _ db.orders_key
        rw [hsplit] at hnodup
        exact List.disjoint_of_nodup_append hnodup hb (heq ▸ List.mem_cons_self)
      have hid' : b.id ≠ x :=
        fun h => hne (List.inj_on_of_nodup_map db.orders_key hmem ho (h.trans hid.symm))
      have hdisplay : b.displayOrderNumber ≠ x :=
        fun h => hne (hapart b hmem o ho (h.trans hid.symm))
      simp [hid', hdisplay]
    · refine ⟨by simp [hdisplay], front, back, hsplit, ?_⟩
      intro b hb
      have hmem : b ∈ db.orders := by
        rw [hsplit]
        exact List.mem_append_left _ hb
      have hid : b.id ≠ x := by
        intro h
        have heq : o = b := hapart o ho b hmem (hdisplay.trans h.symm)
        exact hfront b hb (heq ▸ hdisplay)
      simp [hid, hfront b hb]

/-! ## The attempts -/

theorem findSome?_firstOfEach {α : Type} (f : Str → Option α) (l : List Str) :
    (firstOfEach l).findSome? f = l.findSome? f := by
  have hfold : ∀ seen : List Str, (l.foldl (fun seen c =>
      if seen.contains c then seen else seen ++ [c]) seen).findSome? f =
        (seen ++ l).findSome? f := by
    induction l with
    | nil => exact fun seen => by rw [List.foldl_nil, List.append_nil]
    | cons c l ih =>
      intro seen
      rw [List.foldl_cons, ih]
      split_ifs with hc
      · -- the entry has been tried before
        have hmem : c ∈ seen := List.contains_iff_mem.1 hc
        simp only [List.findSome?_append, List.findSome?_cons]
        cases hseen : seen.findSome? f with
        | some a => rfl
        | none =>
          rw [List.findSome?_eq_none_iff.1 hseen c hmem]
      · rw [List.append_assoc, List.singleton_append]
  exact hfold []

/-- The digits with `ORD-` in front. -/
def ordNumber (digits : Str) : Str := "ORD-".toList ++ digits

/-- The digits with `ORD-` in front and a hyphen behind the first four. -/
def ordGrouped (digits : Str) : Str := "ORD-".toList ++ digits.take 4 ++ '-' :: digits.drop 4

theorem findSome?_cons_eq_some_iff {α β : Type} {f : α → Option β} {a : α} {l : List α} {b : β} :
    (a :: l).findSome? f = some b ↔ f a = some b ∨ f a = none ∧ l.findSome? f = some b := by
  rw [List.findSome?_cons]
  cases f a with
  | none => simp
  | some b' => simp

/-- The attempts, one after the other. -/
theorem findOrder_eq_some_iff :
    db.findOrder u s = some o ↔ strip s ≠ [] ∧ (db.orderByKey (strip s) = some o ∨
      db.orderByKey (strip s) = none ∧ u.digits (strip s) ≠ [] ∧
        (db.orderByKey (u.digits (strip s)) = some o ∨
          db.orderByKey (u.digits (strip s)) = none ∧
            (db.orderByKey (ordNumber (u.digits (strip s))) = some o ∨
              db.orderByKey (ordNumber (u.digits (strip s))) = none ∧
                ¬ startsWith "ORD" (u.upper (strip s)) = true ∧ 4 < (u.digits (strip s)).length ∧
                  db.orderByKey (ordGrouped (u.digits (strip s))) = some o))) := by
  have hfind : db.findOrder u s = (orderIdCandidates u s).findSome? db.orderByKey := rfl
  rw [hfind]
  unfold orderIdCandidates
  dsimp only
  by_cases hblank : strip s = []
  · simp [hblank]
  rw [if_neg hblank, findSome?_firstOfEach, and_iff_right hblank]
  by_cases hdigits : u.digits (strip s) = []
  · rw [if_pos hdigits, findSome?_cons_eq_some_iff]
    simp [hdigits]
  have hord : ∀ digits : Str, "ORD-".toList ++ digits = ordNumber digits := fun _ => rfl
  have hgroup : ∀ digits : Str, "ORD-".toList ++ digits.take 4 ++ '-' :: digits.drop 4 =
      ordGrouped digits := fun _ => rfl
  rw [if_neg hdigits, hord, hgroup, and_iff_right hdigits]
  by_cases hprefix : startsWith "ORD" (u.upper (strip s)) = true
  · rw [if_pos hprefix]
    simp only [findSome?_cons_eq_some_iff, List.findSome?_nil, hprefix, not_true_eq_false,
      false_and, and_false, or_false, reduceCtorEq]
  · rw [if_neg hprefix]
    simp only [findSome?_cons_eq_some_iff, List.findSome?_nil, hprefix, not_false_eq_true, true_and,
      and_false, or_false, reduceCtorEq]
    by_cases hlen : (u.digits (strip s)).length > 4
    · rw [if_pos hlen, and_iff_right hlen]
    · rw [if_neg hlen]
      -- the third attempt is made twice
      have hagain : ∀ {x : Str}, ¬ (db.orderByKey x = none ∧ db.orderByKey x = some o) := by
        intro x h
        rw [h.1] at h
        cases h.2
      simp only [hagain, iff_false_intro hlen, false_and, and_false]

/-! ## The spelling of a key -/

/-- Letter case does not matter to digits. -/
theorem digits_upper (s : Str) : u.digits (u.upper s) = u.digits s := by
  unfold Unicode.digits
  induction s with
  | nil => rfl
  | cons c s ih =>
    rw [u.upper_cons, List.filter_append, ih]
    by_cases hc : u.isDigit c = true
    · rw [u.upperChar_caseless c (by simp [hc]), List.filter_cons_of_pos hc,
        List.filter_cons_of_pos hc]
      rfl
    · have hnone : (u.upperChar c).filter u.isDigit = [] := by
        rw [List.filter_eq_nil_iff]
        intro d hd hdigit
        rw [u.caseless_of_upperChar c d hd (by simp [hdigit])] at hdigit
        exact hc hdigit
      rw [hnone, List.filter_cons_of_neg hc]
      rfl

theorem digits_strip (s : Str) : u.digits (strip s) = u.digits s := by
  have hvisible : ∀ t : Str, u.digits t = u.digits (visible t) := by
    intro t
    unfold Unicode.digits visible
    rw [List.filter_filter]
    refine List.filter_congr fun c _ => ?_
    by_cases hc : u.isDigit c = true
    · simp [hc, u.isDigit_not_isSpace c hc]
    · simp [hc]
  rw [hvisible, visible_strip, ← hvisible]

/-- The input is the key in another letter case and with blanks around. -/
def SpellsKey (u : Unicode) (key s : Str) : Prop := u.upper (strip s) = u.upper (strip key)

instance (u : Unicode) (key s : Str) : Decidable (SpellsKey u key s) :=
  inferInstanceAs (Decidable (u.upper (strip s) = u.upper (strip key)))

theorem SpellsKey.digits (h : SpellsKey u key s) : u.digits (strip s) = u.digits key := by
  rw [← digits_upper, h, digits_upper, digits_strip]

/-- The input is the id or the display number of the order, letter by letter.  Or the input is
nobody's, and of the three numbers that are made of the digits of the key the first that is
somebody's leads to the order. -/
def Database.OrderReached (u : Unicode) (db : Database) (o : Order) (key s : Str) : Prop :=
  strip s ≠ [] ∧ (db.FoundAs (strip s) o ∨ db.FreeKey (strip s) ∧ u.digits key ≠ [] ∧
    (db.FoundAs (u.digits key) o ∨ db.FreeKey (u.digits key) ∧
      (db.FoundAs (ordNumber (u.digits key)) o ∨ db.FreeKey (ordNumber (u.digits key)) ∧
        ¬ startsWith "ORD" (u.upper (strip key)) = true ∧ 4 < (u.digits key).length ∧
          db.FoundAs (ordGrouped (u.digits key)) o)))

/-- An order that has the input itself as a key is not passed over. -/
theorem exact_preferred (h : db.findOrder u s = some o)
    (hexact : ∃ b ∈ db.orders, b.HasKey (strip s)) :
    o.HasKey (strip s) := by
  obtain ⟨-, hfirst | ⟨hnone, -⟩⟩ := findOrder_eq_some_iff.1 h
  · exact hasKey_of_orderByKey hfirst
  · obtain ⟨b, hb, hkey⟩ := hexact
    exact absurd hkey (orderByKey_eq_none_iff.1 hnone b hb)

/-- A spelling of a key of an order finds the order exactly under the condition, and no input
that is somebody's key finds an order by a rewritten number. -/
theorem orderLookup_iff (hapart : db.KeysApart) (ho : o ∈ db.orders) :
    (∀ key s, o.HasKey key → SpellsKey u key s →
      (db.findOrder u s = some o ↔ db.OrderReached u o key s)) ∧
      ∀ t o', db.findOrder u t = some o' → (∃ b ∈ db.orders, b.HasKey (strip t)) →
        o'.HasKey (strip t) := by
  refine ⟨?_, fun t o' h hexact => exact_preferred h hexact⟩
  intro key s _ hs
  unfold Database.OrderReached
  rw [findOrder_eq_some_iff, hs.digits, hs]
  simp only [orderByKey_eq_none_iff, foundAs_iff hapart ho]

/-- `ord-784921` is `ORD-784921`. -/
theorem orderLookup_784921 :
    demoDatabase.findOrder .ascii " ord-784921 " =
      some { id := "ORD-784921", displayOrderNumber := "784921" } := by
  have hapart : demoDatabase.KeysApart := by
    intro a ha b hb _
    rw [List.mem_singleton.1 ha, List.mem_singleton.1 hb]
  refine ((orderLookup_iff hapart List.mem_cons_self).1 _ _ (.inl rfl) (by decide +kernel)).2 ?_
  refine ⟨by decide, .inr ⟨?_, by decide, .inl (.inr ⟨by decide, [], [], rfl, nofun⟩)⟩⟩
  intro b hb hkey
  rw [List.mem_singleton.1 hb] at hkey
  rcases hkey with hid | hdisplay
  · exact absurd hid (by decide)
  · exact absurd hdisplay (by decide)

/-- One order, whose number has three groups of digits. -/
def groupedOrder : Order := { id := "ORD-2026-0612-7842", displayOrderNumber := "A-17" }

def groupedDatabase : Database where
  customers := []
  orders := [groupedOrder]
  payments := []
  newestFirst := fun rows => rows
  customers_key := by decide
  orders_key := by decide
  newestFirst_perm := fun rows => List.Perm.refl rows

/-- In lower case the order is not found by its id, nor by its display number. -/
theorem groupedOrder_lost :
    groupedDatabase.KeysApart ∧ SpellsKey .ascii groupedOrder.id "ord-2026-0612-7842" ∧
      groupedDatabase.findOrder .ascii "ord-2026-0612-7842" = none ∧
      SpellsKey .ascii groupedOrder.displayOrderNumber "a-17" ∧
      groupedDatabase.findOrder .ascii "a-17" = none := by
  refine ⟨?_, by decide +kernel, by decide +kernel, by decide +kernel, by decide +kernel⟩
  intro a ha b hb _
  rw [List.mem_singleton.1 ha, List.mem_singleton.1 hb]

end AiPipelines.Commerce
