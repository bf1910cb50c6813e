import Mathlib.Data.List.Dedup
import AiPipelines.Commerce.Repository

/-!
# Whose payments are listed

`lookup_payment_status` combines three optional filters.  The customer filter
is applied when the caller's identity resolves to a customer; when an identity
is given and resolves to nobody, the filter is dropped instead, and an order
number is then enough to list the payments of whoever placed the order.

`respectsIdentity_iff` says exactly when that happens.
-/

namespace AiPipelines.Commerce

open PyStd

variable {u : Unicode} {db : Database} {customerId email orderId : Str} {order : List Str}

/-! ## Resolution -/

/-- Some customer has a candidate id or the normalised address. -/
def Database.Resolves (u : Unicode) (db : Database) (customerId email : Str) : Prop :=
  (strip customerId ≠ [] ∧ ∃ c ∈ db.customers, c.id ∈ candidates u customerId) ∨
    (strip email ≠ [] ∧ ∃ c ∈ db.customers, c.email = normalizeEmail u email)

theorem getCustomer_isSome {id : Str} :
    (db.getCustomer id).isSome ↔ ∃ c ∈ db.customers, c.id = id := by
  simp [Database.getCustomer]

/-- The candidates hit a customer, in whatever order they are tried. -/
theorem findSome_candidates_isSome (horder : IsOrder u customerId order) :
    (order.findSome? db.getCustomer).isSome ↔
      ∃ c ∈ db.customers, c.id ∈ candidates u customerId := by
  rw [List.isSome_findSome?, List.any_eq_true]
  constructor
  · intro ⟨id, hid, hsome⟩
    obtain ⟨c, hc, rfl⟩ := getCustomer_isSome.mp hsome
    exact ⟨c, hc, (horder.2 _).mp hid⟩
  · intro ⟨c, hc, hid⟩
    exact ⟨c.id, (horder.2 _).mpr hid, getCustomer_isSome.mpr ⟨c, hc, rfl⟩⟩

/-- Whether an identity resolves does not depend on the order. -/
theorem findCustomer_isSome_iff (horder : IsOrder u customerId order) :
    (db.findCustomer u order customerId email []).isSome ↔ db.Resolves u customerId email := by
  have hname : strip [] = [] := rfl
  have hids : (order.findSome? db.getCustomer).isSome ↔
      ∃ c ∈ db.customers, c.id ∈ candidates u customerId :=
    findSome_candidates_isSome horder
  unfold Database.findCustomer Database.Resolves
  by_cases hid : strip customerId = [] <;> by_cases hmail : strip email = [] <;>
    simp [hid, hmail, hname, ← hids]

/-! ## The payments of a reply -/

theorem listed_paymentRecords (payments : List Payment) :
    (paymentRecords payments).listed = payments := by
  cases payments <;> rfl

/-- A listed payment is one of the customer and of the order. -/
theorem mem_paymentQuery {customer : Option Customer} {o : Option Order} {p : Payment}
    (hp : p ∈ db.paymentQuery customer o) :
    p ∈ db.payments ∧ (∀ c ∈ customer, p.customerId = c.id) ∧ ∀ o' ∈ o, p.orderId = o'.id := by
  have hrow := (db.newestFirst_perm _).mem_iff.mp (List.mem_of_mem_take hp)
  obtain ⟨hmem, hfilter⟩ := List.mem_filter.mp hrow
  rw [Bool.and_eq_true] at hfilter
  refine ⟨hmem, ?_, ?_⟩
  · intro c hc
    rw [Option.mem_def.mp hc] at hfilter
    simpa using hfilter.1
  · intro o' ho
    rw [Option.mem_def.mp ho] at hfilter
    simpa using hfilter.2

/-- Without a customer, a payment of the order makes the list non-empty. -/
theorem paymentQuery_ne_nil {o : Order} {p : Payment} (hp : p ∈ db.payments)
    (ho : p.orderId = o.id) : db.paymentQuery none (some o) ≠ [] := by
  intro hnil
  unfold Database.paymentQuery at hnil
  rw [List.take_eq_nil_iff] at hnil
  have hempty := hnil.resolve_left (by decide)
  have hperm := db.newestFirst_perm (db.payments.filter fun p => true && (p.orderId = o.id : Bool))
  rw [hempty] at hperm
  have hmem : p ∈ db.payments.filter fun p => true && (p.orderId = o.id : Bool) := by
    simp [hp, ho]
  rw [← hperm.nil_eq] at hmem
  exact List.not_mem_nil hmem

theorem findOrder_of_blank (h : strip orderId = []) : db.findOrder u orderId = none := by
  simp [Database.findOrder, orderIdCandidates, h]

/-- The payments that the lookup lists, once the customer and the order are
known. -/
theorem listed_lookup (db : Database) (order : List Str) (email customerId orderId : Str) :
    (db.lookupPaymentStatus u order email customerId orderId).listed =
      match db.findCustomer u order customerId email [], db.findOrder u orderId with
      | customer, some o => db.paymentQuery customer (some o)
      | some c, none => if strip orderId = [] then db.paymentQuery (some c) none else []
      | none, none => [] := by
  unfold Database.lookupPaymentStatus
  by_cases hid : strip orderId = []
  · rw [findOrder_of_blank hid]
    cases db.findCustomer u order customerId email [] with
    | none => simp [hid, PaymentReply.listed]
    | some c => simp [hid, listed_paymentRecords]
  · cases db.findOrder u orderId with
    | some o =>
      simp [hid, listed_paymentRecords]
    | none =>
      cases db.findCustomer u order customerId email [] <;> simp [hid, PaymentReply.listed]

/-! ## The supplied identity -/

/-- When an identity is given, the listed payments are those of the customer
that it resolves to; when it resolves to nobody, there are none. -/
def Database.RespectsIdentity (u : Unicode) (db : Database) (email customerId orderId : Str) :
    Prop :=
  strip email ≠ [] ∨ strip customerId ≠ [] →
    ∀ order, IsOrder u customerId order →
      ∀ p ∈ (db.lookupPaymentStatus u order email customerId orderId).listed,
        ∃ c, db.findCustomer u order customerId email [] = some c ∧ p.customerId = c.id

/-- A set of candidates is iterated in some order. -/
theorem exists_isOrder (u : Unicode) (customerId : Str) : ∃ order, IsOrder u customerId order :=
  ⟨(candidates u customerId).dedup, List.nodup_dedup _, fun _ => List.mem_dedup⟩

/-- If the identity resolves to nobody, the payments of the order are listed all the same. -/
theorem exists_listed {o : Order} {p : Payment} (horder : IsOrder u customerId order)
    (hres : ¬ db.Resolves u customerId email) (ho : db.findOrder u orderId = some o)
    (hp : p ∈ db.payments) (hpo : p.orderId = o.id) :
    db.findCustomer u order customerId email [] = none ∧
      ∃ q, q ∈ (db.lookupPaymentStatus u order email customerId orderId).listed := by
  have hnone : db.findCustomer u order customerId email [] = none := by
    rw [← Option.not_isSome_iff_eq_none, findCustomer_isSome_iff horder]
    exact hres
  have hlist : (db.lookupPaymentStatus u order email customerId orderId).listed =
      db.paymentQuery none (some o) := by
    rw [listed_lookup, hnone, ho]
  refine ⟨hnone, ?_⟩
  rw [hlist]
  exact List.exists_mem_of_ne_nil _ (paymentQuery_ne_nil hp hpo)

/-- If the identity resolves, only the payments of its customer are listed. -/
theorem listed_of_found {c : Customer} {p : Payment}
    (hc : db.findCustomer u order customerId email [] = some c)
    (hp : p ∈ (db.lookupPaymentStatus u order email customerId orderId).listed) :
    p.customerId = c.id := by
  rw [listed_lookup, hc] at hp
  cases ho : db.findOrder u orderId with
  | some o =>
    rw [ho] at hp
    exact (mem_paymentQuery hp).2.1 c rfl
  | none =>
    rw [ho] at hp
    by_cases hblank : strip orderId = []
    · simp only [hblank, if_true] at hp
      exact (mem_paymentQuery hp).2.1 c rfl
    · simp only [hblank, if_false] at hp
      cases hp

/-- If it resolves to nobody, what is listed belongs to the order. -/
theorem listed_of_not_found {p : Payment} (hc : db.findCustomer u order customerId email [] = none)
    (hp : p ∈ (db.lookupPaymentStatus u order email customerId orderId).listed) :
    ∃ o, db.findOrder u orderId = some o ∧ p ∈ db.payments ∧ p.orderId = o.id := by
  rw [listed_lookup, hc] at hp
  cases ho : db.findOrder u orderId with
  | none =>
    rw [ho] at hp
    cases hp
  | some o =>
    rw [ho] at hp
    obtain ⟨hmem, -, hpo⟩ := mem_paymentQuery hp
    exact ⟨o, rfl, hmem, hpo o rfl⟩

/-- The lookup respects the identity unless an identity is given that
resolves to nobody, and the order that is asked for has a payment. -/
theorem respectsIdentity_iff (u : Unicode) (db : Database) (email customerId orderId : Str) :
    db.RespectsIdentity u email customerId orderId ↔
      (strip email = [] ∧ strip customerId = []) ∨ db.Resolves u customerId email ∨
        ∀ o, db.findOrder u orderId = some o → ∀ p ∈ db.payments, p.orderId ≠ o.id := by
  constructor
  · intro h
    by_cases hblank : strip email = [] ∧ strip customerId = []
    · exact .inl hblank
    by_cases hres : db.Resolves u customerId email
    · exact .inr (.inl hres)
    refine .inr (.inr fun o ho p hp hpo => ?_)
    have hgiven : strip email ≠ [] ∨ strip customerId ≠ [] := by
      by_contra hno
      push Not at hno
      exact hblank hno
    obtain ⟨order, horder⟩ := exists_isOrder u customerId
    obtain ⟨hnone, q, hq⟩ := exists_listed horder hres ho hp hpo
    obtain ⟨c, hc, -⟩ := h hgiven order horder q hq
    rw [hnone] at hc
    cases hc
  · intro hcond hgiven order horder p hp
    cases hc : db.findCustomer u order customerId email [] with
    | some c => exact ⟨c, rfl, listed_of_found hc hp⟩
    | none =>
      have hres : ¬ db.Resolves u customerId email := by
        rw [← findCustomer_isSome_iff horder, hc]
        simp
      obtain ⟨o, ho, hmem, hpo⟩ := listed_of_not_found hc hp
      rcases hcond with ⟨hmail, hid⟩ | hyes | hnone
      · exact absurd hgiven (by simp [hmail, hid])
      · exact absurd hyes hres
      · exact absurd hpo (hnone o ho p hmem)

/-- Two customers and one of their payments. -/
def demoDatabase : Database where
  customers :=
    [{ id := "C-001257", preferredName := "John", fullName := "John Smith",
       email := "j.smith@acme.com" },
      { id := "C-19382", preferredName := "Chris", fullName := "Chris Taylor",
        email := "chris.taylor@example.test" }]
  orders := [{ id := "ORD-784921", displayOrderNumber := "784921" }]
  payments :=
    [{ id := "PAY-784921-01", customerId := "C-001257", orderId := "ORD-784921",
       method := "Visa ending 4421", amount := "USD 899.00", status := "Captured",
       processedAt := "2026-06-10 14:25" }]
  newestFirst := fun rows => rows
  customers_key := by decide
  orders_key := by decide
  newestFirst_perm := fun rows => List.Perm.refl rows

/-- A customer number that nobody has, together with the number of an order,
lists the payments of the order. -/
theorem unknownCustomer_sees_payment :
    ¬ demoDatabase.RespectsIdentity .ascii [] "C-99999" "784921" := by
  intro h
  have hcandidates : candidates .ascii "C-99999" =
      ["C-99999", "C-99999", "C-99999", "C-99999", "C99999"] := by decide +kernel
  have horder : IsOrder .ascii "C-99999" ["C-99999", "C99999"] := by
    refine ⟨by decide, fun id => ?_⟩
    rw [hcandidates]
    simp
  have hlisted : (demoDatabase.lookupPaymentStatus .ascii ["C-99999", "C99999"] [] "C-99999"
      "784921").listed = demoDatabase.payments := by decide +kernel
  have hnobody : demoDatabase.findCustomer .ascii ["C-99999", "C99999"] "C-99999" [] [] = none := by
    decide +kernel
  have hpayment := h (.inr (by decide)) _ horder
  rw [hlisted] at hpayment
  obtain ⟨c, hc, -⟩ := hpayment _ List.mem_cons_self
  rw [hnobody] at hc
  cases hc

end AiPipelines.Commerce
