import AiPipelines.Commerce.Normalize

/-!
# The commerce database

`CommerceRepository` of the server's `db/repositories.py`: how a caller is
identified, how an order is found, and what a payment lookup answers.

A table is the list of its rows in the order in which the database returns
them when no order is asked for.  A query for one row returns the first.
`_find_customer` tries a Python set of candidate ids.  The order in which a set
is iterated is not fixed, so the functions here take it as an argument,
`order`; `IsOrder` says which orders are possible.
-/

namespace AiPipelines.Commerce

open PyStd

/-- The columns of `Customer` that lookups compare. -/
structure Customer where
  id : Str
  preferredName : Str
  fullName : Str
  email : Str
  deriving Repr, DecidableEq

/-- The columns of `Order` that `_find_order` compares. -/
structure Order where
  id : Str
  displayOrderNumber : Str
  deriving Repr, DecidableEq

/-- `Payment`. -/
structure Payment where
  id : Str
  customerId : Str
  orderId : Str
  method : Str
  amount : Str
  status : Str
  processedAt : Str
  deriving Repr, DecidableEq

/-- The tables, with their primary keys. -/
structure Database where
  customers : List Customer
  orders : List Order
  payments : List Payment
  /-- `ORDER BY processed_at DESC`.  The column is a text, and how texts are
  ordered is the database's matter. -/
  newestFirst : List Payment → List Payment
  customers_key : (customers.map (·.id)).Nodup
  orders_key : (orders.map (·.id)).Nodup
  newestFirst_perm : ∀ rows, (newestFirst rows).Perm rows

variable (u : Unicode)

/-! ## Customers and orders -/

/-- `re.fullmatch(r"[A-Z0-9-]+", s)`. -/
def isPlainId (s : Str) : Bool :=
  s ≠ [] && s.all fun c => ('A' ≤ c && c ≤ 'Z') || ('0' ≤ c && c ≤ '9') || c = '-'

/-- `raw_id`: the text in upper case, with the prefix that was left out. -/
def rawId (customerId : Str) : Str :=
  let id := u.upper (strip customerId)
  if !startsWith "C" id && isPlainId id then 'C' :: '-' :: id else id

/-- The elements of `candidates`, in the order in which the source writes
them. -/
def candidates (customerId : Str) : List Str :=
  let norm := normalizeCustomerId u customerId
  [strip customerId, u.upper (strip customerId), rawId u customerId, norm, remove '-' norm]

/-- An order in which the set of candidates may be iterated. -/
def IsOrder (customerId : Str) (order : List Str) : Prop :=
  order.Nodup ∧ ∀ id, id ∈ order ↔ id ∈ candidates u customerId

/-- `session.get(Customer, id)`. -/
def Database.getCustomer (db : Database) (id : Str) : Option Customer :=
  db.customers.find? fun c => c.id = id

/-- `_find_customer`. -/
def Database.findCustomer (db : Database) (order : List Str) (customerId email name : Str) :
    Option Customer :=
  (if strip customerId ≠ [] then order.findSome? db.getCustomer else none) <|>
  (if strip email ≠ [] then db.customers.find? fun c => c.email = normalizeEmail u email
    else none) <|>
  (if strip name ≠ [] then
    let needle := u.lower (strip name)
    db.customers.find? fun c =>
      contains needle (u.lower c.preferredName) || contains needle (u.lower c.fullName)
    else none)

/-- `_find_order`. -/
def Database.findOrder (db : Database) (orderId : Str) : Option Order :=
  (orderIdCandidates u orderId).findSome? fun candidate =>
    db.orders.find? fun o => o.id = candidate || o.displayOrderNumber = candidate

/-! ## Payments -/

/-- What `lookup_payment_status` found. -/
inductive PaymentReply where
  | noCustomer
  | noOrder (orderId : Str)
  | noPayments
  | records (payments : List Payment)
  deriving Repr, DecidableEq

/-- The payments that a reply lists. -/
def PaymentReply.listed : PaymentReply → List Payment
  | .records payments => payments
  | _ => []

/-- One line of the list of payments. -/
def paymentLine (p : Payment) : Str :=
  ("- " : Str) ++ p.id ++ (": order " : Str) ++ p.orderId ++ (", " : Str) ++ p.amount ++
    (", status " : Str) ++ p.status ++ (", method " : Str) ++ p.method ++
    (", processed " : Str) ++ p.processedAt

/-- The text of the reply. -/
def PaymentReply.text : PaymentReply → Str
  | .noCustomer => "No matching customer found."
  | .noOrder orderId => ("No order found for " : Str) ++ u.repr orderId ++ ['.']
  | .noPayments => "No payment records found."
  | .records payments => joinWith ['\n'] ("Payment records:" :: payments.map paymentLine)

/-- The query, when the order is known: the five newest payments of the
customer, if there is one, and of the order, if one was asked for. -/
def Database.paymentQuery (db : Database) (customer : Option Customer) (order : Option Order) :
    List Payment :=
  (db.newestFirst (db.payments.filter fun p =>
    (match customer with
      | some c => p.customerId = c.id
      | none => true) &&
    (match order with
      | some o => p.orderId = o.id
      | none => true))).take 5

/-- `No payment records found.` when the query has no rows. -/
def paymentRecords : List Payment → PaymentReply
  | [] => .noPayments
  | payments => .records payments

/-- `lookup_payment_status`. -/
def Database.lookupPaymentStatus (db : Database) (order : List Str)
    (email customerId orderId : Str) : PaymentReply :=
  let customer := db.findCustomer u order customerId email []
  if customer = none ∧ strip orderId = [] then .noCustomer
  else if strip orderId ≠ [] then
    match db.findOrder u orderId with
    | none => .noOrder orderId
    | some o => paymentRecords (db.paymentQuery customer (some o))
  else paymentRecords (db.paymentQuery customer none)

end AiPipelines.Commerce
