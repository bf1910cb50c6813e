import Mathlib.Data.List.Forall2

/-!
# Code that may raise

Python code that may raise is an `Except` here.  Statements one after the other
are a `bind`, and a loop that collects a result for each item is a `mapM`.  The
lemmas say when such code returns: every part of it has to.  `OnlyRaises` says which
exceptions may come out of it.

The module names nothing of the repository.
-/

namespace AiPipelines.PyStd

variable {ε α β : Type}

theorem bind_eq_ok_iff {x : Except ε α} {f : α → Except ε β} {b : β} :
    x >>= f = .ok b ↔ ∃ a, x = .ok a ∧ f a = .ok b := by
  cases x with
  | error e => simp [bind, Except.bind]
  | ok a => simp [bind, Except.bind]

/-- The code does not raise. -/
def Returns (x : Except ε α) : Prop := ∃ a, x = .ok a

@[simp] theorem returns_ok (a : α) : Returns (.ok a : Except ε α) := ⟨a, rfl⟩

@[simp] theorem returns_pure (a : α) : Returns (pure a : Except ε α) := ⟨a, rfl⟩

@[simp] theorem not_returns_error (e : ε) : ¬ Returns (.error e : Except ε α) := by
  intro h
  obtain ⟨a, ha⟩ := h
  cases ha

theorem returns_bind {x : Except ε α} {f : α → Except ε β} :
    Returns (x >>= f) ↔ ∃ a, x = .ok a ∧ Returns (f a) := by
  constructor
  · intro h
    obtain ⟨b, hb⟩ := h
    obtain ⟨a, ha, hf⟩ := bind_eq_ok_iff.1 hb
    exact ⟨a, ha, b, hf⟩
  · intro h
    obtain ⟨a, ha, b, hf⟩ := h
    exact ⟨b, bind_eq_ok_iff.2 ⟨a, ha, hf⟩⟩

theorem returns_ite {c : Prop} [Decidable c] {x y : Except ε α} :
    Returns (if c then x else y) ↔ (c → Returns x) ∧ (¬ c → Returns y) := by
  split <;> simp_all

/-- A loop returns one result for each item. -/
theorem mapM_eq_ok_iff {f : α → Except ε β} {xs : List α} {ys : List β} :
    xs.mapM f = .ok ys ↔ List.Forall₂ (fun x y => f x = .ok y) xs ys := by
  induction xs generalizing ys with
  | nil =>
    rw [List.mapM_nil, List.forall₂_nil_left_iff]
    exact ⟨fun h => (Except.ok.inj h).symm, fun h => h ▸ rfl⟩
  | cons x xs ih =>
    rw [List.mapM_cons, List.forall₂_cons_left_iff]
    constructor
    · intro h
      obtain ⟨y, hy, h⟩ := bind_eq_ok_iff.1 h
      obtain ⟨ys', hys', h⟩ := bind_eq_ok_iff.1 h
      exact ⟨y, ys', hy, ih.1 hys', (Except.ok.inj h).symm⟩
    · intro h
      obtain ⟨y, ys', hy, hys', rfl⟩ := h
      rw [hy, ih.2 hys']
      rfl

/-- A loop returns if its body does for every item. -/
theorem returns_mapM {f : α → Except ε β} {xs : List α} :
    Returns (xs.mapM f) ↔ ∀ x ∈ xs, Returns (f x) := by
  simp only [Returns, mapM_eq_ok_iff]
  constructor
  · intro h x hx
    obtain ⟨ys, hys⟩ := h
    obtain ⟨k, hk, rfl⟩ := List.getElem_of_mem hx
    exact ⟨_, hys.get hk (hys.length_eq ▸ hk)⟩
  · intro h
    induction xs with
    | nil => exact ⟨[], .nil⟩
    | cons x xs ih =>
      obtain ⟨y, hy⟩ := h x List.mem_cons_self
      obtain ⟨ys, hys⟩ := ih fun z hz => h z (List.mem_cons_of_mem x hz)
      exact ⟨y :: ys, .cons hy hys⟩

theorem mapM_ok {f : α → Except ε β} {g : α → β} {xs : List α}
    (h : ∀ x ∈ xs, f x = .ok (g x)) : xs.mapM f = .ok (xs.map g) := by
  rw [mapM_eq_ok_iff, List.forall₂_map_right_iff, List.forall₂_same]
  exact h

/-! ## Which exceptions come out -/

/-- Every exception of the code has the property. -/
def OnlyRaises (P : ε → Prop) (x : Except ε α) : Prop := ∀ e, x = .error e → P e

variable {P : ε → Prop}

@[simp] theorem onlyRaises_ok (a : α) : OnlyRaises P (.ok a) := nofun

@[simp] theorem onlyRaises_pure (a : α) : OnlyRaises P (pure a : Except ε α) := nofun

theorem onlyRaises_error {e : ε} (h : P e) : OnlyRaises P (.error e : Except ε α) := by
  intro e' he'
  rw [← Except.error.inj he']
  exact h

theorem onlyRaises_bind {x : Except ε α} {f : α → Except ε β} (hx : OnlyRaises P x)
    (hf : ∀ a, x = .ok a → OnlyRaises P (f a)) : OnlyRaises P (x >>= f) := by
  cases x with
  | error e => exact onlyRaises_error (hx e rfl)
  | ok a => exact hf a rfl

theorem onlyRaises_mapM {f : α → Except ε β} {xs : List α} (hf : ∀ x ∈ xs, OnlyRaises P (f x)) :
    OnlyRaises P (xs.mapM f) := by
  induction xs with
  | nil =>
    rw [List.mapM_nil]
    exact onlyRaises_pure []
  | cons x xs ih =>
    rw [List.forall_mem_cons] at hf
    rw [List.mapM_cons]
    exact onlyRaises_bind hf.1 fun y _ => onlyRaises_bind (ih hf.2) fun ys _ => onlyRaises_pure _

theorem onlyRaises_foldlM {f : β → α → Except ε β} {xs : List α}
    (hf : ∀ b, ∀ x ∈ xs, OnlyRaises P (f b x)) (b : β) : OnlyRaises P (xs.foldlM f b) := by
  induction xs generalizing b with
  | nil => exact onlyRaises_pure b
  | cons x xs ih =>
    rw [List.foldlM_cons]
    exact onlyRaises_bind (hf b x List.mem_cons_self)
      fun b' _ => ih (fun b x hx => hf b x (List.mem_cons_of_mem _ hx)) b'

end AiPipelines.PyStd
