/-!
# Programs with a state, exceptions and a trace

A small monad for code that reads and changes a state, may raise, and does
things that an observer can see.  What it did stays in the trace when it
raises, and so does the state: Python does not roll back.

`Triple P m E Q X` is its program logic.  From a state with `P`, everything
that `m` does has `E`; if it returns, its result and the state have `Q`, and if
it raises, the exception and the state have `X`.  There is one rule for each
way to build a program.

`Emits m s ev` looks at one run: from `s`, `m` does `ev`.  It is shown by
walking up to the place where `ev` is done.

`Keeps I m` is for invariants that relate the state to all that was done before.

`Sim R m m' S` runs two programs side by side: from states that `R` relates,
`m'` returns when `m` does, does the same, and `S` relates what they come to.

The module names nothing of the repository.
-/

namespace AiPipelines

/-- A program over a state `σ` with trace events `ε` and exceptions `χ`. -/
def Eff (σ ε χ α : Type) : Type := σ → Except χ α × σ × List ε

namespace Eff

variable {σ ε χ χ' α β : Type}

/-- Return a value. -/
def ret (a : α) : Eff σ ε χ α := fun s => (.ok a, s, [])

/-- Do `m`, then `f` with its result. -/
def andThen (m : Eff σ ε χ α) (f : α → Eff σ ε χ β) : Eff σ ε χ β := fun s =>
  match m s with
  | (.ok a, s₁, es₁) =>
    match f a s₁ with
    | (r, s₂, es₂) => (r, s₂, es₁ ++ es₂)
  | (.error x, s₁, es₁) => (.error x, s₁, es₁)

instance : Monad (Eff σ ε χ) where
  pure := ret
  bind := andThen

/-- Raise an exception. -/
def raise (x : χ) : Eff σ ε χ α := fun s => (.error x, s, [])

/-- Do something visible. -/
def emit (ev : ε) : Eff σ ε χ Unit := fun s => (.ok (), s, [ev])

/-- Read the state. -/
def read : Eff σ ε χ σ := fun s => (.ok s, s, [])

/-- Change the state. -/
def modify (f : σ → σ) : Eff σ ε χ Unit := fun s => (.ok (), f s, [])

/-- A step of the state that nobody sees and that may raise. -/
def act (f : σ → Except χ α × σ) : Eff σ ε χ α := fun s => ((f s).1, (f s).2, [])

/-- `try: m except x: raise f x`. -/
def reraise (f : χ → χ') (m : Eff σ ε χ α) : Eff σ ε χ' α := fun s =>
  match m s with
  | (.ok a, s₁, es) => (.ok a, s₁, es)
  | (.error x, s₁, es) => (.error (f x), s₁, es)

/-- `try: m finally: cleanup`.  What the cleanup raises takes the place of the
rest. -/
def withCleanup (cleanup : Except χ Unit) (m : Eff σ ε χ α) : Eff σ ε χ α := fun s =>
  match cleanup with
  | .ok _ => m s
  | .error x => (.error x, (m s).2.1, (m s).2.2)

/-- The result of a computation that has no effect of its own. -/
def ofExcept : Except χ α → Eff σ ε χ α
  | .ok a => ret a
  | .error x => raise x

/-- A program over a part of the state.  Its changes stay, also when it
raises. -/
def zoom {τ : Type} (get : σ → τ) (put : τ → σ → σ) (m : Eff τ ε χ α) : Eff σ ε χ α := fun s =>
  match m (get s) with
  | (r, t, es) => (r, put t s, es)

/-- `for a in as: body a`. -/
def forEach (as : List α) (body : α → Eff σ ε χ Unit) : Eff σ ε χ Unit :=
  match as with
  | [] => ret ()
  | a :: as => andThen (body a) fun _ => forEach as body

/-! ## Runs step by step -/

/-- The first part returns and leaves no trace. -/
theorem bind_ok {m : Eff σ ε χ α} {f : α → Eff σ ε χ β} {s s₁ : σ} {a : α}
    (h : m s = (.ok a, s₁, [])) : (m >>= f) s = f a s₁ := by
  show andThen m f s = f a s₁
  unfold andThen
  rw [h]
  rfl

/-- The first part returns. -/
theorem bind_eq {m : Eff σ ε χ α} {f : α → Eff σ ε χ β} {s s₁ : σ} {a : α} {es : List ε}
    (h : m s = (.ok a, s₁, es)) :
    (m >>= f) s = ((f a s₁).1, (f a s₁).2.1, es ++ (f a s₁).2.2) := by
  show andThen m f s = _
  unfold andThen
  rw [h]

/-- The first part raises. -/
theorem bind_error {m : Eff σ ε χ α} {f : α → Eff σ ε χ β} {s s₁ : σ} {x : χ} {es : List ε}
    (h : m s = (.error x, s₁, es)) : (m >>= f) s = (.error x, s₁, es) := by
  show andThen m f s = (.error x, s₁, es)
  unfold andThen
  rw [h]

/-- A program in two parts returns if both do. -/
theorem bind_returns {m : Eff σ ε χ α} {f : α → Eff σ ε χ β} {s s₂ : σ} {b : β} {es : List ε}
    (h : (m >>= f) s = (.ok b, s₂, es)) :
    ∃ a s₁ es₁ es₂, m s = (.ok a, s₁, es₁) ∧ f a s₁ = (.ok b, s₂, es₂) ∧ es = es₁ ++ es₂ := by
  rcases hm : m s with ⟨r, s₁, es₁⟩
  cases r with
  | error x =>
    rw [bind_error hm] at h
    cases h
  | ok a =>
    rw [bind_eq hm] at h
    rcases hf : f a s₁ with ⟨r, s', es₂⟩
    rw [hf] at h
    cases h
    exact ⟨a, s₁, es₁, es₂, rfl, hf, rfl⟩

/-- A result that is only passed on leaves no trace. -/
theorem trace_bind_pure (m : Eff σ ε χ α) (f : α → β) (s : σ) :
    ((m >>= fun a => pure (f a)) s).2.2 = (m s).2.2 := by
  show (andThen m (fun a => ret (f a)) s).2.2 = (m s).2.2
  unfold andThen
  rcases m s with ⟨r, s₁, es⟩
  cases r with
  | ok a => exact List.append_nil es
  | error x => rfl

/-- The state at the end, when the first part returns. -/
theorem bind_state {m : Eff σ ε χ α} {f : α → Eff σ ε χ β} {s s₁ : σ} {a : α} {es : List ε}
    (h : m s = (.ok a, s₁, es)) : ((m >>= f) s).2.1 = (f a s₁).2.1 := by
  show (andThen m f s).2.1 = (f a s₁).2.1
  unfold andThen
  rw [h]

/-! ## The program logic -/

/-- What holds of an outcome: `Q` of a result, `X` of an exception. -/
def Outcome (Q : α → σ → Prop) (X : χ → σ → Prop) (s : σ) : Except χ α → Prop
  | .ok a => Q a s
  | .error x => X x s

/-- The rule of pre- and postconditions. -/
def Triple (P : σ → Prop) (m : Eff σ ε χ α) (E : ε → Prop) (Q : α → σ → Prop)
    (X : χ → σ → Prop) : Prop :=
  ∀ s, P s → Outcome Q X (m s).2.1 (m s).1 ∧ ∀ ev ∈ (m s).2.2, E ev

namespace Triple

variable {P : σ → Prop} {E : ε → Prop} {X : χ → σ → Prop}

/-- What holds at the end of a run however it ended. -/
theorem always {m : Eff σ ε χ α} {I : σ → Prop} (h : Triple P m E (fun _ => I) fun _ => I)
    {s : σ} (hs : P s) : I (m s).2.1 ∧ ∀ ev ∈ (m s).2.2, E ev := by
  obtain ⟨hout, hev⟩ := h s hs
  refine ⟨?_, hev⟩
  cases hr : (m s).1 with
  | ok a => rw [hr] at hout; exact hout
  | error x => rw [hr] at hout; exact hout

/-- What a triple says about a run that raised. -/
theorem error {m : Eff σ ε χ α} {Q : α → σ → Prop} (h : Triple P m E Q X) {s : σ} (hs : P s)
    {x : χ} (hx : (m s).1 = .error x) : X x (m s).2.1 := by
  have hout := (h s hs).1
  rw [hx] at hout
  exact hout

/-- Of any program nothing may be said. -/
theorem any (m : Eff σ ε χ α) : Triple P m (fun _ => True) (fun _ _ => True) (fun _ _ => True) := by
  intro s _
  refine ⟨?_, fun _ _ => trivial⟩
  cases (m s).1 with
  | ok a => trivial
  | error x => trivial

theorem pure {a : α} {Q : α → σ → Prop} (h : ∀ s, P s → Q a s) :
    Triple P (Pure.pure a) E Q X := by
  intro s hs
  exact ⟨h s hs, by simp [Pure.pure, ret]⟩

theorem raise {x : χ} {Q : α → σ → Prop} (h : ∀ s, P s → X x s) :
    Triple P (Eff.raise x) E Q X := by
  intro s hs
  exact ⟨h s hs, by simp [Eff.raise]⟩

theorem emit {ev : ε} (h : E ev) : Triple P (Eff.emit ev) E (fun _ => P) X := by
  intro s hs
  refine ⟨hs, ?_⟩
  intro ev' hev'
  rw [List.mem_singleton.1 hev']
  exact h

theorem read : Triple P (Eff.read : Eff σ ε χ σ) E (fun a s => a = s ∧ P s) X := by
  intro s hs
  exact ⟨⟨rfl, hs⟩, by simp [Eff.read]⟩

theorem modify {f : σ → σ} {Q : σ → Prop} (h : ∀ s, P s → Q (f s)) :
    Triple P (Eff.modify f) E (fun _ => Q) X := by
  intro s hs
  exact ⟨h s hs, by simp [Eff.modify]⟩

theorem act {f : σ → Except χ α × σ} {Q : α → σ → Prop}
    (h : ∀ s, P s → Outcome Q X (f s).2 (f s).1) : Triple P (Eff.act f) E Q X := by
  intro s hs
  exact ⟨h s hs, by simp [Eff.act]⟩

theorem bind {m : Eff σ ε χ α} {f : α → Eff σ ε χ β} {R : α → σ → Prop} {Q : β → σ → Prop}
    (hm : Triple P m E R X) (hf : ∀ a, Triple (R a) (f a) E Q X) : Triple P (m >>= f) E Q X := by
  intro s hs
  obtain ⟨hout, hev⟩ := hm s hs
  show Outcome Q X (andThen m f s).2.1 (andThen m f s).1 ∧ ∀ ev ∈ (andThen m f s).2.2, E ev
  unfold andThen
  rcases hms : m s with ⟨r, s₁, es₁⟩
  rw [hms] at hout hev
  cases r with
  | error x => exact ⟨hout, hev⟩
  | ok a =>
    obtain ⟨hout₂, hev₂⟩ := hf a s₁ hout
    refine ⟨hout₂, ?_⟩
    intro ev h
    rcases List.mem_append.1 h with h | h
    · exact hev ev h
    · exact hev₂ ev h

/-- What would come after an exception does not matter. -/
theorem raise_bind {x : χ} {f : α → Eff σ ε χ β} {Q : β → σ → Prop} (h : ∀ s, P s → X x s) :
    Triple P (Eff.raise x >>= f) E Q X :=
  bind (R := fun _ _ => False) (raise h) fun _ _ hs => hs.elim

theorem conseq {m : Eff σ ε χ α} {P' : σ → Prop} {Q Q' : α → σ → Prop} (hm : Triple P m E Q X)
    (hpre : ∀ s, P' s → P s) (hpost : ∀ a s, Q a s → Q' a s) : Triple P' m E Q' X := by
  intro s hs
  obtain ⟨hout, hev⟩ := hm s (hpre s hs)
  refine ⟨?_, hev⟩
  cases hr : (m s).1 with
  | ok a => rw [hr] at hout; exact hpost a _ hout
  | error x => rw [hr] at hout; exact hout

/-- Less may be said about both ways to end. -/
theorem weaken {m : Eff σ ε χ α} {Q Q' : α → σ → Prop} {X' : χ → σ → Prop}
    (hm : Triple P m E Q X) (hpost : ∀ a s, Q a s → Q' a s) (hexc : ∀ x s, X x s → X' x s) :
    Triple P m E Q' X' := by
  intro s hs
  obtain ⟨hout, hev⟩ := hm s hs
  refine ⟨?_, hev⟩
  cases hr : (m s).1 with
  | ok a => rw [hr] at hout; exact hpost a _ hout
  | error x => rw [hr] at hout; exact hexc x _ hout

/-- Two descriptions of one program. -/
theorem and {m : Eff σ ε χ α} {E' : ε → Prop} {Q Q' : α → σ → Prop} {X' : χ → σ → Prop}
    (h : Triple P m E Q X) (h' : Triple P m E' Q' X') :
    Triple P m E (fun a s => Q a s ∧ Q' a s) fun x s => X x s ∧ X' x s := by
  intro s hs
  obtain ⟨hout, hev⟩ := h s hs
  have hout' := (h' s hs).1
  refine ⟨?_, hev⟩
  cases hr : (m s).1 with
  | ok a => rw [hr] at hout hout'; exact ⟨hout, hout'⟩
  | error x => rw [hr] at hout hout'; exact ⟨hout, hout'⟩

/-- A part of the precondition that is not about the state may be assumed. -/
theorem assume {m : Eff σ ε χ α} {Q : α → σ → Prop} {φ : Prop} (hφ : ∀ s, P s → φ)
    (h : φ → Triple P m E Q X) : Triple P m E Q X :=
  fun s hs => h (hφ s hs) s hs

/-- What is known of the value of the first program, apart from the state, may be
used for the second. -/
theorem bind_fact {m : Eff σ ε χ α} {f : α → Eff σ ε χ β} {S : α → σ → Prop} {φ : α → Prop}
    {R : σ → Prop} {Q : β → σ → Prop} (hm : Triple P m E S X) (hS : ∀ a s, S a s → φ a ∧ R s)
    (hf : ∀ a, φ a → Triple R (f a) E Q X) : Triple P (m >>= f) E Q X := by
  refine bind hm fun a => assume (fun s h => (hS a s h).1) fun ha => ?_
  exact conseq (hf a ha) (fun s h => (hS a s h).2) fun _ _ h => h

theorem ofExcept {r : Except χ α} {Q : α → σ → Prop} (hok : ∀ a, r = .ok a → ∀ s, P s → Q a s)
    (herr : ∀ x, r = .error x → ∀ s, P s → X x s) : Triple P (Eff.ofExcept r) E Q X := by
  cases r with
  | ok a => exact pure (hok a rfl)
  | error x => exact raise (herr x rfl)

/-- What comes after a value is described for that value. -/
theorem ofExcept_bind {r : Except χ α} {f : α → Eff σ ε χ β} {Q : β → σ → Prop}
    (hok : ∀ a, r = .ok a → Triple P (f a) E Q X) (herr : ∀ x, r = .error x → ∀ s, P s → X x s) :
    Triple P (Eff.ofExcept r >>= f) E Q X := by
  cases r with
  | ok a =>
    refine bind (R := fun b s => b = a ∧ P s) (pure fun s hs => ⟨rfl, hs⟩) fun b => ?_
    refine assume (fun _ hs => hs.1) fun hb => ?_
    rw [hb]
    exact conseq (hok a rfl) (fun _ hs => hs.2) fun _ _ hq => hq
  | error x => exact raise_bind (herr x rfl)

theorem reraise {m : Eff σ ε χ α} {f : χ → χ'} {Q : α → σ → Prop} {X' : χ' → σ → Prop}
    (hm : Triple P m E Q fun x => X' (f x)) : Triple P (Eff.reraise f m) E Q X' := by
  intro s hs
  obtain ⟨hout, hev⟩ := hm s hs
  unfold Eff.reraise
  rcases hms : m s with ⟨r, s₁, es⟩
  rw [hms] at hout hev
  cases r with
  | ok a => exact ⟨hout, hev⟩
  | error x => exact ⟨hout, hev⟩

/-- When the cleanup raises, what `m` came to does not matter. -/
theorem withCleanup {cleanup : Except χ Unit} {m : Eff σ ε χ α} {Q Q' : α → σ → Prop}
    {X' : χ → σ → Prop} (hm : Triple P m E Q X) (hQ : cleanup = .ok () → ∀ a s, Q a s → Q' a s)
    (hX : cleanup = .ok () → ∀ x s, X x s → X' x s)
    (hcleanup : ∀ x, cleanup = .error x → ∀ s, (∃ a, Q a s) ∨ (∃ y, X y s) → X' x s) :
    Triple P (Eff.withCleanup cleanup m) E Q' X' := by
  cases cleanup with
  | ok _ => exact weaken hm (hQ rfl) (hX rfl)
  | error x =>
    intro s hs
    obtain ⟨hout, hev⟩ := hm s hs
    refine ⟨hcleanup x rfl _ ?_, hev⟩
    cases hr : (m s).1 with
    | ok a =>
      rw [hr] at hout
      exact .inl ⟨a, hout⟩
    | error y =>
      rw [hr] at hout
      exact .inr ⟨y, hout⟩

/-- The part is described in each state of its own. -/
theorem zoom {τ : Type} {get : σ → τ} {put : τ → σ → σ} {m : Eff τ ε χ α} {Q : α → σ → Prop}
    (h : ∀ s, P s → Triple (fun t => t = get s) m E (fun a t => Q a (put t s))
      fun x t => X x (put t s)) : Triple P (Eff.zoom get put m) E Q X := by
  intro s hs
  obtain ⟨hout, hev⟩ := h s hs (get s) rfl
  unfold Eff.zoom
  rcases hms : m (get s) with ⟨r, t, es⟩
  rw [hms] at hout hev
  cases r with
  | ok a => exact ⟨hout, hev⟩
  | error x => exact ⟨hout, hev⟩

/-- The state before may be named. -/
theorem ghost {m : Eff σ ε χ α} {Q : α → σ → Prop}
    (h : ∀ s₀, P s₀ → Triple (fun s => s = s₀) m E Q X) : Triple P m E Q X :=
  fun s hs => h s hs s rfl

theorem forEach {as : List α} {body : α → Eff σ ε χ Unit}
    (h : ∀ a ∈ as, Triple P (body a) E (fun _ => P) X) :
    Triple P (Eff.forEach as body) E (fun _ => P) X := by
  induction as with
  | nil => exact pure fun _ hs => hs
  | cons a as ih =>
    refine bind (h a List.mem_cons_self) fun _ => ?_
    exact ih fun b hb => h b (List.mem_cons_of_mem a hb)

end Triple

/-! ## What one run does -/

/-- From `s` the program does `ev`. -/
def Emits (m : Eff σ ε χ α) (s : σ) (ev : ε) : Prop := ev ∈ (m s).2.2

/-- It is done by the first part. -/
theorem Emits.left {m : Eff σ ε χ α} {f : α → Eff σ ε χ β} {s : σ} {ev : ε} (h : Emits m s ev) :
    Emits (m >>= f) s ev := by
  show ev ∈ (andThen m f s).2.2
  unfold Emits at h
  unfold andThen
  rcases hms : m s with ⟨r, s₁, es⟩
  rw [hms] at h
  cases r with
  | ok a => exact List.mem_append_left _ h
  | error x => exact h

/-- The first part returns, and it is done by the rest. -/
theorem Emits.right {m : Eff σ ε χ α} {f : α → Eff σ ε χ β} {s t : σ} {a : α} {es : List ε}
    {ev : ε} (hm : m s = (.ok a, t, es)) (h : Emits (f a) t ev) : Emits (m >>= f) s ev := by
  show ev ∈ (andThen m f s).2.2
  unfold andThen
  rw [hm]
  exact List.mem_append_right es h

/-! ## Invariants of the state and of what was done -/

/-- `I` is about the state and about all that was done so far, and it still holds
after `m`, however `m` ends. -/
def Keeps (I : σ → List ε → Prop) (m : Eff σ ε χ α) : Prop :=
  ∀ s es, I s es → I (m s).2.1 (es ++ (m s).2.2)

namespace Keeps

variable {I : σ → List ε → Prop}

theorem pure (a : α) : Keeps I (Pure.pure a : Eff σ ε χ α) := by
  intro s es h
  show I s (es ++ [])
  rw [List.append_nil]
  exact h

theorem raise (x : χ) : Keeps I (Eff.raise x : Eff σ ε χ α) := by
  intro s es h
  show I s (es ++ [])
  rw [List.append_nil]
  exact h

theorem ofExcept (r : Except χ α) : Keeps I (Eff.ofExcept r : Eff σ ε χ α) := by
  cases r with
  | ok a => exact pure a
  | error x => exact raise x

theorem emit {ev : ε} (h : ∀ s es, I s es → I s (es ++ [ev])) :
    Keeps I (Eff.emit ev : Eff σ ε χ Unit) := h

/-- What follows may use what is known about the result. -/
theorem bind_of {m : Eff σ ε χ α} {f : α → Eff σ ε χ β} {Q : α → σ → Prop} (hm : Keeps I m)
    (hq : ∀ s a, (m s).1 = .ok a → Q a (m s).2.1)
    (hf : ∀ a s es, Q a s → I s es → I (f a s).2.1 (es ++ (f a s).2.2)) : Keeps I (m >>= f) := by
  intro s es h
  have h₁ := hm s es h
  have hq₁ := hq s
  show I (andThen m f s).2.1 (es ++ (andThen m f s).2.2)
  unfold andThen
  rcases hms : m s with ⟨r, s₁, es₁⟩
  rw [hms] at h₁ hq₁
  cases r with
  | error x => exact h₁
  | ok a =>
    have h₂ := hf a s₁ (es ++ es₁) (hq₁ a rfl) h₁
    rw [List.append_assoc] at h₂
    exact h₂

theorem bind {m : Eff σ ε χ α} {f : α → Eff σ ε χ β} (hm : Keeps I m) (hf : ∀ a, Keeps I (f a)) :
    Keeps I (m >>= f) :=
  bind_of (Q := fun _ _ => True) hm (fun _ _ _ => trivial) fun a s es _ h => hf a s es h

end Keeps

/-! ## Two programs side by side -/

/-- If the first program returns, so does the second. -/
def Sim {τ : Type} (R : σ → τ → Prop) (m : Eff σ ε χ α) (m' : Eff τ ε χ β)
    (S : α → β → σ → τ → Prop) : Prop :=
  ∀ s t, R s t → ∀ a, (m s).1 = .ok a →
    ∃ b, (m' t).1 = .ok b ∧ (m' t).2.2 = (m s).2.2 ∧ S a b (m s).2.1 (m' t).2.1

namespace Sim

variable {τ γ δ : Type} {R : σ → τ → Prop}

theorem pure {a : α} {b : β} {S : α → β → σ → τ → Prop} (h : ∀ s t, R s t → S a b s t) :
    Sim R (Pure.pure a : Eff σ ε χ α) (Pure.pure b) S := by
  intro s t hst a' ha'
  rw [← Except.ok.inj ha']
  exact ⟨b, rfl, rfl, h s t hst⟩

theorem bind {m : Eff σ ε χ α} {m' : Eff τ ε χ β} {f : α → Eff σ ε χ γ} {f' : β → Eff τ ε χ δ}
    {S : α → β → σ → τ → Prop} {T : γ → δ → σ → τ → Prop} (hm : Sim R m m' S)
    (hf : ∀ a b, Sim (S a b) (f a) (f' b) T) : Sim R (m >>= f) (m' >>= f') T := by
  intro s t hst c hc
  have hsim := hm s t hst
  revert hc
  show (andThen m f s).1 = .ok c → ∃ d, (andThen m' f' t).1 = .ok d ∧
    (andThen m' f' t).2.2 = (andThen m f s).2.2 ∧
    T c d (andThen m f s).2.1 (andThen m' f' t).2.1
  unfold andThen
  rcases hms : m s with ⟨r, s₁, es⟩
  rw [hms] at hsim
  cases r with
  | error x => exact nofun
  | ok a =>
    obtain ⟨b, hb, hes, hS⟩ := hsim a rfl
    rcases hmt : m' t with ⟨r', t₁, es'⟩
    rw [hmt] at hb hes hS
    obtain rfl : r' = .ok b := hb
    obtain rfl : es' = es := hes
    intro hc
    obtain ⟨d, hd, hfs, hT⟩ := hf a b s₁ t₁ hS c hc
    exact ⟨d, hd, congrArg (es' ++ ·) hfs, hT⟩

/-- The first parts return the same. -/
theorem bind_eq {m : Eff σ ε χ α} {m' : Eff τ ε χ α} {f : α → Eff σ ε χ γ} {f' : α → Eff τ ε χ δ}
    {R' : σ → τ → Prop} {T : γ → δ → σ → τ → Prop} (hm : Sim R m m' fun a b s t => b = a ∧ R' s t)
    (hf : ∀ a, Sim R' (f a) (f' a) T) : Sim R (m >>= f) (m' >>= f') T := by
  refine bind hm fun a b s t hst => ?_
  rw [hst.1]
  exact hf a s t hst.2

/-- A fact that is not about the states may be assumed. -/
theorem assume {m : Eff σ ε χ α} {m' : Eff τ ε χ β} {S : α → β → σ → τ → Prop} {φ : Prop}
    (hφ : ∀ s t, R s t → φ) (h : φ → Sim R m m' S) : Sim R m m' S :=
  fun s t hst => h (hφ s t hst) s t hst

/-- Behind an exception nothing has to be shown. -/
theorem raise {x : χ} {m' : Eff τ ε χ β} {S : α → β → σ → τ → Prop} :
    Sim R (Eff.raise x : Eff σ ε χ α) m' S := by
  intro s t _ a ha
  cases ha

/-- Both go on with the value of a computation that has no effect. -/
theorem ofExcept_bind {r : Except χ α} {f : α → Eff σ ε χ γ} {f' : α → Eff τ ε χ δ}
    {T : γ → δ → σ → τ → Prop} (h : ∀ a, r = .ok a → Sim R (f a) (f' a) T) :
    Sim R (Eff.ofExcept r >>= f) (Eff.ofExcept r >>= f') T := by
  cases r with
  | ok a =>
    have hret : Sim R (Eff.ret a : Eff σ ε χ α) (Eff.ret a) fun b b' s t => (b = a ∧ b' = a) ∧
        R s t :=
      pure fun s t hst => ⟨⟨rfl, rfl⟩, hst⟩
    refine bind hret fun b b' s t hst => ?_
    obtain ⟨⟨rfl, rfl⟩, hst⟩ := hst
    exact h _ rfl s t hst
  | error x => exact bind (S := fun _ _ _ _ => False) raise fun _ _ _ _ hst => hst.elim

theorem ofExcept (r : Except χ α) :
    Sim R (Eff.ofExcept r : Eff σ ε χ α) (Eff.ofExcept r) fun a b s t => b = a ∧ R s t := by
  cases r with
  | ok a => exact pure fun s t hst => ⟨rfl, hst⟩
  | error x => exact raise

theorem emit (ev : ε) :
    Sim R (Eff.emit ev : Eff σ ε χ Unit) (Eff.emit ev) fun _ _ => R := by
  intro s t hst a _
  exact ⟨(), rfl, rfl, hst⟩

theorem read : Sim R (Eff.read : Eff σ ε χ σ) (Eff.read : Eff τ ε χ τ)
    fun a b s t => (a = s ∧ b = t) ∧ R s t := by
  intro s t hst a ha
  obtain rfl : s = a := Except.ok.inj ha
  exact ⟨t, rfl, rfl, ⟨rfl, rfl⟩, hst⟩

theorem modify {f : σ → σ} {f' : τ → τ} {T : σ → τ → Prop}
    (h : ∀ s t, R s t → T (f s) (f' t)) :
    Sim R (Eff.modify f : Eff σ ε χ Unit) (Eff.modify f') fun _ _ => T := by
  intro s t hst a _
  exact ⟨(), rfl, rfl, h s t hst⟩

theorem act {f : σ → Except χ α × σ} {f' : τ → Except χ β × τ} {S : α → β → σ → τ → Prop}
    (h : ∀ s t, R s t → ∀ a, (f s).1 = .ok a → ∃ b, (f' t).1 = .ok b ∧ S a b (f s).2 (f' t).2) :
    Sim R (Eff.act f : Eff σ ε χ α) (Eff.act f') S := by
  intro s t hst a ha
  obtain ⟨b, hb, hS⟩ := h s t hst a ha
  exact ⟨b, hb, rfl, hS⟩

/-- One program on a part of the state that is the same on both sides. -/
theorem zoom {ρ : Type} {get : σ → ρ} {put : ρ → σ → σ} {get' : τ → ρ} {put' : ρ → τ → τ}
    {m : Eff ρ ε χ α} {R' : σ → τ → Prop} (hget : ∀ s t, R s t → get' t = get s)
    (hput : ∀ s t p, R s t → R' (put p s) (put' p t)) :
    Sim R (Eff.zoom get put m) (Eff.zoom get' put' m) fun a b s t => b = a ∧ R' s t := by
  intro s t hst a ha
  revert ha
  unfold Eff.zoom
  rw [hget s t hst]
  rcases m (get s) with ⟨r, p, es⟩
  intro ha
  exact ⟨a, ha, rfl, rfl, hput s t p hst⟩

theorem reraise {m : Eff σ ε χ α} {m' : Eff τ ε χ β} {f : χ → χ'} {S : α → β → σ → τ → Prop}
    (hm : Sim R m m' S) : Sim R (Eff.reraise f m) (Eff.reraise f m') S := by
  intro s t hst a ha
  have hsim := hm s t hst a
  revert ha
  unfold Eff.reraise
  rcases hms : m s with ⟨r, s₁, es⟩
  rw [hms] at hsim
  cases r with
  | error x => exact nofun
  | ok a₁ =>
    intro ha
    obtain rfl : a₁ = a := Except.ok.inj ha
    obtain ⟨b, hb, hes, hS⟩ := hsim rfl
    rcases hmt : m' t with ⟨r', t₁, es'⟩
    rw [hmt] at hb hes hS
    obtain rfl : r' = .ok b := hb
    exact ⟨b, rfl, hes, hS⟩

theorem withCleanup {cleanup : Except χ Unit} {m : Eff σ ε χ α} {m' : Eff τ ε χ β}
    {S : α → β → σ → τ → Prop} (hm : Sim R m m' S) :
    Sim R (Eff.withCleanup cleanup m) (Eff.withCleanup cleanup m') S := by
  cases cleanup with
  | ok _ => exact hm
  | error x =>
    intro s t _ a ha
    cases ha

theorem conseq {m : Eff σ ε χ α} {m' : Eff τ ε χ β} {R' : σ → τ → Prop}
    {S S' : α → β → σ → τ → Prop} (hm : Sim R m m' S) (hpre : ∀ s t, R' s t → R s t)
    (hpost : ∀ a b s t, S a b s t → S' a b s t) : Sim R' m m' S' := by
  intro s t hst a ha
  obtain ⟨b, hb, hes, hS⟩ := hm s t (hpre s t hst) a ha
  exact ⟨b, hb, hes, hpost _ _ _ _ hS⟩

/-- The states before may be named. -/
theorem ghost {m : Eff σ ε χ α} {m' : Eff τ ε χ β} {S : α → β → σ → τ → Prop}
    (h : ∀ s₀ t₀, R s₀ t₀ → Sim (fun s t => s = s₀ ∧ t = t₀) m m' S) : Sim R m m' S :=
  fun s t hst => h s t hst s t ⟨rfl, rfl⟩

/-- What is known of each program alone may be added. -/
theorem and_triples {m : Eff σ ε χ α} {m' : Eff τ ε χ β} {S : α → β → σ → τ → Prop} {P : σ → Prop}
    {P' : τ → Prop} {E : ε → Prop} {Q : α → σ → Prop} {Q' : β → τ → Prop} {X : χ → σ → Prop}
    {X' : χ → τ → Prop} (hm : Sim R m m' S) (h : Triple P m E Q X) (h' : Triple P' m' E Q' X') :
    Sim (fun s t => R s t ∧ P s ∧ P' t) m m' fun a b s t => S a b s t ∧ Q a s ∧ Q' b t := by
  intro s t hst a ha
  obtain ⟨b, hb, hes, hS⟩ := hm s t hst.1 a ha
  have hQ := (h s hst.2.1).1
  have hQ' := (h' t hst.2.2).1
  rw [ha] at hQ
  rw [hb] at hQ'
  exact ⟨b, hb, hes, hS, hQ, hQ'⟩

end Sim

end Eff

end AiPipelines
