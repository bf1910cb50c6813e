import Mathlib.Data.List.Basic

/-!
# Step functions and their runs

A system is given by a step function: in a state `s`, an action `a` is
either not enabled, or it gives the next state together with the events that
an outside observer sees.  A schedule is a list of actions, and `run` takes
the system through it.

* `run_append` and `run_mem_split` cut a run in two, and at the step that
  emitted a given event.
* `run_invariant` is the induction that every safety proof uses.  It has a
  side condition `ok` on the state and the action of each step, so that a
  result may speak about the runs whose steps all meet a condition
  (`AllSteps`).

The module names nothing of the repository.
-/

namespace AiPipelines.Transition

variable {σ α ε : Type}

/-- Take the system through the schedule.  The result is `none` when an
action was not enabled. -/
def run (step : σ → α → Option (σ × List ε)) : σ → List α → Option (σ × List ε)
  | s, [] => some (s, [])
  | s, a :: as =>
    match step s a with
    | none => none
    | some (s₁, es₁) =>
      match run step s₁ as with
      | none => none
      | some (s₂, es₂) => some (s₂, es₁ ++ es₂)

/-- Every step of the run meets `ok` in the state it starts from. -/
def AllSteps (step : σ → α → Option (σ × List ε)) (ok : σ → α → Prop) : σ → List α → Prop
  | _, [] => True
  | s, a :: as => ok s a ∧ ∀ s₁ es, step s a = some (s₁, es) → AllSteps step ok s₁ as

variable {step : σ → α → Option (σ × List ε)} {ok : σ → α → Prop}

@[simp] theorem run_nil (s : σ) : run step s [] = some (s, []) := rfl

/-- The first step of a run and the rest of it. -/
theorem run_cons_eq_some {s s₂ : σ} {a : α} {as : List α} {es : List ε} :
    run step s (a :: as) = some (s₂, es) ↔
      ∃ s₁ es₁ es₂, step s a = some (s₁, es₁) ∧ run step s₁ as = some (s₂, es₂) ∧
        es = es₁ ++ es₂ := by
  rw [run]
  cases hstep : step s a with
  | none => simp
  | some p =>
    obtain ⟨s₁, es₁⟩ := p
    cases hrun : run step s₁ as with
    | none => simp [hrun]
    | some q =>
      obtain ⟨s', es₂⟩ := q
      simp only [hrun, Option.some.injEq, Prod.mk.injEq]
      constructor
      · rintro ⟨rfl, rfl⟩
        exact ⟨s₁, es₁, es₂, ⟨rfl, rfl⟩, hrun, rfl⟩
      · rintro ⟨t, fs, fs', ⟨rfl, rfl⟩, hrun', rfl⟩
        rw [hrun] at hrun'
        simp only [Option.some.injEq, Prod.mk.injEq] at hrun'
        exact ⟨hrun'.1, by rw [hrun'.2]⟩

/-- A schedule in two parts is run part by part. -/
theorem run_append {s s₁ s₂ : σ} {as bs : List α} {es₁ es₂ : List ε}
    (h₁ : run step s as = some (s₁, es₁)) (h₂ : run step s₁ bs = some (s₂, es₂)) :
    run step s (as ++ bs) = some (s₂, es₁ ++ es₂) := by
  induction as generalizing s es₁ with
  | nil =>
    simp only [run_nil, Option.some.injEq, Prod.mk.injEq] at h₁
    obtain ⟨rfl, rfl⟩ := h₁
    simpa using h₂
  | cons a as ih =>
    obtain ⟨t, fs, fs', hstep, hrun, rfl⟩ := run_cons_eq_some.mp h₁
    rw [List.cons_append, run_cons_eq_some]
    exact ⟨t, fs, fs' ++ es₂, hstep, ih hrun, by simp⟩

/-- An event of a run was emitted by one of its steps. -/
theorem run_mem_split {s s₂ : σ} {as : List α} {es : List ε} {e : ε}
    (h : run step s as = some (s₂, es)) (he : e ∈ es) :
    ∃ as₁ a as₂ s₁ s₁' es₁ es₂ es₃, as = as₁ ++ a :: as₂ ∧
      run step s as₁ = some (s₁, es₁) ∧ step s₁ a = some (s₁', es₂) ∧ e ∈ es₂ ∧
      run step s₁' as₂ = some (s₂, es₃) := by
  induction as generalizing s es with
  | nil =>
    simp only [run_nil, Option.some.injEq, Prod.mk.injEq] at h
    rw [← h.2] at he
    simp at he
  | cons a as ih =>
    obtain ⟨t, fs, fs', hstep, hrun, rfl⟩ := run_cons_eq_some.mp h
    rcases List.mem_append.mp he with he | he
    · exact ⟨[], a, as, s, t, [], fs, fs', rfl, rfl, hstep, he, hrun⟩
    · obtain ⟨as₁, b, as₂, s₁, s₁', es₁, es₂, es₃, rfl, hpre, hb, heb, hpost⟩ := ih hrun he
      refine ⟨a :: as₁, b, as₂, s₁, s₁', fs ++ es₁, es₂, es₃, rfl, ?_, hb, heb, hpost⟩
      exact run_cons_eq_some.mpr ⟨t, fs, es₁, hstep, hpre, rfl⟩

/-- The side condition holds along the second part of a run too. -/
theorem AllSteps.right {s s₁ : σ} {as bs : List α} {es : List ε}
    (hok : AllSteps step ok s (as ++ bs)) (h : run step s as = some (s₁, es)) :
    AllSteps step ok s₁ bs := by
  induction as generalizing s es with
  | nil =>
    simp only [run_nil, Option.some.injEq, Prod.mk.injEq] at h
    rw [← h.1]
    exact hok
  | cons a as ih =>
    obtain ⟨t, fs, fs', hstep, hrun, rfl⟩ := run_cons_eq_some.mp h
    exact ih (hok.2 t fs hstep) hrun

/-- Add a step in front. -/
theorem AllSteps.cons {s s₁ : σ} {a : α} {as : List α} {es : List ε}
    (hstep : step s a = some (s₁, es)) (hok : ok s a) (h : AllSteps step ok s₁ as) :
    AllSteps step ok s (a :: as) := by
  refine ⟨hok, fun t fs ht => ?_⟩
  rw [hstep, Option.some.injEq, Prod.mk.injEq] at ht
  exact ht.1 ▸ h

theorem allSteps_cons_iff {s : σ} {a : α} {as : List α} :
    AllSteps step ok s (a :: as) ↔
      ok s a ∧ ∀ r ∈ step s a, AllSteps step ok r.1 as := by
  constructor
  · intro h
    refine ⟨h.1, ?_⟩
    intro r hr
    exact h.2 r.1 r.2 hr
  · intro h
    exact ⟨h.1, fun s₁ es hstep => h.2 (s₁, es) hstep⟩

/-- A condition that can be checked before each step can be checked along a run. -/
instance AllSteps.decidable [DecidableRel ok] :
    ∀ (s : σ) (as : List α), Decidable (AllSteps step ok s as)
  | _, [] => inferInstanceAs (Decidable True)
  | _, _ :: as =>
    have : ∀ s, Decidable (AllSteps step ok s as) := fun s => AllSteps.decidable s as
    decidable_of_iff _ allSteps_cons_iff.symm

/-- A condition on the actions alone holds along every run of a schedule
whose actions meet it. -/
theorem AllSteps.of_forall {P : α → Prop} {s : σ} {as : List α} (h : ∀ a ∈ as, P a) :
    AllSteps step (fun _ a => P a) s as := by
  induction as generalizing s with
  | nil => trivial
  | cons a as ih =>
    exact ⟨h a (by simp), fun _ _ _ => ih (fun b hb => h b (List.mem_cons_of_mem a hb))⟩

/-- Two side conditions may be met together. -/
theorem AllSteps.and {ok' : σ → α → Prop} {s : σ} {as : List α}
    (h : AllSteps step ok s as) (h' : AllSteps step ok' s as) :
    AllSteps step (fun s a => ok s a ∧ ok' s a) s as := by
  induction as generalizing s with
  | nil => trivial
  | cons a as ih =>
    exact ⟨⟨h.1, h'.1⟩, fun s₁ es hs => ih (h.2 s₁ es hs) (h'.2 s₁ es hs)⟩

/-- The rule of invariants.  If every step that meets the side condition
keeps `I` and emits only events with `Q`, then so does every run whose steps
meet it. -/
theorem run_invariant {I : σ → Prop} {Q : ε → Prop}
    (hstep : ∀ s a s₁ es, I s → ok s a → step s a = some (s₁, es) → I s₁ ∧ ∀ e ∈ es, Q e)
    {s s₁ : σ} {as : List α} {es : List ε} (hI : I s) (hok : AllSteps step ok s as)
    (hrun : run step s as = some (s₁, es)) : I s₁ ∧ ∀ e ∈ es, Q e := by
  induction as generalizing s es with
  | nil =>
    simp only [run_nil, Option.some.injEq, Prod.mk.injEq] at hrun
    obtain ⟨rfl, rfl⟩ := hrun
    exact ⟨hI, by simp⟩
  | cons a as ih =>
    obtain ⟨t, fs, fs', hs, hrest, rfl⟩ := run_cons_eq_some.mp hrun
    obtain ⟨hIt, hfs⟩ := hstep s a t fs hI hok.1 hs
    obtain ⟨hI₁, hfs'⟩ := ih hIt (hok.2 t fs hs) hrest
    refine ⟨hI₁, ?_⟩
    intro e he
    rcases List.mem_append.mp he with he | he
    · exact hfs e he
    · exact hfs' e he

/-- The rule of invariants that speak of the events so far. -/
theorem run_history {I : List ε → σ → Prop}
    (hstep : ∀ hist s a s₁ es, I hist s → step s a = some (s₁, es) → I (hist ++ es) s₁)
    {s s₁ : σ} {as : List α} {hist es : List ε} (hI : I hist s)
    (hrun : run step s as = some (s₁, es)) : I (hist ++ es) s₁ := by
  induction as generalizing s hist es with
  | nil =>
    simp only [run_nil, Option.some.injEq, Prod.mk.injEq] at hrun
    obtain ⟨rfl, rfl⟩ := hrun
    rw [List.append_nil]
    exact hI
  | cons a as ih =>
    obtain ⟨t, fs, fs', hs, hrest, rfl⟩ := run_cons_eq_some.mp hrun
    rw [← List.append_assoc]
    exact ih (hstep hist s a t fs hI hs) hrest

end AiPipelines.Transition
