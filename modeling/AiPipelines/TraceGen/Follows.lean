import Mathlib.Data.List.Forall2
import Mathlib.Data.List.ReduceOption
import AiPipelines.TraceGen.Steps

/-!
# Runs over call trees

`Follows cfg st steps st'` says that the tracer takes a log from `st` to `st'`,
that tracing is on after every line, and that every line adds the event of the
activation that it completes and nothing else.

`Items.follows` and `Body.follows` prove it for every call tree in which no
function calls itself and no return is executed in the target.  They are one
induction over the tree.  What it carries for an open activation of `f` is
that the tracer is ready for `f` and has its start on top of `call_starts`, or
will push it with the next instruction.
-/

namespace AiPipelines.TraceGen

open PyStd

/-! ## The loop -/

/-- The tracer does not see the lines that were not parsed. -/
theorem runTrace_reduceOption (cfg : Config) (st : State) (lines : List (Option Instruction)) :
    runTrace cfg st lines = runTrace cfg st (lines.reduceOption.map some) := by
  induction lines generalizing st with
  | nil => rfl
  | cons line lines ih =>
    cases line with
    | none => simpa [runTrace, List.reduceOption] using ih st
    | some i =>
      simp only [List.reduceOption_cons_of_some, List.map_cons, runTrace]
      cases traceLine cfg st i with
      | error e => rfl
      | ok st₁ => exact ih st₁

/-- The tracer on a log of parsed lines. -/
def runRecords (cfg : Config) (st : State) (l : List Instruction) : Except TraceError State :=
  runTrace cfg st (l.map some)

@[simp] theorem runRecords_nil (cfg : Config) (st : State) : runRecords cfg st [] = .ok st := rfl

theorem runRecords_cons {cfg : Config} {st st' : State} {i : Instruction} {l : List Instruction} :
    runRecords cfg st (i :: l) = .ok st' ↔
      ∃ st₁, traceLine cfg st i = .ok st₁ ∧ runRecords cfg st₁ l = .ok st' := by
  simp only [runRecords, List.map_cons, runTrace]
  cases traceLine cfg st i with
  | error e => simp [bind, Except.bind]
  | ok st₁ => simp [bind, Except.bind]

theorem runRecords_singleton {cfg : Config} {st st' : State} {i : Instruction} :
    runRecords cfg st [i] = .ok st' ↔ traceLine cfg st i = .ok st' := by
  rw [runRecords_cons]
  constructor
  · rintro ⟨st₁, h, hnil⟩
    rw [h, ← hnil, runRecords_nil]
  · exact fun h => ⟨st', h, rfl⟩

theorem runRecords_append {cfg : Config} {st st' : State} {a b : List Instruction} :
    runRecords cfg st (a ++ b) = .ok st' ↔
      ∃ st₁, runRecords cfg st a = .ok st₁ ∧ runRecords cfg st₁ b = .ok st' := by
  induction a generalizing st with
  | nil => simp
  | cons i a ih =>
    simp only [List.cons_append, runRecords_cons, ih]
    constructor
    · rintro ⟨st₁, h₁, st₂, h₂, h₃⟩
      exact ⟨st₂, ⟨st₁, h₁, h₂⟩, h₃⟩
    · rintro ⟨st₂, ⟨st₁, h₁, h₂⟩, h₃⟩
      exact ⟨st₁, h₁, st₂, h₂, h₃⟩

/-! ## The events of a run -/

/-- The events that came in between are those of the activations, one for each
of them and in this order. -/
def Recorded (st st' : State) (as : List Activation) : Prop :=
  ∃ es, st'.events = st.events ++ es ∧ List.Forall₂ Event.Records es as

theorem Recorded.refl (st : State) : Recorded st st [] := ⟨[], by simp, .nil⟩

theorem Recorded.trans {st₁ st₂ st₃ : State} {as bs : List Activation}
    (h₁ : Recorded st₁ st₂ as) (h₂ : Recorded st₂ st₃ bs) : Recorded st₁ st₃ (as ++ bs) := by
  obtain ⟨es, he, has⟩ := h₁
  obtain ⟨es', he', hbs⟩ := h₂
  exact ⟨es ++ es', by rw [he', he, List.append_assoc], List.rel_append has hbs⟩

theorem Stayed.recorded {st st' : State} {i : Instruction} {f : Str} {k : Cat}
    (h : Stayed st i f k st') : Recorded st st' [] :=
  ⟨[], by simp [h.events], .nil⟩

/-- From `st` the tracer takes the log to `st'` with tracing on after every
line, and each line records what it completes. -/
inductive Follows (cfg : Config) : State → List Step → State → Prop where
  | nil (st : State) : Follows cfg st [] st
  | cons {st st₁ st' : State} {s : Step} {steps : List Step} :
      traceLine cfg st s.instr = .ok st₁ → st₁.traceActive = true →
      Recorded st st₁ s.done.toList → Follows cfg st₁ steps st' → Follows cfg st (s :: steps) st'

namespace Follows

variable {cfg : Config} {st st₁ st' : State} {steps a b : List Step}

theorem append (h₁ : Follows cfg st a st₁) (h₂ : Follows cfg st₁ b st') :
    Follows cfg st (a ++ b) st' := by
  induction h₁ with
  | nil _ => exact h₂
  | cons hline hact hrec _ ih => exact .cons hline hact hrec (ih h₂)

theorem split (h : Follows cfg st (a ++ b) st') :
    ∃ st₁, Follows cfg st a st₁ ∧ Follows cfg st₁ b st' := by
  induction a generalizing st with
  | nil => exact ⟨st, .nil st, h⟩
  | cons s a ih =>
    cases h with
    | cons hline hact hrec hrest =>
      obtain ⟨st₂, ha, hb⟩ := ih hrest
      exact ⟨st₂, .cons hline hact hrec ha, hb⟩

theorem run (h : Follows cfg st steps st') : runRecords cfg st (instrs steps) = .ok st' := by
  induction h with
  | nil st => rfl
  | cons hline _ _ _ ih => exact runRecords_cons.2 ⟨_, hline, ih⟩

theorem recorded (h : Follows cfg st steps st') : Recorded st st' (completed steps) := by
  induction h with
  | nil st => exact .refl st
  | @cons st st₁ st' s steps _ _ hrec _ ih =>
    have h := hrec.trans ih
    cases hd : s.done <;> simpa [completed, hd] using h

theorem active (h : Follows cfg st steps st') (hne : steps ≠ []) : st'.traceActive = true := by
  induction h with
  | nil _ => exact absurd rfl hne
  | @cons _ _ _ _ steps _ hact _ hrest ih =>
    cases steps with
    | nil => cases hrest; exact hact
    | cons s steps => exact ih (by simp)

end Follows

/-! ## The induction over the tree -/

/-- No return of the list is executed in the target. -/
def NoTargetReturn (cfg : Config) (l : List Instruction) : Prop :=
  ∀ t, cfg.fnTarget = some t → NoReturnIn cfg.syms t l

theorem NoTargetReturn.mono {cfg : Config} {l l' : List Instruction} (h : NoTargetReturn cfg l)
    (hsub : l' ⊆ l) : NoTargetReturn cfg l' :=
  fun t ht i hi => h t ht i (hsub hi)

/-- A call or tail call to another function leaves the tracer ready to push the
start of that function. -/
theorem ready_of_entered (cfg : Config) {st : State} {f g : Str} {k : Cat}
    (hact : st.traceActive = true) (hprev : st.prevFn = some f) (hcat : st.prevInstr.cat = k)
    (hk : k = .call ∨ k = .tail) (hne : g ≠ f) :
    Ready cfg st g ∧ ∀ c, st.starts g c = c :: st.callStarts.map (·.cycle) := by
  have hafter : st.afterCall = true := by
    rcases hk with rfl | rfl <;> simp [State.afterCall, hcat]
  have hfn : st.prevFn ≠ some g := by
    rw [hprev]
    exact fun h => hne (Option.some.inj h).symm
  exact ⟨.inr ⟨hact, .inr (.inr ⟨hfn, hafter⟩)⟩, fun c => by simp [State.starts, hfn, hafter]⟩

/-- After a return or a plain instruction of `f` no start is pushed for `f`. -/
theorem starts_of_inside {st : State} {f : Str} (hact : st.traceActive = true)
    (h : st.prevFn = some f ∨ st.prevInstr.cat = .ret) (c : Int) :
    st.starts f c = st.callStarts.map (·.cycle) := by
  rcases h with h | h <;> simp [State.starts, hact, h, State.afterCall]

/-- The tracer follows a call and what comes after it if it follows the callee
and the rest.  A call is never complained about, so the tracer need not be
ready. -/
theorem follows_call {cfg : Config} {st : State} {f g : Str} {callers : List Str}
    {i : Instruction} {callee rest : List Step} (hi : i.RunsAs cfg.syms f .call)
    (hw : Watched cfg st f) (hcallers : st.callers = callers) (hne : g ≠ f)
    (hcallee : ∀ st₁ S, Ready cfg st₁ g → st₁.callers = callers ++ [f] →
      (∀ c, st₁.starts g c = c :: S) →
      ∃ st₂, Follows cfg st₁ callee st₂ ∧ st₂.traceActive = true ∧ st₂.prevInstr.cat = .ret ∧
        st₂.callStarts.map (·.cycle) = S ∧ st₂.callers = (callers ++ [f]).dropLast)
    (hrest : ∀ st₂, Ready cfg st₂ f → st₂.callers = callers →
      ∃ st₃, Follows cfg st₂ rest st₃ ∧ Ready cfg st₃ f ∧ st₃.callers = callers ∧
        ∀ c, ∃ c', st₃.starts f c = st₂.starts f c') :
    ∃ st', Follows cfg st (⟨i, none⟩ :: (callee ++ rest)) st' ∧ Ready cfg st' f ∧
      st'.callers = callers ∧ ∀ c, st'.starts f c = st.starts f i.cycle := by
  obtain ⟨st₁, i₁, heq, hi₁, -⟩ := traceLine_watched hi.1 hw
  have hline := heq.trans (processInstr_call (by rw [hi₁]; exact hi.2))
  have hstay := traceLine_stay hi (.inr rfl) hw hline
  obtain ⟨hready, hstarts⟩ :=
    ready_of_entered cfg hstay.active hstay.prevFn hstay.cat (.inl rfl) hne
  rw [hstay.starts] at hstarts
  obtain ⟨st₂, hf₂, hact₂, hcat₂, hs₂, hcallers₂⟩ :=
    hcallee _ _ hready (by rw [hstay.callers, if_pos rfl, hcallers]) hstarts
  rw [List.dropLast_concat] at hcallers₂
  obtain ⟨st₃, hf₃, hready₃, hcallers₃, hstarts₃⟩ :=
    hrest st₂ (.inr ⟨hact₂, .inr (.inl hcat₂)⟩) hcallers₂
  refine ⟨st₃, .cons hline hstay.active hstay.recorded (hf₂.append hf₃), hready₃, hcallers₃,
    fun c => ?_⟩
  obtain ⟨c', hc'⟩ := hstarts₃ c
  rw [hc', starts_of_inside hact₂ (.inr hcat₂), hs₂]

mutual

/-- The tracer follows a complete activation of `f` whose start it is about to
push. -/
theorem Body.follows {cfg : Config} {f : Str} {callers : List Str} {st : State} {S : List Int} :
    ∀ (body : Body), body.Runs cfg.syms f → body.selfCalls f = 0 →
      NoTargetReturn cfg (instrs (body.log callers f)) → Ready cfg st f → st.callers = callers →
      (∀ c, st.starts f c = c :: S) →
      ∃ st', Follows cfg st (body.log callers f) st' ∧ st'.traceActive = true ∧
        st'.prevInstr.cat = .ret ∧ st'.callStarts.map (·.cycle) = S ∧
        st'.callers = callers.dropLast
  | .ret items i, hruns, hself, hret, hready, hcallers, hstarts => by
    simp only [Body.log, Body.Runs, Body.selfCalls, instrs_append, instrs_cons, instrs_nil] at *
    obtain ⟨st₁, hitems, hready₁, hcallers₁, hstarts₁⟩ := Items.follows items hruns.1 hself
      (hret.mono (List.subset_append_left _ _)) hready hcallers
    have hpop : st₁.starts f i.cycle = items.start i.cycle :: S := by rw [hstarts₁, hstarts]
    obtain ⟨st₂, hline⟩ := traceLine_ok hruns.2 hready₁ (fun _ => by simp [hpop])
    have hleft := traceLine_leave hruns.2 (.inr rfl) hready₁.watched hline
    have hact : st₂.traceActive = true := by
      rw [hleft.active]
      simpa using fun ht => hret f ht i (by simp) hruns.2
    obtain ⟨start, e, hs, hev, he⟩ := hleft.event
    rw [hpop, List.cons.injEq] at hs
    refine ⟨st₂, hitems.append (.cons hline hact ⟨[e], hev, ?_⟩ (.nil st₂)), hact, hleft.cat,
      hs.2.symm, ?_⟩
    · rw [hcallers₁, ← hs.1] at he
      exact .cons he .nil
    · rw [hleft.callers, if_pos rfl, hcallers₁]
  | .tail items i g next, hruns, hself, hret, hready, hcallers, hstarts => by
    simp only [Body.log, Body.Runs, Body.selfCalls, instrs_append, instrs_cons] at *
    obtain ⟨st₁, hitems, hready₁, hcallers₁, hstarts₁⟩ := Items.follows items hruns.1
      (by omega) (hret.mono (List.subset_append_left _ _)) hready hcallers
    have hpop : st₁.starts f i.cycle = items.start i.cycle :: S := by rw [hstarts₁, hstarts]
    obtain ⟨st₂, hline⟩ := traceLine_ok hruns.2.1 hready₁ (fun _ => by simp [hpop])
    have hleft := traceLine_leave hruns.2.1 (.inl rfl) hready₁.watched hline
    have hact : st₂.traceActive = true := by rw [hleft.active]; simp
    obtain ⟨start, e, hs, hev, he⟩ := hleft.event
    rw [hpop, List.cons.injEq] at hs
    have hne : g ≠ f := by
      intro h
      simp [h] at hself
    obtain ⟨hready₂, hstarts₂⟩ :=
      ready_of_entered cfg hact hleft.prevFn hleft.cat (.inr rfl) hne
    rw [← hs.2] at hstarts₂
    have hcallers₂ : st₂.callers = callers := by rw [hleft.callers, if_neg (by simp), hcallers₁]
    obtain ⟨st₃, hnext, hend⟩ := Body.follows next hruns.2.2 (by omega)
      (hret.mono fun x hx => by simp [hx]) hready₂ hcallers₂ hstarts₂
    refine ⟨st₃, hitems.append (.cons hline hact ⟨[e], hev, ?_⟩ hnext), hend⟩
    rw [hcallers₁, ← hs.1] at he
    exact .cons he .nil

/-- The tracer follows a part of an activation of `f`. -/
theorem Items.follows {cfg : Config} {f : Str} {callers : List Str} {st : State} :
    ∀ (items : Items), items.Runs cfg.syms f → items.selfCalls f = 0 →
      NoTargetReturn cfg (instrs (items.log callers f)) → Ready cfg st f →
      st.callers = callers →
      ∃ st', Follows cfg st (items.log callers f) st' ∧ Ready cfg st' f ∧
        st'.callers = callers ∧ ∀ c, st'.starts f c = st.starts f (items.start c)
  | .nil, _, _, _, hready, hcallers => ⟨st, .nil st, hready, hcallers, fun _ => rfl⟩
  | .plain i rest, hruns, hself, hret, hready, hcallers => by
    simp only [Items.log, Items.Runs, Items.selfCalls, instrs_cons] at *
    obtain ⟨st₁, hline⟩ := traceLine_ok hruns.1 hready (by simp)
    have hstay := traceLine_stay hruns.1 (.inl rfl) hready.watched hline
    have hready₁ : Ready cfg st₁ f := .inr ⟨hstay.active, .inl ⟨hstay.prevFn, hstay.cat⟩⟩
    obtain ⟨st₂, hrest, hready₂, hcallers₂, hstarts₂⟩ := Items.follows rest hruns.2 hself
      (hret.mono (List.subset_cons_self _ _)) hready₁ (by rw [hstay.callers]; simpa using hcallers)
    refine ⟨st₂, .cons hline hstay.active hstay.recorded hrest, hready₂, hcallers₂, fun c => ?_⟩
    rw [hstarts₂, starts_of_inside hstay.active (.inl hstay.prevFn), hstay.starts, Items.start]
  | .call i g callee rest, hruns, hself, hret, hready, hcallers => by
    simp only [Items.log, Items.Runs, Items.selfCalls, instrs_cons, instrs_append] at *
    have hne : g ≠ f := by
      intro h
      simp [h] at hself
    refine follows_call hruns.1 hready.watched hcallers hne ?_ ?_
    · intro st₁ S hready₁ hcallers₁ hstarts₁
      exact Body.follows callee hruns.2.1 (by omega) (hret.mono fun x hx => by simp [hx]) hready₁
        hcallers₁ hstarts₁
    · intro st₂ hready₂ hcallers₂
      obtain ⟨st₃, hrest, hready₃, hcallers₃, hstarts₃⟩ := Items.follows rest hruns.2.2 (by omega)
        (hret.mono fun x hx => by simp [hx]) hready₂ hcallers₂
      exact ⟨st₃, hrest, hready₃, hcallers₃, fun c => ⟨_, hstarts₃ c⟩⟩

end

end AiPipelines.TraceGen
