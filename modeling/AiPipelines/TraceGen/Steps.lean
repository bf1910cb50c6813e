import AiPipelines.TraceGen.CallTree

/-!
# One line of the log

What the tracer does with one retired instruction, said once for all proofs
about whole logs.

The tracer learns that an activation has started from its first instruction,
and only from what it remembers of the previous one.  `State.starts st f c` is
the stack of start cycles after an instruction of `f` at cycle `c`: it has `c`
on top if the tracer takes that instruction for the first one of an activation.

* `traceLine_stay` is the step of a plain instruction or a call.
* `traceLine_leave` is the step of a return or a tail call.
* `traceLine_ok` says when the step does not raise: `Ready st f`.
-/

namespace AiPipelines.TraceGen

open PyStd

/-! ## The order of the tests -/

theorem Instruction.kind_eq_ok {i : Instruction} {syms : SymResolver} {k : Cat}
    (h : i.kind syms = .ok k) :
    (i.isCall = .ok true ∧ k = .call) ∨
      (i.isCall = .ok false ∧ i.isTailCall syms = .ok true ∧ k = .tail) ∨
      (i.isCall = .ok false ∧ i.isTailCall syms = .ok false ∧ i.isReturn = .ok true ∧ k = .ret) ∨
      (i.isCall = .ok false ∧ i.isTailCall syms = .ok false ∧ i.isReturn = .ok false ∧
        k = .instr) := by
  unfold Instruction.kind at h
  cases hc : i.isCall with
  | error e => simp [hc, bind, Except.bind] at h
  | ok b =>
    cases b with
    | true => simp_all [bind, Except.bind, pure, Except.pure]
    | false =>
      cases ht : i.isTailCall syms with
      | error e => simp [hc, ht, bind, Except.bind] at h
      | ok b =>
        cases b with
        | true => simp_all [bind, Except.bind, pure, Except.pure]
        | false =>
          cases hr : i.isReturn with
          | error e => simp [hc, ht, hr, bind, Except.bind] at h
          | ok b => cases b <;> simp_all [bind, Except.bind, pure, Except.pure]

/-! ## What the tracer remembers -/

/-- The functions that are waiting for a return, from the outermost one
inwards. -/
def State.callers (st : State) : List Str := (st.callStack.map (·.fn)).reverse

/-- The cycles on `call_starts` after an instruction of `f` at cycle `c`, before
anything is popped.  Outside the target the next instruction of the target is
taken for a first one. -/
def State.starts (st : State) (f : Str) (c : Int) : List Int :=
  if st.traceActive = false ∨ (st.prevFn ≠ some f ∧ st.afterCall) then
    c :: st.callStarts.map (·.cycle)
  else st.callStarts.map (·.cycle)

/-- An instruction of `f` is looked at: tracing is on, or `f` switches it on. -/
def Watched (cfg : Config) (st : State) (f : Str) : Prop :=
  st.traceActive = true ∨ cfg.fnTarget = some f

/-- `process_instr` has nothing to complain about when an instruction of `f`
comes next. -/
def Ready (cfg : Config) (st : State) (f : Str) : Prop :=
  (st.traceActive = false ∧ cfg.fnTarget = some f) ∨
    (st.traceActive = true ∧
      ((st.prevFn = some f ∧ st.prevInstr.cat = .instr) ∨ st.prevInstr.cat = .ret ∨
        (st.prevFn ≠ some f ∧ st.afterCall)))

theorem Ready.watched {cfg : Config} {st : State} {f : Str} (h : Ready cfg st f) :
    Watched cfg st f := by
  rcases h with ⟨_, ht⟩ | ⟨ha, _⟩
  · exact .inr ht
  · exact .inl ha

/-- The event tells when and where the activation ran. -/
structure Event.Records (e : Event) (a : Activation) : Prop where
  name : e.name = a.fn
  start : e.ts = a.start
  stop : e.ts + e.dur = a.stop
  callers : e.callStack = joinWith ['/'] a.callers

/-! ## One instruction -/

/-- The tracer logs a call and goes on. -/
theorem processInstr_call {cfg : Config} {st : State} {i : Instruction} {f : Str}
    (h : i.kind cfg.syms = .ok .call) :
    processInstr cfg st i f =
      .ok ({ st with callStarts := st.pushStart i f, callStack := i :: st.callStack }.finish i f
        .call) := by
  rcases Instruction.kind_eq_ok h with ⟨hc, _⟩ | ⟨_, _, hk⟩ | ⟨_, _, _, hk⟩ | ⟨_, _, _, hk⟩
  · simp [processInstr, hc, bind, Except.bind, pure, Except.pure]
  all_goals cases hk

/-- A plain instruction is where the tracer complains. -/
theorem processInstr_instr {cfg : Config} {st : State} {i : Instruction} {f : Str}
    (h : i.kind cfg.syms = .ok .instr) :
    processInstr cfg st i f =
      if !cfg.debug && (st.prevFn ≠ some f && st.prevInstr.cat = .instr) then
        .error (.unidentifiedCall i f (stackStr st.callStack))
      else if !cfg.debug && (st.afterCall && st.prevFn = some f && f ≠ nosymName) then
        .error (.incorrectCall i f (stackStr st.callStack))
      else .ok ({ st with callStarts := st.pushStart i f }.finish i f .instr) := by
  rcases Instruction.kind_eq_ok h with ⟨_, hk⟩ | ⟨_, _, hk⟩ | ⟨_, _, _, hk⟩ | ⟨hc, ht, hr, _⟩
  · cases hk
  · cases hk
  · cases hk
  · simp only [processInstr, hc, ht, hr, bind, Except.bind, pure, Except.pure]
    rfl

/-- A return and a tail call pop a start and write an event; only a return
pops the caller and looks at the target. -/
theorem processInstr_leave {cfg : Config} {st : State} {i : Instruction} {f : Str} {k : Cat}
    (h : i.kind cfg.syms = .ok k) (hk : k = .tail ∨ k = .ret) :
    processInstr cfg st i f =
      match st.pushStart i f with
      | [] => .error .assertionError
      | start :: rest => .ok ({ st with
        callStarts := rest
        events := st.events ++ [mkEvent st.callStack start i f]
        callStack := if k = Cat.ret then st.callStack.tail else st.callStack
        traceActive :=
          if k = Cat.ret ∧ some f = cfg.fnTarget then false else st.traceActive }.finish
          i f k) := by
  rcases hk with rfl | rfl
  · rcases Instruction.kind_eq_ok h with ⟨_, hk⟩ | ⟨hc, ht, _⟩ | ⟨_, _, _, hk⟩ | ⟨_, _, _, hk⟩
    · cases hk
    · simp only [processInstr, hc, ht, bind, Except.bind, pure, Except.pure]
      cases st.pushStart i f <;> rfl
    all_goals cases hk
  · rcases Instruction.kind_eq_ok h with ⟨_, hk⟩ | ⟨_, _, hk⟩ | ⟨hc, ht, hr, _⟩ | ⟨_, _, _, hk⟩
    · cases hk
    · cases hk
    · simp only [processInstr, hc, ht, hr, bind, Except.bind, pure, Except.pure]
      cases st.pushStart i f <;> simp
    · cases hk

/-- `run_trace` hands a watched instruction to `process_instr`, in a state with
tracing on. -/
theorem traceLine_watched {cfg : Config} {st : State} {i : Instruction} {f : Str}
    (hpc : cfg.syms.lookupSym i.pc = f) (hw : Watched cfg st f) :
    ∃ st₁ i₁, traceLine cfg st i = processInstr cfg st₁ i₁ f ∧
      i₁ = { i with fn := f, cat := i₁.cat } ∧
      st₁.traceActive = true ∧ st₁.events = st.events ∧ st₁.callStack = st.callStack ∧
      (st₁.pushStart i₁ f).map (·.cycle) = st.starts f i.cycle ∧
      (Ready cfg st f → ¬ (st₁.prevFn ≠ some f ∧ st₁.prevInstr.cat = .instr) ∧
        ¬ (st₁.afterCall ∧ st₁.prevFn = some f)) := by
  subst hpc
  cases ha : st.traceActive with
  | true =>
    refine ⟨st, { i with fn := cfg.syms.lookupSym i.pc }, ?_, rfl, ha, rfl, rfl, ?_, ?_⟩
    · simp [traceLine, ha]
    · simp only [State.pushStart, State.starts, ha, Bool.true_eq_false, false_or]
      split_ifs <;> rfl
    · rintro (⟨hoff, _⟩ | ⟨_, ⟨hp, hc⟩ | hc | ⟨hp, hc⟩⟩)
      · simp [ha] at hoff
      · simp [hp, hc, State.afterCall]
      · simp [hc, State.afterCall]
      · refine ⟨fun h => ?_, fun h => hp h.2⟩
        simp [State.afterCall, h.2] at hc
  | false =>
    have ht : some (cfg.syms.lookupSym i.pc) = cfg.fnTarget := by
      rcases hw with hon | ht
      · simp [ha] at hon
      · exact ht.symm
    refine ⟨{ st with
        traceActive := true
        prevFn := none
        prevInstr := { i with fn := cfg.syms.lookupSym i.pc, cat := .call } },
      { i with fn := cfg.syms.lookupSym i.pc, cat := .call }, ?_, rfl, rfl, rfl, rfl, ?_, ?_⟩
    · simp [traceLine, ha, ht]
    · simp [State.pushStart, State.starts, State.afterCall, ha]
    · intro _
      simp

/-- A plain instruction or a call leaves the activation open. -/
structure Stayed (st : State) (i : Instruction) (f : Str) (k : Cat) (st' : State) : Prop where
  active : st'.traceActive = true
  events : st'.events = st.events
  starts : st'.callStarts.map (·.cycle) = st.starts f i.cycle
  callers : st'.callers = if k = .call then st.callers ++ [f] else st.callers
  prevFn : st'.prevFn = some f
  cat : st'.prevInstr.cat = k

/-- A return or a tail call completes the activation that started last. -/
structure Left (cfg : Config) (st : State) (i : Instruction) (f : Str) (k : Cat) (st' : State) :
    Prop where
  active : st'.traceActive = !decide (k = .ret ∧ cfg.fnTarget = some f)
  event : ∃ start e, st.starts f i.cycle = start :: st'.callStarts.map (·.cycle) ∧
    st'.events = st.events ++ [e] ∧ e.Records ⟨f, st.callers, start, i.cycle⟩
  callers : st'.callers = if k = .ret then st.callers.dropLast else st.callers
  prevFn : st'.prevFn = some f
  cat : st'.prevInstr.cat = k

/-- The step of a plain instruction or a call. -/
theorem traceLine_stay {cfg : Config} {st st' : State} {i : Instruction} {f : Str} {k : Cat}
    (hi : i.RunsAs cfg.syms f k) (hk : k = .instr ∨ k = .call) (hw : Watched cfg st f)
    (h : traceLine cfg st i = .ok st') : Stayed st i f k st' := by
  obtain ⟨st₁, i₁, heq, hi₁, hact, hev, hcs, hstarts, -⟩ := traceLine_watched hi.1 hw
  have hkind : i₁.kind cfg.syms = .ok k := by rw [hi₁]; exact hi.2
  have hfn : i₁.fn = f := by rw [hi₁]
  rw [heq] at h
  rcases hk with rfl | rfl
  · rw [processInstr_instr hkind] at h
    split_ifs at h
    obtain rfl := Except.ok.inj h
    exact ⟨hact, hev, hstarts, by simp [State.callers, State.finish, hcs], rfl, rfl⟩
  · rw [processInstr_call hkind] at h
    obtain rfl := Except.ok.inj h
    exact ⟨hact, hev, hstarts, by simp [State.callers, State.finish, hcs, hfn], rfl, rfl⟩

theorem mkEvent_records (st : State) (start i : Instruction) (f : Str) :
    (mkEvent st.callStack start i f).Records ⟨f, st.callers, start.cycle, i.cycle⟩ where
  name := rfl
  start := rfl
  stop := by simp only [mkEvent]; omega
  callers := by simp [mkEvent, stackStr, State.callers]

/-- The step of a return or a tail call. -/
theorem traceLine_leave {cfg : Config} {st st' : State} {i : Instruction} {f : Str} {k : Cat}
    (hi : i.RunsAs cfg.syms f k) (hk : k = .tail ∨ k = .ret) (hw : Watched cfg st f)
    (h : traceLine cfg st i = .ok st') : Left cfg st i f k st' := by
  obtain ⟨st₁, i₁, heq, hi₁, hact, hev, hcs, hstarts, -⟩ := traceLine_watched hi.1 hw
  have hkind : i₁.kind cfg.syms = .ok k := by rw [hi₁]; exact hi.2
  have hcyc : i₁.cycle = i.cycle := by rw [hi₁]
  have hcallers : st₁.callers = st.callers := by simp [State.callers, hcs]
  rw [heq, processInstr_leave hkind hk] at h
  cases hp : st₁.pushStart i₁ f with
  | nil => simp [hp] at h
  | cons start rest =>
    simp only [hp, Except.ok.injEq] at h
    subst h
    refine ⟨?_, ⟨start.cycle, mkEvent st₁.callStack start i₁ f, ?_, ?_, ?_⟩, ?_, rfl, rfl⟩
    · by_cases ht : k = .ret ∧ cfg.fnTarget = some f
      · simp [State.finish, ht]
      · have ht' : ¬ (k = .ret ∧ some f = cfg.fnTarget) := fun h => ht ⟨h.1, h.2.symm⟩
        simp [State.finish, ht, ht', hact]
    · rw [← hstarts, hp]
      rfl
    · simp [State.finish, hev]
    · rw [← hcallers, ← hcyc]
      exact mkEvent_records st₁ start i₁ f
    · rw [← hcallers]
      split_ifs with hret <;> simp [State.callers, State.finish, hret]

/-- A step does not raise if the tracer is ready for the function and a return
or tail call finds a start to pop. -/
theorem traceLine_ok {cfg : Config} {st : State} {i : Instruction} {f : Str} {k : Cat}
    (hi : i.RunsAs cfg.syms f k) (hr : Ready cfg st f)
    (hpop : k = .tail ∨ k = .ret → st.starts f i.cycle ≠ []) :
    ∃ st', traceLine cfg st i = .ok st' := by
  obtain ⟨st₁, i₁, heq, hi₁, -, -, -, hstarts, hquiet⟩ := traceLine_watched hi.1 hr.watched
  have hkind : i₁.kind cfg.syms = .ok k := by rw [hi₁]; exact hi.2
  obtain ⟨hmissed, hself⟩ := hquiet hr
  have hleave : k = .tail ∨ k = .ret → ∃ st', processInstr cfg st₁ i₁ f = .ok st' := by
    intro hk
    rw [processInstr_leave hkind hk]
    cases hp : st₁.pushStart i₁ f with
    | nil => exact absurd (by rw [← hstarts, hp]; rfl) (hpop hk)
    | cons start rest => exact ⟨_, rfl⟩
  rw [heq]
  cases k with
  | instr =>
    rw [processInstr_instr hkind, if_neg, if_neg]
    · exact ⟨_, rfl⟩
    · simp only [Bool.and_eq_true, decide_eq_true_eq]
      exact fun h => hself h.2.1
    · simp only [Bool.and_eq_true, decide_eq_true_eq]
      exact fun h => hmissed h.2
  | call => exact ⟨_, processInstr_call hkind⟩
  | tail => exact hleave (.inl rfl)
  | ret => exact hleave (.inr rfl)

end AiPipelines.TraceGen
