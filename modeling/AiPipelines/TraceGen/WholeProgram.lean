import AiPipelines.TraceGen.TargetTrace

/-!
# Tracing the whole program

`run_trace` without a target, on the log of a program that is already running
when the log begins.  The outermost function has no recorded start, and what
is promised is one event for every other activation that the log completes
(`TracesProgram`).

The tracer begins with `none_instr`, which is a plain instruction of no
function.  The first record of the log is therefore complained about if it is
a plain instruction, and it finds nothing to pop if it is a return or a tail
call.  Only a call gets the tracer started.  From then on it keeps up until the
outermost function itself leaves, and there it finds nothing to pop either.
`tracesProgram_iff` puts the two conditions together.
-/

namespace AiPipelines.TraceGen

open PyStd

/-! ## The log of a program -/

/-- What the outermost function does before it leaves. -/
def Body.items : Body → Items
  | .ret items _ => items
  | .tail items _ _ _ => items

/-- The instruction by which the outermost function leaves. -/
def Body.last : Body → Instruction
  | .ret _ i => i
  | .tail _ i _ _ => i

/-- What runs after the outermost function has left by a tail call. -/
def Body.after : Body → List Step
  | .ret _ _ => []
  | .tail _ _ g next => next.log [] g

/-- The instructions of a program, from somewhere inside its outermost function
`f`.  The activation of `f` itself is not to be recorded. -/
def Body.programLog (f : Str) (body : Body) : List Step :=
  body.items.log [] f ++ ⟨body.last, none⟩ :: body.after

theorem Body.Runs.items {syms : SymResolver} {f : Str} {body : Body} (h : body.Runs syms f) :
    body.items.Runs syms f := by
  cases body with
  | ret items i => exact h.1
  | tail items i g next => exact h.1

theorem Body.Runs.last {syms : SymResolver} {f : Str} {body : Body} (h : body.Runs syms f) :
    ∃ k, (k = .tail ∨ k = .ret) ∧ body.last.RunsAs syms f k := by
  cases body with
  | ret items i => exact ⟨.ret, .inr rfl, h.2⟩
  | tail items i g next => exact ⟨.tail, .inl rfl, h.2.1⟩

theorem Body.selfCalls_items {f : Str} {body : Body} (h : body.selfCalls f = 0) :
    body.items.selfCalls f = 0 := by
  cases body with
  | ret items i => exact h
  | tail items i g next =>
    simp only [Body.selfCalls] at h
    simp only [Body.items]
    omega

/-! ## The promise -/

/-- The lines are traced without an exception, and the events are those of the
activations that they complete. -/
def TracesProgram (cfg : Config) (lines : List (Option Instruction)) (steps : List Step) : Prop :=
  ∃ st, runTrace cfg (State.init cfg) lines = .ok st ∧
    List.Forall₂ Event.Records st.events (completed steps)

/-! ## The first record -/

variable {cfg : Config} {f : Str}

theorem init_active (h : cfg.fnTarget = none) : (State.init cfg).traceActive = true := by
  simp [State.init, h]

theorem init_starts (h : cfg.fnTarget = none) (c : Int) : (State.init cfg).starts f c = [] := by
  simp [State.starts, State.init, h, State.afterCall, noneInstr]

/-- A log may not begin with a plain instruction. -/
theorem init_plain_raises {i : Instruction} (h : cfg.fnTarget = none) (hdebug : cfg.debug = false)
    (hi : i.RunsAs cfg.syms f .instr) (st : State) :
    traceLine cfg (State.init cfg) i ≠ .ok st := by
  have hkind : ({ i with fn := cfg.syms.lookupSym i.pc } : Instruction).kind cfg.syms =
      .ok .instr := hi.2
  simp [traceLine, processInstr_instr hkind, State.init, noneInstr, h, hdebug]

/-- The outermost function may not leave while no start is recorded. -/
theorem leave_raises {st st' : State} {i : Instruction} {k : Cat} (hi : i.RunsAs cfg.syms f k)
    (hk : k = .tail ∨ k = .ret) (hw : Watched cfg st f) (hstarts : ∀ c, st.starts f c = []) :
    traceLine cfg st i ≠ .ok st' := by
  intro hline
  obtain ⟨start, _, hs, _⟩ := (traceLine_leave hi hk hw hline).event
  simp [hstarts] at hs

/-- Once it has begun with a call, the tracer follows the outermost function
until it leaves. -/
theorem program_follows {i : Instruction} {g : Str} {callee : Body} {rest : Items}
    (h : cfg.fnTarget = none) (hruns : (Items.call i g callee rest).Runs cfg.syms f)
    (hself : (Items.call i g callee rest).selfCalls f = 0) :
    ∃ st, Follows cfg (State.init cfg) ((Items.call i g callee rest).log [] f) st ∧
      st.traceActive = true ∧ ∀ c, st.starts f c = [] := by
  have hret : ∀ l, NoTargetReturn cfg l := by simp [NoTargetReturn, h]
  simp only [Items.Runs, Items.selfCalls] at hruns hself
  have hne : g ≠ f := by
    rintro rfl
    simp at hself
  obtain ⟨st, hf, -, -, hstarts⟩ := follows_call hruns.1 (.inl (init_active h)) rfl hne
    (fun st₁ S hready hcallers hstarts =>
      callee.follows hruns.2.1 (by omega) (hret _) hready hcallers hstarts)
    (fun st₂ hready hcallers => by
      obtain ⟨st₃, hrest, hready₃, hcallers₃, hstarts₃⟩ :=
        rest.follows hruns.2.2 (by omega) (hret _) hready hcallers
      exact ⟨st₃, hrest, hready₃, hcallers₃, fun c => ⟨_, hstarts₃ c⟩⟩)
  exact ⟨st, hf, hf.active (by simp), fun c => by rw [hstarts, init_starts h]⟩

/-! ## The exact condition -/

/-- A traced log begins with a call. -/
theorem call_of_runs {body : Body} {s : Step} {steps : List Step} {st : State}
    (h : cfg.fnTarget = none) (hdebug : cfg.debug = false) (hruns : body.Runs cfg.syms f)
    (hsteps : s :: steps <+: body.programLog f)
    (hrun : runRecords cfg (State.init cfg) (instrs (s :: steps)) = .ok st) :
    ∃ i g callee rest, body.items = .call i g callee rest ∧ s.instr = i := by
  obtain ⟨st₁, hline, -⟩ := runRecords_cons.1 hrun
  obtain ⟨more, hmore⟩ := hsteps
  rw [Body.programLog] at hmore
  have hitems := hruns.items
  cases hb : body.items with
  | nil =>
    simp only [hb, Items.log, List.nil_append, List.cons_append, List.cons.injEq] at hmore
    obtain ⟨k, hk, hlast⟩ := hruns.last
    rw [hmore.1] at hline
    exact absurd hline (leave_raises hlast hk (.inl (init_active h)) (init_starts h))
  | plain i rest =>
    simp only [hb, Items.log, List.cons_append, List.cons.injEq] at hmore
    rw [hb] at hitems
    rw [hmore.1] at hline
    exact absurd hline (init_plain_raises h hdebug hitems.1 st₁)
  | call i g callee rest =>
    simp only [hb, Items.log, List.cons_append, List.cons.injEq] at hmore
    exact ⟨i, g, callee, rest, rfl, by rw [hmore.1]⟩

/-- A traced log that begins with a call stops before the outermost function
leaves. -/
theorem prefix_of_runs {body : Body} {i : Instruction} {g : Str} {callee : Body} {rest : Items}
    {steps : List Step} {st : State} (h : cfg.fnTarget = none) (hruns : body.Runs cfg.syms f)
    (hself : body.selfCalls f = 0) (hitems : body.items = .call i g callee rest)
    (hsteps : steps <+: body.programLog f)
    (hrun : runRecords cfg (State.init cfg) (instrs steps) = .ok st) :
    steps <+: body.items.log [] f := by
  obtain ⟨more, hmore⟩ := hsteps
  rw [Body.programLog] at hmore
  rcases List.append_eq_append_iff.1 hmore with ⟨c, hc, -⟩ | ⟨c, hc, hleave⟩
  · exact ⟨c, hc.symm⟩
  · cases c with
    | nil => simp [hc]
    | cons s c =>
      -- The log goes on with the instruction by which the function leaves.
      obtain ⟨rfl, -⟩ := List.cons.inj hleave
      have hruns' := hruns.items
      have hself' := Body.selfCalls_items hself
      rw [hitems] at hruns' hself'
      obtain ⟨st₁, hf, hact, hstarts⟩ := program_follows h hruns' hself'
      rw [hc, instrs_append] at hrun
      obtain ⟨st₂, hrun₂, hmore⟩ := runRecords_append.1 hrun
      rw [hitems, hf.run] at hrun₂
      obtain rfl := Except.ok.inj hrun₂
      obtain ⟨st₃, hline, -⟩ := runRecords_cons.1 hmore
      obtain ⟨k, hk, hlast⟩ := hruns.last
      exact absurd hline (leave_raises hlast hk (.inl hact) hstarts)

/-- The program is traced exactly when its log begins with a call and stops
before the outermost function leaves. -/
theorem tracesProgram_iff {body : Body} {steps : List Step} {lines : List (Option Instruction)}
    (h : cfg.fnTarget = none) (hdebug : cfg.debug = false) (hruns : body.Runs cfg.syms f)
    (hself : body.selfCalls f = 0) (hne : steps ≠ []) (hsteps : steps <+: body.programLog f)
    (hlines : lines.reduceOption = instrs steps) :
    TracesProgram cfg lines steps ↔
      (∃ s ∈ steps.head?, s.instr.kind cfg.syms = .ok .call) ∧
        steps <+: body.items.log [] f := by
  obtain ⟨s, steps, rfl⟩ := List.exists_cons_of_ne_nil hne
  have hloop : runTrace cfg (State.init cfg) lines =
      runRecords cfg (State.init cfg) (instrs (s :: steps)) := by
    rw [runTrace_reduceOption, hlines, runRecords]
  constructor
  · rintro ⟨st, hrun, -⟩
    rw [hloop] at hrun
    obtain ⟨i, g, callee, rest, hitems, rfl⟩ := call_of_runs h hdebug hruns hsteps hrun
    have hruns' := hruns.items
    rw [hitems] at hruns'
    exact ⟨⟨s, rfl, hruns'.1.2⟩, prefix_of_runs h hruns hself hitems hsteps hrun⟩
  · rintro ⟨⟨s', hs', hcall⟩, more, hmore⟩
    obtain rfl : s = s' := by simpa using hs'
    have hruns' := hruns.items
    have hself' := Body.selfCalls_items hself
    cases hitems : body.items with
    | nil => simp [hitems, Items.log] at hmore
    | plain i rest =>
      simp only [hitems, Items.log, List.cons_append, List.cons.injEq] at hmore
      rw [hitems] at hruns'
      rw [hmore.1] at hcall
      exact absurd ⟨rfl, hcall⟩ (hruns'.1.kind_ne (by simp))
    | call i g callee rest =>
      rw [hitems] at hmore hruns' hself'
      obtain ⟨st, hf, -⟩ := program_follows h hruns' hself'
      rw [← hmore] at hf
      obtain ⟨st₁, hfirst, -⟩ := hf.split
      obtain ⟨es, hes, hrec⟩ := hfirst.recorded
      refine ⟨st₁, hloop.trans hfirst.run, ?_⟩
      rw [hes]
      exact hrec

/-! ## A program and its logs -/

/-- `main` executes one instruction, calls `leaf` and returns. -/
def demoProgram : Body :=
  .ret (.plain (demoInstr "addi" [] 1 0)
      (.call (demoInstr "jal" [.name "x1", .num 64] 2 4) "leaf"
        (.ret .nil (demoInstr "ret" [] 3 64)) .nil))
    (demoInstr "ret" [] 4 8)

/-- The same program, seen from the call on. -/
def demoCallFirst : Body :=
  .ret (.call (demoInstr "jal" [.name "x1", .num 64] 2 4) "leaf"
      (.ret .nil (demoInstr "ret" [] 3 64)) .nil)
    (demoInstr "ret" [] 4 8)

/-- The tracer for whole programs. -/
def programConfig : Config := { syms := demoSyms }

theorem demoCallFirst_runs : demoCallFirst.Runs programConfig.syms "main" := by
  simp only [demoCallFirst, Body.Runs, Items.Runs]
  decide

theorem demoCallFirst_traced :
    TracesProgram programConfig
      [some (demoInstr "jal" [.name "x1", .num 64] 2 4), some (demoInstr "ret" [] 3 64)]
      (demoCallFirst.items.log [] "main") :=
  (tracesProgram_iff rfl rfl demoCallFirst_runs (by decide)
    (by simp [demoCallFirst, Body.items, Items.log]) (List.prefix_append _ _) rfl).2
    ⟨⟨_, rfl, rfl⟩, List.prefix_rfl⟩

/-- A log that begins with a plain instruction is not traced. -/
theorem demoProgram_not_traced :
    demoProgram.Runs programConfig.syms "main" ∧ demoProgram.selfCalls "main" = 0 ∧
      demoProgram.items.log [] "main" <+: demoProgram.programLog "main" ∧
      ¬ TracesProgram programConfig ((instrs (demoProgram.items.log [] "main")).map some)
        (demoProgram.items.log [] "main") := by
  refine ⟨?_, by decide, List.prefix_append _ _, ?_⟩
  · simp only [demoProgram, Body.Runs, Items.Runs]
    decide
  · rintro ⟨st, hst, -⟩
    have hraises : (runTrace programConfig (State.init programConfig)
        ((instrs (demoProgram.items.log [] "main")).map some)).isOk = false := by
      decide
    rw [hst] at hraises
    cases hraises

end AiPipelines.TraceGen
