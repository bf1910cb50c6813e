import AiPipelines.TraceGen.Follows

/-!
# Tracing a target function

`run_trace` with `fn_target` set, on a log that alternates between records
outside the target and complete activations of it.

`Segment` is a stretch of such a log.  Between two segments the tracer is
`Idle`: tracing is off and both stacks are empty.  `run_segment` is the step
and `run_segments` the whole run; `runTrace_target` reads off that every
activation inside the target is recorded exactly once.
-/

namespace AiPipelines.TraceGen

open PyStd

/-! ## The log, seen from the target -/

/-- A stretch of the log: a record outside the target, or what an outermost
activation of the target executes, from its first instruction to the return or
tail call that ends it. -/
inductive Segment where
  | outside (i : Instruction)
  | activation (items : Items) (last : Instruction)

namespace Segment

/-- The instructions of a segment. -/
def log (target : Str) : Segment → List Step
  | .outside i => [⟨i, none⟩]
  | .activation items last =>
    items.log [] target ++ [⟨last, some ⟨target, [], items.start last.cycle, last.cycle⟩⟩]

/-- The segment fits its instructions. -/
def Runs (syms : SymResolver) (target : Str) : Segment → Prop
  | .outside i => syms.lookupSym i.pc ≠ target
  | .activation items last =>
    items.Runs syms target ∧ (last.RunsAs syms target .ret ∨ last.RunsAs syms target .tail)

end Segment

/-- The instructions of a list of segments. -/
def segmentLog (target : Str) (segs : List Segment) : List Step := segs.flatMap (·.log target)

@[simp] theorem segmentLog_cons (target : Str) (seg : Segment) (segs : List Segment) :
    segmentLog target (seg :: segs) = seg.log target ++ segmentLog target segs := rfl

theorem completed_append (a b : List Step) : completed (a ++ b) = completed a ++ completed b :=
  List.filterMap_append

/-! ## One outermost activation -/

/-- Tracing is off and nothing is open. -/
structure Idle (st : State) : Prop where
  inactive : st.traceActive = false
  callStack : st.callStack = []
  callStarts : st.callStarts = []

theorem idle_init {cfg : Config} {target : Str} (h : cfg.fnTarget = some target) :
    Idle (State.init cfg) :=
  ⟨by simp [State.init, h], rfl, rfl⟩

theorem Idle.starts {st : State} (h : Idle st) (f : Str) (c : Int) : st.starts f c = [c] := by
  simp [State.starts, h.inactive, h.callStarts]

/-- The activations on which the tracer does its work: they end in a return,
no function calls itself, and the target executes no return before the last
instruction. -/
structure Regular (syms : SymResolver) (target : Str) (items : Items) (last : Instruction) :
    Prop where
  returns : last.RunsAs syms target .ret
  noSelfCall : items.selfCalls target = 0
  noReturn : NoReturnIn syms target (instrs (items.log [] target))

/-- The tracer follows a regular activation up to its last instruction, and is
idle after that. -/
theorem activation_follows {cfg : Config} {target : Str} {st : State} {items : Items}
    {last : Instruction} (ht : cfg.fnTarget = some target) (hidle : Idle st)
    (hruns : items.Runs cfg.syms target) (hreg : Regular cfg.syms target items last) :
    ∃ st₁ st', Follows cfg st (items.log [] target) st₁ ∧ traceLine cfg st₁ last = .ok st' ∧
      Idle st' ∧ Recorded st₁ st' [⟨target, [], items.start last.cycle, last.cycle⟩] := by
  have hcallers : st.callers = [] := by simp [State.callers, hidle.callStack]
  have hret : NoTargetReturn cfg (instrs (items.log [] target)) := by
    intro t h
    rw [ht, Option.some.injEq] at h
    exact h ▸ hreg.noReturn
  obtain ⟨st₁, hitems, hready, hcallers₁, hstarts⟩ := Items.follows items hruns hreg.noSelfCall
    hret (.inl ⟨hidle.inactive, ht⟩) hcallers
  have hpop : st₁.starts target last.cycle = [items.start last.cycle] := by
    rw [hstarts, hidle.starts]
  obtain ⟨st', hline⟩ := traceLine_ok hreg.returns hready (fun _ => by simp [hpop])
  have hleft := traceLine_leave hreg.returns (.inr rfl) hready.watched hline
  obtain ⟨start, e, hs, hev, he⟩ := hleft.event
  rw [hpop, List.cons.injEq, eq_comm (a := [])] at hs
  refine ⟨st₁, st', hitems, hline, ⟨?_, ?_, ?_⟩, [e], hev, ?_⟩
  · simp [hleft.active, ht]
  · have hcallers' := hleft.callers
    rw [if_pos rfl, hcallers₁] at hcallers'
    simpa [State.callers] using hcallers'
  · simpa using hs.2
  · rw [hcallers₁, ← hs.1] at he
    exact .cons he .nil

/-! ## Whole logs -/

/-- The segment does not bring the tracer out of step. -/
def Segment.Regular (syms : SymResolver) (target : Str) : Segment → Prop
  | .outside _ => True
  | .activation items last => TraceGen.Regular syms target items last

/-- One segment takes an idle tracer to an idle tracer. -/
theorem run_segment {cfg : Config} {target : Str} {st : State} {seg : Segment}
    (ht : cfg.fnTarget = some target) (hidle : Idle st) (hruns : seg.Runs cfg.syms target)
    (hreg : seg.Regular cfg.syms target) :
    ∃ st', runRecords cfg st (instrs (seg.log target)) = .ok st' ∧ Idle st' ∧
      Recorded st st' (completed (seg.log target)) := by
  cases seg with
  | outside i =>
    have hline : traceLine cfg st i =
        .ok { st with prevInstr := { i with fn := cfg.syms.lookupSym i.pc } } := by
      have hne : some (cfg.syms.lookupSym i.pc) ≠ cfg.fnTarget := by
        rw [ht]
        exact fun h => hruns (Option.some.inj h)
      simp [traceLine, hidle.inactive, hne]
    exact ⟨_, runRecords_singleton.2 hline, ⟨hidle.inactive, hidle.callStack,
      hidle.callStarts⟩, [], by simp, .nil⟩
  | activation items last =>
    obtain ⟨st₁, st', hitems, hline, hidle', hrec⟩ := activation_follows ht hidle hruns.1 hreg
    refine ⟨st', ?_, hidle', ?_⟩
    · rw [Segment.log, instrs_append, runRecords_append]
      exact ⟨st₁, hitems.run, runRecords_singleton.2 hline⟩
    · rw [Segment.log, completed_append]
      exact hitems.recorded.trans hrec

/-- A log of regular segments takes an idle tracer to an idle tracer. -/
theorem run_segments {cfg : Config} {target : Str} {st : State} {segs : List Segment}
    (ht : cfg.fnTarget = some target) (hidle : Idle st)
    (hruns : ∀ seg ∈ segs, seg.Runs cfg.syms target)
    (hreg : ∀ seg ∈ segs, seg.Regular cfg.syms target) :
    ∃ st', runRecords cfg st (instrs (segmentLog target segs)) = .ok st' ∧ Idle st' ∧
      Recorded st st' (completed (segmentLog target segs)) := by
  induction segs generalizing st with
  | nil => exact ⟨st, rfl, hidle, .refl st⟩
  | cons seg segs ih =>
    rw [List.forall_mem_cons] at hruns hreg
    obtain ⟨st₁, hrun₁, hidle₁, hrec₁⟩ := run_segment ht hidle hruns.1 hreg.1
    obtain ⟨st', hrun, hidle', hrec⟩ := ih hidle₁ hruns.2 hreg.2
    refine ⟨st', ?_, hidle', ?_⟩
    · rw [segmentLog_cons, instrs_append, runRecords_append]
      exact ⟨st₁, hrun₁, hrun⟩
    · rw [segmentLog_cons, completed_append]
      exact hrec₁.trans hrec

/-! ## The target does not run inside itself -/

mutual

/-- `t` is neither the function `f` of the activation nor one that it calls. -/
def Body.Avoids (t f : Str) : Body → Prop
  | .ret items _ => f ≠ t ∧ items.Avoids t
  | .tail items _ g next => f ≠ t ∧ items.Avoids t ∧ next.Avoids t g

/-- No call leads to `t`. -/
def Items.Avoids (t : Str) : Items → Prop
  | .nil => True
  | .plain _ rest => rest.Avoids t
  | .call _ g callee rest => callee.Avoids t g ∧ rest.Avoids t

end

/-- An instruction is taken for one thing only. -/
theorem Instruction.RunsAs.kind_ne {syms : SymResolver} {f g : Str} {k k' : Cat} {i : Instruction}
    (h : i.RunsAs syms f k) (hk : k ≠ k') : ¬ i.RunsAs syms g k' := by
  intro h'
  exact hk (Except.ok.inj (h.2.symm.trans h'.2))

mutual

theorem Body.noReturnIn {syms : SymResolver} {t f : Str} {callers : List Str} :
    ∀ (body : Body), body.Runs syms f → body.Avoids t f →
      NoReturnIn syms t (instrs (body.log callers f))
  | .ret items i, hruns, havoid => by
    intro j hj
    simp only [Body.log, instrs_append, instrs_cons, instrs_nil, List.mem_append,
      List.mem_singleton] at hj
    rcases hj with hj | rfl
    · exact Items.noReturnIn items hruns.1 havoid.2 j hj
    · exact fun h => havoid.1 (hruns.2.1.symm.trans h.1)
  | .tail items i g next, hruns, havoid => by
    intro j hj
    simp only [Body.log, instrs_append, instrs_cons, List.mem_append, List.mem_cons] at hj
    rcases hj with hj | rfl | hj
    · exact Items.noReturnIn items hruns.1 havoid.2.1 j hj
    · exact hruns.2.1.kind_ne (by simp)
    · exact Body.noReturnIn next hruns.2.2 havoid.2.2 j hj

theorem Items.noReturnIn {syms : SymResolver} {t f : Str} {callers : List Str} :
    ∀ (items : Items), items.Runs syms f → items.Avoids t →
      NoReturnIn syms t (instrs (items.log callers f))
  | .nil, _, _ => by simp [Items.log, NoReturnIn]
  | .plain i rest, hruns, havoid => by
    intro j hj
    simp only [Items.log, instrs_cons, List.mem_cons] at hj
    rcases hj with rfl | hj
    · exact hruns.1.kind_ne (by simp)
    · exact Items.noReturnIn rest hruns.2 havoid j hj
  | .call i g callee rest, hruns, havoid => by
    intro j hj
    simp only [Items.log, instrs_cons, instrs_append, List.mem_cons, List.mem_append] at hj
    rcases hj with rfl | hj | hj
    · exact hruns.1.kind_ne (by simp)
    · exact Body.noReturnIn callee hruns.2.1 havoid.1 j hj
    · exact Items.noReturnIn rest hruns.2.2 havoid.2 j hj

end

/-! ## Every activation is recorded once -/

/-- A record outside the target, or a complete activation of the target in
which no function calls itself and the target does not run again. -/
def Segment.Nested (syms : SymResolver) (target : Str) : Segment → Prop
  | .outside i => syms.lookupSym i.pc ≠ target
  | .activation items last => items.Runs syms target ∧ last.RunsAs syms target .ret ∧
    items.selfCalls target = 0 ∧ items.Avoids target

theorem Segment.Nested.runs {syms : SymResolver} {target : Str} {seg : Segment}
    (h : seg.Nested syms target) : seg.Runs syms target := by
  cases seg with
  | outside i => exact h
  | activation items last => exact ⟨h.1, .inl h.2.1⟩

theorem Segment.Nested.regular {syms : SymResolver} {target : Str} {seg : Segment}
    (h : seg.Nested syms target) : seg.Regular syms target := by
  cases seg with
  | outside i => trivial
  | activation items last => exact ⟨h.2.1, h.2.2.1, items.noReturnIn h.1 h.2.2.2⟩

/-- On a log of records outside the target and complete activations of it,
`run_trace` raises nothing, and its events are those of the activations inside
the target, one for each. -/
theorem runTrace_target {cfg : Config} {target : Str} {segs : List Segment}
    {lines : List (Option Instruction)} (ht : cfg.fnTarget = some target)
    (hsegs : ∀ seg ∈ segs, seg.Nested cfg.syms target)
    (hlines : lines.reduceOption = instrs (segmentLog target segs)) :
    ∃ st, runTrace cfg (State.init cfg) lines = .ok st ∧
      List.Forall₂ Event.Records st.events (completed (segmentLog target segs)) ∧ Idle st := by
  obtain ⟨st, hrun, hidle, es, hes, hrec⟩ := run_segments ht (idle_init ht)
    (fun seg h => (hsegs seg h).runs) (fun seg h => (hsegs seg h).regular)
  refine ⟨st, ?_, ?_, hidle⟩
  · rw [runTrace_reduceOption, hlines]
    exact hrun
  · rw [hes]
    exact hrec

/-- Three functions of 64 bytes each. -/
def demoSyms : SymResolver where
  syms := [("main", 0, 64), ("leaf", 64, 128), ("next", 128, 192)]
  fnStarts := [0, 64, 128]

/-- The instruction at `pc` that retires at `cycle`. -/
def demoInstr (mnem : Str) (operands : List Operand) (cycle pc : Int) : Instruction :=
  { mnem := mnem, operands := operands, cycle := cycle, pc := pc }

/-- `main` calls `leaf`, which leaves through `next`; a record of no function
comes before and after. -/
def demoLog : List Segment :=
  [.outside (demoInstr "addi" [] 1 500),
    .activation
      (.plain (demoInstr "addi" [] 2 0)
        (.call (demoInstr "jal" [.name "x1", .num 64] 3 4) "leaf"
          (.tail (.plain (demoInstr "addi" [] 5 64) .nil) (demoInstr "c.j" [.num 128] 6 68) "next"
            (.ret .nil (demoInstr "ret" [] 8 128))) .nil))
      (demoInstr "ret" [] 9 8),
    .outside (demoInstr "addi" [] 10 500)]

/-- The tracer that is asked for `main`. -/
def demoConfig : Config := { syms := demoSyms, fnTarget := some "main" }

theorem demoLog_nested : ∀ seg ∈ demoLog, seg.Nested demoConfig.syms "main" := by
  simp only [demoLog, List.forall_mem_cons, Segment.Nested, Items.Runs, Body.Runs, Items.selfCalls,
    Body.selfCalls, Items.Avoids, Body.Avoids, List.not_mem_nil, false_implies, implies_true]
  decide

theorem demoLog_completed : completed (segmentLog "main" demoLog) =
    [⟨"leaf", ["main"], 5, 6⟩, ⟨"next", ["main"], 8, 8⟩, ⟨"main", [], 2, 9⟩] := by
  decide

theorem demoLog_traced :
    ∃ st, runTrace demoConfig (State.init demoConfig)
        (none :: (instrs (segmentLog "main" demoLog)).map some) = .ok st ∧
      List.Forall₂ Event.Records st.events
        [⟨"leaf", ["main"], 5, 6⟩, ⟨"next", ["main"], 8, 8⟩, ⟨"main", [], 2, 9⟩] ∧ Idle st := by
  rw [← demoLog_completed]
  exact runTrace_target rfl demoLog_nested
    (by simp [List.reduceOption])

end AiPipelines.TraceGen
