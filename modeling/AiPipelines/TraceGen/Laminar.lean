import Mathlib
import AiPipelines.Spans
import AiPipelines.TraceGen.Steps

/-!
# The events of a trace are laminar

`process_instr` on any sequence of instructions, well nested or not, with
calls that were missed and returns that nothing matches.  What holds there
rests on `call_starts` alone: it is a stack of start times, so the events are
the spans that `Spans` describes.

A sequence is a list of pairs of an instruction and the function it belongs
to, as `process_instr` is given them.
-/

namespace AiPipelines.TraceGen

open PyStd

variable {cfg : Config} {st st' : State} {i : Instruction} {f : Str}

/-! ## One instruction -/

/-- `process_instr` finds that a function has started. -/
def State.detectsStart (st : State) (f : Str) : Bool := st.prevFn ≠ some f && st.afterCall

/-- The time in which an event ran. -/
def Event.span (e : Event) : Int × Int := (e.ts, e.ts + e.dur)

theorem pushStart_eq (st : State) (i : Instruction) (f : Str) :
    st.pushStart i f = if st.detectsStart f then i :: st.callStarts else st.callStarts := by
  simp [State.pushStart, State.detectsStart]

theorem mkEvent_span (stack : List Instruction) (start i : Instruction) (f : Str) :
    (mkEvent stack start i f).span = (start.cycle, i.cycle) := by
  have hstop : start.cycle + (i.cycle - start.cycle) = i.cycle := by omega
  simp [Event.span, mkEvent, hstop]

/-- An instruction that is accepted was told apart. -/
theorem kind_of_processInstr (h : processInstr cfg st i f = .ok st') :
    ∃ k, i.kind cfg.syms = .ok k := by
  unfold processInstr at h
  unfold Instruction.kind
  cases hc : i.isCall with
  | error e => simp [hc, bind, Except.bind] at h
  | ok c =>
    cases c with
    | true => exact ⟨.call, rfl⟩
    | false =>
      cases ht : i.isTailCall cfg.syms with
      | error e => simp [hc, ht, bind, Except.bind] at h
      | ok t =>
        cases t with
        | true => exact ⟨.tail, rfl⟩
        | false =>
          cases hr : i.isReturn with
          | error e => simp [hc, ht, hr, bind, Except.bind] at h
          | ok r =>
            cases r with
            | true => exact ⟨.ret, rfl⟩
            | false => exact ⟨.instr, rfl⟩

/-- What an accepted instruction does to the starts and the events: it leaves
the events as they are, or it ends the function that started last. -/
theorem processInstr_cases (h : processInstr cfg st i f = .ok st') :
    (st'.callStarts = st.pushStart i f ∧ st'.events = st.events) ∨
      ∃ start, st.pushStart i f = start :: st'.callStarts ∧
        st'.events = st.events ++ [mkEvent st.callStack start i f] := by
  obtain ⟨k, hk⟩ := kind_of_processInstr h
  have leave (hleave : k = .tail ∨ k = .ret) : ∃ start, st.pushStart i f = start :: st'.callStarts ∧
      st'.events = st.events ++ [mkEvent st.callStack start i f] := by
    rw [processInstr_leave hk hleave] at h
    cases hstarts : st.pushStart i f with
    | nil => simp [hstarts] at h
    | cons start rest =>
      rw [hstarts] at h
      obtain rfl := Except.ok.inj h
      exact ⟨start, rfl, rfl⟩
  cases k with
  | call =>
    rw [processInstr_call hk] at h
    obtain rfl := Except.ok.inj h
    exact .inl ⟨rfl, rfl⟩
  | instr =>
    rw [processInstr_instr hk] at h
    split_ifs at h
    obtain rfl := Except.ok.inj h
    exact .inl ⟨rfl, rfl⟩
  | tail => exact .inr (leave (.inl rfl))
  | ret => exact .inr (leave (.inr rfl))

/-! ## Sequences -/

/-- `process_instr` on one pair after the other. -/
def processAll (cfg : Config) : State → List (Instruction × Str) → Except TraceError State
  | st, [] => .ok st
  | st, (i, f) :: rest => do
    let st' ← processInstr cfg st i f
    processAll cfg st' rest

/-- How often `process_instr` finds that a function has started. -/
def detectedStarts (cfg : Config) : State → List (Instruction × Str) → Nat
  | _, [] => 0
  | st, (i, f) :: rest =>
    (st.detectsStart f).toNat +
      match processInstr cfg st i f with
      | .ok st' => detectedStarts cfg st' rest
      | .error _ => 0

/-- The spans of a state of the tracer. -/
def State.SpansAt (st : State) (now : Int) : Prop :=
  Spans now (st.callStarts.map (·.cycle)) (st.events.map (·.span))

theorem processAll_cons {pairs : List (Instruction × Str)}
    (h : processAll cfg st ((i, f) :: pairs) = .ok st') :
    ∃ st₁, processInstr cfg st i f = .ok st₁ ∧ processAll cfg st₁ pairs = .ok st' := by
  cases hi : processInstr cfg st i f with
  | error e => simp [processAll, hi, bind, Except.bind] at h
  | ok st₁ => exact ⟨st₁, rfl, by simpa [processAll, hi, bind, Except.bind] using h⟩

/-- The starts after the test at the head of `process_instr`. -/
theorem spansAt_pushStart {now : Int} (h : st.SpansAt now) (hle : now ≤ i.cycle) (f : Str) :
    Spans i.cycle ((st.pushStart i f).map (·.cycle)) (st.events.map (·.span)) := by
  rw [pushStart_eq]
  split_ifs
  · exact (h.advance hle).push
  · exact h.advance hle

/-- One instruction keeps the spans. -/
theorem processInstr_spans {now : Int} (h : st.SpansAt now) (hle : now ≤ i.cycle)
    (hi : processInstr cfg st i f = .ok st') : st'.SpansAt i.cycle := by
  have hpush := spansAt_pushStart h hle f
  unfold State.SpansAt
  rcases processInstr_cases hi with ⟨hs, he⟩ | ⟨start, hs, he⟩
  · rw [hs, he]
    exact hpush
  · rw [he, List.map_append, List.map_singleton, mkEvent_span]
    rw [hs] at hpush
    exact hpush.pop

/-- One instruction keeps the balance of starts and events. -/
theorem processInstr_count (hi : processInstr cfg st i f = .ok st') :
    st'.events.length + st'.callStarts.length =
      st.events.length + st.callStarts.length + (st.detectsStart f).toNat := by
  have hpush : (st.pushStart i f).length = st.callStarts.length + (st.detectsStart f).toNat := by
    rw [pushStart_eq]
    cases st.detectsStart f <;> rfl
  rcases processInstr_cases hi with ⟨hs, he⟩ | ⟨start, hs, he⟩
  · rw [hs, he]
    omega
  · rw [he, List.length_append, List.length_singleton]
    rw [hs, List.length_cons] at hpush
    omega

/-- A sequence of instructions keeps both. -/
theorem processAll_spans {now : Int} {pairs : List (Instruction × Str)} (h : st.SpansAt now)
    (hnow : ∀ p ∈ pairs, now ≤ p.1.cycle)
    (hmono : pairs.Pairwise (fun p q => p.1.cycle ≤ q.1.cycle))
    (hrun : processAll cfg st pairs = .ok st') :
    (∃ later, st'.SpansAt later) ∧ st'.events.length + st'.callStarts.length =
      st.events.length + st.callStarts.length + detectedStarts cfg st pairs := by
  induction pairs generalizing st now with
  | nil =>
    obtain rfl := Except.ok.inj hrun
    exact ⟨⟨now, h⟩, rfl⟩
  | cons p pairs ih =>
    obtain ⟨i, f⟩ := p
    obtain ⟨st₁, hi, hrest⟩ := processAll_cons hrun
    obtain ⟨hfirst, hmono⟩ := List.pairwise_cons.mp hmono
    have hspans := processInstr_spans h (hnow (i, f) List.mem_cons_self) hi
    obtain ⟨hlater, hcount⟩ := ih hspans hfirst hmono hrest
    refine ⟨hlater, ?_⟩
    have hone := processInstr_count hi
    rw [hcount, hone]
    simp only [detectedStarts, hi]
    omega

theorem spansAt_init (cfg : Config) (now : Int) : (State.init cfg).SpansAt now := Spans.empty now

/-- Every sequence of instructions that the tracer accepts, in the order of
their cycles, gives events that last no negative time and lie apart or one
inside the other; each function that was found to start has its event or is
still waiting for it. -/
theorem processAll_laminar (cfg : Config) (pairs : List (Instruction × Str)) (st : State)
    (hmono : pairs.Pairwise (fun p q => p.1.cycle ≤ q.1.cycle))
    (hrun : processAll cfg (State.init cfg) pairs = .ok st) :
    (∀ e ∈ st.events, 0 ≤ e.dur) ∧
      st.events.Pairwise (fun e e' => NestedOrDisjoint e.span e'.span) ∧
      st.events.length + st.callStarts.length = detectedStarts cfg (State.init cfg) pairs := by
  have hfrom : ∃ now, ∀ p ∈ pairs, now ≤ p.1.cycle := by
    cases pairs with
    | nil => exact ⟨0, by simp⟩
    | cons p pairs =>
      refine ⟨p.1.cycle, fun q hq => ?_⟩
      rcases List.mem_cons.mp hq with rfl | hq
      · exact le_rfl
      · exact (List.pairwise_cons.mp hmono).1 q hq
  obtain ⟨now, hnow⟩ := hfrom
  obtain ⟨⟨later, hspans⟩, hcount⟩ := processAll_spans (spansAt_init cfg now) hnow hmono hrun
  refine ⟨?_, List.pairwise_map.mp hspans.laminar, ?_⟩
  · intro e he
    have hord : e.ts ≤ e.ts + e.dur := hspans.ordered e.span (List.mem_map_of_mem he)
    omega
  · rw [hcount]
    simp [State.init]

/-- In debug mode: `main` calls `leaf`, the log jumps to `puts` without a
call, `puts` returns twice, and `main` calls `leaf` again. -/
def strayLog : List (Instruction × Str) :=
  [({ mnem := "jal", operands := [.name "x1", .num 64], cycle := 1, pc := 4 }, "main"),
    ({ mnem := "jal", operands := [.name "x1", .num 96], cycle := 2, pc := 64 }, "leaf"),
    ({ mnem := "addi", operands := [], cycle := 3, pc := 96 }, "puts"),
    ({ mnem := "addi", operands := [], cycle := 4, pc := 64 }, "leaf"),
    ({ mnem := "ret", operands := [], cycle := 5, pc := 100 }, "puts"),
    ({ mnem := "ret", operands := [], cycle := 5, pc := 100 }, "puts"),
    ({ mnem := "jal", operands := [.name "x1", .num 64], cycle := 7, pc := 8 }, "main"),
    ({ mnem := "addi", operands := [], cycle := 8, pc := 64 }, "leaf")]

/-- The tracer in debug mode. -/
def debugConfig : Config := { syms := ⟨[], []⟩, debug := true }

theorem strayLog_laminar :
    ∃ st, processAll debugConfig (State.init debugConfig) strayLog = .ok st ∧
      st.events.map (·.span) = [(3, 5), (2, 5)] ∧ st.callStarts.map (·.cycle) = [8] ∧
      (∀ e ∈ st.events, 0 ≤ e.dur) ∧
      st.events.Pairwise (fun e e' => NestedOrDisjoint e.span e'.span) ∧
      st.events.length + st.callStarts.length =
        detectedStarts debugConfig (State.init debugConfig) strayLog := by
  refine ⟨_, rfl, by decide, by decide, ?_⟩
  exact processAll_laminar debugConfig strayLog _ (by decide) rfl

end AiPipelines.TraceGen
