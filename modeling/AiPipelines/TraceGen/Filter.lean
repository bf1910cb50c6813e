import AiPipelines.TraceGen.TargetTrace

/-!
# Leaving out functions

`filter_events` drops the events of the functions in `skip_fns` and of
everything that they called.  It has no tree to look at: what the tracer wrote
into the event is the string `stack_str`, and `filter_events` splits it again.

A call stack of at least one name is read back as it was written, as long as no
name has a slash in it.  The empty call stack is not: it is written as the
empty string, and that splits into one empty name.  `keeps_iff` says this for
one event and `filterEvents_iff` for a whole run.
-/

namespace AiPipelines.TraceGen

open PyStd

/-! ## The code -/

/-- The test in the loop of `filter_events`. -/
def keeps (skipFns : List Str) (e : Event) : Bool :=
  !skipFns.contains e.name && (e.callStack.splitOn '/').all (!skipFns.contains ·)

/-- `filter_events`. -/
def filterEvents (skipFns : List Str) (events : List Event) : List Event :=
  events.filter (keeps skipFns)

/-! ## What it is for -/

/-- Neither the function of the activation nor one of its callers is skipped. -/
def Activation.shown (skipFns : List Str) (a : Activation) : Bool :=
  !skipFns.contains a.fn && a.callers.all (!skipFns.contains ·)

/-- The events of the activations that are not skipped, where the events are
those of the activations in turn. -/
def shownEvents (skipFns : List Str) (events : List Event) (as : List Activation) : List Event :=
  ((events.zip as).filter fun p => p.2.shown skipFns).map (·.1)

/-! ## The names on the call stack -/

/-- A name that the symbol table gives to some address. -/
def SymResolver.Resolves (syms : SymResolver) (f : Str) : Prop := ∃ pc, syms.lookupSym pc = f

theorem SymResolver.Resolves.not_mem {syms : SymResolver} {f : Str} {c : Char}
    (h : syms.Resolves f) (hc : c ∉ nosymName) (hsyms : ∀ s ∈ syms.syms, c ∉ s.1) : c ∉ f := by
  obtain ⟨pc, rfl⟩ := h
  simp only [SymResolver.lookupSym]
  split
  · split
    · next fn start stop hget =>
      split
      · exact hsyms _ (List.mem_of_getElem? hget)
      · exact hc
    · exact hc
  · exact hc

mutual

theorem Body.completed_callers {syms : SymResolver} {f : Str} {callers : List Str}
    {a : Activation} : ∀ (body : Body), body.Runs syms f →
      (∀ c ∈ callers, syms.Resolves c) → a ∈ completed (body.log callers f) →
      callers <+: a.callers ∧ ∀ c ∈ a.callers, syms.Resolves c
  | .ret items i, hruns, hres, ha => by
    simp only [Body.log, completed_append, List.mem_append] at ha
    rcases ha with ha | ha
    · obtain ⟨hpre, hall⟩ := Items.completed_callers items hruns.1 hres ha
      exact ⟨(List.prefix_append _ _).trans hpre, hall⟩
    · simp only [completed, List.filterMap_cons, List.filterMap_nil, List.mem_singleton] at ha
      subst ha
      exact ⟨List.prefix_rfl, hres⟩
  | .tail items i g next, hruns, hres, ha => by
    simp only [Body.log, completed_append, List.mem_append] at ha
    rcases ha with ha | ha
    · obtain ⟨hpre, hall⟩ := Items.completed_callers items hruns.1 hres ha
      exact ⟨(List.prefix_append _ _).trans hpre, hall⟩
    · simp only [completed, List.filterMap_cons, List.mem_cons] at ha
      rcases ha with rfl | ha
      · exact ⟨List.prefix_rfl, hres⟩
      -- The frame is replaced, and its callers are still waiting.
      · exact Body.completed_callers next hruns.2.2 hres ha

/-- What is completed inside an activation of `f` has `f` and its callers among
its own callers, and all of them are names of the symbol table. -/
theorem Items.completed_callers {syms : SymResolver} {f : Str} {callers : List Str}
    {a : Activation} : ∀ (items : Items), items.Runs syms f →
      (∀ c ∈ callers, syms.Resolves c) → a ∈ completed (items.log callers f) →
      callers ++ [f] <+: a.callers ∧ ∀ c ∈ a.callers, syms.Resolves c
  | .nil, _, _, ha => by simp [Items.log, completed] at ha
  | .plain i rest, hruns, hres, ha => by
    simp only [Items.log, completed, List.filterMap_cons] at ha
    exact Items.completed_callers rest hruns.2 hres ha
  | .call i g callee rest, hruns, hres, ha => by
    have hres' : ∀ c ∈ callers ++ [f], syms.Resolves c := by
      intro c hc
      rcases List.mem_append.1 hc with hc | hc
      · exact hres c hc
      · exact ⟨i.pc, by rw [List.mem_singleton.1 hc]; exact hruns.1.1⟩
    simp only [Items.log, completed, List.filterMap_cons, List.filterMap_append,
      List.mem_append] at ha
    rcases ha with ha | ha
    · exact Body.completed_callers callee hruns.2.1 hres' ha
    · exact Items.completed_callers rest hruns.2.2 hres ha

end

/-- In a log seen from the target, the callers of an activation are names of the
symbol table, and only the target has none. -/
theorem completed_target {syms : SymResolver} {target : Str} {segs : List Segment}
    {a : Activation} (hsegs : ∀ seg ∈ segs, seg.Runs syms target)
    (ha : a ∈ completed (segmentLog target segs)) :
    (∀ c ∈ a.callers, syms.Resolves c) ∧ (a.callers = [] → a.fn = target) := by
  induction segs with
  | nil => simp [segmentLog, completed] at ha
  | cons seg segs ih =>
    rw [List.forall_mem_cons] at hsegs
    rw [segmentLog_cons, completed_append, List.mem_append] at ha
    rcases ha with ha | ha
    · cases seg with
      | outside i => simp [Segment.log, completed] at ha
      | activation items last =>
        rw [Segment.log, completed_append, List.mem_append] at ha
        rcases ha with ha | ha
        · obtain ⟨hpre, hall⟩ := items.completed_callers hsegs.1.1 (by simp) ha
          refine ⟨hall, fun hnil => ?_⟩
          rw [hnil] at hpre
          simp at hpre
        · simp only [completed, List.filterMap_cons, List.filterMap_nil,
            List.mem_singleton] at ha
          subst ha
          exact ⟨by simp, fun _ => rfl⟩
    · exact ih hsegs.2 ha

/-! ## One event -/

/-- The call stack is split into the callers again, except that no callers at
all come back as one empty name. -/
theorem Event.Records.splitOn {e : Event} {a : Activation} (h : e.Records a)
    (hfree : ∀ c ∈ a.callers, '/' ∉ c) :
    e.callStack.splitOn '/' = if a.callers = [] then [[]] else a.callers := by
  rw [h.callers, joinWith]
  split
  · next hnil =>
    rw [hnil]
    rfl
  · next hne => exact List.splitOn_intercalate '/' hfree hne

/-- An event is kept if its activation is not skipped, unless the call stack is
empty and the empty name is skipped. -/
theorem keeps_iff {skipFns : List Str} {e : Event} {a : Activation} (h : e.Records a)
    (hfree : ∀ c ∈ a.callers, '/' ∉ c) :
    keeps skipFns e = true ↔ a.shown skipFns = true ∧ (a.callers = [] → [] ∉ skipFns) := by
  rw [keeps, h.splitOn hfree, h.name, Activation.shown]
  by_cases hnil : a.callers = []
  · simp [hnil]
  · simp [hnil]

/-! ## The whole trace -/

/-- The segment is no activation of the target. -/
def Segment.IsOutside : Segment → Prop
  | .outside _ => True
  | .activation _ _ => False

/-- An activation of the target completes one without callers. -/
theorem completed_of_activation {target : Str} {segs : List Segment} {items : Items}
    {last : Instruction} (h : Segment.activation items last ∈ segs) :
    ⟨target, [], items.start last.cycle, last.cycle⟩ ∈ completed (segmentLog target segs) := by
  refine List.mem_filterMap.2 ⟨⟨last, some _⟩, ?_, rfl⟩
  exact List.mem_flatMap.2 ⟨_, h, by simp [Segment.log]⟩

theorem completed_of_outside {target : Str} {segs : List Segment}
    (h : ∀ seg ∈ segs, seg.IsOutside) : completed (segmentLog target segs) = [] := by
  induction segs with
  | nil => rfl
  | cons seg segs ih =>
    rw [List.forall_mem_cons] at h
    rw [segmentLog_cons, completed_append, ih h.2, List.append_nil]
    cases seg with
    | outside i => rfl
    | activation items last => exact h.1.elim

section Events

variable {skipFns : List Str} {events : List Event} {as : List Activation}

/-- The loop keeps what it should if it does so for each event. -/
theorem filterEvents_eq_shown (hrec : List.Forall₂ Event.Records events as)
    (h : ∀ e a, e.Records a → a ∈ as → keeps skipFns e = a.shown skipFns) :
    filterEvents skipFns events = shownEvents skipFns events as := by
  induction hrec with
  | nil => rfl
  | @cons e a events as hea _ ih =>
    have hhead := h e a hea List.mem_cons_self
    have htail := ih fun e a hea ha => h e a hea (List.mem_cons_of_mem _ ha)
    simp only [filterEvents, shownEvents, List.zip_cons_cons, List.filter_cons, hhead] at htail ⊢
    cases a.shown skipFns
    · exact htail
    · simp [htail]

/-- An event that is dropped although its activation is shown makes the
difference. -/
theorem filterEvents_ne_shown (hrec : List.Forall₂ Event.Records events as) {a : Activation}
    (ha : a ∈ as) (hshown : a.shown skipFns = true)
    (hdrop : ∀ e, e.Records a → keeps skipFns e = false) :
    filterEvents skipFns events ≠ shownEvents skipFns events as := by
  obtain ⟨k, hk, rfl⟩ := List.getElem_of_mem ha
  have hlen := hrec.length_eq
  have he : Event.Records events[k] as[k] := hrec.get (i := k) (by omega) hk
  have hmem : events[k] ∈ shownEvents skipFns events as := by
    refine List.mem_map.2 ⟨(events[k], as[k]), List.mem_filter.2 ⟨?_, hshown⟩, rfl⟩
    exact List.mem_iff_getElem.2 ⟨k, by simp; omega, by simp⟩
  intro heq
  rw [← heq, filterEvents, List.mem_filter, hdrop _ he] at hmem
  cases hmem.2

end Events

/-- On a log of records outside the target and complete activations of it,
`filter_events` keeps the events of the activations that are neither of a
skipped function nor below one, unless the empty name is skipped, the target is
not, and the target ran. -/
theorem filterEvents_iff {cfg : Config} {target : Str} {segs : List Segment}
    {lines : List (Option Instruction)} (ht : cfg.fnTarget = some target)
    (hsegs : ∀ seg ∈ segs, seg.Nested cfg.syms target)
    (hsyms : ∀ s ∈ cfg.syms.syms, '/' ∉ s.1)
    (hlines : lines.reduceOption = instrs (segmentLog target segs)) (skipFns : List Str) :
    ∃ st, runTrace cfg (State.init cfg) lines = .ok st ∧
      List.Forall₂ Event.Records st.events (completed (segmentLog target segs)) ∧
      (filterEvents skipFns st.events =
          shownEvents skipFns st.events (completed (segmentLog target segs)) ↔
        ([] ∈ skipFns → target ∈ skipFns ∨ ∀ seg ∈ segs, seg.IsOutside)) := by
  obtain ⟨st, hrun, -, es, hes, hrec⟩ := run_segments ht (idle_init ht)
    (fun seg h => (hsegs seg h).runs) (fun seg h => (hsegs seg h).regular)
  have hevents : st.events = es := hes
  rw [← hevents] at hrec
  have hrun' : runTrace cfg (State.init cfg) lines = .ok st := by
    rw [runTrace_reduceOption, hlines]
    exact hrun
  refine ⟨st, hrun', hrec, ?_, ?_⟩
  · intro heq hempty
    by_contra hcond
    push Not at hcond
    obtain ⟨htarget, seg, hseg, hact⟩ := hcond
    cases seg with
    | outside i => exact hact trivial
    | activation items last =>
      -- The event of this activation has an empty call stack and is lost.
      refine filterEvents_ne_shown hrec (completed_of_activation hseg) ?_ ?_ heq
      · simpa [Activation.shown] using htarget
      · intro e he
        rw [← Bool.not_eq_true, keeps_iff he (by simp)]
        simp [hempty]
  · intro hcond
    refine filterEvents_eq_shown hrec fun e a he ha => ?_
    obtain ⟨hres, hnil⟩ := completed_target (fun seg h => (hsegs seg h).runs) ha
    have hfree : ∀ c ∈ a.callers, '/' ∉ c :=
      fun c hc => (hres c hc).not_mem (by decide) hsyms
    rw [Bool.eq_iff_iff, keeps_iff he hfree]
    refine and_iff_left_of_imp fun hshown hcallers hempty => ?_
    rcases hcond hempty with htarget | hout
    · simp [Activation.shown, hnil hcallers, htarget] at hshown
    · rw [completed_of_outside hout] at ha
      cases ha

/-- The tracer is asked for `main` and leaves out `leaf`: what `leaf` did before
it went on with `next` is gone, `next` and `main` stay. -/
theorem demoLog_without_leaf :
    ∃ st, runTrace demoConfig (State.init demoConfig)
        ((instrs (segmentLog "main" demoLog)).map some) = .ok st ∧
      filterEvents ["leaf"] st.events =
        shownEvents ["leaf"] st.events (completed (segmentLog "main" demoLog)) := by
  have hlines : ((instrs (segmentLog "main" demoLog)).map some).reduceOption =
      instrs (segmentLog "main" demoLog) := by simp [List.reduceOption]
  have ht : demoConfig.fnTarget = some "main" := rfl
  have hleaf : ([] : Str) ∉ (["leaf"] : List Str) := by decide
  obtain ⟨st, hrun, -, hiff⟩ := filterEvents_iff ht demoLog_nested (by decide) hlines ["leaf"]
  exact ⟨st, hrun, hiff.2 fun h => absurd h hleaf⟩

/-- With the empty name in `skip_fns` the event of `main` is lost, although the
symbol table has no empty name. -/
theorem skipEmptyName_loses_main :
    (∀ seg ∈ demoLog, seg.Nested demoConfig.syms "main") ∧
      (∀ s ∈ demoConfig.syms.syms, '/' ∉ s.1) ∧
      ∃ st, runTrace demoConfig (State.init demoConfig)
          ((instrs (segmentLog "main" demoLog)).map some) = .ok st ∧
        (filterEvents [""] st.events).map (·.name) = ["leaf", "next"] ∧
        (shownEvents [""] st.events (completed (segmentLog "main" demoLog))).map (·.name) =
          ["leaf", "next", "main"] :=
  ⟨demoLog_nested, by decide, _, rfl, by decide, by decide⟩

end AiPipelines.TraceGen
