import AiPipelines.TraceGen.TargetTrace

/-!
# Recursion and re-entry

The promise for a target that may call itself, run again below itself or leave
by a tail call: tracing is on from the first instruction of an outermost
activation to the one that ends it, every activation in between is recorded,
and both stacks are empty at the end (`TracksActivation`).

`process_instr` keeps it for the regular activations and for no others, and
`tracksTarget_iff` says so for whole logs.

* A tail call does not switch tracing off, so an activation that ends in one
  leaves it on.
* Every return in the target switches tracing off, also one below the
  outermost activation.
* A call from a function to itself pushes no start.  `Items.starts_count` counts:
  each such call leaves the tracer one start short, and there is only one to
  spare, which the last return needs.
-/

namespace AiPipelines.TraceGen

open PyStd

/-! ## The promise -/

/-- What is promised about one outermost activation, from the state in which
its first instruction finds the tracer. -/
structure TracksActivation (cfg : Config) (target : Str) (st : State) (items : Items)
    (last : Instruction) : Prop where
  /-- Tracing is on after every instruction but the last. -/
  during : ∀ l, l <+: instrs (items.log [] target) → l ≠ [] →
    ∃ st₁, runRecords cfg st l = .ok st₁ ∧ st₁.traceActive = true
  /-- After the last instruction the tracer is idle, and every activation was
  recorded. -/
  ends : ∃ st', runRecords cfg st (instrs (Segment.log target (.activation items last))) = .ok st' ∧
    Idle st' ∧ Recorded st st' (completed (Segment.log target (.activation items last)))

/-- The promise for a whole log: nothing is raised, and every outermost
activation is tracked. -/
structure TracksTarget (cfg : Config) (target : Str) (segs : List Segment) : Prop where
  noRaise : ∃ st, runRecords cfg (State.init cfg) (instrs (segmentLog target segs)) = .ok st
  tracks : ∀ pre items last post, segs = pre ++ .activation items last :: post →
    ∃ st, runRecords cfg (State.init cfg) (instrs (segmentLog target pre)) = .ok st ∧
      TracksActivation cfg target st items last

/-! ## Regular activations are tracked -/

theorem tracksActivation_of_regular {cfg : Config} {target : Str} {st : State} {items : Items}
    {last : Instruction} (ht : cfg.fnTarget = some target) (hidle : Idle st)
    (hruns : Segment.Runs cfg.syms target (.activation items last))
    (hreg : Regular cfg.syms target items last) : TracksActivation cfg target st items last := by
  constructor
  · intro l hl hne
    obtain ⟨st₁, _, hitems, _⟩ := activation_follows ht hidle hruns.1 hreg
    obtain ⟨rest, hrest⟩ := hl
    obtain ⟨a, b, hab, ha, -⟩ := List.map_eq_append_iff.1 hrest.symm
    rw [hab] at hitems
    obtain ⟨st₂, hfirst, -⟩ := hitems.split
    refine ⟨st₂, ?_, hfirst.active ?_⟩
    · rw [← ha]
      exact hfirst.run
    · rintro rfl
      exact hne ha.symm
  · exact run_segment ht hidle hruns hreg

/-! ## Counting starts -/

theorem State.starts_length (st : State) (f : Str) (c c' : Int) :
    (st.starts f c).length = (st.starts f c').length := by
  unfold State.starts
  split_ifs <;> rfl

/-- After a call or tail call from `f` to `g` the tracer will push a start for
`g` unless `g` is `f`. -/
theorem starts_length_entered {st : State} {f g : Str} {k : Cat} (hact : st.traceActive = true)
    (hprev : st.prevFn = some f) (hcat : st.prevInstr.cat = k) (hk : k = .call ∨ k = .tail)
    (c : Int) :
    (st.starts g c).length + (if g = f then 1 else 0) = st.callStarts.length + 1 := by
  have hafter : st.afterCall = true := by
    rcases hk with rfl | rfl <;> simp [State.afterCall, hcat]
  by_cases h : g = f
  · simp [State.starts, hact, hprev, h]
  · simp [State.starts, hprev, hafter, h, Ne.symm h]

theorem Left.starts_length {cfg : Config} {st st' : State} {i : Instruction} {f : Str} {k : Cat}
    (h : Left cfg st i f k st') : (st.starts f i.cycle).length = st'.callStarts.length + 1 := by
  obtain ⟨start, _, hs, _⟩ := h.event
  simp [hs]

theorem Stayed.starts_length {st st' : State} {i : Instruction} {f : Str} {k : Cat}
    (h : Stayed st i f k st') : st'.callStarts.length = (st.starts f i.cycle).length := by
  simp [← h.starts]

mutual

/-- A run over an activation of `f` pops one start more than it pushes, and one
more for each call from a function to itself. -/
theorem Body.starts_count {cfg : Config} {f : Str} {callers : List Str} {st st' : State} :
    ∀ (body : Body), body.Runs cfg.syms f → NoTargetReturn cfg (instrs (body.log callers f)) →
      Watched cfg st f → runRecords cfg st (instrs (body.log callers f)) = .ok st' →
      st'.traceActive = true ∧ st'.prevInstr.cat = .ret ∧
        ∀ c, st'.callStarts.length + 1 + body.selfCalls f = (st.starts f c).length
  | .ret items i, hruns, hret, hw, hrun => by
    simp only [Body.log, Body.selfCalls, instrs_append, instrs_cons, instrs_nil] at *
    obtain ⟨st₁, hitems, hlast⟩ := runRecords_append.1 hrun
    obtain ⟨hw₁, hcount⟩ := Items.starts_count items hruns.1
      (hret.mono (List.subset_append_left _ _)) hw hitems
    have hleft := traceLine_leave hruns.2 (.inr rfl) hw₁ (runRecords_singleton.1 hlast)
    refine ⟨?_, hleft.cat, fun c => ?_⟩
    · rw [hleft.active]
      simpa using fun ht => hret f ht i (by simp) hruns.2
    · have h₁ := hcount i.cycle c
      have h₂ := hleft.starts_length
      omega
  | .tail items i g next, hruns, hret, hw, hrun => by
    simp only [Body.log, Body.selfCalls, instrs_append, instrs_cons] at *
    obtain ⟨st₁, hitems, hlast⟩ := runRecords_append.1 hrun
    obtain ⟨st₂, hline, hnext⟩ := runRecords_cons.1 hlast
    obtain ⟨hw₁, hcount⟩ := Items.starts_count items hruns.1
      (hret.mono (List.subset_append_left _ _)) hw hitems
    have hleft := traceLine_leave hruns.2.1 (.inl rfl) hw₁ hline
    have hact₂ : st₂.traceActive = true := by rw [hleft.active]; simp
    obtain ⟨hact, hcat, hcount'⟩ := Body.starts_count next hruns.2.2
      (hret.mono fun x hx => by simp [hx]) (.inl hact₂) hnext
    refine ⟨hact, hcat, fun c => ?_⟩
    have h₁ := hcount i.cycle c
    have h₂ := hleft.starts_length
    have h₃ := starts_length_entered (g := g) hact₂ hleft.prevFn hleft.cat (.inr rfl) c
    have h₄ := hcount' c
    omega

theorem Items.starts_count {cfg : Config} {f : Str} {callers : List Str} {st st' : State} :
    ∀ (items : Items), items.Runs cfg.syms f → NoTargetReturn cfg (instrs (items.log callers f)) →
      Watched cfg st f → runRecords cfg st (instrs (items.log callers f)) = .ok st' →
      Watched cfg st' f ∧
        ∀ c c', (st'.starts f c).length + items.selfCalls f = (st.starts f c').length
  | .nil, hruns, hret, hw, hrun => by
    obtain rfl := Except.ok.inj hrun
    exact ⟨hw, fun c c' => st.starts_length f c c'⟩
  | .plain i rest, hruns, hret, hw, hrun => by
    simp only [Items.log, Items.selfCalls, instrs_cons] at *
    obtain ⟨st₁, hline, hrest⟩ := runRecords_cons.1 hrun
    have hstay := traceLine_stay hruns.1 (.inl rfl) hw hline
    obtain ⟨hw', hcount⟩ := Items.starts_count rest hruns.2
      (hret.mono (List.subset_cons_self _ _)) (.inl hstay.active) hrest
    refine ⟨hw', fun c c' => ?_⟩
    rw [hcount c c', starts_of_inside hstay.active (.inl hstay.prevFn), hstay.starts,
      st.starts_length f i.cycle c']
  | .call i g callee rest, hruns, hret, hw, hrun => by
    simp only [Items.log, Items.selfCalls, instrs_cons, instrs_append] at *
    obtain ⟨st₁, hline, hmore⟩ := runRecords_cons.1 hrun
    obtain ⟨st₂, hcallee, hrest⟩ := runRecords_append.1 hmore
    have hstay := traceLine_stay hruns.1 (.inr rfl) hw hline
    obtain ⟨hact₂, hcat₂, hcount₂⟩ := Body.starts_count callee hruns.2.1
      (hret.mono fun x hx => by simp [hx]) (.inl hstay.active) hcallee
    obtain ⟨hw', hcount⟩ := Items.starts_count rest hruns.2.2
      (hret.mono fun x hx => by simp [hx]) (.inl hact₂) hrest
    refine ⟨hw', fun c c' => ?_⟩
    have h₁ := hcount c c'
    rw [starts_of_inside hact₂ (.inr hcat₂), List.length_map] at h₁
    have h₂ := hcount₂ c
    have h₃ := starts_length_entered (g := g) hstay.active hstay.prevFn hstay.cat (.inl rfl) c
    have h₄ := hstay.starts_length
    have h₅ := st.starts_length f i.cycle c'
    omega

end

/-! ## No other activation is tracked -/

/-- A tracked activation is regular. -/
theorem regular_of_tracksActivation {cfg : Config} {target : Str} {st : State} {items : Items}
    {last : Instruction} (ht : cfg.fnTarget = some target) (hidle : Idle st)
    (hruns : Segment.Runs cfg.syms target (.activation items last))
    (h : TracksActivation cfg target st items last) : Regular cfg.syms target items last := by
  have hw : ∀ st, Watched cfg st target := fun _ => .inr ht
  obtain ⟨st', hrun, hidle', -⟩ := h.ends
  rw [Segment.log, instrs_append] at hrun
  obtain ⟨st₁, hitems, hlast⟩ := runRecords_append.1 hrun
  have hline := runRecords_singleton.1 hlast
  -- A tail call would have left tracing on.
  have hreturns : last.RunsAs cfg.syms target .ret := by
    rcases hruns.2 with hret | htail
    · exact hret
    · have hact := (traceLine_leave htail (.inl rfl) (hw st₁) hline).active
      simp [hidle'.inactive] at hact
  -- A return in the target would have switched it off before the end.
  have hnoReturn : NoReturnIn cfg.syms target (instrs (items.log [] target)) := by
    intro i hi hret
    obtain ⟨a, b, hab⟩ := List.append_of_mem hi
    obtain ⟨st₂, hrun₂, hact₂⟩ := h.during (a ++ [i]) ⟨b, by simp [hab]⟩ (by simp)
    obtain ⟨st₃, -, hi₃⟩ := runRecords_append.1 hrun₂
    have hact := (traceLine_leave hret (.inr rfl) (hw st₃) (runRecords_singleton.1 hi₃)).active
    simp [hact₂, ht] at hact
  refine ⟨hreturns, ?_, hnoReturn⟩
  have htarget : NoTargetReturn cfg (instrs (items.log [] target)) := by
    intro t h
    rw [ht, Option.some.injEq] at h
    exact h ▸ hnoReturn
  obtain ⟨-, hcount⟩ := items.starts_count hruns.1 htarget (hw st) hitems
  have h₁ := hcount last.cycle last.cycle
  have h₂ := (traceLine_leave hreturns (.inr rfl) (hw st₁) hline).starts_length
  rw [hidle.starts, List.length_singleton] at h₁
  omega

/-- If all outermost activations of a log are tracked, all are regular.  The
induction is from the end of the log: what comes before an activation is
regular, and so it finds the tracer idle. -/
theorem regular_of_tracks {cfg : Config} {target : Str} {segs : List Segment}
    (ht : cfg.fnTarget = some target) (hruns : ∀ seg ∈ segs, seg.Runs cfg.syms target)
    (h : ∀ pre items last post, segs = pre ++ .activation items last :: post →
      ∃ st, runRecords cfg (State.init cfg) (instrs (segmentLog target pre)) = .ok st ∧
        TracksActivation cfg target st items last) :
    ∀ seg ∈ segs, seg.Regular cfg.syms target := by
  induction segs using List.reverseRecOn with
  | nil => simp
  | append_singleton segs seg ih =>
    have hruns' : ∀ seg ∈ segs, seg.Runs cfg.syms target :=
      fun seg hseg => hruns seg (by simp [hseg])
    have hreg : ∀ seg ∈ segs, seg.Regular cfg.syms target := by
      refine ih hruns' fun pre items last post hsplit => ?_
      exact h pre items last (post ++ [seg]) (by simp [hsplit])
    intro seg' hseg'
    rcases List.mem_append.1 hseg' with hseg' | hseg'
    · exact hreg seg' hseg'
    · obtain rfl := List.mem_singleton.1 hseg'
      cases seg' with
      | outside i => trivial
      | activation items last =>
        obtain ⟨st, hrun, htracks⟩ := h segs items last [] rfl
        obtain ⟨st₁, hrun₁, hidle, -⟩ := run_segments ht (idle_init ht) hruns' hreg
        obtain rfl := Except.ok.inj (hrun.symm.trans hrun₁)
        exact regular_of_tracksActivation ht hidle (hruns _ (by simp)) htracks

/-- The promise holds of a log exactly when its outermost activations are
regular: each ends in a return, no function in it calls itself, and the target
executes no return in it before the last instruction. -/
theorem tracksTarget_iff {cfg : Config} {target : Str} {segs : List Segment}
    (ht : cfg.fnTarget = some target) (hruns : ∀ seg ∈ segs, seg.Runs cfg.syms target) :
    TracksTarget cfg target segs ↔ ∀ items last, .activation items last ∈ segs →
      Regular cfg.syms target items last := by
  constructor
  · intro h items last hmem
    exact regular_of_tracks ht hruns h.tracks (.activation items last) hmem
  · intro h
    have hreg : ∀ seg ∈ segs, seg.Regular cfg.syms target := by
      intro seg hseg
      cases seg with
      | outside i => trivial
      | activation items last => exact h items last hseg
    constructor
    · obtain ⟨st, hrun, -⟩ := run_segments ht (idle_init ht) hruns hreg
      exact ⟨st, hrun⟩
    · rintro pre items last post rfl
      obtain ⟨st, hrun, hidle, -⟩ := run_segments ht (idle_init ht)
        (fun seg hseg => hruns seg (List.mem_append_left _ hseg))
        (fun seg hseg => hreg seg (List.mem_append_left _ hseg))
      exact ⟨st, hrun, tracksActivation_of_regular ht hidle (hruns _ (by simp))
        (h items last (by simp))⟩

theorem demoLog_tracked : TracksTarget demoConfig "main" demoLog :=
  (tracksTarget_iff rfl fun seg hseg => (demoLog_nested seg hseg).runs).2
    fun items last hmem => (demoLog_nested (.activation items last) hmem).regular

/-- `main` calls itself once. -/
def selfCallLog : List Segment :=
  [.activation
    (.plain (demoInstr "addi" [] 1 0)
      (.call (demoInstr "jal" [.name "x1", .num 0] 2 4) "main"
        (.ret (.plain (demoInstr "addi" [] 3 0) .nil) (demoInstr "ret" [] 4 8)) .nil))
    (demoInstr "ret" [] 5 8)]

/-- The tracer takes the recursive call for a misread jump and raises. -/
theorem selfCall_not_tracked :
    (∀ seg ∈ selfCallLog, seg.Runs demoConfig.syms "main") ∧
      ¬ TracksTarget demoConfig "main" selfCallLog := by
  constructor
  · simp only [selfCallLog, List.forall_mem_cons, Segment.Runs, Items.Runs, Body.Runs,
      List.not_mem_nil, false_implies, implies_true]
    decide
  · intro h
    obtain ⟨st, hst⟩ := h.noRaise
    have hraises : (runRecords demoConfig (State.init demoConfig)
        (instrs (segmentLog "main" selfCallLog))).isOk = false := by
      decide
    rw [hst] at hraises
    cases hraises

end AiPipelines.TraceGen
