import AiPipelines.Voice.AutoVoice
import Mathlib.Data.List.GetD
import Mathlib.Data.List.Induction

/-!
# How long a recording lasts

Runs of `vadTick` alone, from the tick that begins a recording.  A tick with a
loud sample returns before it looks at the clock, so the cap `MAX_TURN_MS` is only
seen by a tick that is not loud.

`Running` and `Halted` are the two states such a run can be in.  `Quiet` is the
invariant of the first: `silenceStartedAt` is the clock of the first of the quiet
ticks at the end.  With it, `halted_iff` reads off the ticks whether the recording
is stopped, and `recording_capped_iff` is the result about the cap.
-/

namespace AiPipelines.Voice

variable {F : Type} {ops : FloatOps F}

/-- The ticks one after another. -/
def runTicks (ops : FloatOps F) (p : Page F) (ts : List (Tick F)) : Page F :=
  ts.foldl (fun p t => p.vadTick ops t) p

theorem runTicks_concat (p : Page F) (ts : List (Tick F)) (t : Tick F) :
    runTicks ops p (ts ++ [t]) = (runTicks ops p ts).vadTick ops t :=
  List.foldl_concat _ _ _ _

/-! ## One tick -/

/-- Recorder `R` has recorded since `r`, and the samples are compared with
`threshold`. -/
structure Running (ops : FloatOps F) (R : Nat) (r : Int) (threshold : F) (p : Page F) : Prop where
  enabled : p.enabled = true
  analyser : p.analyser = true
  phase : p.phase = .speaking
  finishing : p.finishing = false
  mediaRecorder : p.mediaRecorder = some R
  stage : p.stage R = .recording
  speechStartedAt : p.speechStartedAt = r
  recordStartedAt : p.recordStartedAt = r
  threshold_eq : p.speechThreshold ops = threshold

/-- `recorder.stop()` was called for `R`, and the stop event is still to come. -/
structure Halted (R : Nat) (p : Page F) : Prop where
  enabled : p.enabled = true
  finishing : p.finishing = true
  stage : p.stage R = .stopping true

variable {R : Nat} {r : Int} {threshold : F} {p : Page F} {t : Tick F}

theorem Running.not_halted (h : Running ops R r threshold p) : ¬ Halted R p := by
  intro hhalted
  have hstage := hhalted.stage
  rw [h.stage] at hstage
  cases hstage

/-- The clock of the first of the quiet ticks, this one included. -/
def since (p : Page F) (t : Tick F) : Int :=
  if p.silenceStartedAt.getD 0 = 0 then t.now else p.silenceStartedAt.getD 0

/-- The tick finds a pause that is long enough, or the recording too long. -/
def Ends (r : Int) (since : Int) (t : Tick F) : Prop :=
  minSpeechMs ≤ t.now - r ∧ silenceMs ≤ t.now - since ∨ maxTurnMs ≤ t.now - r

theorem vadTick_running (h : Running ops R r threshold p) :
    p.vadTick ops t = p.speakingTick ops t := by
  simp [Page.vadTick, h.enabled, h.analyser, h.phase, h.finishing]

theorem vadTick_loud (h : Running ops R r threshold p) (hloud : ops.gt t.rms threshold = true) :
    p.vadTick ops t = { p with silenceStartedAt := none } := by
  have hspeech : p.isSpeech ops t = true := by rw [Page.isSpeech, h.threshold_eq, hloud]
  rw [vadTick_running h, Page.speakingTick, if_pos hspeech]

theorem running_loud (h : Running ops R r threshold p) (hloud : ops.gt t.rms threshold = true) :
    Running ops R r threshold (p.vadTick ops t) := by
  rw [vadTick_loud h hloud]
  exact { h with }

theorem vadTick_quiet (h : Running ops R r threshold p) (hquiet : ops.gt t.rms threshold = false) :
    p.vadTick ops t =
      if (decide (minSpeechMs ≤ t.now - r) && decide (silenceMs ≤ t.now - since p t) ||
        decide (maxTurnMs ≤ t.now - r)) = true then
        { p with silenceStartedAt := some (since p t) }.finishAutoRecording
          (decide (maxTurnMs ≤ t.now - r)) t.later
      else { p with silenceStartedAt := some (since p t) } := by
  have hspeech : ¬ p.isSpeech ops t = true := by
    rw [Page.isSpeech, h.threshold_eq, hquiet]
    decide
  rw [vadTick_running h, Page.speakingTick, if_neg hspeech]
  simp only [h.speechStartedAt, h.recordStartedAt]
  rfl

theorem running_quiet (h : Running ops R r threshold p) (hquiet : ops.gt t.rms threshold = false)
    (hends : ¬ Ends r (since p t) t) :
    Running ops R r threshold (p.vadTick ops t) ∧
      (p.vadTick ops t).silenceStartedAt = some (since p t) := by
  have hcond : ¬ (decide (minSpeechMs ≤ t.now - r) && decide (silenceMs ≤ t.now - since p t) ||
      decide (maxTurnMs ≤ t.now - r)) = true := by
    simpa [Ends] using hends
  rw [vadTick_quiet h hquiet, if_neg hcond]
  exact ⟨{ h with }, rfl⟩

/-- The second reading of the clock finds the recording long enough too. -/
theorem finishAutoRecording_halts (h : Running ops R r threshold p) {force : Bool} {now : Int}
    (hlong : force = true ∨ minSpeechMs ≤ now - r) :
    Halted R (p.finishAutoRecording force now) := by
  have hguard : ¬ (!p.enabled || decide (p.phase ≠ .speaking) || p.finishing) = true := by
    simp [h.enabled, h.phase, h.finishing]
  have hshort : ¬ (!force && decide (now - p.speechStartedAt < minSpeechMs)) = true := by
    rw [h.speechStartedAt, Bool.and_eq_true, Bool.not_eq_true', decide_eq_true_iff]
    intro hshort
    rcases hlong with hlong | hlong
    · rw [hlong] at hshort
      cases hshort.1
    · omega
  have hlen : R < p.recorders.length := by
    by_contra hge
    have hstage := h.stage
    rw [Page.stage, List.getD_eq_default _ _ (Nat.le_of_not_lt hge)] at hstage
    cases hstage
  rw [Page.finishAutoRecording, if_neg hguard, if_neg hshort, h.mediaRecorder]
  dsimp only
  rw [if_pos h.stage]
  refine ⟨h.enabled, rfl, ?_⟩
  show (p.recorders.set R (.stopping true)).getD R .done = .stopping true
  simp [hlen]

theorem halted_quiet (h : Running ops R r threshold p) (hquiet : ops.gt t.rms threshold = false)
    (hends : Ends r (since p t) t) : Halted R (p.vadTick ops t) := by
  have hcond : (decide (minSpeechMs ≤ t.now - r) && decide (silenceMs ≤ t.now - since p t) ||
      decide (maxTurnMs ≤ t.now - r)) = true := by
    simpa [Ends] using hends
  rw [vadTick_quiet h hquiet, if_pos hcond]
  have hrunning : Running ops R r threshold { p with silenceStartedAt := some (since p t) } :=
    { h with }
  apply finishAutoRecording_halts hrunning
  have hle := t.le
  rcases hends with hends | hends
  · right
    omega
  · left
    exact decide_eq_true hends

/-- Nothing more happens before the stop event. -/
theorem Halted.vadTick (h : Halted R p) : p.vadTick ops t = p := by
  unfold Page.vadTick
  split_ifs with h₁ h₂ h₃ h₄
  · rfl
  · rfl
  all_goals simp [h.finishing] at h₂

/-! ## Runs -/

/-- Consecutive quiet ticks of `ts`, from `first` to `last`. -/
def QuietSpan (ops : FloatOps F) (threshold : F) (ts : List (Tick F)) (first last : Tick F) :
    Prop :=
  ∃ before quiet after, ts = before ++ quiet ++ after ∧ quiet.head? = some first ∧
    quiet.getLast? = some last ∧ ∀ t ∈ quiet, ops.gt t.rms threshold = false

/-- A span of quiet ticks ends the recording. -/
def Stops (ops : FloatOps F) (threshold : F) (r : Int) (ts : List (Tick F)) : Prop :=
  ∃ first last, QuietSpan ops threshold ts first last ∧ Ends r first.now last

/-- `start` is the clock of the first of the quiet ticks at the end. -/
def QuietSince (ops : FloatOps F) (threshold : F) (ts : List (Tick F)) : Option Int → Prop
  | none => ∀ t ∈ ts.getLast?, ops.gt t.rms threshold = true
  | some start => ∃ before first quiet, ts = before ++ first :: quiet ∧ start = first.now ∧
      (∀ t ∈ first :: quiet, ops.gt t.rms threshold = false) ∧
      ∀ t ∈ before.getLast?, ops.gt t.rms threshold = true

theorem QuietSpan.append {ts : List (Tick F)} {first last : Tick F}
    (h : QuietSpan ops threshold ts first last) (us : List (Tick F)) :
    QuietSpan ops threshold (ts ++ us) first last := by
  obtain ⟨before, quiet, after, rfl, hfirst, hlast, hquiet⟩ := h
  exact ⟨before, quiet, after ++ us, by rw [List.append_assoc], hfirst, hlast, hquiet⟩

/-- A span of one more tick ends before it or with it. -/
theorem QuietSpan.concat {ts : List (Tick F)} {t first last : Tick F}
    (h : QuietSpan ops threshold (ts ++ [t]) first last) :
    QuietSpan ops threshold ts first last ∨
      ∃ before quiet, ts ++ [t] = before ++ quiet ∧ quiet.head? = some first ∧ last = t ∧
        t ∈ quiet ∧ ∀ u ∈ quiet, ops.gt u.rms threshold = false := by
  obtain ⟨before, quiet, after, hts, hfirst, hlast, hquiet⟩ := h
  rcases List.eq_nil_or_concat after with hafter | ⟨after', u, hafter⟩
  · right
    rw [hafter, List.append_nil] at hts
    have hend : (before ++ quiet).getLast? = some last := by
      rw [List.getLast?_append, hlast]
      rfl
    rw [← hts, List.getLast?_concat] at hend
    obtain rfl : t = last := Option.some.inj hend
    exact ⟨before, quiet, hts, hfirst, rfl, List.mem_of_getLast? hlast, hquiet⟩
  · left
    rw [hafter, List.concat_eq_append, ← List.append_assoc] at hts
    obtain ⟨hts, -⟩ := List.append_inj' hts rfl
    exact ⟨before, quiet, after', hts, hfirst, hlast, hquiet⟩

theorem since_of_quietSince {ts : List (Tick F)}
    (h : QuietSince ops threshold ts p.silenceStartedAt)
    (hquiet : ops.gt t.rms threshold = false) :
    QuietSince ops threshold (ts ++ [t]) (some (since p t)) := by
  cases hstart : p.silenceStartedAt with
  | none =>
    rw [hstart] at h
    have hsince : since p t = t.now := by simp [since, hstart]
    refine ⟨ts, t, [], rfl, hsince, ?_, h⟩
    intro u hu
    rw [List.mem_singleton.mp hu]
    exact hquiet
  | some start =>
    rw [hstart] at h
    obtain ⟨before, first, quiet, rfl, rfl, hall, hbefore⟩ := h
    have hpos := first.pos
    have hsince : since p t = first.now := by
      rw [since, hstart, Option.getD_some, if_neg (by omega)]
    refine ⟨before, first, quiet ++ [t], by simp, hsince, ?_, hbefore⟩
    intro u hu
    rw [← List.cons_append] at hu
    rcases List.mem_append.mp hu with hu | hu
    · exact hall u hu
    · rw [List.mem_singleton.mp hu]
      exact hquiet

/-- No span that reaches the end starts before the first of the quiet ticks. -/
theorem since_le {ts before quiet : List (Tick F)} {start : Int} {first : Tick F}
    (hclock : ts.Pairwise fun t u => t.now ≤ u.now)
    (h : QuietSince ops threshold ts (some start)) (hts : ts = before ++ quiet)
    (hfirst : quiet.head? = some first) (hquiet : ∀ u ∈ quiet, ops.gt u.rms threshold = false) :
    start ≤ first.now := by
  obtain ⟨loudEnd, first', quiet', hts', rfl, -, hloud⟩ := h
  have hmem : first ∈ first' :: quiet' := by
    rw [hts'] at hts
    rcases List.append_eq_append_iff.mp hts with ⟨c, hbefore, hc⟩ | ⟨c, hloudEnd, hc⟩
    · rw [hc]
      exact List.mem_append_right c (List.mem_of_mem_head? hfirst)
    · rcases List.eq_nil_or_concat c with rfl | ⟨c', u, rfl⟩
      · rw [hc, List.nil_append] at hfirst
        exact List.mem_of_mem_head? hfirst
      · -- the span would hold the loud tick before
        have hu : ops.gt u.rms threshold = true := by
          apply hloud
          rw [hloudEnd, List.concat_eq_append, ← List.append_assoc, List.getLast?_concat]
          rfl
        have hmem : u ∈ quiet := by
          rw [hc, List.concat_eq_append]
          exact List.mem_append_left _ (List.mem_append_right _ (List.mem_singleton_self u))
        rw [hquiet u hmem] at hu
        cases hu
  rw [hts'] at hclock
  have hrest := (List.pairwise_append.mp hclock).2.1
  rcases List.mem_cons.mp hmem with rfl | hmem
  · exact Int.le_refl _
  · exact (List.pairwise_cons.mp hrest).1 first hmem

theorem not_stops_nil : ¬ Stops ops threshold r [] := by
  intro hstops
  obtain ⟨first, last, ⟨before, quiet, after, hnil, hfirst, -⟩, -⟩ := hstops
  obtain ⟨hleft, -⟩ := List.append_eq_nil_iff.mp hnil.symm
  obtain ⟨-, rfl⟩ := List.append_eq_nil_iff.mp hleft
  cases hfirst

/-- A loud tick ends no span. -/
theorem stops_of_loud {ts : List (Tick F)} (hloud : ops.gt t.rms threshold = true)
    (h : Stops ops threshold r (ts ++ [t])) : Stops ops threshold r ts := by
  obtain ⟨first, last, hspan, hends⟩ := h
  rcases hspan.concat with hspan | ⟨before, quiet, hts, hfirst, rfl, hmem, hquiet⟩
  · exact ⟨first, last, hspan, hends⟩
  · rw [hquiet last hmem] at hloud
    cases hloud

/-- Of the spans that end with a quiet tick, the longest decides. -/
theorem stops_quiet_iff {ts : List (Tick F)} {start : Int}
    (hclock : (ts ++ [t]).Pairwise fun t u => t.now ≤ u.now)
    (hsince : QuietSince ops threshold (ts ++ [t]) (some start)) :
    Stops ops threshold r (ts ++ [t]) ↔ Stops ops threshold r ts ∨ Ends r start t := by
  constructor
  · intro hstops
    obtain ⟨first, last, hspan, hends⟩ := hstops
    rcases hspan.concat with hspan | ⟨before, quiet, hts, hfirst, rfl, -, hquiet⟩
    · exact .inl ⟨first, last, hspan, hends⟩
    · right
      have hle := since_le hclock hsince hts hfirst hquiet
      unfold Ends at hends ⊢
      omega
  · intro hstops
    rcases hstops with ⟨first, last, hspan, hends⟩ | hends
    · exact ⟨first, last, hspan.append [t], hends⟩
    · obtain ⟨before, first, quiet, hts, rfl, hall, -⟩ := hsince
      refine ⟨first, t, ⟨before, first :: quiet, [], ?_, rfl, ?_, hall⟩, hends⟩
      · rw [hts, List.append_nil]
      · rw [← List.getLast?_append_of_ne_nil before (List.cons_ne_nil first quiet), ← hts,
          List.getLast?_concat]

/-- The recording was stopped by a span, or it runs and there was none. -/
theorem runTicks_spec (h : Running ops R r threshold p) (hsilence : p.silenceStartedAt = none)
    (ts : List (Tick F)) (hclock : ts.Pairwise fun t u => t.now ≤ u.now) :
    (Halted R (runTicks ops p ts) ∧ Stops ops threshold r ts) ∨
      (Running ops R r threshold (runTicks ops p ts) ∧
        QuietSince ops threshold ts (runTicks ops p ts).silenceStartedAt ∧
        ¬ Stops ops threshold r ts) := by
  induction ts using List.reverseRecOn with
  | nil =>
    refine .inr ⟨h, ?_, not_stops_nil⟩
    show QuietSince ops threshold [] p.silenceStartedAt
    rw [hsilence]
    intro t ht
    cases ht
  | append_singleton ts t ih =>
    rw [runTicks_concat]
    rcases ih (List.pairwise_append.mp hclock).1 with ⟨hhalted, hstops⟩ | ⟨hrunning, hsince, hnot⟩
    · left
      rw [hhalted.vadTick]
      obtain ⟨first, last, hspan, hends⟩ := hstops
      exact ⟨hhalted, first, last, hspan.append [t], hends⟩
    · cases hloud : ops.gt t.rms threshold with
      | true =>
        refine .inr
          ⟨running_loud hrunning hloud, ?_, fun hstops => hnot (stops_of_loud hloud hstops)⟩
        rw [vadTick_loud hrunning hloud]
        intro u hu
        rw [List.getLast?_concat] at hu
        rw [← Option.some.inj hu]
        exact hloud
      | false =>
        have hsince' := since_of_quietSince hsince hloud
        by_cases hends : Ends r (since (runTicks ops p ts) t) t
        · exact .inl ⟨halted_quiet hrunning hloud hends,
            (stops_quiet_iff hclock hsince').mpr (.inr hends)⟩
        · obtain ⟨hstill, hstart⟩ := running_quiet hrunning hloud hends
          rw [← hstart] at hsince'
          refine .inr ⟨hstill, hsince', ?_⟩
          rw [hstart] at hsince'
          rw [stops_quiet_iff hclock hsince', not_or]
          exact ⟨hnot, hends⟩

theorem halted_iff (h : Running ops R r threshold p) (hsilence : p.silenceStartedAt = none)
    {ts : List (Tick F)} (hclock : ts.Pairwise fun t u => t.now ≤ u.now) :
    Halted R (runTicks ops p ts) ↔ Stops ops threshold r ts := by
  rcases runTicks_spec h hsilence ts hclock with ⟨hhalted, hstops⟩ | ⟨hrunning, -, hnot⟩
  · exact iff_of_true hhalted hstops
  · exact iff_of_false hrunning.not_halted hnot

/-! ## The cap -/

/-- The tick that begins a recording. -/
theorem running_of_begins {t₀ : Tick F} (harmed : p.phase = .armed)
    (hbegins : (p.vadTick ops t₀).phase = .speaking) :
    Running ops p.recorders.length t₀.later ((p.vadTick ops t₀).speechThreshold ops)
        (p.vadTick ops t₀) ∧
      (p.vadTick ops t₀).silenceStartedAt = none := by
  have hidle : p.vadTick ops t₀ ≠ p := by
    intro hsame
    rw [hsame, harmed] at hbegins
    cases hbegins
  unfold Page.vadTick at hidle hbegins ⊢
  split_ifs at hidle hbegins ⊢ with hon hbusy
  · exact absurd rfl hidle
  · exact absurd rfl hidle
  · unfold Page.armedTick at hbegins ⊢
    dsimp only at hbegins ⊢
    split_ifs at hbegins ⊢ with hspeech
    · unfold Page.beginAutoRecording at hbegins ⊢
      split_ifs at hbegins ⊢ with hguard
      · rw [harmed] at hbegins
        cases hbegins
      · simp only [Bool.or_eq_true, Bool.not_eq_true', not_or, Bool.not_eq_false] at hon
        unfold Page.updateListenUi
        simp only [hon.1, Bool.not_true, reduceCtorEq, decide_false, Bool.or_self,
          Bool.false_eq_true, if_false]
        refine ⟨⟨rfl, hon.2, rfl, rfl, rfl, ?_, rfl, rfl, rfl⟩, trivial⟩
        show (p.recorders ++ [Stage.recording]).getD p.recorders.length .done = .recording
        simp
    · rw [harmed] at hbegins
      cases hbegins

/-- A recording begun at `r` is stopped at the first tick from `r + MAX_TURN_MS`
on just when the sample of that tick is quiet, or a pause came before; and if it is
stopped before that, then by a pause. -/
theorem recording_capped_iff (ops : FloatOps F) {p : Page F} {t₀ : Tick F}
    (harmed : p.phase = .armed) (hbegins : (p.vadTick ops t₀).phase = .speaking) :
    let q := p.vadTick ops t₀
    let R := p.recorders.length
    let threshold := q.speechThreshold ops
    (∀ pre t, (pre ++ [t]).Pairwise (fun t u => t.now ≤ u.now) →
      (∀ u ∈ pre, u.now < t₀.later + maxTurnMs) → t₀.later + maxTurnMs ≤ t.now →
      (Halted R (runTicks ops q (pre ++ [t])) ↔
        (∃ first last, QuietSpan ops threshold pre first last ∧
          silenceMs ≤ last.now - first.now ∧ minSpeechMs ≤ last.now - t₀.later) ∨
        ops.gt t.rms threshold = false)) ∧
    ∀ before u, (before ++ [u]).Pairwise (fun t u => t.now ≤ u.now) →
      ¬ Halted R (runTicks ops q before) → Halted R (runTicks ops q (before ++ [u])) →
      u.now < t₀.later + maxTurnMs →
      ∃ first, QuietSpan ops threshold (before ++ [u]) first u ∧
        silenceMs ≤ u.now - first.now ∧ minSpeechMs ≤ u.now - t₀.later := by
  intro q R threshold
  obtain ⟨hrunning, hsilence⟩ := running_of_begins harmed hbegins
  refine ⟨?_, ?_⟩
  · intro pre t hclock hpre ht
    rw [halted_iff hrunning hsilence hclock]
    constructor
    · intro hstops
      obtain ⟨first, last, hspan, hends⟩ := hstops
      rcases hspan.concat with hspan | ⟨before, quiet, -, -, rfl, hmem, hquiet⟩
      · left
        have hlast : last ∈ pre := by
          obtain ⟨before, quiet, after, rfl, -, hlast, -⟩ := hspan
          exact List.mem_append_left _ (List.mem_append_right _ (List.mem_of_getLast? hlast))
        have hlt := hpre last hlast
        refine ⟨first, last, hspan, ?_⟩
        unfold Ends at hends
        omega
      · right
        exact hquiet last hmem
    · intro hcond
      rcases hcond with ⟨first, last, hspan, hpause, hlong⟩ | hquiet
      · exact ⟨first, last, hspan.append [t], .inl ⟨hlong, hpause⟩⟩
      · refine ⟨t, t, ⟨pre, [t], [], by rw [List.append_nil], rfl, rfl, ?_⟩, .inr (by omega)⟩
        intro u hu
        rw [List.mem_singleton.mp hu]
        exact hquiet
  · intro before u hclock hnot hhalted hlt
    rw [halted_iff hrunning hsilence (List.pairwise_append.mp hclock).1] at hnot
    rw [halted_iff hrunning hsilence hclock] at hhalted
    obtain ⟨first, last, hspan, hends⟩ := hhalted
    rcases hspan.concat with hshort | ⟨-, -, -, -, rfl, -⟩
    · exact absurd ⟨first, last, hshort, hends⟩ hnot
    · refine ⟨first, hspan, ?_⟩
      unfold Ends at hends
      omega

/-! ## Loud and quiet rooms -/

/-- Exact arithmetic in the place of floats. -/
def exactOps : FloatOps Rat where
  lit q := q
  mul a b := a * b
  add a b := a + b
  sub a b := a - b
  max a b := if a ≤ b then b else a
  gt a b := b < a

/-- A page that listens. -/
def listening : Page Rat where
  enabled := true
  phase := .armed
  stream := some 0
  analyser := true
  vadTimer := true
  noiseFloor := 1 / 100
  streams := [true]
  recordDisabled := true
  stopDisabled := false

/-- A tick with a loud sample. -/
def loudTick (now : Nat) : Tick Rat := ⟨now + 1, now + 1, 1 / 2, by omega, Int.le_refl _⟩

/-- A tick without any sound. -/
def silentTick (now : Nat) : Tick Rat := ⟨now + 1, now + 1, 0, by omega, Int.le_refl _⟩

/-- The room falls silent after 30 seconds of noise. -/
theorem noise_then_silence_capped :
    Halted 0 (runTicks exactOps (listening.vadTick exactOps (loudTick 0))
      ([loudTick 15000] ++ [silentTick 30000])) := by
  have hbegins : (listening.vadTick exactOps (loudTick 0)).phase = .speaking := by decide +kernel
  apply ((recording_capped_iff exactOps rfl hbegins).1 [loudTick 15000]
    (silentTick 30000) ?_ ?_ ?_).mpr
  · right
    decide +kernel
  · decide +kernel
  · decide +kernel
  · decide +kernel

/-- Noise that goes on: the recording begun at 1 still runs at 30001. -/
theorem noise_not_capped :
    (listening.vadTick exactOps (loudTick 0)).recordStartedAt = 1 ∧
      1 + maxTurnMs ≤ (loudTick 30000).now ∧
      (runTicks exactOps (listening.vadTick exactOps (loudTick 0))
        ([loudTick 15000] ++ [loudTick 30000])).stage 0 = .recording ∧
      ¬ Halted 0 (runTicks exactOps (listening.vadTick exactOps (loudTick 0))
        ([loudTick 15000] ++ [loudTick 30000])) := by
  have hstage : (runTicks exactOps (listening.vadTick exactOps (loudTick 0))
      ([loudTick 15000] ++ [loudTick 30000])).stage 0 = .recording := by
    decide +kernel
  refine ⟨by decide +kernel, by decide +kernel, hstage, ?_⟩
  intro hhalted
  have hstop := hhalted.stage
  rw [hstage] at hstop
  cases hstop

end AiPipelines.Voice
