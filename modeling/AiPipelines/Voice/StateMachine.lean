import AiPipelines.Voice.TurnCap

/-!
# The recorder as a state machine

Runs of the page over all its events.  `Consistent` is what the page should be
like in every state: nothing records while listening is off, and while someone
speaks there is one recorder, whose data goes into the chunks.

The callbacks of a recorder that was given up act on whatever `autoVoice` holds by
then, a microphone that is granted while another one is in use replaces it, one
that waits for the audio context runs while listening is off, and a turn that ends
puts the page back to listening whatever it does.  `Orderly` is the condition on an
event that none of this happens.

`Inv` is the invariant.  `stopAutoListen_inv` restores it from half of it, which
every callback that gives up uses, and `step_inv` has one case for each event.
-/

namespace AiPipelines.Voice

variable {F : Type} {ops : FloatOps F} {p : Page F}

/-! ## The property and the condition -/

/-- The event meets the page in a state that it was meant for: a recording begins
when no older recorder is still stopping, the microphone is granted while none is
in use and the audio context runs before anything else happens, a recording that
was given up has left too little data to be sent, and no turn ends during a
recording. -/
def Orderly (ops : FloatOps F) (p : Page F) : Event F → Prop
  | .tick t => p.phase = .armed → p.isSpeech ops t = true → ∀ r, (p.stage r).pending = false
  | .micGranted resume => p.enabled = false ∧ resume = .settled true
  | .audioSettled _ _ => False
  | .stopped r _ => p.enabled = false → p.stage r = .stopping true → p.blobSize < minBlobSize
  | .turnDone => p.phase ≠ .speaking
  | _ => True

theorem forall_stage_iff {P : Stage → Prop} (hdone : P .done) :
    (∀ s ∈ p.recorders, P s) ↔ ∀ r, P (p.stage r) := by
  constructor
  · intro h r
    rw [Page.stage, List.getD_eq_getElem?_getD]
    cases hr : p.recorders[r]? with
    | none => exact hdone
    | some s => exact h s (List.mem_of_getElem? hr)
  · intro h s hs
    obtain ⟨r, hr⟩ := List.mem_iff_getElem?.mp hs
    have hstage := h r
    rw [Page.stage, List.getD_eq_getElem?_getD, hr] at hstage
    exact hstage

instance Orderly.decidable : ∀ (p : Page F) (e : Event F), Decidable (Orderly ops p e)
  | p, .tick t =>
    decidable_of_iff
      (p.phase = .armed → p.isSpeech ops t = true → ∀ s ∈ p.recorders, s.pending = false)
      (imp_congr_right fun _ => imp_congr_right fun _ => forall_stage_iff rfl)
  | p, .micGranted resume =>
    inferInstanceAs (Decidable (p.enabled = false ∧ resume = .settled true))
  | _, .audioSettled _ _ => inferInstanceAs (Decidable False)
  | p, .stopped r _ =>
    inferInstanceAs
      (Decidable (p.enabled = false → p.stage r = .stopping true → p.blobSize < minBlobSize))
  | p, .turnDone => inferInstanceAs (Decidable (p.phase ≠ .speaking))
  | _, .recordClick | _, .micDenied | _, .startFailed | _, .stopClick _ | _, .textMode
  | _, .newSession | _, .upload _ | _, .sessionCreated | _, .sessionFailed | _, .data _ _
  | _, .textTurn | _, .textTurnDone =>
    inferInstanceAs (Decidable True)

/-! ## The invariant -/

/-- The current recorder `r`: it records, or its last data is on the way, and no
other one is left. -/
structure Current (p : Page F) (r : Nat) : Prop where
  phase : p.phase = .speaking
  stage : p.stage r = .recording ∧ p.finishing = false ∨
    p.stage r = .stopping true ∧ p.finishing = true
  others : ∀ q, q ≠ r → (p.stage q).pending = false
  chunks : ∀ c ∈ p.chunks, c.recorder = r

/-- What `stopAutoListen` can reach: every live recorder and stream is in
`autoVoice`. -/
structure Held (p : Page F) : Prop where
  recording : ∀ r, p.stage r = .recording → p.mediaRecorder = some r
  streams : ∀ i, p.streams[i]? = some true → p.stream = some i

structure Inv (p : Page F) : Prop extends Held p where
  off : p.enabled = false → p.phase = .off ∧ p.stream = none
  current : ∀ r, p.mediaRecorder = some r → Current p r
  recorder : p.phase = .speaking → p.mediaRecorder ≠ none

theorem initial_inv : Inv (Page.initial ops) where
  recording := fun _ hr => nomatch hr
  streams := fun _ hi => nomatch hi
  off := fun _ => ⟨rfl, rfl⟩
  current := fun _ hr => nomatch hr
  recorder := fun hphase => nomatch hphase

/-! ## The buttons -/

/-- `autoVoice` and what the browser has handed out are the same. -/
structure SameCore (p q : Page F) : Prop where
  autoVoice : q.toAutoVoice = p.toAutoVoice
  streams : q.streams = p.streams
  recorders : q.recorders = p.recorders

theorem SameCore.inv {q : Page F} (h : SameCore p q) (hinv : Inv p) : Inv q := by
  obtain ⟨hauto, hstreams, hrecorders⟩ := h
  obtain ⟨qa, qs, qr, starts, resuming, creating, turns, busy, recordDisabled, stopDisabled⟩ := q
  obtain rfl : qa = p.toAutoVoice := hauto
  obtain rfl : qs = p.streams := hstreams
  obtain rfl : qr = p.recorders := hrecorders
  exact ⟨⟨hinv.recording, hinv.streams⟩, hinv.off,
    fun r hr => { hinv.current r hr with }, hinv.recorder⟩

theorem sameCore_updateListenUi (p : Page F) : SameCore p p.updateListenUi := by
  unfold Page.updateListenUi
  split_ifs
  · exact ⟨rfl, rfl, rfl⟩
  · exact ⟨rfl, rfl, rfl⟩

theorem sameCore_setTurnBusy (busy : Bool) (p : Page F) : SameCore p (p.setTurnBusy busy) :=
  ⟨rfl, rfl, rfl⟩

/-! ## Giving up -/

theorem lt_of_stage {r : Nat} (h : p.stage r ≠ .done) : r < p.recorders.length := by
  by_contra hge
  exact h (List.getD_eq_default _ _ (Nat.le_of_not_lt hge))

theorem stage_setStage_self {r : Nat} (h : p.stage r ≠ .done) (s : Stage) :
    (p.setStage r s).stage r = s := by
  have hlen := lt_of_stage h
  show (p.recorders.set r s).getD r .done = s
  simp [hlen]

theorem stage_setStage_of_ne {r q : Nat} (h : r ≠ q) (s : Stage) :
    (p.setStage r s).stage q = p.stage q := by
  show (p.recorders.set r s).getD q .done = p.recorders.getD q .done
  rw [List.getD_eq_getElem?_getD, List.getElem?_set_ne h, List.getD_eq_getElem?_getD]

theorem stopRecorder_stage (h : ∀ r, p.stage r = .recording → p.mediaRecorder = some r) (q : Nat) :
    p.stopRecorder.stage q ≠ .recording := by
  unfold Page.stopRecorder
  cases hcur : p.mediaRecorder with
  | none =>
    intro hq
    rw [h q hq] at hcur
    cases hcur
  | some r =>
    dsimp only
    split_ifs with hr
    · by_cases hrq : r = q
      · rw [← hrq, stage_setStage_self (by rw [hr]; decide)]
        decide
      · rw [stage_setStage_of_ne hrq]
        intro hq
        rw [h q hq] at hcur
        exact hrq (Option.some.inj hcur).symm
    · intro hq
      have hsame := h q hq
      rw [hcur] at hsame
      rw [Option.some.inj hsame] at hr
      exact hr hq

theorem stopTracks_streams (h : ∀ i, p.streams[i]? = some true → p.stream = some i) (i : Nat) :
    p.stopTracks.streams[i]? ≠ some true := by
  unfold Page.stopTracks
  cases hcur : p.stream with
  | none =>
    intro hi
    rw [h i hi] at hcur
    cases hcur
  | some j =>
    show (p.streams.set j false)[i]? ≠ some true
    by_cases hij : j = i
    · rw [hij, List.getElem?_set_self']
      cases p.streams[i]? <;> simp
    · rw [List.getElem?_set_ne hij]
      intro hi
      rw [h i hi] at hcur
      exact hij (Option.some.inj hcur).symm

theorem stopRecorder_keeps (p : Page F) :
    p.stopRecorder.toAutoVoice = p.toAutoVoice ∧ p.stopRecorder.streams = p.streams := by
  unfold Page.stopRecorder
  cases p.mediaRecorder with
  | none => exact ⟨rfl, rfl⟩
  | some r =>
    dsimp only
    split_ifs
    · exact ⟨rfl, rfl⟩
    · exact ⟨rfl, rfl⟩

theorem stopTracks_keeps (p : Page F) :
    p.stopTracks.enabled = p.enabled ∧ p.stopTracks.phase = p.phase ∧
      p.stopTracks.mediaRecorder = p.mediaRecorder ∧ p.stopTracks.stream = none ∧
      p.stopTracks.recorders = p.recorders := by
  unfold Page.stopTracks
  cases hstream : p.stream with
  | none => exact ⟨rfl, rfl, rfl, hstream, rfl⟩
  | some i => exact ⟨rfl, rfl, rfl, rfl, rfl⟩

/-- Nothing is left behind `stopAutoListen`. -/
structure Idle (p : Page F) : Prop where
  enabled : p.enabled = false
  phase : p.phase = .off
  mediaRecorder : p.mediaRecorder = none
  stream : p.stream = none
  stage : ∀ q, p.stage q ≠ .recording
  streams : ∀ i : Nat, p.streams[i]? ≠ some true

theorem Idle.inv (h : Idle p) : Inv p where
  recording := fun r hr => absurd hr (h.stage r)
  streams := fun i hi => absurd hi (h.streams i)
  off := fun _ => ⟨h.phase, h.stream⟩
  current := by
    intro r hr
    rw [h.mediaRecorder] at hr
    cases hr
  recorder := by
    intro hphase
    rw [h.phase] at hphase
    cases hphase

theorem release_idle (h : Held p) :
    Idle ({ p with enabled := false, phase := .off } : Page F).releaseAutoVoiceStream := by
  have hstage := stopRecorder_stage
    (p := { p with enabled := false, phase := .off, vadTimer := false }) h.recording
  obtain ⟨hauto, hstreams⟩ :=
    stopRecorder_keeps ({ p with enabled := false, phase := .off, vadTimer := false } : Page F)
  unfold Page.releaseAutoVoiceStream
  generalize ({ p with enabled := false, phase := .off, vadTimer := false } : Page F).stopRecorder =
    p₁ at *
  obtain ⟨henabled, hphase, hrecorder, hstream, hrecorders⟩ :=
    stopTracks_keeps ({ p₁ with mediaRecorder := none, chunks := [] } : Page F)
  have htracks := stopTracks_streams (p := { p₁ with mediaRecorder := none, chunks := [] }) (by
    intro i hi
    show p₁.stream = some i
    rw [hauto]
    exact h.streams i (hstreams ▸ hi))
  refine ⟨?_, ?_, hrecorder, hstream, ?_, htracks⟩
  · show ({ p₁ with mediaRecorder := none, chunks := [] } : Page F).stopTracks.enabled = false
    rw [henabled]
    exact congrArg AutoVoice.enabled hauto
  · show ({ p₁ with mediaRecorder := none, chunks := [] } : Page F).stopTracks.phase = .off
    rw [hphase]
    exact congrArg AutoVoice.phase hauto
  · intro q
    show ({ p₁ with mediaRecorder := none, chunks := [] } : Page F).stopTracks.stage q ≠ .recording
    rw [Page.stage, hrecorders]
    exact hstage q

/-- `stopAutoListen` restores the invariant. -/
theorem stopAutoListen_inv (h : Held p) : Inv p.stopAutoListen := by
  have hidle := (release_idle h).inv
  unfold Page.stopAutoListen
  dsimp only
  have hcore := sameCore_updateListenUi
    ({ p with enabled := false, phase := .off } : Page F).releaseAutoVoiceStream
  split_ifs
  · exact hcore.inv hidle
  · exact SameCore.inv ⟨hcore.autoVoice, hcore.streams, hcore.recorders⟩ hidle

theorem stopIfEnabled_inv (h : Inv p) : Inv p.stopIfEnabled := by
  unfold Page.stopIfEnabled
  split_ifs
  · exact stopAutoListen_inv h.toHeld
  · exact h

/-! ## The callbacks -/

theorem Inv.no_recorder (h : Inv p) (hphase : p.phase ≠ .speaking) : p.mediaRecorder = none := by
  cases hcur : p.mediaRecorder with
  | none => rfl
  | some r => exact absurd (h.current r hcur).phase hphase

theorem Inv.not_recording (h : Inv p) (hphase : p.phase ≠ .speaking) (r : Nat) :
    p.stage r ≠ .recording := by
  intro hr
  exact hphase (h.current r (h.recording r hr)).phase

/-- Between two recordings only the streams have to be looked after. -/
theorem inv_of_no_recorder (hrecorder : p.mediaRecorder = none)
    (hstage : ∀ r, p.stage r ≠ .recording) (hphase : p.phase ≠ .speaking)
    (hstreams : ∀ i : Nat, p.streams[i]? = some true → p.stream = some i)
    (hoff : p.enabled = false → p.phase = .off ∧ p.stream = none) : Inv p where
  recording := fun r hr => absurd hr (hstage r)
  streams := hstreams
  off := hoff
  current := by
    intro r hr
    rw [hrecorder] at hr
    cases hr
  recorder := fun hspeaking => absurd hspeaking hphase

theorem stage_append_recording (p : Page F) (r : Nat) :
    (p.recorders ++ [Stage.recording]).getD r .done =
      if r = p.recorders.length then .recording else p.stage r := by
  rw [Page.stage, List.getD_eq_getElem?_getD, List.getD_eq_getElem?_getD]
  split_ifs with hr
  · rw [hr, List.getElem?_concat_length]
    rfl
  · rcases Nat.lt_or_gt_of_ne hr with hlt | hgt
    · rw [List.getElem?_append_left hlt]
    · rw [List.getElem?_eq_none (by simp; omega), List.getElem?_eq_none (by omega)]

theorem beginAutoRecording_inv (h : Inv p) (now : Int)
    (hdone : p.phase = .armed → ∀ r, (p.stage r).pending = false) :
    Inv (p.beginAutoRecording now) := by
  unfold Page.beginAutoRecording
  split_ifs with hguard
  · exact h
  · simp only [Bool.or_eq_true, Bool.not_eq_true', decide_eq_true_iff, not_or, Bool.not_eq_false,
      not_not] at hguard
    obtain ⟨⟨hon, harmed⟩, -⟩ := hguard
    have hpending := hdone harmed
    apply (sameCore_updateListenUi _).inv
    refine ⟨⟨?_, h.streams⟩, ?_, ?_, ?_⟩
    · intro r hr
      have hstage := stage_append_recording p r
      rw [show (p.recorders ++ [Stage.recording]).getD r .done = .recording from hr] at hstage
      split_ifs at hstage with hlen
      · rw [hlen]
      · have hr' := hpending r
        rw [← hstage] at hr'
        cases hr'
    · intro hoff
      have hon' : p.enabled = false := hoff
      rw [hon] at hon'
      cases hon'
    · intro r hr
      obtain rfl : p.recorders.length = r := Option.some.inj hr
      refine ⟨rfl, .inl ⟨?_, rfl⟩, ?_, ?_⟩
      · exact (stage_append_recording p _).trans (if_pos rfl)
      · intro q hq
        have hstage := (stage_append_recording p q).trans (if_neg hq)
        show ((p.recorders ++ [Stage.recording]).getD q .done).pending = false
        rw [hstage]
        exact hpending q
      · intro c hc
        cases hc
    · intro _ hnone
      cases hnone

theorem finishAutoRecording_inv (h : Inv p) (force : Bool) (now : Int) :
    Inv (p.finishAutoRecording force now) := by
  unfold Page.finishAutoRecording
  split_ifs with hguard hshort
  · exact h
  · exact h
  · simp only [Bool.or_eq_true, Bool.not_eq_true', decide_eq_true_iff, not_or, Bool.not_eq_false,
      not_not, Bool.not_eq_true] at hguard
    obtain ⟨⟨hon, hspeaking⟩, hfinishing⟩ := hguard
    obtain ⟨r, hr⟩ := Option.ne_none_iff_exists'.mp (h.recorder hspeaking)
    have hcur := h.current r hr
    have hstage : p.stage r = .recording := by
      rcases hcur.stage with ⟨hstage, -⟩ | ⟨-, hfin⟩
      · exact hstage
      · rw [hfinishing] at hfin
        cases hfin
    rw [hr]
    dsimp only
    rw [if_pos hstage]
    have hself : (p.setStage r (.stopping true)).stage r = .stopping true :=
      stage_setStage_self (by rw [hstage]; decide) _
    have hothers : ∀ q, q ≠ r → (p.setStage r (.stopping true)).stage q = p.stage q :=
      fun q hq => stage_setStage_of_ne (Ne.symm hq) _
    refine ⟨⟨?_, h.streams⟩, h.off, ?_, fun _ => Option.some_ne_none r⟩
    · intro q hq
      by_cases hqr : q = r
      · rw [hqr] at hq
        cases hself.symm.trans hq
      · exact hr.symm.trans (h.recording q ((hothers q hqr).symm.trans hq))
    · intro q hq
      obtain rfl : r = q := Option.some.inj hq
      refine ⟨hcur.phase, .inr ⟨hself, rfl⟩, ?_, hcur.chunks⟩
      intro q hq
      show ((p.setStage r (.stopping true)).stage q).pending = false
      rw [hothers q hq]
      exact hcur.others q hq

theorem vadTick_inv (h : Inv p) {t : Tick F} (hok : Orderly ops p (.tick t)) :
    Inv (p.vadTick ops t) := by
  unfold Page.vadTick
  split_ifs with hoff hbusy harmed hspeaking
  · exact h
  · exact h
  · unfold Page.armedTick
    dsimp only
    -- the noise floor is in no part of the invariant
    have hnoise : ∀ noise : F, Inv { p with noiseFloor := noise } := fun noise =>
      ⟨⟨h.recording, h.streams⟩, h.off, fun r hr => { h.current r hr with }, h.recorder⟩
    split_ifs with hspeech
    · exact beginAutoRecording_inv (hnoise _) _ fun _ => hok harmed hspeech
    · exact hnoise _
  · unfold Page.speakingTick
    dsimp only
    have hsilence : ∀ since : Option Int, Inv { p with silenceStartedAt := since } := fun since =>
      ⟨⟨h.recording, h.streams⟩, h.off, fun r hr => { h.current r hr with }, h.recorder⟩
    split_ifs
    · exact hsilence none
    · exact finishAutoRecording_inv (hsilence _) _ _
    · exact hsilence _
    · exact finishAutoRecording_inv (hsilence _) _ _
    · exact hsilence _
  · exact h

theorem granted_inv (h : Inv p) (hoff : p.enabled = false) :
    Inv (p.granted ops (.settled true)) := by
  obtain ⟨hphase, hstream⟩ := h.off hoff
  have hnot : p.phase ≠ .speaking := by
    rw [hphase]
    decide
  simp only [Page.granted, Page.audioSettled, if_true]
  apply (sameCore_updateListenUi _).inv
  refine inv_of_no_recorder (h.no_recorder hnot) (h.not_recording hnot) nofun ?_ ?_
  · intro i hi
    -- the streams before this one have all been stopped
    have hi' : (p.streams ++ [true])[i]? = some true := hi
    rcases Nat.lt_trichotomy i p.streams.length with hlt | heq | hgt
    · rw [List.getElem?_append_left hlt] at hi'
      rw [h.streams i hi'] at hstream
      cases hstream
    · rw [heq]
    · rw [List.getElem?_eq_none (by simp; omega)] at hi'
      cases hi'
  · intro hfalse
    cases hfalse

theorem postTurn_inv (h : Inv p) : Inv p.postTurn := SameCore.inv (p := p) ⟨rfl, rfl, rfl⟩ h

theorem sendTurn_inv (h : Inv p) (session : SessionState) : Inv (p.sendTurn session) := by
  cases session with
  | present => exact postTurn_inv h
  | missing => exact SameCore.inv (p := p.stopIfEnabled) ⟨rfl, rfl, rfl⟩ (stopIfEnabled_inv h)

theorem onstop_inv (hstage : ∀ r, p.stage r ≠ .recording)
    (hstreams : ∀ i : Nat, p.streams[i]? = some true → p.stream = some i)
    (hoff : p.enabled = false → p.stream = none ∧ p.blobSize < minBlobSize)
    (session : SessionState) : Inv (p.onstop session) := by
  unfold Page.onstop
  dsimp only
  split_ifs with hsize hon
  · apply (sameCore_updateListenUi _).inv
    refine inv_of_no_recorder rfl hstage nofun hstreams ?_
    intro hfalse
    rw [show p.enabled = false from hfalse] at hon
    cases hon
  · apply (sameCore_updateListenUi _).inv
    refine inv_of_no_recorder rfl hstage nofun hstreams ?_
    intro hfalse
    exact ⟨rfl, (hoff hfalse).1⟩
  · apply sendTurn_inv
    apply (sameCore_updateListenUi _).inv
    refine inv_of_no_recorder rfl hstage nofun hstreams ?_
    intro hfalse
    exact absurd (hoff hfalse).2 hsize

/-- The stop event of a recorder. -/
theorem stopped_inv (h : Inv p) {r : Nat} {handler : Bool} (hstage : p.stage r = .stopping handler)
    (hok : p.enabled = false → handler = true → p.blobSize < minBlobSize)
    (session : SessionState) :
    Inv (if handler then (p.setStage r .done).onstop session else p.setStage r .done) := by
  have hself : (p.setStage r .done).stage r = .done :=
    stage_setStage_self (by rw [hstage]; exact nofun) _
  have hothers : ∀ q, r ≠ q → (p.setStage r .done).stage q = p.stage q :=
    fun q hq => stage_setStage_of_ne hq _
  -- after the event no recorder is live
  have hnone : ∀ q, (p.setStage r .done).stage q ≠ .recording := by
    intro q hq
    by_cases hrq : r = q
    · rw [← hrq, hself] at hq
      cases hq
    · rw [hothers q hrq] at hq
      have hcur := h.current q (h.recording q hq)
      have hpending := hcur.others r hrq
      rw [hstage] at hpending
      cases hpending
  cases handler with
  | true =>
    refine onstop_inv hnone h.streams ?_ session
    intro hoff
    exact ⟨(h.off hoff).2, hok hoff rfl⟩
  | false =>
    have hnot : p.phase ≠ .speaking := by
      intro hspeaking
      obtain ⟨q, hq⟩ := Option.ne_none_iff_exists'.mp (h.recorder hspeaking)
      have hcur := h.current q hq
      by_cases hrq : r = q
      · have hstop := hcur.stage
        rw [← hrq, hstage] at hstop
        rcases hstop with ⟨hstop, -⟩ | ⟨hstop, -⟩ <;> cases hstop
      · have hpending := hcur.others r hrq
        rw [hstage] at hpending
        cases hpending
    exact inv_of_no_recorder (h.no_recorder hnot) hnone hnot h.streams h.off

theorem endTurn_inv (h : Inv p) (hphase : p.phase ≠ .speaking) : Inv p.endTurn := by
  have hbusy : Inv { p.setTurnBusy false with turns := p.turns - 1 } :=
    SameCore.inv (p := p) ⟨rfl, rfl, rfl⟩ h
  unfold Page.endTurn
  dsimp only
  split_ifs with hon
  · unfold Page.resumeAutoListenAfterTurn
    split_ifs with hstream
    · exact stopAutoListen_inv hbusy.toHeld
    · apply (sameCore_updateListenUi _).inv
      refine inv_of_no_recorder (h.no_recorder hphase) (h.not_recording hphase) nofun h.streams ?_
      intro hfalse
      have hon' : p.enabled = true := hon
      rw [show p.enabled = false from hfalse] at hon'
      cases hon'
  · apply (sameCore_updateListenUi _).inv
    exact SameCore.inv (p := p) ⟨rfl, rfl, rfl⟩ h

theorem data_inv (h : Inv p) {r : Nat} (hpending : (p.stage r).pending = true) (size : Nat) :
    Inv { p with chunks := p.chunks ++ [⟨r, size⟩] } := by
  refine ⟨⟨h.recording, h.streams⟩, h.off, ?_, h.recorder⟩
  intro q hq
  have hcur := h.current q hq
  refine ⟨hcur.phase, hcur.stage, hcur.others, ?_⟩
  intro c hc
  rcases List.mem_append.mp hc with hc | hc
  · exact hcur.chunks c hc
  · rw [List.mem_singleton.mp hc]
    by_contra hrq
    have hnot := hcur.others r hrq
    rw [hpending] at hnot
    cases hnot

theorem clickStop_inv (h : Inv p) (now : Int) : Inv (p.clickStop now) := by
  unfold Page.clickStop
  split_ifs
  · exact h
  · cases p.phase with
    | off => exact h
    | processing => exact h
    | armed => exact stopAutoListen_inv h.toHeld
    | speaking => exact finishAutoRecording_inv h true now

/-! ## Runs -/

/-- One event. -/
theorem step_inv {q : Page F} {e : Event F} {es : List Empty} (h : Inv p) (hok : Orderly ops p e)
    (hstep : step ops p e = some (q, es)) : Inv q := by
  cases e with
  | tick t =>
    simp only [step] at hstep
    split_ifs at hstep
    cases hstep
    exact vadTick_inv h hok
  | recordClick =>
    simp only [step] at hstep
    split_ifs at hstep
    · cases hstep
      exact h
    · cases hstep
      exact SameCore.inv (p := p) ⟨rfl, rfl, rfl⟩ h
  | micGranted resume =>
    obtain ⟨hoff, rfl⟩ := hok
    simp only [step] at hstep
    split_ifs at hstep
    cases hstep
    exact granted_inv h hoff
  | audioSettled stream ok => exact hok.elim
  | micDenied =>
    simp only [step] at hstep
    split_ifs at hstep
    cases hstep
    exact stopAutoListen_inv ⟨h.recording, h.streams⟩
  | startFailed =>
    simp only [step] at hstep
    split_ifs at hstep
    cases hstep
    exact SameCore.inv (p := p) ⟨rfl, rfl, rfl⟩ h
  | stopClick now =>
    simp only [step] at hstep
    split_ifs at hstep
    cases hstep
    exact clickStop_inv h now
  | textMode =>
    cases hstep
    exact stopIfEnabled_inv h
  | newSession =>
    cases hstep
    exact stopIfEnabled_inv h
  | upload session =>
    cases hstep
    exact sendTurn_inv (stopIfEnabled_inv h) session
  | sessionCreated =>
    simp only [step] at hstep
    split_ifs at hstep
    cases hstep
    exact postTurn_inv (SameCore.inv (p := p) ⟨rfl, rfl, rfl⟩ h)
  | sessionFailed =>
    simp only [step] at hstep
    split_ifs at hstep
    cases hstep
    exact SameCore.inv (p := p) ⟨rfl, rfl, rfl⟩ h
  | data r size =>
    simp only [step] at hstep
    split_ifs at hstep with hpending hsize
    · cases hstep
      exact data_inv h hpending size
    · cases hstep
      exact h
  | stopped r session =>
    simp only [step] at hstep
    split at hstep
    · next handler hstage =>
      cases hstep
      refine stopped_inv h hstage ?_ session
      intro hoff hhandler
      rw [hhandler] at hstage
      exact hok hoff hstage
    · cases hstep
  | turnDone =>
    simp only [step] at hstep
    split_ifs at hstep
    cases hstep
    exact endTurn_inv h hok
  | textTurn =>
    cases hstep
    exact (sameCore_setTurnBusy true p).inv h
  | textTurnDone =>
    cases hstep
    exact (sameCore_setTurnBusy false p).inv h

end AiPipelines.Voice
