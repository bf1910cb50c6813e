import AiPipelines.Transition

/-!
# The voice recorder of the page

`server/static/app.js` listens to the microphone, starts a `MediaRecorder` when
someone speaks, stops it at a pause and sends what was recorded as a turn.  The
state is the object `autoVoice`; around it there are the streams and recorders
that the browser has handed out, the calls that still wait for an answer, and
the flags of the two buttons.

The browser runs one callback at a time.  A callback is a function on `Page`,
and `step` has one case for each event.  Where a function waits for an answer, the
rest of it is a callback of its own.  A recorder that was told to stop still has
its last data and its stop event to deliver (`Stage.stopping`), at any time after
that.

The samples and the noise floor are floats, with the operations of `FloatOps`.
`Date.now()` is read up to twice in a tick.
-/

namespace AiPipelines.Voice

/-! ## Constants -/

/-- `VAD.SILENCE_MS`. -/
def silenceMs : Int := 1000

/-- `VAD.MIN_SPEECH_MS`. -/
def minSpeechMs : Int := 400

/-- `VAD.MAX_TURN_MS`. -/
def maxTurnMs : Int := 30000

/-- `VAD.NOISE_ADAPT`. -/
def noiseAdapt : Rat := 92 / 100

/-- `VAD.SPEECH_MULT`. -/
def speechMult : Rat := 28 / 10

/-- `VAD.MIN_THRESHOLD`. -/
def minThreshold : Rat := 12 / 1000

/-- A recording with fewer bytes is not sent. -/
def minBlobSize : Nat := 256

/-- The floats. -/
structure FloatOps (F : Type) where
  lit : Rat → F
  mul : F → F → F
  add : F → F → F
  sub : F → F → F
  max : F → F → F
  gt : F → F → Bool

/-! ## The page -/

/-- `autoVoice.phase`. -/
inductive Phase where
  | off
  | armed
  | speaking
  | processing
  deriving Repr, DecidableEq

/-- Where a recorder stands. -/
inductive Stage where
  | recording
  /-- it is inactive, and the stop event is still to come; `onstop` may be set -/
  | stopping (onstop : Bool)
  | done
  deriving Repr, DecidableEq

/-- The recorder is live or stopping. -/
def Stage.pending : Stage → Bool
  | .done => false
  | _ => true

/-- Recorded data, with the recorder that it is from. -/
structure Chunk where
  recorder : Nat
  size : Nat
  deriving Repr, DecidableEq

/-- `autoVoice`.  The streams and recorders are named by their number. -/
structure AutoVoice (F : Type) where
  enabled : Bool := false
  phase : Phase := .off
  stream : Option Nat := none
  analyser : Bool := false
  vadTimer : Bool := false
  mediaRecorder : Option Nat := none
  chunks : List Chunk := []
  noiseFloor : F
  speechStartedAt : Int := 0
  recordStartedAt : Int := 0
  silenceStartedAt : Option Int := none
  finishing : Bool := false

/-- The page: `autoVoice`, what the browser has handed out, and the buttons. -/
structure Page (F : Type) extends AutoVoice F where
  /-- for each stream, whether its tracks still run -/
  streams : List Bool := []
  recorders : List Stage := []
  /-- calls of `startAutoListen` that wait for a session or the microphone -/
  starts : Nat := 0
  /-- the streams of the calls of `startAutoListen` that wait for `audioContext.resume()` -/
  resuming : List Nat := []
  /-- calls of `sendTurn` that wait for a session -/
  creating : Nat := 0
  /-- calls of `sendTurn` that wait for the server -/
  turns : Nat := 0
  /-- `busyEl` is shown -/
  busy : Bool := false
  recordDisabled : Bool := false
  stopDisabled : Bool := true

/-- What `sessionId` is when a turn is sent. -/
inductive SessionState where
  | present
  | missing
  deriving Repr, DecidableEq

/-- What comes of `audioContext.resume()` before the browser calls anything else back. -/
inductive Resume where
  | settled (ok : Bool)
  | pending
  deriving Repr, DecidableEq

/-- One call of `vadTick`: the clock when it is first read and when it is read
again, and the sample.  The clock counts from 1970. -/
structure Tick (F : Type) where
  now : Int
  later : Int
  rms : F
  pos : 0 < now
  le : now ≤ later

namespace Page

variable {F : Type}

/-- The page when it is loaded. -/
def initial (ops : FloatOps F) : Page F := { noiseFloor := ops.lit (1 / 100) }

/-- Where recorder `r` stands. -/
def stage (p : Page F) (r : Nat) : Stage := p.recorders.getD r .done

/-- Recorder `r` moves on. -/
def setStage (p : Page F) (r : Nat) (s : Stage) : Page F :=
  { p with recorders := p.recorders.set r s }

/-- `new Blob(autoVoice.chunks).size`. -/
def blobSize (p : Page F) : Nat := p.chunks.foldr (fun c n => c.size + n) 0

/-- `updateListenUi`, the part that sets the buttons. -/
def updateListenUi (p : Page F) : Page F :=
  if !p.enabled || p.phase = .off then { p with stopDisabled := true }
  else { p with recordDisabled := true, stopDisabled := p.phase = .processing }

/-- `setTurnBusy`. -/
def setTurnBusy (busy : Bool) (p : Page F) : Page F :=
  { p with
    busy := busy
    recordDisabled := busy || p.enabled
    stopDisabled := busy || !p.enabled || p.phase = .processing }

/-- `if (autoVoice.mediaRecorder?.state !== "inactive") autoVoice.mediaRecorder.stop()`. -/
def stopRecorder (p : Page F) : Page F :=
  match p.mediaRecorder with
  | some r => if p.stage r = .recording then p.setStage r (.stopping false) else p
  | none => p

/-- `autoVoice.stream.getTracks().forEach((t) => t.stop())`. -/
def stopTracks (p : Page F) : Page F :=
  match p.stream with
  | some i => { p with streams := p.streams.set i false, stream := none }
  | none => p

/-- `releaseAutoVoiceStream`. -/
def releaseAutoVoiceStream (p : Page F) : Page F :=
  let p₁ := { p with vadTimer := false }.stopRecorder
  let p₂ := { p₁ with mediaRecorder := none, chunks := [] }.stopTracks
  { p₂ with analyser := false, finishing := false }

/-- `stopAutoListen`. -/
def stopAutoListen (p : Page F) : Page F :=
  let p₁ := ({ p with enabled := false, phase := .off }.releaseAutoVoiceStream).updateListenUi
  if p₁.busy then p₁ else { p₁ with recordDisabled := false }

/-- `if (autoVoice.enabled) stopAutoListen()`. -/
def stopIfEnabled (p : Page F) : Page F := if p.enabled then p.stopAutoListen else p

/-- `beginAutoRecording`. -/
def beginAutoRecording (now : Int) (p : Page F) : Page F :=
  if !p.enabled || p.phase ≠ .armed || p.stream.isNone then p
  else
    updateListenUi { p with
      chunks := []
      finishing := false
      silenceStartedAt := none
      speechStartedAt := now
      recordStartedAt := now
      mediaRecorder := some p.recorders.length
      recorders := p.recorders ++ [.recording]
      phase := .speaking }

/-- There is no recorder that could be stopped. -/
def abandonRecording (p : Page F) : Page F :=
  updateListenUi { p with finishing := false, phase := .armed, silenceStartedAt := none }

/-- `finishAutoRecording`. -/
def finishAutoRecording (force : Bool) (now : Int) (p : Page F) : Page F :=
  if !p.enabled || p.phase ≠ .speaking || p.finishing then p
  else if !force && now - p.speechStartedAt < minSpeechMs then p
  else
    match p.mediaRecorder with
    | some r =>
      if p.stage r = .recording then
        { p with finishing := true }.setStage r (.stopping true)
      else p.abandonRecording
    | none => p.abandonRecording

/-- `sendTurn` from the session on, up to the answer of the server. -/
def postTurn (p : Page F) : Page F := { p.setTurnBusy true with turns := p.turns + 1 }

/-- `sendTurn` up to its first wait.  `createSession` stops the listening. -/
def sendTurn (session : SessionState) (p : Page F) : Page F :=
  match session with
  | .present => p.postTurn
  | .missing => { p.stopIfEnabled with creating := p.creating + 1 }

/-- The callback `recorder.onstop`. -/
def onstop (session : SessionState) (p : Page F) : Page F :=
  let size := p.blobSize
  let p₁ := { p with
    mediaRecorder := none
    chunks := []
    finishing := false
    silenceStartedAt := none }
  if size < minBlobSize then
    updateListenUi { p₁ with phase := if p.enabled then .armed else .off }
  else sendTurn session (updateListenUi { p₁ with phase := .processing })

/-- `resumeAutoListenAfterTurn`. -/
def resumeAutoListenAfterTurn (p : Page F) : Page F :=
  if !p.enabled || p.stream.isNone then p.stopAutoListen
  else updateListenUi { p with phase := .armed, silenceStartedAt := none, finishing := false }

/-- The `finally` block of `sendTurn`. -/
def endTurn (p : Page F) : Page F :=
  let p₁ := { p.setTurnBusy false with turns := p.turns - 1 }
  if p₁.enabled then p₁.resumeAutoListenAfterTurn
  else updateListenUi { p₁ with recordDisabled := false, stopDisabled := true }

/-- `speechThreshold`. -/
def speechThreshold (ops : FloatOps F) (p : Page F) : F :=
  ops.max (ops.lit minThreshold) (ops.mul p.noiseFloor (ops.lit speechMult))

/-- `rms > threshold`. -/
def isSpeech (ops : FloatOps F) (p : Page F) (t : Tick F) : Bool :=
  ops.gt t.rms (p.speechThreshold ops)

/-- The tick while nobody speaks. -/
def armedTick (ops : FloatOps F) (t : Tick F) (p : Page F) : Page F :=
  let p₁ := { p with
    noiseFloor := ops.add (ops.mul p.noiseFloor (ops.lit noiseAdapt))
      (ops.mul t.rms (ops.sub (ops.lit 1) (ops.lit noiseAdapt))) }
  if p.isSpeech ops t then p₁.beginAutoRecording t.later else p₁

/-- The tick during a recording.  Zero is no time for `!silenceStartedAt`. -/
def speakingTick (ops : FloatOps F) (t : Tick F) (p : Page F) : Page F :=
  if p.isSpeech ops t then { p with silenceStartedAt := none }
  else
    let since := if p.silenceStartedAt.getD 0 = 0 then t.now else p.silenceStartedAt.getD 0
    let p₁ := { p with silenceStartedAt := some since }
    let longEnough : Bool := minSpeechMs ≤ t.now - p.speechStartedAt
    let pausedEnough : Bool := silenceMs ≤ t.now - since
    let hitMax : Bool := maxTurnMs ≤ t.now - p.recordStartedAt
    if longEnough && pausedEnough || hitMax then p₁.finishAutoRecording hitMax t.later else p₁

/-- `vadTick`. -/
def vadTick (ops : FloatOps F) (t : Tick F) (p : Page F) : Page F :=
  if !p.enabled || !p.analyser then p
  else if p.phase = .processing || p.finishing then p
  else if p.phase = .armed then p.armedTick ops t
  else if p.phase = .speaking then p.speakingTick ops t
  else p

/-- `startAutoListen` behind `audioContext.resume()`.  If that fails, the stream is
not yet in `autoVoice`. -/
def audioSettled (ops : FloatOps F) (i : Nat) (ok : Bool) (p : Page F) : Page F :=
  if ok then
    updateListenUi { p with
      stream := some i
      analyser := true
      enabled := true
      phase := .armed
      noiseFloor := ops.lit (1 / 100)
      silenceStartedAt := none
      finishing := false
      vadTimer := true }
  else p.stopAutoListen

/-- `startAutoListen` once the microphone is granted. -/
def granted (ops : FloatOps F) (resume : Resume) (p : Page F) : Page F :=
  let p₁ := { p with starts := p.starts - 1, streams := p.streams ++ [true] }
  match resume with
  | .settled ok => p₁.audioSettled ops p.streams.length ok
  | .pending => { p₁ with resuming := p₁.resuming ++ [p.streams.length] }

/-- The click on `btnStop`. -/
def clickStop (now : Int) (p : Page F) : Page F :=
  if !p.enabled then p
  else
    match p.phase with
    | .speaking => p.finishAutoRecording true now
    | .armed => p.stopAutoListen
    | _ => p

end Page

/-! ## Events -/

/-- What the browser calls back for. -/
inductive Event (F : Type) where
  | tick (t : Tick F)
  | recordClick
  | micGranted (resume : Resume)
  | audioSettled (stream : Nat) (ok : Bool)
  | micDenied
  /-- there was no session, and none could be created -/
  | startFailed
  | stopClick (now : Int)
  | textMode
  | newSession
  | upload (session : SessionState)
  /-- a call of `sendTurn` has its session -/
  | sessionCreated
  /-- there is no session for a call of `sendTurn` -/
  | sessionFailed
  | data (r size : Nat)
  | stopped (r : Nat) (session : SessionState)
  | turnDone
  | textTurn
  | textTurnDone

/-- One event, if it can happen. -/
def step {F : Type} (ops : FloatOps F) (p : Page F) : Event F → Option (Page F × List Empty)
  | .tick t => if p.vadTimer then some (p.vadTick ops t, []) else none
  | .recordClick =>
    if p.recordDisabled then none
    else some (if p.enabled then p else { p with starts := p.starts + 1 }, [])
  | .micGranted resume => if p.starts = 0 then none else some (p.granted ops resume, [])
  | .audioSettled stream ok =>
    if stream ∈ p.resuming then
      some ({ p with resuming := p.resuming.erase stream }.audioSettled ops stream ok, [])
    else none
  | .micDenied =>
    if p.starts = 0 then none else some ({ p with starts := p.starts - 1 }.stopAutoListen, [])
  | .startFailed => if p.starts = 0 then none else some ({ p with starts := p.starts - 1 }, [])
  | .stopClick now => if p.stopDisabled then none else some (p.clickStop now, [])
  | .textMode => some (p.stopIfEnabled, [])
  | .newSession => some (p.stopIfEnabled, [])
  | .upload session => some (p.stopIfEnabled.sendTurn session, [])
  | .sessionCreated =>
    if p.creating = 0 then none else some ({ p with creating := p.creating - 1 }.postTurn, [])
  | .sessionFailed =>
    if p.creating = 0 then none else some ({ p with creating := p.creating - 1 }, [])
  | .data r size =>
    if (p.stage r).pending then
      some (if 0 < size then { p with chunks := p.chunks ++ [⟨r, size⟩] } else p, [])
    else none
  | .stopped r session =>
    match p.stage r with
    | .stopping handler =>
      let p₁ := p.setStage r .done
      some (if handler then p₁.onstop session else p₁, [])
    | _ => none
  | .turnDone => if p.turns = 0 then none else some (p.endTurn, [])
  | .textTurn => some (p.setTurnBusy true, [])
  | .textTurnDone => some (p.setTurnBusy false, [])

end AiPipelines.Voice
