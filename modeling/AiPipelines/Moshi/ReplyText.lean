import AiPipelines.PyStd.Replace
import AiPipelines.PyStd.Raise

/-!
# The texts of a Moshi turn

`MoshiBackend.run_turn` of `omni_voice/backends/moshi_backend.py` feeds the frames of the user
and a stretch of silence to a language model that listens and talks at the same time.  A frame
may come out with a text token, with a pad token or with nothing.  The audio is cut behind the
frames of the user, and so should be the text: `listen_inner_text` is what the model thought
while it listened, `inner_text` what it replied.

The text tokens are collected without the frames they belong to, and are cut at the number of
frames.  `textsMatch_iff` says for which outputs of the model this is the same.
-/

namespace AiPipelines.Moshi

open PyStd

/-! ## The models -/

/-- `TEXT_PAD_IDS`. -/
def textPadIds : List Int := [0, 3]

/-- `tokens_out[0, 0, 0]` and `tokens_out[:, 1:]`. -/
structure TokensOut where
  textId : Int
  audio : List Int

/-- The streaming language model and the streaming codec. -/
structure Models (σ δ Code Sample : Type) where
  step : σ → Code → σ × Option TokensOut
  decode : δ → List Int → δ × List Sample

/-- What `run_turn` takes from the backend. -/
structure Settings where
  /-- `mimi.frame_size`. -/
  frameSize : Nat
  frameSize_pos : 0 < frameSize
  maxFrames : Option Nat
  /-- `int(response_s * MOSHI_SAMPLE_RATE)`. -/
  maxReplySamples : Nat

/-- What `run_turn` raises. -/
inductive TurnError where
  | noAudio
  | replyTooShort
  deriving DecidableEq

/-- What `run_turn` returns, without the times and the names. -/
structure OmniRunResult (Sample : Type) where
  replyWav : List Sample
  innerText : Str
  framesIn : Nat
  userFrames : Nat
  framesOut : Nat
  listenInnerText : Str
  replyTrimFromSample : Nat

/-! ## The turn -/

/-- `_decode_text_ids`, with the `id_to_piece` of the tokenizer. -/
def decodeTextIds (idToPiece : Int → Str) (ids : List Int) : Str :=
  strip ((ids.filter fun tid => !textPadIds.contains tid).map fun tid =>
    replace "▁" " " (idToPiece tid)).flatten

/-- The variables of the loop over the frames. -/
structure Loop (σ δ Sample : Type) where
  lmGen : σ
  mimi : δ
  firstFrame : Bool
  chunkTextIds : List Int
  outChunks : List (List Sample)

variable {σ δ Code Sample : Type}

def Loop.start (lmGen : σ) (mimi : δ) : Loop σ δ Sample :=
  { lmGen := lmGen, mimi := mimi, firstFrame := true, chunkTextIds := [], outChunks := [] }

/-- On the first frame the model makes a step more, and what comes out of it is thrown away. -/
def Models.warmUp (m : Models σ δ Code Sample) (loop : Loop σ δ Sample) (code : Code) : σ :=
  if loop.firstFrame then (m.step loop.lmGen code).1 else loop.lmGen

/-- A round of the loop. -/
def Models.runFrame (m : Models σ δ Code Sample) (loop : Loop σ δ Sample) (code : Code) :
    Loop σ δ Sample :=
  let result := m.step (m.warmUp loop code) code
  match result.2 with
  | none => { loop with lmGen := result.1, firstFrame := false }
  | some tokensOut =>
    let ids :=
      if textPadIds.contains tokensOut.textId then loop.chunkTextIds
      else loop.chunkTextIds ++ [tokensOut.textId]
    if tokensOut.audio.isEmpty then
      { loop with lmGen := result.1, firstFrame := false, chunkTextIds := ids }
    else
      let decoded := m.decode loop.mimi tokensOut.audio
      { lmGen := result.1, mimi := decoded.1, firstFrame := false, chunkTextIds := ids,
        outChunks := loop.outChunks ++ [decoded.2] }

/-- `all_codes`, cut to the frames allowed. -/
def Settings.allCodes (settings : Settings) (codes : List Code) : List Code :=
  match settings.maxFrames with
  | some maxFrames => codes.take maxFrames
  | none => codes

/-- `user_frames`: the frames that the user's samples fill, at most all. -/
def Settings.userFrames (settings : Settings) (userSamples : Nat) (codes : List Code) : Nat :=
  min ((userSamples + settings.frameSize - 1) / settings.frameSize) (settings.allCodes codes).length

/-- `reply_text_ids`. -/
def replyTextIds (chunkTextIds : List Int) (userFrames : Nat) : List Int :=
  if userFrames < chunkTextIds.length then chunkTextIds.drop userFrames else chunkTextIds

/-- `MoshiBackend.run_turn`, on the codes that the codec gives for the frames of the input. -/
def Models.runTurn (m : Models σ δ Code Sample) (settings : Settings) (idToPiece : Int → Str)
    (lmGen : σ) (mimi : δ) (userSamples : Nat) (codes : List Code) :
    Except TurnError (OmniRunResult Sample) :=
  let allCodes := settings.allCodes codes
  let userFrames := settings.userFrames userSamples codes
  let loop := allCodes.foldl m.runFrame (Loop.start lmGen mimi)
  if loop.outChunks.isEmpty then .error .noAudio
  else
    let fullWav := loop.outChunks.flatten
    let startSample := min (userFrames * settings.frameSize) (fullWav.length - 1)
    let replyWav := (fullWav.drop startSample).take settings.maxReplySamples
    -- `int(0.05 * MOSHI_SAMPLE_RATE)`
    if replyWav.length < 1200 then .error .replyTooShort
    else .ok {
      replyWav := replyWav
      innerText := decodeTextIds idToPiece (replyTextIds loop.chunkTextIds userFrames)
      framesIn := allCodes.length
      userFrames := userFrames
      framesOut := loop.outChunks.length
      listenInnerText := decodeTextIds idToPiece (loop.chunkTextIds.take userFrames)
      replyTrimFromSample := startSample }

/-! ## The outputs of the frames -/

/-- What the model gives for each code. -/
def Models.outputs (m : Models σ δ Code Sample) : σ → List Code → List (Option TokensOut)
  | _, [] => []
  | lmGen, code :: codes => (m.step lmGen code).2 :: m.outputs (m.step lmGen code).1 codes

/-- What the turn sees of it: the first frame is fed twice. -/
def Models.frameOutputs (m : Models σ δ Code Sample) (lmGen : σ) :
    List Code → List (Option TokensOut)
  | [] => []
  | code :: codes => m.outputs (m.step lmGen code).1 (code :: codes)

/-- The text token that a frame comes out with. -/
def emitted : Option TokensOut → Option Int
  | none => none
  | some tokensOut => if textPadIds.contains tokensOut.textId then none else some tokensOut.textId

/-- The text tokens of some frames, in order. -/
def textTokens (outputs : List (Option TokensOut)) : List Int := outputs.filterMap emitted

variable {m : Models σ δ Code Sample} {settings : Settings} {idToPiece : Int → Str} {lmGen : σ}
  {mimi : δ} {userSamples : Nat} {codes : List Code} {outputs : List (Option TokensOut)}

theorem textTokens_append (xs ys : List (Option TokensOut)) :
    textTokens (xs ++ ys) = textTokens xs ++ textTokens ys := List.filterMap_append

/-- A round steps the model and adds the text token of the frame. -/
theorem runFrame_eq (m : Models σ δ Code Sample) (loop : Loop σ δ Sample) (code : Code) :
    (m.runFrame loop code).lmGen = (m.step (m.warmUp loop code) code).1 ∧
      (m.runFrame loop code).firstFrame = false ∧
      (m.runFrame loop code).chunkTextIds =
        loop.chunkTextIds ++ textTokens [(m.step (m.warmUp loop code) code).2] := by
  unfold Models.runFrame
  dsimp only
  cases (m.step (m.warmUp loop code) code).2 with
  | none => exact ⟨rfl, rfl, (List.append_nil _).symm⟩
  | some tokensOut =>
    have hids : (if textPadIds.contains tokensOut.textId then loop.chunkTextIds
        else loop.chunkTextIds ++ [tokensOut.textId]) =
        loop.chunkTextIds ++ textTokens [some tokensOut] := by
      by_cases hpad : textPadIds.contains tokensOut.textId = true
      · have hnone : emitted (some tokensOut) = none := if_pos hpad
        rw [if_pos hpad, textTokens, List.filterMap_cons_none hnone]
        exact (List.append_nil _).symm
      · have hsome : emitted (some tokensOut) = some tokensOut.textId := if_neg hpad
        rw [if_neg hpad, textTokens, List.filterMap_cons_some hsome]
        rfl
    dsimp only
    by_cases haudio : tokensOut.audio.isEmpty = true
    · rw [if_pos haudio]
      exact ⟨rfl, rfl, hids⟩
    · rw [if_neg haudio]
      exact ⟨rfl, rfl, hids⟩

/-- The loop behind the first frame. -/
theorem foldl_runFrame (m : Models σ δ Code Sample) (codes : List Code) (loop : Loop σ δ Sample)
    (h : loop.firstFrame = false) : (codes.foldl m.runFrame loop).chunkTextIds =
      loop.chunkTextIds ++ textTokens (m.outputs loop.lmGen codes) := by
  induction codes generalizing loop with
  | nil => exact (List.append_nil _).symm
  | cons code codes ih =>
    obtain ⟨hlm, hfirst, hids⟩ := runFrame_eq m loop code
    have hwarm : m.warmUp loop code = loop.lmGen := if_neg (by simp [h])
    rw [hwarm] at hlm hids
    rw [List.foldl_cons, ih _ hfirst, hids, hlm, List.append_assoc, ← textTokens_append]
    rfl

/-- The loop collects the text tokens of all frames. -/
theorem chunkTextIds_eq (m : Models σ δ Code Sample) (codes : List Code) (lmGen : σ) (mimi : δ) :
    (codes.foldl m.runFrame (Loop.start lmGen mimi)).chunkTextIds =
      textTokens (m.frameOutputs lmGen codes) := by
  cases codes with
  | nil => rfl
  | cons code codes =>
    obtain ⟨hlm, hfirst, hids⟩ := runFrame_eq m (Loop.start lmGen mimi) code
    rw [List.foldl_cons, foldl_runFrame m codes _ hfirst, hids, hlm, List.append_assoc,
      ← textTokens_append]
    rfl

theorem length_frameOutputs (m : Models σ δ Code Sample) (lmGen : σ) (codes : List Code) :
    (m.frameOutputs lmGen codes).length = codes.length := by
  have houtputs : ∀ (codes : List Code) (lmGen : σ), (m.outputs lmGen codes).length =
      codes.length := by
    intro codes
    induction codes with
    | nil => exact fun _ => rfl
    | cons code codes ih => exact fun lmGen => congrArg Nat.succ (ih _)
  cases codes with
  | nil => rfl
  | cons code codes => exact houtputs _ _

/-! ## The cut -/

/-- The texts of the turn are those of the frames behind the user's and of the user's frames. -/
def TextsMatch (m : Models σ δ Code Sample) (settings : Settings) (lmGen : σ) (mimi : δ)
    (userSamples : Nat) (codes : List Code) : Prop :=
  ∀ idToPiece result, m.runTurn settings idToPiece lmGen mimi userSamples codes = .ok result →
    result.innerText = decodeTextIds idToPiece (textTokens
      ((m.frameOutputs lmGen (settings.allCodes codes)).drop
        (settings.userFrames userSamples codes))) ∧
    result.listenInnerText = decodeTextIds idToPiece (textTokens
      ((m.frameOutputs lmGen (settings.allCodes codes)).take
        (settings.userFrames userSamples codes)))

/-- No frame has a text token, or all frames of the user have one, and some frame behind them. -/
def InStep (outputs : List (Option TokensOut)) (userFrames : Nat) : Prop :=
  (∀ output ∈ outputs, emitted output = none) ∨
    (∀ output ∈ outputs.take userFrames, (emitted output).isSome = true) ∧
      ∃ output ∈ outputs.drop userFrames, (emitted output).isSome = true

theorem length_textTokens_eq_iff : (textTokens outputs).length = outputs.length ↔
    ∀ output ∈ outputs, (emitted output).isSome = true := List.filterMap_length_eq_length

theorem textTokens_eq_nil_iff :
    textTokens outputs = [] ↔ ∀ output ∈ outputs, emitted output = none :=
  List.filterMap_eq_nil_iff

theorem exists_token_iff :
    textTokens outputs ≠ [] ↔ ∃ output ∈ outputs, (emitted output).isSome = true := by
  rw [ne_eq, textTokens_eq_nil_iff, not_forall₂]
  simp only [← Option.isSome_iff_ne_none, exists_prop]

/-- The parts have the right lengths. -/
theorem length_parts_iff {userFrames : Nat} (h : userFrames ≤ outputs.length) :
    (replyTextIds (textTokens outputs) userFrames).length =
    (textTokens (outputs.drop userFrames)).length ∧
        ((textTokens outputs).take userFrames).length =
    (textTokens (outputs.take userFrames)).length ↔
      InStep outputs userFrames := by
  have hsplit : textTokens outputs =
      textTokens (outputs.take userFrames) ++ textTokens (outputs.drop userFrames) := by
    rw [← textTokens_append, List.take_append_drop]
  have hlen := congrArg List.length hsplit
  rw [List.length_append] at hlen
  have htake : (outputs.take userFrames).length = userFrames := List.length_take_of_le h
  have hle : (textTokens (outputs.take userFrames)).length ≤ userFrames := by
    calc (textTokens (outputs.take userFrames)).length ≤ (outputs.take userFrames).length :=
          List.length_filterMap_le emitted _
      _ = userFrames := htake
  unfold InStep
  rw [← textTokens_eq_nil_iff, ← length_textTokens_eq_iff, ← exists_token_iff, htake,
    ← List.length_eq_zero_iff, ← List.length_pos_iff, List.length_take]
  unfold replyTextIds
  split_ifs with hlt
  · rw [List.length_drop]
    omega
  · omega

/-- Right lengths make them the right parts. -/
theorem parts_of_inStep {userFrames : Nat} (h : userFrames ≤ outputs.length)
    (hstep : InStep outputs userFrames) :
    replyTextIds (textTokens outputs) userFrames = textTokens (outputs.drop userFrames) ∧
      (textTokens outputs).take userFrames = textTokens (outputs.take userFrames) := by
  have hsplit : textTokens outputs =
      textTokens (outputs.take userFrames) ++ textTokens (outputs.drop userFrames) := by
    rw [← textTokens_append, List.take_append_drop]
  rcases hstep with hnone | ⟨hall, hsome⟩
  · have hnil := textTokens_eq_nil_iff.2 hnone
    rw [hnil] at hsplit
    obtain ⟨htake, hdrop⟩ := List.append_eq_nil_iff.1 hsplit.symm
    rw [hnil, htake, hdrop]
    exact ⟨by unfold replyTextIds; split_ifs <;> simp, List.take_nil⟩
  · have htake : (textTokens (outputs.take userFrames)).length = userFrames :=
      (length_textTokens_eq_iff.2 hall).trans (List.length_take_of_le h)
    have hpos := List.length_pos_iff.2 (exists_token_iff.2 hsome)
    have hlt : userFrames < (textTokens outputs).length := by
      rw [hsplit, List.length_append, htake]
      omega
    refine ⟨?_, ?_⟩
    · unfold replyTextIds
      rw [if_pos hlt, hsplit]
      exact List.drop_left' htake
    · rw [hsplit]
      exact List.take_left' htake

theorem textTokens_not_pad : ∀ tid ∈ textTokens outputs, textPadIds.contains tid = false := by
  intro tid htid
  obtain ⟨output, -, hemitted⟩ := List.mem_filterMap.1 htid
  cases output with
  | none => cases hemitted
  | some tokensOut =>
    unfold emitted at hemitted
    dsimp only at hemitted
    split_ifs at hemitted with hpad
    rw [← Option.some.inj hemitted]
    exact Bool.eq_false_iff.2 hpad

theorem mem_of_mem_replyTextIds {ids : List Int} {userFrames : Nat} {tid : Int}
    (h : tid ∈ replyTextIds ids userFrames) : tid ∈ ids := by
  unfold replyTextIds at h
  split_ifs at h
  · exact List.mem_of_mem_drop h
  · exact h

/-- With a tokenizer of one piece, a text tells how many ids it decodes. -/
theorem length_decodeTextIds {ids : List Int} (h : ∀ tid ∈ ids, textPadIds.contains tid = false) :
    (decodeTextIds (fun _ => ['x']) ids).length = ids.length := by
  have hfilter : (ids.filter fun tid => !textPadIds.contains tid) = ids := by
    apply List.filter_eq_self.2
    intro tid htid
    rw [h tid htid]
    rfl
  have hpiece : replace "▁" " " ['x'] = ['x'] := by decide
  have hpieces : ∀ ids : List Int, (ids.map fun _ => replace "▁" " " ['x']).flatten =
      List.replicate ids.length 'x' := by
    intro ids
    induction ids with
    | nil => rfl
    | cons tid ids ih =>
      rw [List.map_cons, List.flatten_cons, ih, hpiece]
      rfl
  unfold decodeTextIds
  rw [hfilter, hpieces, strip_eq_self, List.length_replicate]
  intro c hc
  rw [List.eq_of_mem_replicate hc]
  decide

/-- What a turn returns as its texts. -/
theorem runTurn_texts {result : OmniRunResult Sample}
    (h : m.runTurn settings idToPiece lmGen mimi userSamples codes = .ok result) :
    result.innerText = decodeTextIds idToPiece (replyTextIds
        (textTokens (m.frameOutputs lmGen (settings.allCodes codes)))
        (settings.userFrames userSamples codes)) ∧
      result.listenInnerText = decodeTextIds idToPiece
        ((textTokens (m.frameOutputs lmGen (settings.allCodes codes))).take
          (settings.userFrames userSamples codes)) := by
  unfold Models.runTurn at h
  dsimp only at h
  split_ifs at h
  rw [← chunkTextIds_eq m (settings.allCodes codes) lmGen mimi, ← Except.ok.inj h]
  exact ⟨rfl, rfl⟩

/-- A turn returns if there is enough audio behind the frames of the user. -/
theorem runTurn_of_length (h : 1200 ≤
      ((((settings.allCodes codes).foldl m.runFrame (Loop.start lmGen mimi)).outChunks.flatten.drop
        (min (settings.userFrames userSamples codes * settings.frameSize)
          (((settings.allCodes codes).foldl m.runFrame
            (Loop.start lmGen mimi)).outChunks.flatten.length - 1))).take
        settings.maxReplySamples).length) :
    Returns (m.runTurn settings idToPiece lmGen mimi userSamples codes) := by
  have hchunks :
      ¬ ((settings.allCodes codes).foldl m.runFrame (Loop.start lmGen mimi)).outChunks.isEmpty =
        true := by
    intro hempty
    rw [List.isEmpty_iff.1 hempty] at h
    simp at h
  unfold Models.runTurn
  dsimp only
  rw [if_neg hchunks, if_neg (Nat.not_lt.2 h)]
  exact returns_ok _

/-- The tokenizer does not decide whether a turn returns. -/
theorem runTurn_returns {idToPiece' : Int → Str}
    (h : Returns (m.runTurn settings idToPiece lmGen mimi userSamples codes)) :
    Returns (m.runTurn settings idToPiece' lmGen mimi userSamples codes) := by
  unfold Models.runTurn at h ⊢
  dsimp only at h ⊢
  split_ifs at h ⊢
  · exact absurd h (not_returns_error _)
  · exact absurd h (not_returns_error _)
  · exact returns_ok _

/-- The texts of a turn are the right ones exactly if the model talks in step with the user. -/
theorem textsMatch_iff (h : Returns (m.runTurn settings idToPiece lmGen mimi userSamples codes)) :
    TextsMatch m settings lmGen mimi userSamples codes ↔
      InStep (m.frameOutputs lmGen (settings.allCodes codes))
        (settings.userFrames userSamples codes) := by
  have hle : settings.userFrames userSamples codes ≤
      (m.frameOutputs lmGen (settings.allCodes codes)).length := by
    rw [length_frameOutputs]
    exact Nat.min_le_right _ _
  constructor
  · intro hmatch
    -- a tokenizer of one piece sees the lengths
    have hreturns : Returns (m.runTurn settings (fun _ => ['x']) lmGen mimi userSamples codes) :=
      runTurn_returns h
    obtain ⟨result, hresult⟩ := hreturns
    obtain ⟨hinner, hlisten⟩ := hmatch _ _ hresult
    obtain ⟨hinner', hlisten'⟩ := runTurn_texts hresult
    rw [hinner'] at hinner
    rw [hlisten'] at hlisten
    have hreply := congrArg List.length hinner
    have hheard := congrArg List.length hlisten
    rw [length_decodeTextIds fun tid htid => textTokens_not_pad tid (mem_of_mem_replyTextIds htid),
      length_decodeTextIds textTokens_not_pad] at hreply
    rw [length_decodeTextIds fun tid htid => textTokens_not_pad tid (List.mem_of_mem_take htid),
      length_decodeTextIds textTokens_not_pad] at hheard
    exact (length_parts_iff hle).1 ⟨hreply, hheard⟩
  · intro hstep idToPiece result hresult
    obtain ⟨hreply, hlisten⟩ := parts_of_inStep hle hstep
    obtain ⟨hinner', hlisten'⟩ := runTurn_texts hresult
    rw [hinner', hlisten', hreply, hlisten]
    exact ⟨rfl, rfl⟩

/-- A model that follows a script, and a codec with frames of 80 ms. -/
def scripted : Models (List (Option TokensOut)) Unit Unit Unit where
  step := fun script _ => (script.tail, script.headD none)
  decode := fun _ _ => ((), List.replicate 1920 ())

def settings24k : Settings where
  frameSize := 1920
  frameSize_pos := by decide
  maxFrames := none
  maxReplySamples := 72000

/-- A step with this text token, and with audio. -/
def said (tid : Int) : Option TokensOut := some ⟨tid, [1]⟩

def letters (tid : Int) : Str := if tid = 5 then "▁a" else if tid = 6 then "▁b" else "▁c"

theorem talking_returns (idToPiece : Int → Str) : Returns
    (scripted.runTurn settings24k idToPiece [none, said 5, said 6, said 7] () 1920
      [(), (), ()]) := by
  apply runTurn_of_length
  have hchunks : ((settings24k.allCodes [(), (), ()]).foldl scripted.runFrame
      (Loop.start [none, said 5, said 6, said 7] ())).outChunks =
      [List.replicate 1920 (), List.replicate 1920 (), List.replicate 1920 ()] := rfl
  have hframes : settings24k.userFrames 1920 [(), (), ()] = 1 := rfl
  rw [hchunks, hframes]
  simp only [settings24k, List.flatten_cons, List.flatten_nil, List.length_take, List.length_drop,
    List.length_append, List.length_replicate, List.length_nil, -List.reduceReplicate]
  decide

theorem silent_returns (idToPiece : Int → Str) : Returns
    (scripted.runTurn settings24k idToPiece [none, said 3, said 3, said 5, said 6, said 7] () 3840
      [(), (), (), (), ()]) := by
  apply runTurn_of_length
  have hchunks : ((settings24k.allCodes [(), (), (), (), ()]).foldl scripted.runFrame
      (Loop.start [none, said 3, said 3, said 5, said 6, said 7] ())).outChunks =
      [List.replicate 1920 (), List.replicate 1920 (), List.replicate 1920 (),
        List.replicate 1920 (), List.replicate 1920 ()] := rfl
  have hframes : settings24k.userFrames 3840 [(), (), (), (), ()] = 2 := rfl
  rw [hchunks, hframes]
  simp only [settings24k, List.flatten_cons, List.flatten_nil, List.length_take, List.length_drop,
    List.length_append, List.length_replicate, List.length_nil, -List.reduceReplicate]
  decide

/-- The model talks from the first frame on. -/
theorem textsMatch_talking :
    TextsMatch scripted settings24k [none, said 5, said 6, said 7] () 1920 [(), (), ()] :=
  (textsMatch_iff (talking_returns letters)).2 (.inr ⟨by decide, by decide⟩)

/-- The model is silent for the two frames of the user, and then says three words. -/
theorem pads_shift :
    (∃ result, scripted.runTurn settings24k letters [none, said 3, said 3, said 5, said 6, said 7]
      () 3840
        [(), (), (), (), ()] = .ok result ∧ result.innerText = ['c'] ∧
        result.listenInnerText = "a b".toList) ∧
      ¬ TextsMatch scripted settings24k [none, said 3, said 3, said 5, said 6, said 7] () 3840
        [(), (), (), (), ()] := by
  obtain ⟨result, hresult⟩ := silent_returns letters
  obtain ⟨hinner, hlisten⟩ := runTurn_texts hresult
  have hreply : result.innerText = ['c'] := hinner.trans (by decide)
  refine ⟨⟨result, hresult, hreply, hlisten.trans (by decide)⟩, ?_⟩
  intro h
  have hmatch := (h letters result hresult).1
  rw [hreply] at hmatch
  exact absurd hmatch (by decide)

end AiPipelines.Moshi
