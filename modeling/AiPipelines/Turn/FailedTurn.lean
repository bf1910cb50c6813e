import AiPipelines.Turn.Frame

/-!
# Turns that end in an error

What a failed turn leaves behind.  The turn itself is recorded only at the end,
but the tool `remember` writes to the memory of the cached session object at
once, and nothing takes that back when a later call of the language model or the
speech synthesis raises.  The next request sees the new memory, and the file on
disk does not have it.  In the same way the turn itself stays in the object when
saving it raises.

* `Unchanged` says that later requests see the session as it was and that the
  cached session is still the one on disk.
* `rememberCalls` are the pairs that a request stores, read off the outputs of
  the language model with the agent's own parser, and `reachesSave` tells in the
  same way whether its turn is recorded at all.
* `failedTurn_unchanged_iff` proves that a failed turn leaves the session as it
  was exactly when it fails before its turn is recorded, and the last of these
  pairs for each key has the value that the memory had before.
  `rememberThenFail_changes` is a turn that breaks it.
-/

namespace AiPipelines.Turn

open PyStd SessionStore Agent

/-! ## What later requests see -/

/-- The session that `sessions.get` finds. -/
def seen (st : Store) (id : Str) : Option Session :=
  match st.cache.get? id with
  | some r => st.deref r
  | none => st.saved id

/-- The cached session is the one on disk. -/
def Synced (st : Store) (id : Str) : Prop :=
  ∀ r, st.cache.get? id = some r → st.deref r = st.saved id

/-- A request left the session as it was. -/
structure Unchanged (id : Str) (st st' : Store) : Prop where
  seen : seen st' id = seen st id
  synced : Synced st id → Synced st' id

theorem Unchanged.refl (id : Str) (st : Store) : Unchanged id st st := ⟨rfl, fun h => h⟩

/-- The object `r` is the cached session that `get` found. -/
structure Got (id : Str) (st : Store) (r : Ref) (st₁ : Store) : Prop where
  cached : st₁.cache.get? id = some r
  found : st₁.deref r = seen st id
  unchanged : Unchanged id st st₁

variable {id : Str} {st st₁ st' : Store} {r : Ref}

theorem Got.same (h : Got id st r st₁) (hsame : st₁.SameSessions st') : Got id st r st' := by
  have hseen : seen st' id = seen st₁ id := by
    unfold seen
    rw [hsame.cache, h.cached]
    show st'.heap[r]? = st₁.heap[r]?
    rw [hsame.heap]
  refine ⟨hsame.cache ▸ h.cached, ?_, hseen.trans h.unchanged.seen, ?_⟩
  · rw [← h.found]
    show st'.heap[r]? = st₁.heap[r]?
    rw [hsame.heap]
  · intro hs r' hr'
    rw [hsame.cache] at hr'
    have := h.unchanged.synced hs r' hr'
    rw [hsame.saved id, ← this]
    show st'.heap[r']? = st₁.heap[r']?
    rw [hsame.heap]

/-- A session that was not cached is read from disk. -/
theorem Got.load {s : Session} (hc : st.cache.get? id = none) (hs : st.saved id = some s) :
    Got id st (st.alloc s).2
      { (st.alloc s).1 with cache := (st.alloc s).1.cache.set id (st.alloc s).2 } := by
  have hcached : ((st.alloc s).1.cache.set id (st.alloc s).2).get? id = some (st.alloc s).2 :=
    Dict.get?_set_self _ _ _
  have hderef : (st.alloc s).1.deref (st.alloc s).2 = some s := Store.deref_alloc st s
  have hseen : seen st id = some s := by rw [seen, hc, hs]
  refine ⟨hcached, hderef.trans hseen.symm, ?_, ?_⟩
  · rw [hseen, seen]
    simp only [hcached]
    exact hderef
  · intro _ r hr
    rw [hcached] at hr
    cases hr
    exact hderef.trans hs.symm

/-- `get` returns the session that is seen, or nothing and changes nothing. -/
theorem getSession_got (id : Str) (st : Store) :
    Eff.Outcome (fun found st₁ => match found with
        | some r => Got id st r st₁
        | none => st₁ = st ∧ seen st id = none)
      (fun _ st₁ => st₁ = st ∧ seen st id = none) (getSession id st).2 (getSession id st).1 := by
  cases hc : st.cache.get? id with
  | some r =>
    simp only [getSession, getFrom, Store.getStep, hc]
    exact ⟨hc, by rw [seen, hc], .refl id st⟩
  | none =>
    have hseen : seen st id = st.saved id := by rw [seen, hc]
    cases he : st.entry id sessionJson with
    | none =>
      simp only [getSession, getFrom, Store.getStep, hc, he]
      exact ⟨rfl, by rw [hseen, Store.saved, he]⟩
    | some n =>
      cases hf : n.isFile with
      | false =>
        simp only [getSession, getFrom, Store.getStep, hc, he, hf, Bool.false_eq_true, if_false]
        refine ⟨rfl, ?_⟩
        cases n with
        | folder => rw [hseen, Store.saved, he]
        | session s => cases hf
        | raw => cases hf
      | true =>
        cases hs : st.saved id with
        | none =>
          simp only [getSession, getFrom, Store.getStep, hc, he, hf, hs, if_true]
          exact ⟨rfl, hseen.trans hs⟩
        | some s =>
          simp only [getSession, getFrom, Store.getStep, hc, he, hf, hs, if_true]
          exact .load hc hs

/-- The four steps of `_require_session`. -/
theorem requireSession_got {E : LlmCall → Prop} {X : HttpError → Store → Prop}
    (hX : ∀ e, seen st id = none → X e st) :
    Eff.Triple (fun s => s = st) (requireSession id) E (fun r => Got id st r) X := by
  unfold requireSession
  refine Eff.Triple.bind (R := fun found st₁ => match found with
    | some r => Got id st r st₁
    | none => st₁ = st ∧ seen st id = none) ?_ fun found => ?_
  · apply Eff.Triple.act
    intro s hs
    rw [hs]
    have hgot := getSession_got id st
    cases hr : (getSession id st).1 with
    | ok found =>
      rw [hr] at hgot
      exact hgot
    | error e =>
      rw [hr] at hgot
      obtain ⟨hst, hnone⟩ := hgot
      show X e (getSession id st).2
      rw [hst]
      exact hX e hnone
  · cases found with
    | some r => exact Eff.Triple.pure fun _ h => h
    | none =>
      apply Eff.Triple.raise
      intro s hs
      rw [hs.1]
      exact hX _ hs.2

/-! ## After a failure -/

/-- When only the memory was touched, the session is unchanged exactly if the
memory is. -/
theorem unchanged_iff_of_touched {s : Session} {mem : Memory} (hgot : Got id st r st₁)
    (hs : st₁.deref r = some s) (h : Touched id st₁ r mem st') :
    Unchanged id st st' ↔ mem = s.agentMemory := by
  have hcached : st'.cache.get? id = some r := by rw [h.cache, hgot.cached]
  have hbefore : seen st id = some s := hgot.found.symm.trans hs
  have hafter : seen st' id = some { s with agentMemory := mem } := by
    unfold seen
    rw [hcached]
    exact h.deref hs
  constructor
  · intro hun
    have heq := hun.seen
    rw [hafter, hbefore] at heq
    exact congrArg Session.agentMemory (Option.some.inj heq)
  · intro hmem
    subst hmem
    refine ⟨hafter.trans hbefore.symm, ?_⟩
    intro hsync r' hr'
    rw [hcached] at hr'
    cases hr'
    rw [h.deref hs, h.saved id, ← hgot.unchanged.synced hsync r hgot.cached]
    exact hs.symm

/-- The pairs that a turn stores. -/
def rememberCalls (v : PipelineService) (w : TurnWorld) : TurnRequest → List (Str × Str)
  | .voice _ _ llmModel toolsEnabled =>
    if w.makeDir.isOk && w.spool.isOk then
      voiceRemembers v w llmModel (parseFormBool toolsEnabled true)
    else []
  | .text _ text llmModel toolsEnabled _ =>
    if w.makeDir.isOk then v.remembers w (.text (strip text)) llmModel toolsEnabled else []

/-- Whether the turn comes to `_save_turn_and_respond`: every stage before it
returns. -/
def reachesSave (v : PipelineService) (w : TurnWorld) : TurnRequest → Bool
  | .voice _ _ llmModel toolsEnabled =>
    w.makeDir.isOk && w.spool.isOk &&
      (voiceReturns v w llmModel (parseFormBool toolsEnabled true) && w.unlink.isOk)
  | .text _ text llmModel toolsEnabled speakReply =>
    w.makeDir.isOk && v.returns w (.text (strip text)) llmModel toolsEnabled speakReply

/-- What is true of the store after a failed turn that would store `calls`, and was
recorded or not. -/
def FailedWith (id : Str) (st : Store) (calls : List (Str × Str)) (recorded : Bool)
    (st' : Store) : Prop :=
  Unchanged id st st' ↔
    ∀ s, seen st id = some s → recorded = false ∧ s.agentMemory.update calls = s.agentMemory

theorem FailedWith.nothing (h : Unchanged id st st') : FailedWith id st [] false st' :=
  ⟨fun _ _ _ => ⟨rfl, rfl⟩, fun _ => h⟩

theorem FailedWith.noSession {calls : List (Str × Str)} {recorded : Bool}
    (h : seen st id = none) : FailedWith id st calls recorded st := by
  refine ⟨?_, fun _ => .refl id st⟩
  intro _ s hs
  rw [h] at hs
  cases hs

theorem FailedWith.touched {s : Session} {calls : List (Str × Str)} {recorded : Bool}
    (hgot : Got id st r st₁) (hs : st₁.deref r = some s)
    (h : Touched id st₁ r (s.agentMemory.update calls) st') (hrecorded : recorded = false) :
    FailedWith id st calls recorded st' := by
  have hbefore : seen st id = some s := hgot.found.symm.trans hs
  unfold FailedWith
  rw [unchanged_iff_of_touched hgot hs h]
  constructor
  · intro heq s' hs'
    rw [hbefore] at hs'
    cases hs'
    exact ⟨hrecorded, heq⟩
  · intro hall
    exact (hall s hbefore).2

/-! ## The save -/

/-- The session is cached with these turns. -/
def HasTurns (id : Str) (r : Ref) (turns : List TurnRecord) (st : Store) : Prop :=
  st.cache.get? id = some r ∧ ∃ s, st.deref r = some s ∧ s.turns = turns

/-- `sessions.update` keeps the turns of the cached object, also when it raises. -/
theorem updateSession_hasTurns {E : LlmCall → Prop} {w : TurnWorld} {turns : List TurnRecord} :
    Eff.Triple (HasTurns id r turns) (updateSession w r) E (fun _ => HasTurns id r turns)
      fun _ => HasTurns id r turns := by
  apply Eff.Triple.act
  rintro st ⟨hcached, s, hs, hturns⟩
  have hstamped : (st.mutate r fun s => { s with updatedAt := w.updatedAt }).deref r =
      some { s with updatedAt := w.updatedAt } := by
    rw [Store.deref_mutate, hs]
    rfl
  have hkept : HasTurns id r turns
      { st.mutate r fun s => { s with updatedAt := w.updatedAt } with
        cache := st.cache.set s.sessionId r } := by
    refine ⟨?_, _, hstamped, hturns⟩
    rw [Dict.get?_set]
    split_ifs
    · rfl
    · exact hcached
  simp only [Store.update, hstamped, Option.map_some]
  cases saveEnd w { s with updatedAt := w.updatedAt } with
  | saved => exact hkept
  | raised opened => exact hkept

/-- However the save ends, the turn is in the cached session. -/
theorem saveTurnAndRespond_hasTurns {E : LlmCall → Prop} {v : PipelineService} {w : TurnWorld}
    {i : TurnInfo} {turns : List TurnRecord} :
    Eff.Triple (HasTurns id r turns) (saveTurnAndRespond v w r i) E
      (fun _ => HasTurns id r (turns ++ [i.record w]))
      fun _ => HasTurns id r (turns ++ [i.record w]) := by
  unfold saveTurnAndRespond
  refine Eff.Triple.bind (R := fun _ => HasTurns id r (turns ++ [i.record w])) ?_ fun _ => ?_
  · apply Eff.Triple.modify
    rintro st ⟨hcached, s, hs, hturns⟩
    refine ⟨hcached, { s with turns := s.turns ++ [i.record w] }, ?_, by rw [hturns]⟩
    rw [Store.deref_mutate, hs]
    rfl
  · refine Eff.Triple.bind updateSession_hasTurns fun s => ?_
    exact Eff.Triple.ofExcept_bind (fun _ _ => Eff.Triple.pure fun _ h => h) fun _ _ _ h => h

/-- A turn that is recorded changes the session. -/
theorem not_unchanged_of_hasTurns {s : Session} {t : TurnRecord} (hseen : seen st id = some s)
    (h : HasTurns id r (s.turns ++ [t]) st') : ¬ Unchanged id st st' := by
  intro hun
  obtain ⟨hcached, s', hs', hturns⟩ := h
  have hafter : seen st' id = some s' := by
    rw [seen, hcached]
    exact hs'
  have hsame := hun.seen
  rw [hafter, hseen, Option.some.injEq] at hsame
  rw [hsame] at hturns
  have hlen := congrArg List.length hturns
  rw [List.length_append, List.length_singleton] at hlen
  omega

/-! ## The two routes -/

/-- The memory of the session is a dictionary: no key is there twice. -/
def MemoryValid (id : Str) (st : Store) : Prop :=
  ∀ s, seen st id = some s → s.agentMemory.keys.Nodup

theorem mkdir_dir (st : Store) (id : Str) : ((st.mkdir id).disk.get? id).isSome := by
  unfold Store.mkdir
  cases hd : st.disk.get? id with
  | some d => rw [hd]; rfl
  | none =>
    show ((st.disk.set id []).get? id).isSome
    rw [Dict.get?_set_self]
    rfl

/-- The part of both routes that fetches the session, with what follows it. -/
theorem withSession_failed {β : Type} {calls : List (Str × Str)} {recorded : Bool}
    {w : TurnWorld} {f : Session → HandlerProg β} (hvalid : MemoryValid id st)
    (hdir : ∀ e, w.makeDir = .error e → calls = [] ∧ recorded = false)
    (hf : w.makeDir.isOk = true → ∀ st₁ s, Got id st r st₁ → st₁.deref r = some s →
      s.agentMemory.keys.Nodup →
      Eff.Triple (Touched id st₁ r s.agentMemory) (f s) (fun _ => True) (fun _ _ => True)
        fun _ => FailedWith id st calls recorded) :
    Eff.Triple (Got id st r)
      (do
        sessionAudioDir w id
        let s ← sessionAt r
        f s)
      (fun _ => True) (fun _ _ => True) fun _ => FailedWith id st calls recorded := by
  refine Eff.Triple.bind_fact (S := fun _ st₁ => w.makeDir.isOk = true ∧ Got id st r st₁ ∧
    (st₁.disk.get? id).isSome) ?_ (fun _ _ h => h) fun _ hok => ?_
  · apply sessionAudioDir_triple
    · intro hok st₁ hgot
      exact ⟨hok, hgot.same (Store.mkdir_same st₁ id), mkdir_dir st₁ id⟩
    · intro e he st₁ hgot
      obtain ⟨hcalls, hrecorded⟩ := hdir e he
      rw [hcalls, hrecorded]
      exact .nothing hgot.unchanged
  · apply Eff.Triple.ghost
    intro st₁ hst₁
    obtain ⟨hgot, hdir⟩ := hst₁
    cases hs : st₁.deref r with
    | none =>
      refine Eff.Triple.bind (R := fun _ _ => False) ?_ fun _ _ h => h.elim
      refine Eff.Triple.bind Eff.Triple.read fun st₂ => ?_
      refine Eff.Triple.assume (φ := st₂ = st₁) (fun _ h => h.1.trans h.2) fun hst₂ => ?_
      rw [hst₂, hs]
      apply Eff.Triple.raise
      intro st₃ hst₃
      have hnone : seen st id = none := hgot.found.symm.trans hs
      rw [hst₃.2]
      refine ⟨?_, fun _ => hgot.unchanged⟩
      intro _ s hs'
      rw [hnone] at hs'
      cases hs'
    | some s =>
      refine Eff.Triple.bind (R := fun s' st₂ => s' = s ∧ st₂ = st₁) ?_ fun s' => ?_
      · refine Eff.Triple.bind Eff.Triple.read fun st₂ => ?_
        refine Eff.Triple.assume (φ := st₂ = st₁) (fun _ h => h.1.trans h.2) fun hst₂ => ?_
        rw [hst₂, hs]
        apply Eff.Triple.pure
        intro st₃ hst₃
        exact ⟨rfl, hst₃.2⟩
      · refine Eff.Triple.assume (fun _ h => h.1) fun hs' => ?_
        rw [hs']
        refine Eff.Triple.conseq (hf hok st₁ s hgot hs (hvalid s (hgot.found.symm.trans hs))) ?_
          fun _ _ h => h
        intro st₂ hst₂
        rw [hst₂.2]
        exact .start hs hdir

/-- Behind the `try` block the turn is recorded, whether it is saved or not. -/
theorem saveTurn_failed {calls : List (Str × Str)} {recorded : Bool} {s : Session} {mem : Memory}
    (hgot : Got id st r st₁) (hs : st₁.deref r = some s) {v : PipelineService} {w : TurnWorld}
    {i : TurnInfo} :
    Eff.Triple (fun st' => Touched id st₁ r mem st' ∧ recorded = true) (saveTurnAndRespond v w r i)
      (fun _ => True) (fun _ _ => True) fun _ => FailedWith id st calls recorded := by
  refine Eff.Triple.assume (fun _ h => h.2) fun hrecorded => ?_
  have hseen : seen st id = some s := hgot.found.symm.trans hs
  have hsave : Eff.Triple (HasTurns id r s.turns) (saveTurnAndRespond v w r i) (fun _ => True)
      (fun _ => HasTurns id r (s.turns ++ [i.record w]))
      fun _ => HasTurns id r (s.turns ++ [i.record w]) := saveTurnAndRespond_hasTurns
  refine Eff.Triple.weaken (Eff.Triple.conseq hsave ?_ fun _ _ h => h) (fun _ _ _ => trivial) ?_
  · rintro st' ⟨h, -⟩
    exact ⟨h.cache ▸ hgot.cached, _, h.deref hs, rfl⟩
  · intro _ st' h
    refine ⟨fun hun => absurd hun (not_unchanged_of_hasTurns hseen h), ?_⟩
    intro hall
    have hnot := (hall s hseen).1
    rw [hrecorded] at hnot
    cases hnot

variable {v : PipelineService} {w : TurnWorld}

theorem not_ready_remembers {input : TurnInput} {llmModel : Option Str} {tools : Bool}
    {e : HttpError} (h : requireReady v = .error e) : v.remembers w input llmModel tools = [] := by
  unfold requireReady at h
  unfold PipelineService.remembers
  cases hready : v.ready with
  | true => rw [hready] at h; cases h
  | false => rfl

theorem not_ready_returns {input : TurnInput} {llmModel : Option Str} {tools spoken : Bool}
    {e : HttpError} (h : requireReady v = .error e) :
    v.returns w input llmModel tools spoken = false := by
  unfold requireReady at h
  unfold PipelineService.returns
  cases hready : v.ready with
  | true => rw [hready] at h; cases h
  | false => rfl

theorem isOk_of_mapError {α : Type} {x : Except Exc α} {f : Exc → HttpError} {a : α}
    (h : x.mapError f = .ok a) : x.isOk = true := by
  cases x with
  | ok a => rfl
  | error e => cases h

theorem not_isOk_of_mapError {α : Type} {x : Except Exc α} {f : Exc → HttpError} {e : HttpError}
    (h : x.mapError f = .error e) : x.isOk = false := by
  cases x with
  | ok a => cases h
  | error e => rfl

/-- The `try` statement of `post_turn` with its clauses. -/
theorem tryVoice_ends {s s' : Session} {mem : Memory} {suffix : Str} {llmModel : Option Str}
    {useTools : Bool} (hs : st₁.deref r = some s) (hmem : mem.keys.Nodup) :
    Eff.Triple (Touched id st₁ r mem)
      (Eff.withCleanup (w.unlink.mapError fun _ => internalError)
        (Eff.reraise httpError (voiceTurn v w r id suffix s' llmModel useTools)))
      (fun _ => True)
      (fun _ st' => Touched id st₁ r (mem.update (voiceRemembers v w llmModel useTools)) st' ∧
        (voiceReturns v w llmModel useTools && w.unlink.isOk) = true)
      fun _ st' => Touched id st₁ r (mem.update (voiceRemembers v w llmModel useTools)) st' ∧
        (voiceReturns v w llmModel useTools && w.unlink.isOk) = false := by
  have htry : Eff.Triple (Touched id st₁ r mem)
      (Eff.reraise httpError (voiceTurn v w r id suffix s' llmModel useTools)) (fun _ => True)
      (fun _ st' => Touched id st₁ r (mem.update (voiceRemembers v w llmModel useTools)) st' ∧
        voiceReturns v w llmModel useTools = true)
      fun _ st' => Touched id st₁ r (mem.update (voiceRemembers v w llmModel useTools)) st' ∧
        voiceReturns v w llmModel useTools = false :=
    Eff.Triple.reraise ((voiceTurn_touched hs hmem).and (voiceTurn_returns hs hmem))
  refine Eff.Triple.withCleanup htry ?_ ?_ ?_
  · intro hunlink _ _ h
    rw [h.2, isOk_of_mapError hunlink]
    exact ⟨h.1, rfl⟩
  · intro _ _ _ h
    exact ⟨h.1, by rw [h.2, Bool.false_and]⟩
  · intro _ hunlink _ h
    rw [not_isOk_of_mapError hunlink, Bool.and_false]
    rcases h with ⟨_, h, -⟩ | ⟨_, h, -⟩
    · exact ⟨h, rfl⟩
    · exact ⟨h, rfl⟩

theorem postTurn_failed {upload llmModel toolsEnabled : Option Str} (hvalid : MemoryValid id st) :
    Eff.Triple (fun s => s = st) (postTurn v w id upload llmModel toolsEnabled) (fun _ => True)
      (fun _ _ => True)
      fun _ => FailedWith id st (rememberCalls v w (.voice id upload llmModel toolsEnabled))
        (reachesSave v w (.voice id upload llmModel toolsEnabled)) := by
  unfold postTurn
  refine Eff.Triple.bind (requireSession_got fun _ h => .noSession h) fun r => ?_
  apply Eff.Triple.ofExcept_bind
  · intro _ _
    apply withSession_failed hvalid
    · intro e he
      simp [rememberCalls, reachesSave, he, Except.isOk, Except.toBool]
    · intro hdir st₁ s hgot hs hmem
      rw [rememberCalls, reachesSave, hdir, Bool.true_and]
      apply Eff.Triple.ofExcept_bind
      · intro _ hspool
        rw [isOk_of_mapError hspool, if_pos rfl, Bool.true_and]
        refine Eff.Triple.bind (Eff.Triple.weaken (tryVoice_ends hs hmem) (fun _ _ h => h)
          fun _ _ h => .touched hgot hs h.1 h.2) fun profile => ?_
        exact saveTurn_failed hgot hs
      · intro e hspool st' h
        rw [not_isOk_of_mapError hspool, if_neg Bool.false_ne_true, Bool.false_and]
        exact .touched hgot hs h rfl
  · intro e he st' h
    have hnil : rememberCalls v w (.voice id upload llmModel toolsEnabled) = [] := by
      have hrem : v.remembers w .voice llmModel (parseFormBool toolsEnabled true) = [] :=
        not_ready_remembers he
      simp only [rememberCalls, voiceRemembers, hrem]
      cases w.copy <;> cases w.prepare <;> exact ite_self _
    have hnot : reachesSave v w (.voice id upload llmModel toolsEnabled) = false := by
      rw [reachesSave, voiceReturns, not_ready_returns he, Bool.and_false, Bool.false_and,
        Bool.and_false]
    rw [hnil, hnot]
    exact .nothing h.unchanged

theorem blank_of_requireText {text : Str} {e : HttpError} (h : requireText text = .error e) :
    strip text = [] := by
  unfold requireText at h
  split_ifs at h with hblank
  exact hblank

theorem postTextTurn_failed {text : Str} {llmModel : Option Str} {toolsEnabled speakReply : Bool}
    (hvalid : MemoryValid id st) :
    Eff.Triple (fun s => s = st) (postTextTurn v w id text llmModel toolsEnabled speakReply)
      (fun _ => True) (fun _ _ => True)
      fun _ => FailedWith id st
        (rememberCalls v w (.text id text llmModel toolsEnabled speakReply))
        (reachesSave v w (.text id text llmModel toolsEnabled speakReply)) := by
  unfold postTextTurn
  refine Eff.Triple.bind (requireSession_got fun _ h => .noSession h) fun r => ?_
  apply Eff.Triple.ofExcept_bind
  · intro _ _
    apply Eff.Triple.ofExcept_bind
    · intro _ _
      apply withSession_failed hvalid
      · intro e he
        simp [rememberCalls, reachesSave, he, Except.isOk, Except.toBool]
      · intro hdir st₁ s hgot hs hmem
        have hname := spokenName_ne (s.turns.length + 1) speakReply
        have hreaches : reachesSave v w (.text id text llmModel toolsEnabled speakReply) =
            v.returns w (.text (strip text)) llmModel toolsEnabled (if speakReply then
              some (AudioFile.reply.name (s.turns.length + 1)) else none).isSome := by
          rw [spokenName_isSome, reachesSave, hdir, Bool.true_and]
        rw [hreaches, rememberCalls, hdir, if_pos rfl]
        refine Eff.Triple.bind (Eff.Triple.reraise (Eff.Triple.weaken
          ((runTurn_touched hs hmem hname).and (runTurn_returns hs hmem hname)) (fun _ _ h => h)
          fun _ _ h => .touched hgot hs h.1 h.2)) fun profile => ?_
        exact saveTurn_failed hgot hs
    · intro e he st' h
      have hnil : rememberCalls v w (.text id text llmModel toolsEnabled speakReply) = [] := by
        have htext := blank_of_requireText he
        simp only [rememberCalls, PipelineService.remembers, stagedRemembers, hear, htext]
        cases v.ready <;> cases v.resolve w llmModel <;> exact ite_self _
      have hnot : reachesSave v w (.text id text llmModel toolsEnabled speakReply) = false := by
        have htext := blank_of_requireText he
        have hret : v.returns w (.text (strip text)) llmModel toolsEnabled speakReply = false := by
          simp only [PipelineService.returns, stagedReturns, hear, htext]
          exact Bool.and_false _
        rw [reachesSave, hret, Bool.and_false]
      rw [hnil, hnot]
      exact .nothing h.unchanged
  · intro e he st' h
    have hnil : rememberCalls v w (.text id text llmModel toolsEnabled speakReply) = [] := by
      rw [rememberCalls, not_ready_remembers he]
      exact ite_self _
    have hnot : reachesSave v w (.text id text llmModel toolsEnabled speakReply) = false := by
      rw [reachesSave, not_ready_returns he, Bool.and_false]
    rw [hnil, hnot]
    exact .nothing h.unchanged

theorem handle_failed {req : TurnRequest} (hvalid : MemoryValid req.id st) :
    Eff.Triple (fun s => s = st) (handle v w req) (fun _ => True) (fun _ _ => True)
      fun _ => FailedWith req.id st (rememberCalls v w req) (reachesSave v w req) := by
  cases req with
  | voice id upload llmModel toolsEnabled => exact postTurn_failed hvalid
  | text id text llmModel toolsEnabled speakReply => exact postTextTurn_failed hvalid

/-- A failed turn leaves the session as it was exactly when it fails before it is
recorded, and the last pair that it stored under each key is the one that the memory
had. -/
theorem failedTurn_unchanged_iff {req : TurnRequest} {e : HttpError}
    (hvalid : MemoryValid req.id st) (hfail : (handle v w req st).1 = .error e) :
    Unchanged req.id st (handle v w req st).2.1 ↔
      ∀ s, seen st req.id = some s → reachesSave v w req = false ∧
        ∀ key value, Dict.get? (rememberCalls v w req).reverse key = some value →
          s.agentMemory.get? key = some value := by
  have hfailed : FailedWith req.id st (rememberCalls v w req) (reachesSave v w req)
      (handle v w req st).2.1 :=
    (handle_failed hvalid).error rfl hfail
  apply Iff.trans hfailed
  refine forall₂_congr fun s hs => and_congr_right fun _ => ?_
  exact Dict.update_eq_self_iff (hvalid s hs)

/-! ## A turn that remembers and then fails -/

/-- A store with one session, which is cached and on disk. -/
def demoStore (mem : Memory) : Store :=
  let s : Session := { sessionId := "s1", createdAt := [], updatedAt := [], agentMemory := mem }
  { heap := [s], cache := [("s1", 0)], disk := [("s1", [(sessionJson, .session s)])] }

/-- The language model remembers a name and is not there for the next call. -/
def demoWorld : TurnWorld :=
  localWorld "I am Ann." fun step =>
    if step = 0 then
      .ok ["TOOL_CALL: \x7b\"name\": \"remember\", ",
        "\"arguments\": \x7b\"key\": \"name\", \"value\": \"Ann\"\x7d\x7d"]
    else .error ⟨.runtime, "Remote LLM timed out"⟩

def demoRequest : TurnRequest := .text "s1" "I am Ann." none true false

def annMemory : Memory := [("name", "Ann")]

/-- The route in `demoStore`. -/
def demoTurn (mem : Memory) : Except HttpError TurnResponse × Store × List LlmCall :=
  handle localService demoWorld demoRequest (demoStore mem)

/-- The error of an answer. -/
def errorOf (answer : Except HttpError TurnResponse) : Option HttpError :=
  match answer with
  | .error e => some e
  | .ok _ => none

theorem eq_error_of_errorOf {answer : Except HttpError TurnResponse} {e : HttpError}
    (h : errorOf answer = some e) : answer = .error e := by
  cases answer with
  | error e' => exact congrArg Except.error (Option.some.inj h)
  | ok a => cases h

theorem demoStore_valid (mem : Memory) (h : mem.keys.Nodup) :
    MemoryValid "s1" (demoStore mem) := by
  intro s hs
  rw [← Option.some.inj hs]
  exact h

theorem sameName_unchanged :
    errorOf (demoTurn annMemory).1 = some ⟨504, "Remote LLM timed out"⟩ ∧
      Unchanged "s1" (demoStore annMemory) (demoTurn annMemory).2.1 := by
  have hfail : errorOf (demoTurn annMemory).1 = some ⟨504, "Remote LLM timed out"⟩ := by
    decide +kernel
  have hcalls : rememberCalls localService demoWorld demoRequest = annMemory := by decide +kernel
  have herror : (handle localService demoWorld demoRequest (demoStore annMemory)).1 =
      .error ⟨504, "Remote LLM timed out"⟩ := eq_error_of_errorOf hfail
  have hiff := @failedTurn_unchanged_iff (demoStore annMemory) localService demoWorld demoRequest _
    (demoStore_valid annMemory (by decide)) herror
  rw [hcalls] at hiff
  refine ⟨hfail, ?_⟩
  unfold demoTurn
  apply hiff.2
  intro s hs
  refine ⟨by decide +kernel, ?_⟩
  intro key value hkv
  rw [← Option.some.inj hs]
  exact hkv

/-- The next request sees a name that the file does not have. -/
theorem rememberThenFail_changes :
    errorOf (demoTurn []).1 = some ⟨504, "Remote LLM timed out"⟩ ∧
      Synced (demoStore []) "s1" ∧
      (seen (demoTurn []).2.1 "s1").map Session.agentMemory = some annMemory ∧
      ((demoTurn []).2.1.saved "s1").map Session.agentMemory = some [] ∧
      ¬ Unchanged "s1" (demoStore []) (demoTurn []).2.1 := by
  have hafter : (seen (demoTurn []).2.1 "s1").map Session.agentMemory = some annMemory := by
    decide +kernel
  have hbefore : (seen (demoStore []) "s1").map Session.agentMemory = some [] := rfl
  refine ⟨by decide +kernel, ?_, hafter, by decide +kernel, ?_⟩
  · intro r hr
    rw [← Option.some.inj hr]
    rfl
  · intro h
    have hsame := congrArg (Option.map Session.agentMemory) h.seen
    have heq := hafter.symm.trans (hsame.trans hbefore)
    exact absurd (Option.some.inj heq) (by decide)

end AiPipelines.Turn
