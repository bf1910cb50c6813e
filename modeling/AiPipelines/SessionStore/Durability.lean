import AiPipelines.SessionStore.WellKeyed

/-!
# Saved turns

Once `update` of a session has returned, its new turn should be in every
session that a later `get` returns, in every session that a later `update`
writes, and on disk (`TurnKept`).

`get` reads `session.json` between its two locked blocks.  When a turn is
saved in that gap, the second block puts the older copy into the cache.
`staleGet_loses_turn` is such a run: a worker decodes the file, a turn is
saved, and the worker then returns and caches the copy without it.

The gap is the only hole.  `FreshPublish` says of a step that it does not
cache a copy that has fewer turns than the file has by then, and
`turnKept_of_freshPublish` proves the promise for every run whose steps all
meet it.  The invariant is `Kept`: a saved turn is in the file, in the cached
object and in the object that the handler has in hand.  Decoded copies of
workers need not be in it, which is what makes the invariant inductive.
-/

namespace AiPipelines.SessionStore

open PyStd Transition

namespace System

/-! ## The promise -/

/-- What is promised about a saved turn for the rest of the run: it emits
`es` and ends in `σ`. -/
def TurnKept (id : Str) (t : TurnRecord) (σ : System) (es : List Event) : Prop :=
  (∀ result, .getReturned id result ∈ es → ∃ s, result = some s ∧ t ∈ s.turns) ∧
    (∀ t' written, .updated id t' written ∈ es → t ∈ written.turns) ∧
    ∃ s, σ.store.saved id = some s ∧ t ∈ s.turns

/-- If the step is the second locked block of a worker's `get`, the copy that
it caches has every turn that `session.json` has now. -/
def FreshPublish (σ : System) (a : Action) : Prop :=
  ∀ w id r, a = .worker w → Loaded (σ.workerAt w) id r →
    ∀ s s', σ.store.saved id = some s → σ.store.deref r = some s' → s.turns ⊆ s'.turns

/-! ## The invariant -/

/-- No worker is deleting the session. -/
def NoDelete (id : Str) (σ : System) : Prop := ∀ w pc, σ.workerAt w ≠ .deleting id pc

/-- The turn is wherever the next `get`, `update` or reader of the file will
look. -/
structure Kept (id : Str) (t : TurnRecord) (σ : System) : Prop where
  saved : ∃ s, σ.store.saved id = some s ∧ t ∈ s.turns
  cached : ∀ r, σ.store.cache.get? id = some r → σ.store.Holds r (fun s => t ∈ s.turns)
  handler : ∀ r, held σ.handler = some (id, r) → σ.store.Holds r (fun s => t ∈ s.turns)

/-- The promise for one event. -/
def Shows (id : Str) (t : TurnRecord) : Event → Prop
  | .getReturned id' result => id' = id → ∃ s, result = some s ∧ t ∈ s.turns
  | .updated id' _ written => id' = id → t ∈ written.turns
  | _ => True

theorem Move.noDelete {σ σ' : System} {a : Action} {es : List Event} {id : Str}
    (h : Move σ a σ' es) (hnd : NoDelete id σ) (ha : ∀ w, a ≠ .startDelete w id) :
    NoDelete id σ' := by
  intro w' pc' hw'
  cases h with
  | create _ => exact hnd w' pc' hw'
  | worker _ _ hdel _ =>
    rw [workerAt_setWorker] at hw'
    split_ifs at hw' with hw
    · exact ha _ (hdel id pc' hw')
    · exact hnd w' pc' hw'
  | @workerGet w id' pc k st out _ _ =>
    rw [workerAt_setWorker] at hw'
    split_ifs at hw' with hw
    · cases out with
      | next _ => simp [workerAfter] at hw'
      | ret r => cases k <;> cases r <;> simp [workerAfter, afterGet] at hw'
      | raised => simp [workerAfter] at hw'
    · exact hnd w' pc' hw'
  | @workerDelete w id' pc st out hwd _ =>
    rw [workerAt_setWorker] at hw'
    split_ifs at hw' with hw
    · cases out with
      | next _ =>
        simp only [workerAfterDelete, Worker.deleting.injEq] at hw'
        exact hnd w pc (by rw [hwd, hw'.1])
      | ret _ => simp [workerAfterDelete] at hw'
      | raised => simp [workerAfterDelete] at hw'
    · exact hnd w' pc' hw'
  | turnGet _ _ _ => exact hnd w' pc' hw'
  | turn _ _ _ => exact hnd w' pc' hw'
  | mutate _ _ _ _ => exact hnd w' pc' hw'
  | update _ _ => exact hnd w' pc' hw'

/-- A saved session has a directory. -/
theorem saved_dir {st : Store} {id : Str} {s : Session} (h : st.saved id = some s) :
    st.disk.get? id ≠ none := by
  intro hnone
  simp [Store.saved, Store.entry, hnone] at h

/-- After a step of `get`, the turn is in the object that the cache has for
the session. -/
private theorem kept_cached_getMove {σ : System} {id id' : Str} {t : TurnRecord}
    {pc : Store.GetPc} {st : Store} {out : Store.GetOut} (hk : Kept id t σ)
    (hm : σ.store.GetMove id' pc st out) (hgrow : HeapGrows σ.store.heap st.heap)
    (hpc : ∀ r, id' = id → pc = .loaded r → σ.store.Holds r (fun s => t ∈ s.turns)) :
    ∀ r, st.cache.get? id = some r → st.Holds r (fun s => t ∈ s.turns) := by
  intro r hr
  rcases hm.effect.2 id r hr with hold | ⟨hid, hl⟩
  · exact holds_turn_mono hgrow (hk.cached r hold)
  · exact holds_turn_mono hgrow (hpc r hid hl)

/-- A step of `get` shows the turn to its caller. -/
private theorem kept_shows_getMove {σ : System} {id id' : Str} {t : TurnRecord}
    {pc : Store.GetPc} {st : Store} {out : Store.GetOut} (hk : Kept id t σ)
    (hm : σ.store.GetMove id' pc st out)
    (hpc : ∀ r, id' = id → pc = .loaded r → σ.store.Holds r (fun s => t ∈ s.turns)) :
    ∀ e ∈ getEvents st id' out, Shows id t e := by
  intro e he
  cases hm with
  | @hit r hr =>
    simp only [getEvents, List.mem_singleton] at he
    rw [he]
    rintro rfl
    obtain ⟨s, hs, ht⟩ := hk.cached r hr
    exact ⟨s, hs, ht⟩
  | absent hnone =>
    simp only [getEvents, List.mem_singleton] at he
    rw [he]
    rintro rfl
    obtain ⟨s, hs, _⟩ := hk.saved
    rw [hnone] at hs
    simp at hs
  | publish r =>
    simp only [getEvents, List.mem_singleton] at he
    rw [he]
    intro hid
    obtain ⟨s, hs, ht⟩ := hpc r hid rfl
    exact ⟨s, hs, ht⟩
  | miss _ => simp [getEvents] at he
  | present _ => simp [getEvents] at he
  | load _ => simp [getEvents] at he
  | unreadable _ =>
    simp only [getEvents, List.mem_singleton] at he
    rw [he]
    trivial

/-- One step keeps a saved turn, and shows it. -/
theorem Move.kept {σ σ' : System} {a : Action} {es : List Event} {id : Str} {t : TurnRecord}
    (h : Move σ a σ' es) (hwk : WellKeyed σ) (hk : Kept id t σ) (hnd : NoDelete id σ)
    (hfresh : FreshPublish σ a) : Kept id t σ' ∧ ∀ e ∈ es, Shows id t e := by
  have hgrow := h.heapGrows
  obtain ⟨s₀, hs₀, ht₀⟩ := hk.saved
  cases h with
  | @create sid now hdisk =>
    obtain ⟨_, hcache, _⟩ := σ.store.create_spec sid now
    -- The new id has no directory, so it is not this session's.
    have hne : sid ≠ id := by
      rintro rfl
      exact saved_dir hs₀ hdisk
    refine ⟨⟨⟨s₀, by rw [Store.saved_create, if_neg hne, hs₀], ht₀⟩, ?_, ?_⟩, by simp [Shows]⟩
    · intro r hr
      rw [hcache, Dict.get?_set_of_ne _ _ hne] at hr
      exact holds_turn_mono hgrow (hk.cached r hr)
    · exact fun r hr => holds_turn_mono hgrow (hk.handler r hr)
  | worker hsame _ _ hes =>
    refine ⟨⟨⟨s₀, (hsame.saved id).trans hs₀, ht₀⟩, ?_, ?_⟩, ?_⟩
    · exact fun r hr => holds_turn_mono hgrow (hk.cached r (hsame.cache ▸ hr))
    · exact fun r hr => holds_turn_mono hgrow (hk.handler r hr)
    · rcases hes with rfl | ⟨rows, rfl⟩ <;> simp [Shows]
  | @workerGet w id' pc k st out hw hm =>
    have hpc : ∀ r, id' = id → pc = .loaded r → σ.store.Holds r (fun s => t ∈ s.turns) := by
      rintro r rfl rfl
      have hl : Loaded (σ.workerAt w) id' r := ⟨k, hw⟩
      obtain ⟨s, hs, _⟩ := hwk.workers w id' r hl
      exact ⟨s, hs, hfresh w id' r rfl hl s₀ s hs₀ hs ht₀⟩
    refine ⟨⟨⟨s₀, (hm.saved id).trans hs₀, ht₀⟩, ?_, ?_⟩, kept_shows_getMove hk hm hpc⟩
    · exact kept_cached_getMove hk hm hgrow hpc
    · exact fun r hr => holds_turn_mono hgrow (hk.handler r hr)
  | @workerDelete w id' pc st out hw hm =>
    have hne : id' ≠ id := by
      rintro rfl
      exact hnd w pc hw
    obtain ⟨_, hcache, _, hother⟩ := hm.effect
    have hsaved : st.saved id = some s₀ := by rwa [Store.saved, hother id hne]
    refine ⟨⟨⟨s₀, hsaved, ht₀⟩, ?_, ?_⟩, ?_⟩
    · exact fun r hr => holds_turn_mono hgrow (hk.cached r (hcache id r hr))
    · exact fun r hr => holds_turn_mono hgrow (hk.handler r hr)
    · cases out <;> simp [deleteEvents, Shows]
  | @turnGet id' pc st out es hh hm hes =>
    have hpc : ∀ r, id' = id → pc = .loaded r → σ.store.Holds r (fun s => t ∈ s.turns) := by
      rintro r rfl rfl
      exact hk.handler r (by rw [hh]; rfl)
    refine ⟨⟨⟨s₀, (hm.saved id).trans hs₀, ht₀⟩, ?_, ?_⟩, ?_⟩
    · exact kept_cached_getMove hk hm hgrow hpc
    · intro r hr
      obtain ⟨hid, hc | ⟨s, hs, hd⟩ | hl⟩ := held_handlerAfter hm hr
      · exact holds_turn_mono hgrow (hk.cached r (hid ▸ hc))
      · -- The handler has just decoded the file, which has the turn.
        rw [hid, hs₀] at hs
        exact ⟨s, hd, Option.some.inj hs ▸ ht₀⟩
      · exact holds_turn_mono hgrow (hpc r hid hl)
    · exact forall_mem_turnGet hes (kept_shows_getMove hk hm hpc) trivial
  | turn hsame hh hes =>
    refine ⟨⟨⟨s₀, (hsame.saved id).trans hs₀, ht₀⟩, ?_, ?_⟩, ?_⟩
    · exact fun r hr => holds_turn_mono hgrow (hk.cached r (hsame.cache ▸ hr))
    · intro r hr
      rcases hh with rfl | hnone
      · exact holds_turn_mono hgrow (hk.handler r hr)
      · simp [setHandler, hnone] at hr
    · rcases hes with rfl | ⟨id', rfl⟩ <;> simp [Shows]
  | @mutate a id' r f h hheld hh hf _ =>
    refine ⟨⟨⟨s₀, hs₀, ht₀⟩, ?_, ?_⟩, by simp⟩
    · exact fun r' hr => holds_turn_mono hgrow (hk.cached r' hr)
    · intro r' hr
      have hr' : held h = some (id, r') := hr
      exact holds_turn_mono hgrow (hk.handler r' (by rw [hheld, ← hh, hr']))
  | @update id' now r t' st s hh hst =>
    obtain ⟨s₁, hs₁, rfl, _, hd, hcache, _, hsaved⟩ := Store.update_spec hst
    have hheld : held σ.handler = some (id', r) := by rw [hh]; rfl
    -- The object that is written is the one that the handler holds.
    have hturn : s₁.sessionId = id → t ∈ s₁.turns := by
      intro hid
      have hid' : id' = id := (hwk.handler_id hheld hs₁).symm.trans hid
      obtain ⟨s₂, hs₂, ht₂⟩ := hk.handler r (hid' ▸ hheld)
      rw [hs₁] at hs₂
      exact Option.some.inj hs₂ ▸ ht₂
    refine ⟨⟨?_, ?_, ?_⟩, ?_⟩
    · by_cases hid : s₁.sessionId = id
      · exact ⟨{ s₁ with updatedAt := now }, (hsaved id).trans (if_pos hid), hturn hid⟩
      · exact ⟨s₀, by simp [setHandler, hsaved, hid, hs₀], ht₀⟩
    · intro r' hr
      simp only [setHandler, hcache, Dict.get?_set] at hr
      split_ifs at hr with hid
      · rw [← Option.some.inj hr]
        exact ⟨_, hd, hturn hid⟩
      · exact holds_turn_mono hgrow (hk.cached r' hr)
    · intro r' hr
      simp [setHandler, held] at hr
    · intro e he
      rw [List.mem_singleton.mp he]
      exact hturn

/-- The step that saves a turn puts it wherever it will be looked for. -/
theorem Move.kept_of_updated {σ σ' : System} {a : Action} {es : List Event} {id : Str}
    {t : TurnRecord} {written : Session} (h : Move σ a σ' es) (hwk : WellKeyed σ)
    (he : .updated id t written ∈ es) : Kept id t σ' := by
  have hget : ∀ {st id' out}, ∀ e ∈ getEvents st id' out, e ≠ .updated id t written := by
    intro st id' out e he
    rcases mem_getEvents he with ⟨s, rfl⟩ | rfl
    · simp
    · simp
  cases h with
  | create _ => simp at he
  | worker _ _ _ hes => rcases hes with rfl | ⟨rows, rfl⟩ <;> simp at he
  | workerGet _ _ => exact absurd rfl (hget _ he)
  | @workerDelete _ _ _ _ out _ _ => cases out <;> simp [deleteEvents] at he
  | turnGet _ _ hes => exact absurd rfl (forall_mem_turnGet hes hget (by simp) _ he)
  | turn _ _ hes => rcases hes with rfl | ⟨id', rfl⟩ <;> simp at he
  | mutate _ _ _ _ => simp at he
  | @update id' now r t' st s hh hst =>
    simp only [List.mem_singleton, Event.updated.injEq] at he
    obtain ⟨rfl, rfl, rfl⟩ := he
    obtain ⟨s₀, hs₀, rfl, _, hd, hcache, _, hsaved⟩ := Store.update_spec hst
    have hturn : t ∈ s₀.turns := by
      obtain ⟨s₁, hs₁, ht₁⟩ := hwk.appended id' r t hh
      rw [hs₀] at hs₁
      exact Option.some.inj hs₁ ▸ ht₁
    refine ⟨⟨_, (hsaved _).trans (if_pos rfl), hturn⟩, ?_, ?_⟩
    · intro r' hr
      simp only [setHandler, hcache, Dict.get?_set_self, Option.some.injEq] at hr
      exact hr ▸ ⟨_, hd, hturn⟩
    · intro r' hr
      simp [setHandler, held] at hr

/-! ## Runs -/

/-- A run whose steps meet `FreshPublish`, from a state that has the turn, has
it in the end and shows it all along. -/
theorem run_kept {σ σ' : System} {as : List Action} {es : List Event} {id : Str}
    {t : TurnRecord} (hwk : WellKeyed σ) (hnd : NoDelete id σ) (hk : Kept id t σ)
    (hfresh : AllSteps step FreshPublish σ as) (hdel : ∀ w, .startDelete w id ∉ as)
    (hrun : run step σ as = some (σ', es)) : Kept id t σ' ∧ ∀ e ∈ es, Shows id t e := by
  have hok : AllSteps step (fun σ a => FreshPublish σ a ∧ ∀ w, a ≠ .startDelete w id) σ as := by
    refine hfresh.and (AllSteps.of_forall ?_)
    rintro a ha w rfl
    exact hdel w ha
  have hinv := run_invariant (I := fun σ => WellKeyed σ ∧ NoDelete id σ ∧ Kept id t σ)
    (Q := Shows id t) ?_ ⟨hwk, hnd, hk⟩ hok hrun
  · exact ⟨hinv.1.2.2, hinv.2⟩
  · rintro σ a σ₁ es ⟨hwk, hnd, hk⟩ ⟨hfr, ha⟩ hstep
    have hm := step_move hstep
    obtain ⟨hk₁, hes⟩ := hm.kept hwk hk hnd hfr
    exact ⟨⟨hm.wellKeyed hwk, hm.noDelete hnd ha, hk₁⟩, hes⟩

/-- Without a request to delete the session, no worker is ever deleting it. -/
theorem run_noDelete {σ σ' : System} {as : List Action} {es : List Event} {id : Str}
    (hnd : NoDelete id σ) (hdel : ∀ w, .startDelete w id ∉ as)
    (hrun : run step σ as = some (σ', es)) : NoDelete id σ' := by
  refine (run_invariant (I := NoDelete id) (Q := fun _ => True) ?_ hnd
    (AllSteps.of_forall (P := fun a => ∀ w, a ≠ .startDelete w id) ?_) hrun).1
  · intro σ a σ₁ es hnd ha hstep
    exact ⟨(step_move hstep).noDelete hnd ha, by simp⟩
  · rintro a ha w rfl
    exact hdel w ha

/-- No turn is lost: start the server on any directory tree whose session files
carry the id of their directory, and let it run so that no worker's `get`
caches a copy with fewer turns than the file has by then.  Once `update` has
returned for a session that is not deleted, every later `get` returns the turn,
every later `update` writes it, and it is on disk. -/
theorem turnKept_of_freshPublish {disk : Dict Str Dir} {as₁ as₂ : List Action}
    {σ₁ σ₂ : System} {es₁ es₂ : List Event} {id : Str} {t : TurnRecord} {written : Session}
    (hdisk : ∀ id s, (init disk).store.saved id = some s → s.sessionId = id)
    (hrun₁ : run step (init disk) as₁ = some (σ₁, es₁))
    (hupdated : .updated id t written ∈ es₁)
    (hrun₂ : run step σ₁ as₂ = some (σ₂, es₂))
    (hdel : ∀ w, .startDelete w id ∉ as₁ ++ as₂)
    (hfresh : AllSteps step FreshPublish (init disk) (as₁ ++ as₂)) :
    TurnKept id t σ₂ es₂ := by
  obtain ⟨bs, a, cs, τ, τ', fs₁, fs₂, fs₃, rfl, hpre, hstep, he, hpost⟩ :=
    run_mem_split hrun₁ hupdated
  have hwk : WellKeyed τ := run_wellKeyed (init_wellKeyed hdisk) hpre
  have hnd : NoDelete id τ := by
    refine run_noDelete (σ := init disk) ?_ (fun w hw => hdel w ?_) hpre
    · simp [NoDelete, init, workerAt]
    · simp [hw]
  have hm := step_move hstep
  have hna : ∀ w, a ≠ .startDelete w id := by
    rintro w rfl
    exact hdel w (by simp)
  -- From the step that saved the turn on, the rest of the run is one run.
  have hrest : run step τ' (cs ++ as₂) = some (σ₂, fs₃ ++ es₂) := run_append hpost hrun₂
  have hfresh' : AllSteps step FreshPublish τ' (cs ++ as₂) := by
    rw [List.append_assoc, List.cons_append] at hfresh
    exact (hfresh.right hpre).2 τ' fs₂ hstep
  obtain ⟨hk, hshows⟩ := run_kept (hm.wellKeyed hwk) (hm.noDelete hnd hna)
    (hm.kept_of_updated hwk he) hfresh' (fun w hw => hdel w (by simp_all)) hrest
  refine ⟨fun result hr => ?_, fun t' w' hw' => ?_, hk.saved⟩
  · exact hshows _ (List.mem_append_right _ hr) rfl
  · exact hshows _ (List.mem_append_right _ hw') rfl

/-! ## A stale copy

The runs below start from one session without turns. -/

def demoSession : Session := { sessionId := "s1", createdAt := "t0", updatedAt := "t0" }

def demoDisk : Dict Str Dir := [("s1", [(sessionJson, .session demoSession)])]

def demoTurn : TurnRecord where
  turnIndex := 1
  createdAt := "t1"
  userTranscript := "hello"
  assistantReply := "hi"

/-- The session as the first turn saves it. -/
def demoWritten : Session := { demoSession with updatedAt := "t1", turns := [demoTurn] }

/-- Worker 0 decodes the file and is not scheduled again while a turn is
saved. -/
def staleRun : List Action :=
  [.startGet 0 "s1", .worker 0, .worker 0, .worker 0,
    .startTurn "s1", .turn .get, .turn .get, .turn .get, .turn .get,
    .turn (.append demoTurn), .turn (.update "t1")]

/-- A turn that was saved is missing from what a later `get` returns. -/
theorem staleGet_loses_turn :
    ¬ ∀ (disk : Dict Str Dir) (as₁ as₂ : List Action) (σ₁ σ₂ : System)
        (es₁ es₂ : List Event) (id : Str) (t : TurnRecord) (written : Session),
        run step (init disk) as₁ = some (σ₁, es₁) → .updated id t written ∈ es₁ →
        run step σ₁ as₂ = some (σ₂, es₂) → (∀ w, .startDelete w id ∉ as₁ ++ as₂) →
        TurnKept id t σ₂ es₂ := by
  intro h
  have hkept := h demoDisk staleRun [.worker 0] _ _ _ _ "s1" demoTurn demoWritten rfl
    (List.mem_cons_of_mem _ List.mem_cons_self) rfl (by simp [staleRun])
  obtain ⟨s, hs, ht⟩ := hkept.1 (some demoSession) List.mem_cons_self
  rw [← Option.some.inj hs] at ht
  simp [demoSession] at ht

/-- Worker 0 finishes its `get` before the turn starts. -/
def freshRun : List Action :=
  [.startGet 0 "s1", .worker 0, .worker 0, .worker 0, .worker 0,
    .startTurn "s1", .turn .get, .turn (.append demoTurn), .turn (.update "t1")]

theorem demoDisk_wellKeyed (id : Str) (s : Session)
    (h : (init demoDisk).store.saved id = some s) : s.sessionId = id := by
  by_cases hid : ("s1" : Str) = id
  · subst hid
    have hs : some demoSession = some s := h
    rw [← Option.some.inj hs]
    rfl
  · have hnone : (init demoDisk).store.disk.get? id = none := by
      rw [show (init demoDisk).store.disk = demoDisk from rfl, demoDisk, Dict.get?_cons,
        if_neg hid, Dict.get?_nil]
    exact absurd hnone (saved_dir h)

/-- A step that is not the second block of a worker's `get` is fresh. -/
private theorem freshPublish_of_ne {σ : System} {a : Action}
    (h : ∀ w id r, a = .worker w → ¬ Loaded (σ.workerAt w) id r) : FreshPublish σ a :=
  fun w id r ha hl => absurd hl (h w id r ha)

/-- In the fresh run the turn is kept, also for a reader that comes later. -/
theorem freshRun_turnKept :
    ∃ σ₁ σ₂ es₁ es₂, run step (init demoDisk) freshRun = some (σ₁, es₁) ∧
      run step σ₁ [.startGet 1 "s1", .worker 1] = some (σ₂, es₂) ∧
      TurnKept "s1" demoTurn σ₂ es₂ := by
  refine ⟨_, _, _, _, rfl, rfl, ?_⟩
  refine @turnKept_of_freshPublish demoDisk freshRun [.startGet 1 "s1", .worker 1] _ _ _ _ _ _
    demoWritten demoDisk_wellKeyed rfl
    (List.mem_cons_of_mem _ (List.mem_cons_of_mem _ List.mem_cons_self)) rfl
    (by simp [freshRun]) ?_
  refine .cons rfl (freshPublish_of_ne (by simp)) <|
    .cons rfl (freshPublish_of_ne ?_) <| .cons rfl (freshPublish_of_ne ?_) <|
    .cons rfl (freshPublish_of_ne ?_) <| .cons rfl ?_ <|
    .cons rfl (freshPublish_of_ne (by simp)) <| .cons rfl (freshPublish_of_ne (by simp)) <|
    .cons rfl (freshPublish_of_ne (by simp)) <| .cons rfl (freshPublish_of_ne (by simp)) <|
    .cons rfl (freshPublish_of_ne (by simp)) <| .cons rfl (freshPublish_of_ne ?_) trivial
  · rintro w id r ⟨⟩ ⟨k, ⟨⟩⟩
  · rintro w id r ⟨⟩ ⟨k, ⟨⟩⟩
  · rintro w id r ⟨⟩ ⟨k, ⟨⟩⟩
  · rintro w id r ⟨⟩ ⟨k, ⟨⟩⟩ s s' ⟨⟩ ⟨⟩
    exact List.Subset.refl _
  · rintro w id r ⟨⟩ ⟨k, ⟨⟩⟩

end System

end AiPipelines.SessionStore
