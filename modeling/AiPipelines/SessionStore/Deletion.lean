import AiPipelines.SessionStore.Durability

/-!
# Deleted sessions

After `delete(id)` has returned `True`, no later `get(id)` should return a
session and no `session.json` of the id should be on disk (`StaysDeleted`).

`delete` takes the cache entry away under the lock and removes the files
without it.  A thread that has the session in hand at that time is not
stopped: `update` of a running turn creates the directory again, and a `get`
that has decoded the file caches its copy.  `turn_revives_deleted` is a run of
the first kind.

`NotInHand` is what is missing.  It says of the step that removes the
directory that the cache has no entry for the id (a `get` may have put it back
since), that no worker's `get` stands before its second locked block, and that
the turn handler works on another session.  `staysDeleted_of_notInHand` proves
that in a run whose steps all meet it a deletion is final.
-/

namespace AiPipelines.SessionStore

open PyStd Transition

namespace System

/-! ## The promise -/

/-- What is promised about a deleted session for the rest of the run: it emits
`es` and ends in `σ`. -/
def StaysDeleted (id : Str) (σ : System) (es : List Event) : Prop :=
  (∀ s, .getReturned id (some s) ∉ es) ∧ σ.store.entry id sessionJson = none

/-- No thread has the session in hand, and the cache does not have it. -/
structure Unheld (id : Str) (σ : System) : Prop where
  cache : σ.store.cache.get? id = none
  workers : ∀ w r, ¬ Loaded (σ.workerAt w) id r
  handler : ∀ r, held σ.handler ≠ some (id, r)

/-- If the step is the `rmdir` that ends a `delete`, nobody has the session. -/
def NotInHand (σ : System) (a : Action) : Prop :=
  ∀ w id, a = .worker w → σ.workerAt w = .deleting id (.files []) →
    σ.store.disk.get? id = some [] → Unheld id σ

/-! ## The invariant -/

/-- The session is gone: nobody has it and its file is not there. -/
structure Gone (id : Str) (σ : System) : Prop extends Unheld id σ where
  file : σ.store.entry id sessionJson = none

/-- The promise for one event. -/
def Hides (id : Str) : Event → Prop
  | .getReturned id' result => id' = id → result = none
  | _ => True

theorem Gone.saved {id : Str} {σ : System} (h : Gone id σ) : σ.store.saved id = none := by
  rw [Store.saved, h.file]

/-- A step of `get` that another thread does, or that finds nothing, leaves the
cache without the session and shows nothing. -/
private theorem gone_getMove {σ : System} {id id' : Str} {pc : Store.GetPc} {st : Store}
    {out : Store.GetOut} (hg : Gone id σ) (hm : σ.store.GetMove id' pc st out)
    (hpc : ∀ r, pc = .loaded r → id' ≠ id) :
    st.cache.get? id = none ∧ st.entry id sessionJson = none ∧
      ∀ e ∈ getEvents st id' out, Hides id e := by
  refine ⟨?_, ?_, ?_⟩
  · by_contra hne
    obtain ⟨r, hr⟩ := Option.ne_none_iff_exists'.mp hne
    rcases hm.effect.2 id r hr with hold | ⟨hid, hl⟩
    · rw [hg.cache] at hold
      simp at hold
    · exact hpc r hl hid
  · rw [Store.entry, hm.effect.1]
    exact hg.file
  · intro e he
    cases hm with
    | @hit r hr =>
      simp only [getEvents, List.mem_singleton] at he
      rw [he]
      rintro rfl
      rw [hg.cache] at hr
      simp at hr
    | absent _ =>
      simp only [getEvents, List.mem_singleton] at he
      rw [he]
      exact fun _ => rfl
    | publish r =>
      simp only [getEvents, List.mem_singleton] at he
      rw [he]
      intro hid
      exact absurd hid (hpc r rfl)
    | unreadable _ =>
      simp only [getEvents, List.mem_singleton] at he
      rw [he]
      trivial
    | miss _ => simp [getEvents] at he
    | present _ => simp [getEvents] at he
    | load _ => simp [getEvents] at he

/-- One step leaves a session gone, and shows nothing of it. -/
theorem Move.gone {σ σ' : System} {a : Action} {es : List Event} {id : Str}
    (h : Move σ a σ' es) (hwk : WellKeyed σ) (hg : Gone id σ)
    (ha : ∀ now, a ≠ .create id now) : Gone id σ' ∧ ∀ e ∈ es, Hides id e := by
  cases h with
  | @create sid now hdisk =>
    obtain ⟨_, hcache, hentry⟩ := σ.store.create_spec sid now
    have hne : sid ≠ id := by
      rintro rfl
      exact ha now rfl
    refine ⟨⟨⟨?_, hg.workers, hg.handler⟩, ?_⟩, by simp [Hides]⟩
    · rw [hcache, Dict.get?_set_of_ne _ _ hne]
      exact hg.cache
    · rw [hentry, if_neg hne]
      exact hg.file
  | @worker a w st pc es hsame hpc _ hes =>
    refine ⟨⟨⟨hsame.cache ▸ hg.cache, ?_, hg.handler⟩, (hsame.json id).trans hg.file⟩, ?_⟩
    · intro w' r hl
      rcases loaded_setWorker hl with hl | hl
      · exact hpc id r hl
      · exact hg.workers w' r hl
    · rcases hes with rfl | ⟨rows, rfl⟩ <;> simp [Hides]
  | @workerGet w id' pc k st out hw hm =>
    have hpc : ∀ r, pc = .loaded r → id' ≠ id := by
      rintro r rfl rfl
      exact hg.workers w r ⟨k, hw⟩
    obtain ⟨hcache, hfile, hes⟩ := gone_getMove hg hm hpc
    refine ⟨⟨⟨hcache, ?_, hg.handler⟩, hfile⟩, hes⟩
    intro w' r hl
    rcases loaded_setWorker hl with hl | hl
    · obtain ⟨rfl, s, hs, _⟩ := loaded_workerAfter hm hl
      rw [hg.saved] at hs
      simp at hs
    · exact hg.workers w' r hl
  | @workerDelete w id' pc st out hw hm =>
    obtain ⟨_, hcache, hentry, _⟩ := hm.effect
    refine ⟨⟨⟨?_, ?_, hg.handler⟩, ?_⟩, ?_⟩
    · by_contra hne
      obtain ⟨r, hr⟩ := Option.ne_none_iff_exists'.mp hne
      have hold := hcache id r hr
      rw [hg.cache] at hold
      simp at hold
    · intro w' r hl
      rcases loaded_setWorker hl with hl | hl
      · exact not_loaded_workerAfterDelete id' id out r hl
      · exact hg.workers w' r hl
    · by_contra hne
      obtain ⟨n, hn⟩ := Option.ne_none_iff_exists'.mp hne
      have hold := hentry id n hn
      rw [hg.file] at hold
      simp at hold
    · cases out <;> simp [deleteEvents, Hides]
  | @turnGet id' pc st out es hh hm hes =>
    have hpc : ∀ r, pc = .loaded r → id' ≠ id := by
      rintro r rfl rfl
      exact hg.handler r (by rw [hh]; rfl)
    obtain ⟨hcache, hfile, hev⟩ := gone_getMove hg hm hpc
    refine ⟨⟨⟨hcache, hg.workers, ?_⟩, hfile⟩, ?_⟩
    · intro r hr
      obtain ⟨hid, hc | ⟨s, hs, _⟩ | hl⟩ := held_handlerAfter hm hr
      · rw [hid, hg.cache] at hc
        simp at hc
      · rw [hid, hg.saved] at hs
        simp at hs
      · exact hpc r hl hid
    · exact forall_mem_turnGet hes hev trivial
  | turn hsame hh hes =>
    refine ⟨⟨⟨hsame.cache ▸ hg.cache, hg.workers, ?_⟩, (hsame.json id).trans hg.file⟩, ?_⟩
    · intro r hr
      rcases hh with rfl | hnone
      · exact hg.handler r hr
      · simp [setHandler, hnone] at hr
    · rcases hes with rfl | ⟨id', rfl⟩ <;> simp [Hides]
  | @mutate a id' r f h hheld hh _ _ =>
    refine ⟨⟨⟨hg.cache, hg.workers, ?_⟩, hg.file⟩, by simp⟩
    intro r' hr
    have hr' : held h = some (id, r') := hr
    exact hg.handler r' (by rw [hheld, ← hh, hr'])
  | @update id' now r t st s hh hst =>
    obtain ⟨s₀, hs₀, rfl, _, _, hcache, hentry, _⟩ := Store.update_spec hst
    -- The handler works on another session, and saves it under that one's id.
    have hne : s₀.sessionId ≠ id := by
      intro hid
      have hheld : held σ.handler = some (id', r) := by rw [hh]; rfl
      have hid' : id' = id := (hwk.handler_id hheld hs₀).symm.trans hid
      exact hg.handler r (hid' ▸ hheld)
    refine ⟨⟨⟨?_, hg.workers, ?_⟩, ?_⟩, by simp [Hides]⟩
    · simp only [setHandler, hcache, Dict.get?_set_of_ne _ _ hne]
      exact hg.cache
    · intro r' hr
      simp [setHandler, held] at hr
    · exact ((hentry id).trans (if_neg hne)).trans hg.file

/-- The step on which `delete(id)` returns `True` leaves the session gone. -/
theorem Move.gone_of_deleted {σ σ' : System} {a : Action} {es : List Event} {id : Str}
    (h : Move σ a σ' es) (he : .deleted id true ∈ es) (hok : NotInHand σ a) : Gone id σ' := by
  have hget : ∀ {st id' out}, ∀ e ∈ getEvents st id' out, e ≠ .deleted id true := by
    intro st id' out e he
    rcases mem_getEvents he with ⟨s, rfl⟩ | rfl
    · simp
    · simp
  cases h with
  | create _ => simp at he
  | worker _ _ _ hes => rcases hes with rfl | ⟨rows, rfl⟩ <;> simp at he
  | workerGet _ _ => exact absurd rfl (hget _ he)
  | @workerDelete w id' pc st out hw hm =>
    cases hm with
    | rmdir hd =>
      simp only [deleteEvents, List.mem_singleton, Event.deleted.injEq, and_true] at he
      subst he
      have hfree := hok w id rfl hw hd
      refine ⟨⟨hfree.cache, ?_, hfree.handler⟩, ?_⟩
      · intro w' r hl
        rcases loaded_setWorker hl with hl | hl
        · exact not_loaded_workerAfterDelete _ _ _ r hl
        · exact hfree.workers w' r hl
      · simp [setWorker, Store.entry, Dict.get?_pop]
    | pop => simp [deleteEvents] at he
    | look => simp [deleteEvents] at he
    | missing => simp [deleteEvents] at he
    | unlink => simp [deleteEvents] at he
    | raised => simp [deleteEvents] at he
  | turnGet _ _ hes => exact absurd rfl (forall_mem_turnGet hes hget (by simp) _ he)
  | turn _ _ hes => rcases hes with rfl | ⟨id', rfl⟩ <;> simp at he
  | mutate _ _ _ _ => simp at he
  | update _ _ => simp at he

/-! ## Runs -/

/-- A session that is gone stays gone, as long as no new session takes its
id. -/
theorem run_gone {σ σ' : System} {as : List Action} {es : List Event} {id : Str}
    (hwk : WellKeyed σ) (hg : Gone id σ) (hcreate : ∀ now, .create id now ∉ as)
    (hrun : run step σ as = some (σ', es)) : Gone id σ' ∧ ∀ e ∈ es, Hides id e := by
  have hinv := run_invariant (I := fun σ => WellKeyed σ ∧ Gone id σ) (Q := Hides id) ?_
    ⟨hwk, hg⟩ (AllSteps.of_forall (P := fun a => ∀ now, a ≠ .create id now) ?_) hrun
  · exact ⟨hinv.1.2, hinv.2⟩
  · rintro σ a σ₁ es ⟨hwk, hg⟩ ha hstep
    have hm := step_move hstep
    obtain ⟨hg₁, hes⟩ := hm.gone hwk hg ha
    exact ⟨⟨hm.wellKeyed hwk, hg₁⟩, hes⟩
  · rintro a ha now rfl
    exact hcreate now ha

/-- A deletion is final: start the server on any directory tree whose session
files carry the id of their directory, and let it run so that nobody has a
session in hand when `delete` removes its directory.  Once `delete(id)` has
returned `True`, no later `get(id)` returns a session and there is no
`session.json` of the id, unless a new session takes the id. -/
theorem staysDeleted_of_notInHand {disk : Dict Str Dir} {as₁ as₂ : List Action} {a : Action}
    {σ₁ σ₁' σ₂ : System} {es₁ es es₂ : List Event} {id : Str}
    (hdisk : ∀ id s, (init disk).store.saved id = some s → s.sessionId = id)
    (hrun₁ : run step (init disk) as₁ = some (σ₁, es₁))
    (hstep : step σ₁ a = some (σ₁', es)) (hdeleted : .deleted id true ∈ es)
    (hrun₂ : run step σ₁' as₂ = some (σ₂, es₂))
    (hcreate : ∀ now, .create id now ∉ as₂)
    (hok : AllSteps step NotInHand (init disk) (as₁ ++ a :: as₂)) :
    StaysDeleted id σ₂ es₂ := by
  have hwk : WellKeyed σ₁ := run_wellKeyed (init_wellKeyed hdisk) hrun₁
  have hm := step_move hstep
  have hg : Gone id σ₁' := hm.gone_of_deleted hdeleted (hok.right hrun₁).1
  obtain ⟨hg₂, hes⟩ := run_gone (hm.wellKeyed hwk) hg hcreate hrun₂
  refine ⟨fun s hs => ?_, hg₂.file⟩
  have hnone := hes _ hs rfl
  simp at hnone

/-! ## A turn that outlives the session -/

/-- A whole `delete` by worker 0: the cache entry, the directory, the listing,
the one file, the directory again. -/
def deleteRun : List Action :=
  [.startDelete 0 "s1", .worker 0, .worker 0, .worker 0, .worker 0, .worker 0]

/-- A turn has got the session and its model is still running. -/
def startedTurn : List Action :=
  [.startTurn "s1", .turn .get, .turn .get, .turn .get, .turn .get]

/-- `delete` has returned `True`, and the turn that was running saves the
session again. -/
theorem turn_revives_deleted :
    ¬ ∀ (disk : Dict Str Dir) (as₁ as₂ : List Action) (a : Action) (σ₁ σ₁' σ₂ : System)
        (es₁ es es₂ : List Event) (id : Str),
        run step (init disk) as₁ = some (σ₁, es₁) → step σ₁ a = some (σ₁', es) →
        .deleted id true ∈ es → run step σ₁' as₂ = some (σ₂, es₂) →
        (∀ now, .create id now ∉ as₂) → StaysDeleted id σ₂ es₂ := by
  intro h
  have hgone := h demoDisk (startedTurn ++ deleteRun)
    [.turn (.append demoTurn), .turn (.update "t1")] (.worker 0) _ _ _ _ _ _ "s1" rfl rfl
    List.mem_cons_self rfl (by simp)
  exact absurd hgone.2 (by
    intro hnone
    have hsome : some (Node.session demoWritten) = none := hnone
    simp at hsome)

private theorem notInHand_of_ne {σ : System} {a : Action}
    (h : ∀ w id, a = .worker w → σ.workerAt w ≠ .deleting id (.files [])) : NotInHand σ a :=
  fun w id ha hw => absurd hw (h w id ha)

/-- Without a turn in flight the session stays deleted, also for a reader that
comes later. -/
theorem deleteRun_staysDeleted :
    ∃ σ₁ σ₁' σ₂ es₁ es es₂, run step (init demoDisk) deleteRun = some (σ₁, es₁) ∧
      step σ₁ (.worker 0) = some (σ₁', es) ∧ .deleted "s1" true ∈ es ∧
      run step σ₁' [.startGet 1 "s1", .worker 1, .worker 1] = some (σ₂, es₂) ∧
      StaysDeleted "s1" σ₂ es₂ := by
  refine ⟨_, _, _, _, _, _, rfl, rfl, List.mem_cons_self, rfl, ?_⟩
  refine @staysDeleted_of_notInHand demoDisk deleteRun
    [.startGet 1 "s1", .worker 1, .worker 1] (.worker 0) _ _ _ _ _ _ _ demoDisk_wellKeyed rfl rfl
    List.mem_cons_self rfl (by simp) ?_
  refine .cons rfl (notInHand_of_ne (by simp)) <|
    .cons rfl (notInHand_of_ne ?_) <| .cons rfl (notInHand_of_ne ?_) <|
    .cons rfl (notInHand_of_ne ?_) <| .cons rfl (notInHand_of_ne ?_) <|
    .cons rfl (notInHand_of_ne ?_) <| .cons rfl ?_ <|
    .cons rfl (notInHand_of_ne (by simp)) <| .cons rfl (notInHand_of_ne ?_) <|
    .cons rfl (notInHand_of_ne ?_) trivial
  · rintro w id ⟨⟩ ⟨⟩
  · rintro w id ⟨⟩ ⟨⟩
  · rintro w id ⟨⟩ ⟨⟩
  · rintro w id ⟨⟩ ⟨⟩
  · rintro w id ⟨⟩ ⟨⟩
  · rintro w id ⟨⟩ ⟨⟩ _
    refine ⟨rfl, ?_, ?_⟩
    · rintro w' r ⟨k, hk⟩
      by_cases hw' : (0 : Nat) = w'
      · subst hw'
        exact absurd hk (by rintro ⟨⟩)
      · simp only [workerAt_setWorker, if_neg hw'] at hk
        exact absurd hk (by rintro ⟨⟩)
    · rintro r ⟨⟩
  · rintro w id ⟨⟩ ⟨⟩
  · rintro w id ⟨⟩ ⟨⟩

end System

end AiPipelines.SessionStore
