import AiPipelines.SessionStore.Moves

/-!
# Every session is kept under its own id

`get(id)` caches what it decodes under the id that it was asked for, and
`update` caches and saves under the id inside the object.  The two agree as
long as every file below the root was written by `_save`.  `WellKeyed` says so
for the cache, for the disk and for every object that a thread has in hand,
and `run_wellKeyed` carries it from the start of the server to every state.

`WellKeyed.appended` is the second thing that the handler relies on: between
`turns.append` and `update` its object holds the new turn.
-/

namespace AiPipelines.SessionStore

open PyStd Transition

namespace Store

/-- The effect of the locked block of `create`. -/
theorem create_spec (st : Store) (sid now : Str) :
    (st.create sid now).heap = st.heap ++ [⟨sid, now, now, [], []⟩] ∧
      (st.create sid now).cache = st.cache.set sid st.heap.length ∧
      ∀ id, (st.create sid now).entry id sessionJson =
        if sid = id then some (.session ⟨sid, now, now, [], []⟩)
        else st.entry id sessionJson := by
  refine ⟨rfl, rfl, fun id => ?_⟩
  rw [create, entry_save]
  rfl

theorem saved_create (st : Store) (sid now : Str) (id : Str) :
    (st.create sid now).saved id =
      if sid = id then some ⟨sid, now, now, [], []⟩ else st.saved id := by
  rw [create, saved_save]
  rfl

/-- The effect of `update`. -/
theorem update_spec {st st' : Store} {r : Ref} {now : Str} {s : Session}
    (h : st.update r now = some (st', s)) :
    ∃ s₀, st.deref r = some s₀ ∧ s = { s₀ with updatedAt := now } ∧
      st'.heap = st.heap.modify r (fun s => { s with updatedAt := now }) ∧
      st'.deref r = some s ∧ st'.cache = st.cache.set s.sessionId r ∧
      (∀ id, st'.entry id sessionJson =
        if s.sessionId = id then some (.session s) else st.entry id sessionJson) ∧
      ∀ id, st'.saved id = if s.sessionId = id then some s else st.saved id := by
  obtain ⟨s₁, hs₁, heq⟩ := Option.map_eq_some_iff.mp h
  simp only [Prod.mk.injEq] at heq
  obtain ⟨rfl, rfl⟩ := heq
  have hmod := hs₁
  rw [deref_mutate, Option.map_eq_some_iff] at hmod
  obtain ⟨s₀, hs₀, rfl⟩ := hmod
  exact ⟨s₀, hs₀, rfl, rfl, hs₁, rfl, fun id => entry_save _ _ id, fun id => saved_save _ _ id⟩

/-- A step of `get(id)` writes nothing, and caches only what it has decoded. -/
theorem GetMove.effect {st st' : Store} {id : Str} {pc : GetPc} {out : GetOut}
    (h : st.GetMove id pc st' out) :
    st'.disk = st.disk ∧
      ∀ id' r, st'.cache.get? id' = some r →
        st.cache.get? id' = some r ∨ id = id' ∧ pc = .loaded r := by
  cases h with
  | publish r =>
    refine ⟨rfl, fun id' r' hr' => ?_⟩
    rw [Dict.get?_set] at hr'
    split_ifs at hr' with hid
    · exact .inr ⟨hid, by rw [Option.some.inj hr']⟩
    · exact .inl hr'
  | _ => exact ⟨rfl, fun _ _ hr => .inl hr⟩

theorem GetMove.saved {st st' : Store} {id : Str} {pc : GetPc} {out : GetOut}
    (h : st.GetMove id pc st' out) (id' : Str) : st'.saved id' = st.saved id' := by
  rw [Store.saved, Store.saved, entry, entry, h.effect.1]

/-- A step of `delete(id)` only removes things, and only those of `id`. -/
theorem DeleteMove.effect {st st' : Store} {id : Str} {pc : DeletePc} {out : DeleteOut}
    (h : st.DeleteMove id pc st' out) :
    st'.heap = st.heap ∧
      (∀ id' r, st'.cache.get? id' = some r → st.cache.get? id' = some r) ∧
      (∀ id' n, st'.entry id' sessionJson = some n → st.entry id' sessionJson = some n) ∧
      ∀ id', id ≠ id' → st'.entry id' sessionJson = st.entry id' sessionJson := by
  cases h with
  | pop =>
    refine ⟨rfl, fun id' r hr => ?_, fun _ _ hn => hn, fun _ _ => rfl⟩
    rw [Dict.get?_pop] at hr
    split_ifs at hr
    exact hr
  | @unlink d name todo hd =>
    have hother : ∀ id', id ≠ id' →
        entry { st with disk := st.disk.set id (d.pop name) } id' sessionJson =
          st.entry id' sessionJson := by
      intro id' hid
      simp only [entry, Dict.get?_set_of_ne st.disk _ hid]
    refine ⟨rfl, fun _ _ hr => hr, fun id' n hn => ?_, hother⟩
    by_cases hid : id = id'
    · subst hid
      rw [entry, Dict.get?_set_self] at hn
      rw [entry, hd]
      simp only [Option.bind_some, Dict.get?_pop] at hn ⊢
      split_ifs at hn
      exact hn
    · rwa [hother id' hid] at hn
  | rmdir hd =>
    have hother : ∀ id', id ≠ id' →
        entry { st with disk := st.disk.pop id } id' sessionJson = st.entry id' sessionJson := by
      intro id' hid
      simp only [entry, Dict.get?_pop, if_neg hid]
    refine ⟨rfl, fun _ _ hr => hr, fun id' n hn => ?_, hother⟩
    by_cases hid : id = id'
    · subst hid
      simp [entry, Dict.get?_pop] at hn
    · rwa [hother id' hid] at hn
  | _ => exact ⟨rfl, fun _ _ hr => hr, fun _ _ hn => hn, fun _ _ => rfl⟩

/-- What is saved after a step of `delete` was saved before. -/
theorem DeleteMove.saved_of_saved {st st' : Store} {id id' : Str} {pc : DeletePc}
    {out : DeleteOut} {s : Session} (h : st.DeleteMove id pc st' out)
    (hs : st'.saved id' = some s) : st.saved id' = some s := by
  unfold saved at hs ⊢
  cases hn : st'.entry id' sessionJson with
  | none => simp [hn] at hs
  | some n => rw [h.effect.2.2.1 id' n hn]; rwa [hn] at hs

end Store

namespace System

theorem workerAt_setWorker (σ : System) (w : Nat) (st : Store) (pc : Worker) (w' : Nat) :
    (σ.setWorker w st pc).workerAt w' = if w = w' then pc else σ.workerAt w' := by
  simp only [workerAt, setWorker, Dict.get?_set]
  split_ifs <;> rfl

/-- Only the worker that moved can have come to hold a decoded session. -/
theorem loaded_setWorker {σ : System} {w w' : Nat} {st : Store} {pc : Worker} {id : Str} {r : Ref}
    (h : Loaded ((σ.setWorker w st pc).workerAt w') id r) :
    Loaded pc id r ∨ Loaded (σ.workerAt w') id r := by
  rw [workerAt_setWorker] at h
  split_ifs at h
  · exact .inl h
  · exact .inr h

theorem not_loaded_workerAfterDelete (id id' : Str) (out : Store.DeleteOut) (r : Ref) :
    ¬ Loaded (workerAfterDelete id out) id' r := by
  rintro ⟨k, hk⟩
  cases out <;> simp [workerAfterDelete] at hk

/-- A step of `get` emits nothing but its outcome. -/
theorem mem_getEvents {st : Store} {id : Str} {out : Store.GetOut} {e : Event}
    (h : e ∈ getEvents st id out) : (∃ s, e = .getReturned id s) ∨ e = .getRaised id := by
  cases out with
  | next _ => cases h
  | ret r => exact .inl ⟨_, List.mem_singleton.mp h⟩
  | raised => exact .inr (List.mem_singleton.mp h)

/-- What the events of a `get` have in common, also when the turn fails with
it. -/
theorem forall_mem_turnGet {P : Event → Prop} {st : Store} {id : Str} {out : Store.GetOut}
    {es : List Event}
    (hes : es = getEvents st id out ∨ es = getEvents st id out ++ [.turnFailed id])
    (hget : ∀ e ∈ getEvents st id out, P e) (hfail : P (.turnFailed id)) : ∀ e ∈ es, P e := by
  rcases hes with rfl | rfl
  · exact hget
  · intro e he
    rcases List.mem_append.mp he with he | he
    · exact hget e he
    · rw [List.mem_singleton.mp he]
      exact hfail

/-- No step shrinks an object. -/
theorem Move.heapGrows {σ σ' : System} {a : Action} {es : List Event} (h : Move σ a σ' es) :
    HeapGrows σ.store.heap σ'.store.heap := by
  have hget : ∀ {id pc st out}, σ.store.GetMove id pc st out →
      HeapGrows σ.store.heap st.heap := by
    intro id pc st out hm
    cases hm with
    | load _ => exact heapGrows_alloc _ _
    | _ => exact .refl _
  cases h with
  | create _ => exact heapGrows_alloc _ _
  | worker hsame _ _ _ => exact hsame.heap ▸ .refl _
  | workerGet _ hm => exact hget hm
  | workerDelete _ hm => cases hm <;> exact .refl _
  | turnGet _ hm _ => exact hget hm
  | turn hsame _ _ => exact hsame.heap ▸ .refl _
  | mutate _ _ hf _ => exact heapGrows_modify _ _ hf
  | update _ hst =>
    obtain ⟨s₀, _, _, hheap, _⟩ := Store.update_spec hst
    exact hheap ▸ heapGrows_modify _ _ (fun s => ⟨rfl, List.Subset.refl _⟩)

/-- A worker that a step left with a decoded session either had it before, or
has just decoded it. -/
theorem loaded_workerAfter {st st' : Store} {id id' : Str} {pc : Store.GetPc} {k : GetFor}
    {out : Store.GetOut} {r : Ref} (hm : st.GetMove id pc st' out)
    (h : Loaded (workerAfter st' id k out) id' r) :
    id' = id ∧ ∃ s, st.saved id = some s ∧ st'.deref r = some s := by
  obtain ⟨k', hk⟩ := h
  cases hm with
  | load hs =>
    simp only [workerAfter, Worker.getting.injEq, Store.GetPc.loaded.injEq] at hk
    obtain ⟨rfl, rfl, _⟩ := hk
    exact ⟨rfl, _, hs, Store.deref_alloc _ _⟩
  | miss _ => simp [workerAfter] at hk
  | present _ => simp [workerAfter] at hk
  | unreadable _ => simp [workerAfter] at hk
  | hit _ => cases k <;> simp [workerAfter, afterGet] at hk
  | absent _ => cases k <;> simp [workerAfter, afterGet] at hk
  | publish _ => cases k <;> simp [workerAfter, afterGet] at hk

/-- What the handler holds after a step of `get(id)`: what the cache had,
what was just decoded, or what was decoded before and is now cached. -/
theorem held_handlerAfter {st st' : Store} {id id' : Str} {pc : Store.GetPc}
    {out : Store.GetOut} {r : Ref} (hm : st.GetMove id pc st' out)
    (h : held (handlerAfter id out) = some (id', r)) :
    id = id' ∧ (st.cache.get? id = some r ∨
      (∃ s, st.saved id = some s ∧ st'.deref r = some s) ∨ pc = .loaded r) := by
  cases hm with
  | hit hr =>
    simp only [handlerAfter, held, Option.some.injEq, Prod.mk.injEq] at h
    exact ⟨h.1, .inl (h.2 ▸ hr)⟩
  | load hs =>
    simp only [handlerAfter, held, Option.some.injEq, Prod.mk.injEq] at h
    exact ⟨h.1, .inr (.inl ⟨_, hs, h.2 ▸ Store.deref_alloc _ _⟩)⟩
  | publish r' =>
    simp only [handlerAfter, held, Option.some.injEq, Prod.mk.injEq] at h
    exact ⟨h.1, .inr (.inr (by rw [h.2]))⟩
  | miss _ => simp [handlerAfter, held] at h
  | absent _ => simp [handlerAfter, held] at h
  | present _ => simp [handlerAfter, held] at h
  | unreadable _ => simp [handlerAfter, held] at h

/-- Every session is kept under its own id. -/
structure WellKeyed (σ : System) : Prop where
  cache : ∀ id r, σ.store.cache.get? id = some r → σ.store.Holds r (fun s => s.sessionId = id)
  disk : ∀ id s, σ.store.saved id = some s → s.sessionId = id
  workers : ∀ w id r, Loaded (σ.workerAt w) id r →
    σ.store.Holds r (fun s => s.sessionId = id)
  handler : ∀ id r, held σ.handler = some (id, r) → σ.store.Holds r (fun s => s.sessionId = id)
  appended : ∀ id r t, σ.handler = .appended id r t → σ.store.Holds r (fun s => t ∈ s.turns)

/-- The object that the handler has in hand carries the id that it was asked
for. -/
theorem WellKeyed.handler_id {σ : System} (hwk : WellKeyed σ) {id : Str} {r : Ref} {s : Session}
    (hheld : held σ.handler = some (id, r)) (hs : σ.store.deref r = some s) :
    s.sessionId = id := by
  obtain ⟨s', hs', hid⟩ := hwk.handler id r hheld
  rw [hs] at hs'
  rw [Option.some.inj hs', hid]

/-- The id of an object is kept when the heap grows. -/
theorem holds_id_mono {st st' : Store} {r : Ref} {id : Str}
    (hgrow : HeapGrows st.heap st'.heap) (h : st.Holds r (fun s => s.sessionId = id)) :
    st'.Holds r (fun s => s.sessionId = id) :=
  h.mono hgrow (fun _ _ hg hid => hg.1.trans hid)

/-- The turns of an object are kept when the heap grows. -/
theorem holds_turn_mono {st st' : Store} {r : Ref} {t : TurnRecord}
    (hgrow : HeapGrows st.heap st'.heap) (h : st.Holds r (fun s => t ∈ s.turns)) :
    st'.Holds r (fun s => t ∈ s.turns) :=
  h.mono hgrow (fun _ _ hg ht => hg.2 ht)

/-- The start of the server is well keyed when the disk is. -/
theorem init_wellKeyed {disk : Dict Str Dir}
    (hdisk : ∀ id s, (init disk).store.saved id = some s → s.sessionId = id) :
    WellKeyed (init disk) where
  cache := by simp [init]
  disk := hdisk
  workers := by simp [init, workerAt, Loaded]
  handler := by simp [init, held]
  appended := by simp [init]

/-- A step that leaves the sessions alone and only moves a worker keeps every
session under its id. -/
private theorem wellKeyed_worker {σ : System} (hwk : WellKeyed σ) {w : Nat} {st : Store}
    {pc : Worker} (hgrow : HeapGrows σ.store.heap st.heap)
    (hcache : ∀ id r, st.cache.get? id = some r → st.Holds r (fun s => s.sessionId = id))
    (hsaved : ∀ id s, st.saved id = some s → σ.store.saved id = some s)
    (hpc : ∀ id r, Loaded pc id r → st.Holds r (fun s => s.sessionId = id)) :
    WellKeyed (σ.setWorker w st pc) where
  cache := hcache
  disk := fun id s hs => hwk.disk id s (hsaved id s hs)
  workers := by
    intro w' id r hl
    rcases loaded_setWorker hl with hl | hl
    · exact hpc id r hl
    · exact holds_id_mono hgrow (hwk.workers w' id r hl)
  handler := fun id r hr => holds_id_mono hgrow (hwk.handler id r hr)
  appended := fun id r t ht => holds_turn_mono hgrow (hwk.appended id r t ht)

/-- The cache after a step of `get` holds well-keyed objects, when the object
that the caller has decoded is one. -/
private theorem cache_getMove {σ : System} (hwk : WellKeyed σ) {id : Str} {pc : Store.GetPc}
    {st : Store} {out : Store.GetOut} (hm : σ.store.GetMove id pc st out)
    (hgrow : HeapGrows σ.store.heap st.heap)
    (hpc : ∀ r, pc = .loaded r → σ.store.Holds r (fun s => s.sessionId = id)) :
    ∀ id' r, st.cache.get? id' = some r → st.Holds r (fun s => s.sessionId = id') := by
  intro id' r hr
  rcases hm.effect.2 id' r hr with hold | ⟨rfl, hl⟩
  · exact holds_id_mono hgrow (hwk.cache id' r hold)
  · exact holds_id_mono hgrow (hpc r hl)

/-- Every step keeps every session under its own id. -/
theorem Move.wellKeyed {σ σ' : System} {a : Action} {es : List Event} (h : Move σ a σ' es)
    (hwk : WellKeyed σ) : WellKeyed σ' := by
  have hgrow := h.heapGrows
  cases h with
  | @create sid now hdisk =>
    obtain ⟨hheap, hcache, _⟩ := σ.store.create_spec sid now
    constructor
    · intro id r hr
      rw [hcache, Dict.get?_set] at hr
      split_ifs at hr with hid
      · rw [← Option.some.inj hr]
        exact ⟨⟨sid, now, now, [], []⟩, by simp [Store.deref, hheap], hid⟩
      · exact holds_id_mono hgrow (hwk.cache id r hr)
    · intro id s hs
      rw [Store.saved_create] at hs
      split_ifs at hs with hid
      · rw [← Option.some.inj hs]
        exact hid
      · exact hwk.disk id s hs
    · exact fun w id r hl => holds_id_mono hgrow (hwk.workers w id r hl)
    · exact fun id r hr => holds_id_mono hgrow (hwk.handler id r hr)
    · exact fun id r t ht => holds_turn_mono hgrow (hwk.appended id r t ht)
  | worker hsame hpc _ _ =>
    refine wellKeyed_worker hwk hgrow ?_ (fun id s hs => hsame.saved id ▸ hs)
      (fun id r hl => absurd hl (hpc id r))
    intro id r hr
    rw [hsame.cache] at hr
    exact holds_id_mono hgrow (hwk.cache id r hr)
  | @workerGet w id pc k st out hw hm =>
    refine wellKeyed_worker hwk hgrow ?_ (fun id' s hs => hm.saved id' ▸ hs) ?_
    · refine cache_getMove hwk hm hgrow ?_
      rintro r rfl
      exact hwk.workers w id r ⟨k, hw⟩
    · intro id' r hl
      obtain ⟨rfl, s, hs, hd⟩ := loaded_workerAfter hm hl
      exact ⟨s, hd, hwk.disk _ s hs⟩
  | @workerDelete w id pc st out hw hm =>
    obtain ⟨_, hcache, _⟩ := hm.effect
    refine wellKeyed_worker hwk hgrow ?_ (fun _ _ hs => hm.saved_of_saved hs) ?_
    · exact fun id' r hr => holds_id_mono hgrow (hwk.cache id' r (hcache id' r hr))
    · exact fun id' r hl => absurd hl (not_loaded_workerAfterDelete id id' out r)
  | @turnGet id pc st out es hh hm _ =>
    have hpc : ∀ r, pc = .loaded r → σ.store.Holds r (fun s => s.sessionId = id) := by
      rintro r rfl
      exact hwk.handler id r (by rw [hh]; rfl)
    constructor
    · exact cache_getMove hwk hm hgrow hpc
    · exact fun id' s hs => hwk.disk id' s (hm.saved id' ▸ hs)
    · exact fun w id' r hl => holds_id_mono hgrow (hwk.workers w id' r hl)
    · intro id' r hr
      obtain ⟨rfl, hc | ⟨s, hs, hd⟩ | hl⟩ := held_handlerAfter hm hr
      · exact holds_id_mono hgrow (hwk.cache id r hc)
      · exact ⟨s, hd, hwk.disk id s hs⟩
      · exact holds_id_mono hgrow (hpc r hl)
    · intro id' r t ht
      cases hm <;> simp [setHandler, handlerAfter] at ht
  | turn hsame hh _ =>
    constructor
    · intro id r hr
      exact holds_id_mono hgrow (hwk.cache id r (hsame.cache ▸ hr))
    · exact fun id s hs => hwk.disk id s (hsame.saved id ▸ hs)
    · exact fun w id r hl => holds_id_mono hgrow (hwk.workers w id r hl)
    · intro id r hr
      rcases hh with rfl | hnone
      · exact holds_id_mono hgrow (hwk.handler id r hr)
      · simp [setHandler, hnone] at hr
    · intro id r t ht
      rcases hh with rfl | hnone
      · exact holds_turn_mono hgrow (hwk.appended id r t ht)
      · simp only [setHandler] at ht
        simp [ht, held] at hnone
  | @mutate a id r f h hheld hh hf happ =>
    constructor
    · exact fun id' r' hr => holds_id_mono hgrow (hwk.cache id' r' hr)
    · exact fun id' s hs => hwk.disk id' s hs
    · exact fun w id' r' hl => holds_id_mono hgrow (hwk.workers w id' r' hl)
    · intro id' r' hr
      rw [show held (σ.setHandler (σ.store.mutate r f) h).handler = some (id, r) from hh] at hr
      exact holds_id_mono hgrow (hwk.handler id' r' (by rw [hheld, hr]))
    · intro id' r' t ht
      have ht' : h = .appended id' r' t := ht
      have hr : (id', r') = (id, r) := Option.some.inj (by rw [← hh, ht']; rfl)
      obtain ⟨s, hs, _⟩ := hwk.handler id r hheld
      rw [(Prod.mk.inj hr).2]
      exact ⟨f s, by simp [setHandler, Store.deref_mutate, hs], happ id' r' t ht' s⟩
  | @update id now r t st s hh hst =>
    obtain ⟨s₀, _, _, _, hd, hcache, _, hsaved⟩ := Store.update_spec hst
    constructor
    · intro id' r' hr
      simp only [setHandler, hcache, Dict.get?_set] at hr
      split_ifs at hr with hid
      · rw [← Option.some.inj hr]
        exact ⟨s, hd, hid⟩
      · exact holds_id_mono hgrow (hwk.cache id' r' hr)
    · intro id' s' hs'
      simp only [setHandler, hsaved] at hs'
      split_ifs at hs' with hid
      · rw [← Option.some.inj hs']
        exact hid
      · exact hwk.disk id' s' hs'
    · exact fun w id' r' hl => holds_id_mono hgrow (hwk.workers w id' r' hl)
    · intro id' r' hr
      simp [setHandler, held] at hr
    · intro id' r' t' ht
      simp [setHandler] at ht

/-- Every session is kept under its own id in every state that the server
reaches. -/
theorem run_wellKeyed {σ σ' : System} {as : List Action} {es : List Event}
    (hwk : WellKeyed σ) (hrun : run step σ as = some (σ', es)) : WellKeyed σ' := by
  have hall : AllSteps step (fun _ _ => True) σ as := .of_forall (by simp)
  refine (run_invariant (Q := fun _ => True) ?_ hwk hall hrun).1
  intro σ a σ₁ es hI _ hstep
  exact ⟨(step_move hstep).wellKeyed hI, by simp⟩

end System

end AiPipelines.SessionStore
