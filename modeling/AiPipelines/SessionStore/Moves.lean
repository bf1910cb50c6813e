import AiPipelines.SessionStore.System

/-!
# What a step of the server can do

`System.step` is a function, and its invariants need its case analysis the
other way round: given that a step was taken, what did it do to the objects,
to the cache, to the saved sessions, and which thread moved.  `Move` lists
the answers once, and `step_move` is the inversion lemma.  The invariants of
`AiPipelines.SessionStore.Durability` and `AiPipelines.SessionStore.Deletion`
split on `Move` and never unfold `step`.

Three facts about the store come first.

* The heap only grows: an object keeps its id and never loses a turn
  (`HeapGrows`).  This is why a reference that is held by a thread stays as
  good as it was.
* `SameSessions`: creating a directory or writing an audio file changes
  no object, no cache entry and no saved session.
* `GetMove` and `DeleteMove` are the steps of `get` and `delete`.
-/

namespace AiPipelines.SessionStore

open PyStd Transition

/-! ## Objects only grow -/

/-- The object kept its id and all of its turns. -/
def Session.Grows (s s' : Session) : Prop := s'.sessionId = s.sessionId ∧ s.turns ⊆ s'.turns

/-- Every object of the first heap is in the second one, grown. -/
def HeapGrows (h h' : List Session) : Prop :=
  ∀ (r : Ref) (s : Session), h[r]? = some s → ∃ s', h'[r]? = some s' ∧ s.Grows s'

theorem Session.Grows.refl (s : Session) : s.Grows s := ⟨rfl, List.Subset.refl _⟩

theorem HeapGrows.refl (h : List Session) : HeapGrows h h := fun _ s hs => ⟨s, hs, .refl s⟩

/-- A new object changes no other one. -/
theorem heapGrows_alloc (h : List Session) (s : Session) : HeapGrows h (h ++ [s]) := by
  intro r t ht
  refine ⟨t, ?_, .refl t⟩
  have hr : r < h.length := (List.getElem?_eq_some_iff.mp ht).1
  rw [List.getElem?_append_left hr, ht]

/-- A mutation that lets the object grow lets the heap grow. -/
theorem heapGrows_modify (h : List Session) (r : Ref) {f : Session → Session}
    (hf : ∀ s : Session, s.Grows (f s)) : HeapGrows h (h.modify r f) := by
  intro r' s hs
  rw [List.getElem?_modify]
  by_cases hr : r = r'
  · exact ⟨f s, by simp [hr, hs], hf s⟩
  · exact ⟨s, by simp [hr, hs], .refl s⟩

namespace Store

/-- The reference is alive and its object has the property. -/
def Holds (st : Store) (r : Ref) (P : Session → Prop) : Prop := ∃ s, st.deref r = some s ∧ P s

/-- A property that growing keeps stays with the reference. -/
theorem Holds.mono {st st' : Store} {r : Ref} {P : Session → Prop} (h : st.Holds r P)
    (hgrow : HeapGrows st.heap st'.heap) (hP : ∀ s s' : Session, s.Grows s' → P s → P s') :
    st'.Holds r P := by
  obtain ⟨s, hs, hp⟩ := h
  obtain ⟨s', hs', hg⟩ := hgrow r s hs
  exact ⟨s', hs', hP s s' hg hp⟩

/-- A new object is behind the new reference. -/
theorem deref_alloc (st : Store) (s : Session) : (st.alloc s).1.deref (st.alloc s).2 = some s := by
  simp [alloc, deref]

/-- A mutation changes the object behind the reference. -/
theorem deref_mutate (st : Store) (r : Ref) (f : Session → Session) :
    (st.mutate r f).deref r = (st.deref r).map f := by
  simp [mutate, deref]

/-! ## Saved sessions -/

/-- Nothing that a request can read as a session differs. -/
structure SameSessions (st st' : Store) : Prop where
  heap : st'.heap = st.heap
  cache : st'.cache = st.cache
  json : ∀ id, st'.entry id sessionJson = st.entry id sessionJson

theorem SameSessions.refl (st : Store) : SameSessions st st := ⟨rfl, rfl, fun _ => rfl⟩

theorem SameSessions.saved {st st' : Store} (h : SameSessions st st') (id : Str) :
    st'.saved id = st.saved id := by
  rw [Store.saved, Store.saved, h.json id]

theorem mkdir_same (st : Store) (id : Str) : SameSessions st (st.mkdir id) := by
  unfold mkdir
  cases hd : st.disk.get? id with
  | some d => exact .refl st
  | none =>
    refine ⟨rfl, rfl, fun id' => ?_⟩
    rw [entry, entry, Dict.get?_set]
    by_cases h : id = id'
    · simp [← h, hd]
    · simp [h]

theorem writeFile_same {st st' : Store} {id name : Str} (hname : name ≠ sessionJson)
    (h : st.writeFile id name .raw = some st') : SameSessions st st' := by
  obtain ⟨d, hd, rfl⟩ := Option.map_eq_some_iff.mp h
  refine ⟨rfl, rfl, fun id' => ?_⟩
  rw [entry, entry, Dict.get?_set]
  by_cases hid : id = id'
  · subst hid
    simp [hd, Dict.get?_set_of_ne d Node.raw hname]
  · simp [hid]

/-- The session file after `_save`. -/
theorem entry_save (st : Store) (s : Session) (id : Str) :
    (st.save s).entry id sessionJson =
      if s.sessionId = id then some (.session s) else st.entry id sessionJson := by
  rw [entry, entry, save, Dict.get?_set]
  by_cases h : s.sessionId = id
  · simp [h]
  · simp [h]

/-- What is saved after `_save`. -/
theorem saved_save (st : Store) (s : Session) (id : Str) :
    (st.save s).saved id = if s.sessionId = id then some s else st.saved id := by
  rw [saved, saved, entry_save]
  by_cases h : s.sessionId = id
  · simp [h]
  · simp [h]

/-! ## The steps of `get` -/

/-- The steps of `get(id)`. -/
inductive GetMove (st : Store) (id : Str) : GetPc → Store → GetOut → Prop where
  | hit {r : Ref} (h : st.cache.get? id = some r) : GetMove st id .start st (.ret (some r))
  | miss (h : st.cache.get? id = none) : GetMove st id .start st (.next .missed)
  | absent (h : st.saved id = none) : GetMove st id .missed st (.ret none)
  | present (h : st.entry id sessionJson ≠ none) : GetMove st id .missed st (.next .present)
  | load {s : Session} (h : st.saved id = some s) :
      GetMove st id .present (st.alloc s).1 (.next (.loaded (st.alloc s).2))
  | unreadable (h : st.saved id = none) : GetMove st id .present st .raised
  | publish (r : Ref) :
      GetMove st id (.loaded r) { st with cache := st.cache.set id r } (.ret (some r))

theorem getStep_move (st : Store) (id : Str) (pc : GetPc) :
    GetMove st id pc (st.getStep id pc).1 (st.getStep id pc).2 := by
  cases pc with
  | start =>
    simp only [getStep]
    cases h : st.cache.get? id with
    | none => exact .miss h
    | some r => exact .hit h
  | missed =>
    simp only [getStep]
    cases h : st.entry id sessionJson with
    | none => exact .absent (by rw [saved, h])
    | some n =>
      cases n with
      | folder => exact .absent (by rw [saved, h])
      | session s => exact .present (by simp [h])
      | raw => exact .present (by simp [h])
  | present =>
    simp only [getStep]
    cases h : st.saved id with
    | none => exact .unreadable h
    | some s => exact .load h
  | loaded r => exact .publish r

/-! ## The steps of `delete` -/

/-- The steps of `delete(id)`, by what they do to the store. -/
inductive DeleteMove (st : Store) (id : Str) : DeletePc → Store → DeleteOut → Prop where
  | pop : DeleteMove st id .start { st with cache := st.cache.pop id } (.next .popped)
  | look {pc pc' : DeletePc} : DeleteMove st id pc st (.next pc')
  | missing {pc : DeletePc} : DeleteMove st id pc st (.ret false)
  | unlink {d : Dir} (name : Str) (todo : List Str) (h : st.disk.get? id = some d) :
      DeleteMove st id (.unlink name todo) { st with disk := st.disk.set id (d.pop name) }
        (.next (.files todo))
  | rmdir (h : st.disk.get? id = some []) :
      DeleteMove st id (.files []) { st with disk := st.disk.pop id } (.ret true)
  | raised {pc : DeletePc} : DeleteMove st id pc st .raised

theorem deleteStep_move (st : Store) (id : Str) (pc : DeletePc) :
    DeleteMove st id pc (st.deleteStep id pc).1 (st.deleteStep id pc).2 := by
  cases pc with
  | start => exact .pop
  | popped =>
    simp only [deleteStep]
    cases st.disk.get? id with
    | none => exact .missing
    | some d => exact .look
  | found => exact .look
  | files todo =>
    cases todo with
    | nil =>
      simp only [deleteStep]
      split
      · next h => exact .rmdir h
      · exact .raised
    | cons name todo =>
      simp only [deleteStep]
      cases st.entry id name with
      | none => exact .look
      | some n => cases n <;> exact .look
  | unlink name todo =>
    simp only [deleteStep]
    cases h : st.disk.get? id with
    | none => exact .raised
    | some d =>
      by_cases hn : (d.get? name).isSome = true
      · simpa [hn] using DeleteMove.unlink name todo h
      · simpa [hn] using DeleteMove.raised

end Store

/-! ## The steps of the server -/

namespace System

/-- The events of a step of `get(id)`. -/
def getEvents (st : Store) (id : Str) : Store.GetOut → List Event
  | .next _ => []
  | .ret r => [.getReturned id (r.bind st.deref)]
  | .raised => [.getRaised id]

/-- Where a worker stands after a step of `get(id)`. -/
def workerAfter (st : Store) (id : Str) (k : GetFor) : Store.GetOut → Worker
  | .next pc => .getting id pc k
  | .ret r => afterGet st id r k
  | .raised => .idle

/-- Where the handler stands after a step of `get(id)`. -/
def handlerAfter (id : Str) : Store.GetOut → Handler
  | .next pc => .getting id pc
  | .ret (some r) => .holding id r
  | .ret none => .idle
  | .raised => .idle

/-- The events of a step of `delete(id)`. -/
def deleteEvents (id : Str) : Store.DeleteOut → List Event
  | .next _ => []
  | .ret ok => [.deleted id ok]
  | .raised => [.deleteRaised id]

/-- Where a worker stands after a step of `delete(id)`. -/
def workerAfterDelete (id : Str) : Store.DeleteOut → Worker
  | .next pc => .deleting id pc
  | _ => .idle

/-- A worker that has decoded a session and not yet cached it. -/
def Loaded (pc : Worker) (id : Str) (r : Ref) : Prop := ∃ k, pc = .getting id (.loaded r) k

/-- The object that the turn handler works on, with the id it was asked
for. -/
def held : Handler → Option (Str × Ref)
  | .getting id (.loaded r) => some (id, r)
  | .holding id r => some (id, r)
  | .appended id r _ => some (id, r)
  | _ => none

/-- What a step does, with the events that it emits. -/
inductive Move (σ : System) : Action → System → List Event → Prop where
  | create {sid now : Str} (hdisk : σ.store.disk.get? sid = none) :
      Move σ (.create sid now) { σ with store := σ.store.create sid now } [.created sid]
  /-- A worker moves and leaves every session as it is. -/
  | worker {a : Action} {w : Nat} {st : Store} {pc : Worker} {es : List Event}
      (hsame : Store.SameSessions σ.store st) (hpc : ∀ id r, ¬ Loaded pc id r)
      (hdel : ∀ id pc', pc = .deleting id pc' → a = .startDelete w id)
      (hes : es = [] ∨ ∃ rows, es = [.listed rows]) : Move σ a (σ.setWorker w st pc) es
  | workerGet {w : Nat} {id : Str} {pc : Store.GetPc} {k : GetFor} {st : Store}
      {out : Store.GetOut} (hw : σ.workerAt w = .getting id pc k)
      (hmove : σ.store.GetMove id pc st out) :
      Move σ (.worker w) (σ.setWorker w st (workerAfter st id k out)) (getEvents st id out)
  | workerDelete {w : Nat} {id : Str} {pc : Store.DeletePc} {st : Store}
      {out : Store.DeleteOut} (hw : σ.workerAt w = .deleting id pc)
      (hmove : σ.store.DeleteMove id pc st out) :
      Move σ (.worker w) (σ.setWorker w st (workerAfterDelete id out)) (deleteEvents id out)
  | turnGet {id : Str} {pc : Store.GetPc} {st : Store} {out : Store.GetOut} {es : List Event}
      (hh : σ.handler = .getting id pc) (hmove : σ.store.GetMove id pc st out)
      (hes : es = getEvents st id out ∨ es = getEvents st id out ++ [.turnFailed id]) :
      Move σ (.turn .get) (σ.setHandler st (handlerAfter id out)) es
  /-- The handler changes no session, and holds what it held or lets go. -/
  | turn {a : Action} {st : Store} {h : Handler} {es : List Event}
      (hsame : Store.SameSessions σ.store st) (hh : h = σ.handler ∨ held h = none)
      (hes : es = [] ∨ ∃ id, es = [.turnFailed id]) : Move σ a (σ.setHandler st h) es
  /-- The handler mutates the object that it holds. -/
  | mutate {a : Action} {id : Str} {r : Ref} {f : Session → Session} {h : Handler}
      (hheld : held σ.handler = some (id, r)) (hh : held h = some (id, r))
      (hf : ∀ s : Session, s.Grows (f s))
      (happ : ∀ id r t, h = .appended id r t → ∀ s, t ∈ (f s).turns) :
      Move σ a (σ.setHandler (σ.store.mutate r f) h) []
  | update {id now : Str} {r : Ref} {t : TurnRecord} {st : Store} {s : Session}
      (hh : σ.handler = .appended id r t) (hst : σ.store.update r now = some (st, s)) :
      Move σ (.turn (.update now)) (σ.setHandler st .idle) [.updated s.sessionId t s]

private theorem startWorker_move {σ σ' : System} {a : Action} {w : Nat} {pc : Worker}
    {es : List Event} (h : σ.startWorker w pc = some (σ', es))
    (hpc : ∀ id r, ¬ Loaded pc id r)
    (hdel : ∀ id pc', pc = .deleting id pc' → a = .startDelete w id) : Move σ a σ' es := by
  unfold startWorker at h
  split at h
  · simp only [Option.some.injEq, Prod.mk.injEq] at h
    obtain ⟨rfl, rfl⟩ := h
    exact .worker (.refl _) hpc hdel (.inl rfl)
  · simp at h

private theorem workerStep_move {σ σ' : System} {w : Nat} {es : List Event}
    (h : σ.workerStep w = some (σ', es)) : Move σ (.worker w) σ' es := by
  unfold workerStep at h
  cases hw : σ.workerAt w with
  | idle => simp [hw] at h
  | getting id pc k =>
    have hm := σ.store.getStep_move id pc
    rw [hw] at h
    cases hs : σ.store.getStep id pc with
    | mk st out =>
      rw [hs] at hm
      cases out <;> simp only [hs, Option.some.injEq, Prod.mk.injEq] at h <;>
        obtain ⟨rfl, rfl⟩ := h <;> exact .workerGet hw hm
  | listing todo rows =>
    rw [hw] at h
    cases todo with
    | nil =>
      simp only [Option.some.injEq, Prod.mk.injEq] at h
      obtain ⟨rfl, rfl⟩ := h
      exact .worker (.refl _) (by simp [Loaded]) (by simp) (.inr ⟨_, rfl⟩)
    | cons sid todo =>
      cases hd : σ.store.disk.get? sid <;> simp only [hd, Option.some.injEq, Prod.mk.injEq] at h <;>
        obtain ⟨rfl, rfl⟩ := h <;>
        exact .worker (.refl _) (by simp [Loaded]) (by simp) (.inl rfl)
  | audioDir id filename =>
    rw [hw] at h
    dsimp only at h
    split at h <;> simp only [Option.some.injEq, Prod.mk.injEq] at h <;> obtain ⟨rfl, rfl⟩ := h
    · exact .worker (.refl _) (by simp [Loaded]) (by simp) (.inl rfl)
    · exact .worker (σ.store.mkdir_same id) (by simp [Loaded]) (by simp) (.inl rfl)
  | deleting id pc =>
    have hm := σ.store.deleteStep_move id pc
    rw [hw] at h
    cases hs : σ.store.deleteStep id pc with
    | mk st out =>
      rw [hs] at hm
      cases out <;> simp only [hs, Option.some.injEq, Prod.mk.injEq] at h <;>
        obtain ⟨rfl, rfl⟩ := h <;> exact .workerDelete hw hm

private theorem turnStep_move {σ σ' : System} {a : TurnAction} {es : List Event}
    (h : σ.turnStep a = some (σ', es)) : Move σ (.turn a) σ' es := by
  cases hh : σ.handler with
  | idle => cases a <;> simp [turnStep, hh] at h
  | getting id pc =>
    cases a with
    | get =>
      have hm := σ.store.getStep_move id pc
      simp only [turnStep, hh] at h
      cases hs : σ.store.getStep id pc with
      | mk st out =>
        rw [hs] at hm
        match out with
        | .next pc' =>
          simp only [hs, Option.some.injEq, Prod.mk.injEq] at h
          obtain ⟨rfl, rfl⟩ := h
          exact .turnGet hh hm (.inl rfl)
        | .ret (some r) =>
          simp only [hs, Option.some.injEq, Prod.mk.injEq] at h
          obtain ⟨rfl, rfl⟩ := h
          exact .turnGet hh hm (.inl rfl)
        | .ret none =>
          simp only [hs, Option.some.injEq, Prod.mk.injEq] at h
          obtain ⟨rfl, rfl⟩ := h
          exact .turnGet hh hm (.inr rfl)
        | .raised =>
          simp only [hs, Option.some.injEq, Prod.mk.injEq] at h
          obtain ⟨rfl, rfl⟩ := h
          exact .turnGet hh hm (.inr rfl)
    | _ => simp [turnStep, hh] at h
  | holding id r =>
    cases a with
    | get => simp [turnStep, hh] at h
    | mkdir =>
      simp only [turnStep, hh, Option.some.injEq, Prod.mk.injEq] at h
      obtain ⟨rfl, rfl⟩ := h
      exact .turn (σ.store.mkdir_same id) (.inl hh.symm) (.inl rfl)
    | writeAudio f =>
      simp only [turnStep, hh] at h
      split at h <;> simp only [Option.some.injEq, Prod.mk.injEq] at h <;> obtain ⟨rfl, rfl⟩ := h
      · next st hst =>
        exact .turn (Store.writeFile_same (f.name_ne_sessionJson _) hst) (.inl hh.symm) (.inl rfl)
      · exact .turn (.refl _) (.inr rfl) (.inr ⟨id, rfl⟩)
    | remember key value =>
      simp only [turnStep, hh, Option.some.injEq, Prod.mk.injEq] at h
      obtain ⟨rfl, rfl⟩ := h
      exact .mutate (by rw [hh]; rfl) rfl (fun s => ⟨rfl, List.Subset.refl _⟩) (by simp)
    | fail =>
      simp only [turnStep, hh, Option.some.injEq, Prod.mk.injEq] at h
      obtain ⟨rfl, rfl⟩ := h
      exact .turn (.refl _) (.inr rfl) (.inr ⟨id, rfl⟩)
    | append t =>
      simp only [turnStep, hh, Option.some.injEq, Prod.mk.injEq] at h
      obtain ⟨rfl, rfl⟩ := h
      have hheld : held σ.handler = some (id, r) := by rw [hh]; rfl
      refine .mutate hheld rfl (fun s => ⟨rfl, by simp⟩) ?_
      intro id' r' t' heq s
      simp only [Handler.appended.injEq] at heq
      simp [heq.2.2]
    | update now => simp [turnStep, hh] at h
  | appended id r t =>
    cases a with
    | update now =>
      simp only [turnStep, hh] at h
      split at h
      · next st s hst =>
        simp only [Option.some.injEq, Prod.mk.injEq] at h
        obtain ⟨rfl, rfl⟩ := h
        exact .update hh hst
      · simp at h
    | _ => simp [turnStep, hh] at h

/-- Every step of the server is one of the moves. -/
theorem step_move {σ σ' : System} {a : Action} {es : List Event}
    (h : σ.step a = some (σ', es)) : Move σ a σ' es := by
  cases a with
  | create sid now =>
    simp only [step] at h
    split at h
    · next hfree =>
      simp only [Bool.and_eq_true, Option.isNone_iff_eq_none] at hfree
      simp only [Option.some.injEq, Prod.mk.injEq] at h
      obtain ⟨rfl, rfl⟩ := h
      exact .create hfree.1
    · simp at h
  | startGet w id => exact startWorker_move h (by simp [Loaded]) (by simp)
  | startList w => exact startWorker_move h (by simp [Loaded]) (by simp)
  | startAudio w id filename => exact startWorker_move h (by simp [Loaded]) (by simp)
  | startDelete w id =>
    exact startWorker_move h (by simp [Loaded]) (by
      intro id' pc' heq
      simp only [Worker.deleting.injEq] at heq
      rw [heq.1])
  | worker w => exact workerStep_move h
  | startTurn id =>
    simp only [step] at h
    split at h
    · simp only [Option.some.injEq, Prod.mk.injEq] at h
      obtain ⟨rfl, rfl⟩ := h
      exact .turn (.refl _) (.inr rfl) (.inl rfl)
    · simp at h
  | turn a => exact turnStep_move h

end System

end AiPipelines.SessionStore
