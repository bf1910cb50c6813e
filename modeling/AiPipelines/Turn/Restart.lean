import AiPipelines.Turn.Recorded
import AiPipelines.Turn.SideBySide
import AiPipelines.Transition

/-!
# The server is started again

Sequential runs of the server: sessions are created, read, listed and deleted,
turns are taken, and at any point the cache of the session store may be dropped.
Only turns that return are taken.

`session.json` is a text.  What later requests find there is what `from_dict`
makes of it, so after `_save` the file stands for what its text decodes to
(`written`).  A session is shown as the routes send it, with its floats printed.

`InSync` is the invariant: whatever is cached is, up to the way its floats are
carried, what the file decodes to.  So the disk decides the result of every
operation, and `step_same` says that two servers with the same disk give the same
results and have the same disk again.  `restart_transparent` is the result for
runs.
-/

namespace AiPipelines.Turn.Restart

open PyStd SessionStore Agent Transition

/-! ## Operations -/

/-- The session file after `_save`: its text is what it decodes to.  There is no
such store if the session cannot be encoded. -/
def written (x : Interpreter) (st : Store) (id : Str) : Option Store :=
  (st.saved id).bind fun s =>
    match s.text x with
    | .error _ => none
    | .ok text =>
      st.writeFile id sessionJson
        (match readSession x (writeText text) with
        | .ok s' => .session s'
        | .error _ => .raw)

/-- The loop of `list_sessions` over the directories. -/
def listFrom : List Str → List Summary → Store → Except HttpError (List Summary) × Store
  | [], rows, st => (.ok (sortSummaries rows), st)
  | sid :: todo, rows, st =>
    match getSession sid st with
    | (.ok (some r), st₁) =>
      listFrom todo (rows ++ ((st₁.deref r).map Session.summary).toList) st₁
    | (.ok none, st₁) => listFrom todo rows st₁
    | (.error e, st₁) => (.error e, st₁)

/-- `list_sessions`. -/
def listSessions (st : Store) : Except HttpError (List Summary) × Store :=
  listFrom st.disk.keys [] st

/-- The loop of `delete` over the paths, and `rmdir`. -/
def deleteFiles (id : Str) : List Str → Store → Except HttpError Bool × Store
  | [], st =>
    match st.deleteStep id (.files []) with
    | (st₁, .ret ok) => (.ok ok, st₁)
    | (st₁, _) => (.error internalError, st₁)
  | name :: todo, st =>
    match st.deleteStep id (.files (name :: todo)) with
    | (st₁, .next (.unlink name' todo')) =>
      match st₁.deleteStep id (.unlink name' todo') with
      | (st₂, .next _) => deleteFiles id todo st₂
      | (st₂, _) => (.error internalError, st₂)
    | (st₁, _) => deleteFiles id todo st₁

/-- `delete`. -/
def deleteSession (id : Str) (st : Store) : Except HttpError Bool × Store :=
  match (st.deleteStep id .start).1.deleteStep id .popped with
  | (st₁, .ret ok) => (.ok ok, st₁)
  | (st₁, _) => deleteFiles id (Store.globReversed ((st₁.disk.get? id).getD [])) st₁

/-- What happens to the server. -/
inductive Op where
  | create (sid now : Str)
  | turn (w : TurnWorld) (req : TurnRequest)
  | get (id : Str)
  | listSessions
  | delete (id : Str)
  /-- what is in memory is dropped -/
  | restart

/-- What a client sees of an operation. -/
inductive Result where
  | created (sid : Str)
  /-- with the calls of the language model -/
  | answered (response : TurnResponse) (calls : List LlmCall)
  | got (session : Option Session)
  | listed (rows : List Summary)
  | deleted (ok : Bool)
  | raised (e : HttpError)

/-- One operation. -/
def step (x : Interpreter) (v : PipelineService) (st : Store) : Op → Option (Store × List Result)
  | .create sid now =>
    -- `uuid4().hex` names no session that is there.
    if (st.disk.get? sid).isNone && (st.cache.get? sid).isNone then
      (written x (st.create sid now) sid).map fun st₁ => (st₁, [.created sid])
    else none
  | .turn w req =>
    match handle v w req st with
    | (.ok response, st₁, calls) =>
      (written x st₁ req.id).map fun st₂ => (st₂, [.answered response calls])
    | (.error _, _) => none
  | .get id =>
    match getSession id st with
    | (.ok found, st₁) =>
      some (st₁, [.got ((found.bind st₁.deref).map (Session.canon x.floats))])
    | (.error e, st₁) => some (st₁, [.raised e])
  | .listSessions =>
    match listSessions st with
    | (.ok rows, st₁) => some (st₁, [.listed rows])
    | (.error e, st₁) => some (st₁, [.raised e])
  | .delete id =>
    match deleteSession id st with
    | (.ok ok, st₁) => some (st₁, [.deleted ok])
    | (.error e, st₁) => some (st₁, [.raised e])
  | .restart => some (⟨[], [], st.disk⟩, [])

/-- The server before its first session. -/
def emptyStore : Store := ⟨[], [], []⟩

/-! ## The invariant -/

variable {x : Interpreter} {v : PipelineService} {st st' : Store} {id : Str}

/-- What is cached is what is on disk, and what is on disk was written by the
server. -/
structure InSync (x : Interpreter) (st : Store) : Prop where
  cached : ∀ id r, st.cache.get? id = some r →
    ∃ o, st.deref r = some o ∧ o.Valid ∧ st.saved id = some (o.canon x.floats)
  saved : ∀ id s, st.saved id = some s → s.Valid ∧ s.canon x.floats = s ∧ s.sessionId = id ∧
    ∃ text, s.text x = .ok text

/-- Two servers with the same disk. -/
structure Same (x : Interpreter) (st st' : Store) : Prop where
  left : InSync x st
  right : InSync x st'
  disk : st'.disk = st.disk

theorem Same.symm (h : Same x st st') : Same x st' st := ⟨h.right, h.left, h.disk.symm⟩

theorem entry_of_disk (h : st'.disk = st.disk) (id name : Str) :
    st'.entry id name = st.entry id name := by
  rw [Store.entry, Store.entry, h]

theorem saved_of_disk (h : st'.disk = st.disk) (id : Str) : st'.saved id = st.saved id := by
  rw [Store.saved, Store.saved, entry_of_disk h]

theorem emptyStore_inSync : InSync x emptyStore where
  cached := fun _ _ h => nomatch h
  saved := fun _ _ h => nomatch h

/-- After a restart nothing is cached. -/
theorem InSync.restart (h : InSync x st) : InSync x ⟨[], [], st.disk⟩ where
  cached := fun _ _ h => nomatch h
  saved := h.saved

/-! ## Reading -/

theorem getSession_cached {r : Ref} (hc : st.cache.get? id = some r) :
    getSession id st = (.ok (some r), st) := by
  simp only [getSession, getFrom, Store.getStep, hc]

theorem getSession_load {s : Session} (hc : st.cache.get? id = none) (hs : st.saved id = some s) :
    getSession id st = (.ok (some st.heap.length),
      ⟨st.heap ++ [s], st.cache.set id st.heap.length, st.disk⟩) := by
  have he : st.entry id sessionJson = some (.session s) := by
    unfold Store.saved at hs
    split at hs
    · next s' he => rw [he, Option.some.inj hs]
    · cases hs
  simp only [getSession, getFrom, Store.getStep, hc, he, hs, Node.isFile, if_true, Store.alloc]

/-- What `get` makes of a session file that is none. -/
def absent : Option Node → Except HttpError (Option Ref)
  | some .raw => .error internalError
  | _ => .ok none

theorem getSession_absent (hc : st.cache.get? id = none) (hs : st.saved id = none) :
    getSession id st = (absent (st.entry id sessionJson), st) := by
  cases he : st.entry id sessionJson with
  | none => simp only [getSession, getFrom, Store.getStep, hc, he, absent]
  | some n =>
    cases n with
    | session s =>
      rw [Store.saved, he] at hs
      cases hs
    | raw =>
      simp only [getSession, getFrom, Store.getStep, hc, he, hs, Node.isFile, if_true, absent]
    | folder =>
      simp only [getSession, getFrom, Store.getStep, hc, he, Node.isFile, Bool.false_eq_true,
        if_false, absent]

/-- Caching what was loaded. -/
theorem InSync.load (h : InSync x st) {s : Session} (hs : st.saved id = some s) :
    InSync x ⟨st.heap ++ [s], st.cache.set id st.heap.length, st.disk⟩ where
  cached := by
    intro id' r hr
    rw [Dict.get?_set] at hr
    split_ifs at hr with hid
    · obtain rfl : st.heap.length = r := Option.some.inj hr
      obtain ⟨hvalid, hcanon, -⟩ := h.saved id s hs
      refine ⟨s, List.getElem?_concat_length, hvalid, ?_⟩
      rw [← hid, hcanon]
      exact hs
    · obtain ⟨o, ho, hvalid, hsaved⟩ := h.cached id' r hr
      refine ⟨o, ?_, hvalid, hsaved⟩
      exact (List.getElem?_append_left (List.getElem?_eq_some_iff.mp ho).1).trans ho
  saved := h.saved

/-- The session that `get` finds is the one on disk. -/
theorem InSync.get (h : InSync x st) {s : Session} (hs : st.saved id = some s) :
    ∃ r st₁ o, getSession id st = (.ok (some r), st₁) ∧ InSync x st₁ ∧ st₁.disk = st.disk ∧
      st₁.cache.get? id = some r ∧ st₁.deref r = some o ∧ o.Valid ∧ o.canon x.floats = s := by
  cases hc : st.cache.get? id with
  | some r =>
    obtain ⟨o, ho, hvalid, hsaved⟩ := h.cached id r hc
    refine ⟨r, st, o, getSession_cached hc, h, rfl, hc, ho, hvalid, ?_⟩
    exact Option.some.inj (hsaved.symm.trans hs)
  | none =>
    obtain ⟨hvalid, hcanon, -⟩ := h.saved id s hs
    exact ⟨_, _, s, getSession_load hc hs, h.load hs, rfl, Dict.get?_set_self _ _ _,
      List.getElem?_concat_length, hvalid, hcanon⟩

theorem InSync.get_absent (h : InSync x st) (hs : st.saved id = none) :
    getSession id st = (absent (st.entry id sessionJson), st) := by
  apply getSession_absent ?_ hs
  cases hc : st.cache.get? id with
  | none => rfl
  | some r =>
    obtain ⟨o, -, -, hsaved⟩ := h.cached id r hc
    rw [hs] at hsaved
    cases hsaved

/-- A row of `list_sessions` has no float in it. -/
theorem summary_canon (p : Json.FloatPrinter) (s : Session) : (s.canon p).summary = s.summary := by
  have hfirst : (s.turns.map (TurnRecord.canon p)).head?.map (·.userTranscript) =
      s.turns.head?.map (·.userTranscript) := by
    rw [List.head?_map, Option.map_map]
    rfl
  have hlast : (s.turns.map (TurnRecord.canon p)).getLast?.map (·.assistantReply) =
      s.turns.getLast?.map (·.assistantReply) := by
    rw [List.getLast?_map, Option.map_map]
    rfl
  simp only [Session.summary, Session.canon, List.length_map, hfirst, hlast]

theorem listFrom_same (todo : List Str) (rows : List Summary) (h : Same x st st') :
    (listFrom todo rows st').1 = (listFrom todo rows st).1 ∧
      Same x (listFrom todo rows st).2 (listFrom todo rows st').2 := by
  induction todo generalizing rows st st' with
  | nil => exact ⟨rfl, h⟩
  | cons sid todo ih =>
    cases hs : st.saved sid with
    | some s =>
      have hs' : st'.saved sid = some s := (saved_of_disk h.disk sid).trans hs
      obtain ⟨r, st₁, o, hget, hsync, hdisk, -, ho, -, hcanon⟩ := h.left.get hs
      obtain ⟨r', st₁', o', hget', hsync', hdisk', -, ho', -, hcanon'⟩ := h.right.get hs'
      have hrow : o'.summary = o.summary := by
        rw [← summary_canon x.floats o', ← summary_canon x.floats o, hcanon, hcanon']
      have hsame : Same x st₁ st₁' := ⟨hsync, hsync', by rw [hdisk, hdisk', h.disk]⟩
      simp only [listFrom, hget, hget', ho, ho', Option.map_some, hrow]
      exact ih _ hsame
    | none =>
      have hs' : st'.saved sid = none := (saved_of_disk h.disk sid).trans hs
      have hget' := h.right.get_absent hs'
      rw [entry_of_disk h.disk] at hget'
      simp only [listFrom, h.left.get_absent hs, hget']
      cases hres : absent (st.entry sid sessionJson) with
      | error e => exact ⟨rfl, h⟩
      | ok found =>
        cases found with
        | none => exact ih rows h
        | some r =>
          unfold absent at hres
          split at hres <;> cases hres

/-! ## Deleting -/

/-- A step of `delete` is decided by the disk. -/
theorem deleteStep_disk (h : st'.disk = st.disk) (id : Str) (pc : Store.DeletePc) :
    (st'.deleteStep id pc).2 = (st.deleteStep id pc).2 ∧
      (st'.deleteStep id pc).1.disk = (st.deleteStep id pc).1.disk := by
  cases pc with
  | start => exact ⟨rfl, h⟩
  | popped =>
    simp only [Store.deleteStep, h]
    cases st.disk.get? id with
    | none => exact ⟨rfl, h⟩
    | some d => exact ⟨rfl, h⟩
  | found => exact ⟨by simp only [Store.deleteStep, h], h⟩
  | files todo =>
    cases todo with
    | nil =>
      simp only [Store.deleteStep, h]
      split
      · exact ⟨rfl, rfl⟩
      · exact ⟨rfl, h⟩
    | cons name todo =>
      simp only [Store.deleteStep, entry_of_disk h]
      cases st.entry id name with
      | none => exact ⟨rfl, h⟩
      | some n => cases n <;> exact ⟨rfl, h⟩
  | unlink name todo =>
    simp only [Store.deleteStep, h]
    cases st.disk.get? id with
    | none => exact ⟨rfl, h⟩
    | some d =>
      dsimp only
      split_ifs
      · exact ⟨rfl, rfl⟩
      · exact ⟨rfl, h⟩

/-- A step of `delete` that leaves the session uncached keeps the invariant. -/
theorem InSync.deleteStep (h : InSync x st) {pc : Store.DeletePc}
    (hnone : (st.deleteStep id pc).1.cache.get? id = none) :
    InSync x (st.deleteStep id pc).1 := by
  have hmove := Store.deleteStep_move st id pc
  obtain ⟨hheap, hcache, -, hother⟩ := hmove.effect
  refine ⟨?_, ?_⟩
  · intro id' r hr
    have hid : id ≠ id' := by
      intro hid
      rw [← hid, hnone] at hr
      cases hr
    obtain ⟨o, ho, hvalid, hsaved⟩ := h.cached id' r (hcache id' r hr)
    refine ⟨o, ?_, hvalid, ?_⟩
    · show (st.deleteStep id pc).1.heap[r]? = some o
      rw [hheap]
      exact ho
    · rw [Store.saved, hother id' hid]
      exact hsaved
  · intro id' s hs
    exact h.saved id' s (hmove.saved_of_saved hs)

/-- Two servers with the same disk that do not cache the session. -/
structure Uncached (x : Interpreter) (id : Str) (st st' : Store) : Prop where
  same : Same x st st'
  left : st.cache.get? id = none
  right : st'.cache.get? id = none

theorem none_of_deleteStep (h : st.cache.get? id = none) (pc : Store.DeletePc) :
    (st.deleteStep id pc).1.cache.get? id = none := by
  cases hc : (st.deleteStep id pc).1.cache.get? id with
  | none => rfl
  | some r =>
    rw [(Store.deleteStep_move st id pc).effect.2.1 id r hc] at h
    cases h

theorem Uncached.deleteStep (h : Uncached x id st st') (pc : Store.DeletePc) :
    (st'.deleteStep id pc).2 = (st.deleteStep id pc).2 ∧
      Uncached x id (st.deleteStep id pc).1 (st'.deleteStep id pc).1 := by
  obtain ⟨hout, hdisk⟩ := deleteStep_disk h.same.disk id pc
  have hleft := none_of_deleteStep h.left pc
  have hright := none_of_deleteStep h.right pc
  exact ⟨hout, ⟨h.same.left.deleteStep hleft, h.same.right.deleteStep hright, hdisk⟩, hleft, hright⟩

theorem deleteFiles_same (todo : List Str) (h : Uncached x id st st') :
    (deleteFiles id todo st').1 = (deleteFiles id todo st).1 ∧
      Same x (deleteFiles id todo st).2 (deleteFiles id todo st').2 := by
  induction todo generalizing st st' with
  | nil =>
    obtain ⟨hout, h₁⟩ := h.deleteStep (.files [])
    unfold deleteFiles
    rcases hl : st.deleteStep id (.files []) with ⟨st₁, out⟩
    rcases hr : st'.deleteStep id (.files []) with ⟨st₁', out'⟩
    rw [hl, hr] at hout h₁
    obtain rfl : out' = out := hout
    cases out' with
    | ret ok => exact ⟨rfl, h₁.same⟩
    | next pc => exact ⟨rfl, h₁.same⟩
    | raised => exact ⟨rfl, h₁.same⟩
  | cons name todo ih =>
    obtain ⟨hout, h₁⟩ := h.deleteStep (.files (name :: todo))
    unfold deleteFiles
    rcases hl : st.deleteStep id (.files (name :: todo)) with ⟨st₁, out⟩
    rcases hr : st'.deleteStep id (.files (name :: todo)) with ⟨st₁', out'⟩
    rw [hl, hr] at hout h₁
    obtain rfl : out' = out := hout
    cases out' with
    | ret ok => exact ih h₁
    | raised => exact ih h₁
    | next pc =>
      cases pc with
      | unlink name' todo' =>
        obtain ⟨hout₂, h₂⟩ := Uncached.deleteStep h₁ (.unlink name' todo')
        dsimp only
        rcases hl₂ : st₁.deleteStep id (.unlink name' todo') with ⟨st₂, out₂⟩
        rcases hr₂ : st₁'.deleteStep id (.unlink name' todo') with ⟨st₂', out₂'⟩
        rw [hl₂, hr₂] at hout₂ h₂
        obtain rfl : out₂' = out₂ := hout₂
        cases out₂' with
        | ret ok => exact ⟨rfl, h₂.same⟩
        | raised => exact ⟨rfl, h₂.same⟩
        | next pc => exact ih h₂
      | start => exact ih h₁
      | popped => exact ih h₁
      | found => exact ih h₁
      | files todo' => exact ih h₁

theorem Same.pop (h : Same x st st') (id : Str) :
    Uncached x id (st.deleteStep id .start).1 (st'.deleteStep id .start).1 := by
  have hpop : ∀ st : Store, (st.deleteStep id .start).1.cache.get? id = none := by
    intro st
    show (st.cache.pop id).get? id = none
    rw [Dict.get?_pop, if_pos rfl]
  exact ⟨⟨h.left.deleteStep (hpop st), h.right.deleteStep (hpop st'), h.disk⟩, hpop st, hpop st'⟩

theorem deleteSession_same (h : Same x st st') (id : Str) :
    (deleteSession id st').1 = (deleteSession id st).1 ∧
      Same x (deleteSession id st).2 (deleteSession id st').2 := by
  obtain ⟨hout, h₁⟩ := (h.pop id).deleteStep .popped
  unfold deleteSession
  rcases hl : (st.deleteStep id .start).1.deleteStep id .popped with ⟨st₁, out⟩
  rcases hr : (st'.deleteStep id .start).1.deleteStep id .popped with ⟨st₁', out'⟩
  rw [hl, hr] at hout h₁
  obtain rfl : out' = out := hout
  have hdisk : st₁'.disk = st₁.disk := h₁.same.disk
  cases out' with
  | ret ok => exact ⟨rfl, h₁.same⟩
  | next pc =>
    dsimp only
    rw [hdisk]
    exact deleteFiles_same _ h₁
  | raised =>
    dsimp only
    rw [hdisk]
    exact deleteFiles_same _ h₁

/-! ## Writing -/

/-- From `st₀` the session `o` was saved: its object is `r`, which is cached, and
its file is the directory `d` on the disk `D` with the session in it. -/
structure Stored (id : Str) (st₀ st : Store) (r : Ref) (o : Session) (D : Dict Str Dir) (d : Dir) :
    Prop where
  object : st.deref r = some o
  others : ∀ id' q, id ≠ id' → st₀.cache.get? id' = some q → st.deref q = st₀.deref q
  cache : ∀ id', st.cache.get? id' = if id = id' then some r else st₀.cache.get? id'
  saved : ∀ id', st.saved id' = if id = id' then some o else st₀.saved id'
  disk : st.disk = D.set id (d.set sessionJson (.session o))
  valid : o.Valid
  sessionId : o.sessionId = id

/-- The file of a session that was saved, as its text. -/
theorem written_eq {s : Session} {d : Dir} {text : Str} (hs : st.saved id = some s)
    (hvalid : s.Valid) (htext : s.text x = .ok text) (hd : st.disk.get? id = some d) :
    written x st id = some { st with
      disk := st.disk.set id (d.set sessionJson (.session (s.canon x.floats))) } := by
  unfold written
  rw [hs]
  simp only [Option.bind_some, htext, readSession_text hvalid htext]
  unfold Store.writeFile
  rw [hd]
  rfl

theorem text_of_written {s : Session} {st₁ : Store} (hs : st.saved id = some s)
    (hw : written x st id = some st₁) : ∃ text, s.text x = .ok text := by
  unfold written at hw
  rw [hs] at hw
  simp only [Option.bind_some] at hw
  cases htext : s.text x with
  | ok text => exact ⟨text, rfl⟩
  | error e =>
    rw [htext] at hw
    cases hw

namespace Stored

variable {st₀ : Store} {r : Ref} {o : Session} {D : Dict Str Dir} {d : Dir}

theorem saved_self (h : Stored id st₀ st r o D d) : st.saved id = some o := by
  rw [h.saved, if_pos rfl]

/-- What is on disk once the file is the text. -/
theorem written (h : Stored id st₀ st r o D d) {text : Str} (htext : o.text x = .ok text) :
    Restart.written x st id = some { st with
      disk := D.set id (d.set sessionJson (.session (o.canon x.floats))) } := by
  have hd : st.disk.get? id = some (d.set sessionJson (.session o)) := by
    rw [h.disk, Dict.get?_set_self]
  rw [written_eq h.saved_self h.valid htext hd, h.disk, Dict.set_set, Dict.set_set]

/-- The invariant holds again. -/
theorem inSync (h : Stored id st₀ st r o D d) (h₀ : InSync x st₀) {text : Str}
    (htext : o.text x = .ok text) :
    InSync x { st with disk := D.set id (d.set sessionJson (.session (o.canon x.floats))) } := by
  have hsaved : ∀ id', ({ st with
      disk := D.set id (d.set sessionJson (.session (o.canon x.floats))) } : Store).saved id' =
      if id = id' then some (o.canon x.floats) else st₀.saved id' := by
    intro id'
    split_ifs with hid
    · rw [Store.saved, Store.entry, ← hid, Dict.get?_set_self, Option.bind_some,
        Dict.get?_set_self]
    · have hsame : st.saved id' = st₀.saved id' := by rw [h.saved, if_neg hid]
      rw [← hsame, Store.saved, Store.saved, Store.entry, Store.entry, h.disk,
        Dict.get?_set_of_ne _ _ hid, Dict.get?_set_of_ne _ _ hid]
  refine ⟨?_, ?_⟩
  · intro id' q hq
    rw [h.cache] at hq
    rw [hsaved]
    split_ifs at hq ⊢ with hid
    · obtain rfl : r = q := Option.some.inj hq
      exact ⟨o, h.object, h.valid, rfl⟩
    · obtain ⟨o', ho', hvalid, hsaved'⟩ := h₀.cached id' q hq
      exact ⟨o', (h.others id' q hid hq).trans ho', hvalid, hsaved'⟩
  · intro id' s hs
    rw [hsaved] at hs
    split_ifs at hs with hid
    · obtain rfl : o.canon x.floats = s := Option.some.inj hs
      refine ⟨h.valid.canon, o.canon_canon, h.sessionId.trans hid, ?_⟩
      exact Session.text_ok_of_canon htext o.canon_canon
    · exact h₀.saved id' s hs

end Stored

/-- Both servers saved the same session. -/
def StoredBoth (x : Interpreter) (id : Str) (st st' : Store) : Prop :=
  ∃ st₀ st₀' r r' o o' D d, InSync x st₀ ∧ InSync x st₀' ∧ Stored id st₀ st r o D d ∧
    Stored id st₀' st' r' o' D d ∧ o'.canon x.floats = o.canon x.floats

theorem StoredBoth.written {st₁ : Store} (h : StoredBoth x id st st')
    (hw : Restart.written x st id = some st₁) :
    ∃ st₁', Restart.written x st' id = some st₁' ∧ Same x st₁ st₁' := by
  obtain ⟨st₀, st₀', r, r', o, o', D, d, hsync, hsync', hleft, hright, hcanon⟩ := h
  obtain ⟨text, htext⟩ := text_of_written hleft.saved_self hw
  obtain ⟨text', htext'⟩ := Session.text_ok_of_canon htext hcanon
  refine ⟨_, hright.written htext', ?_, hright.inSync hsync' htext', ?_⟩
  · rw [hleft.written htext] at hw
    cases hw
    exact hleft.inSync hsync htext
  · rw [hleft.written htext] at hw
    cases hw
    rw [hcanon]

/-- A new session. -/
theorem create_stored (h : InSync x st) (sid now : Str) :
    Stored sid st (st.create sid now) st.heap.length ⟨sid, now, now, [], []⟩ st.disk
      ((st.disk.get? sid).getD []) where
  object := List.getElem?_concat_length
  others := by
    intro id' q _ hq
    obtain ⟨o, ho, -⟩ := h.cached id' q hq
    exact List.getElem?_append_left (List.getElem?_eq_some_iff.mp ho).1
  cache := fun id' => Dict.get?_set _ _ _ _
  saved := fun id' => Store.saved_create st sid now id'
  disk := rfl
  valid := ⟨fun t ht => absurd ht List.not_mem_nil, List.nodup_nil⟩
  sessionId := rfl

theorem create_storedBoth (h : Same x st st') (sid now : Str) :
    StoredBoth x sid (st.create sid now) (st'.create sid now) := by
  have hright := create_stored h.right sid now
  rw [h.disk] at hright
  exact ⟨st, st', _, _, _, _, _, _, h.left, h.right, create_stored h.left sid now, hright, rfl⟩

end AiPipelines.Turn.Restart
