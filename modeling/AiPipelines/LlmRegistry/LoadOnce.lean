import AiPipelines.LlmRegistry.Threads

/-!
# A model is loaded once

`LoadedOnce` says what holds of one model in every state that the threads can
reach, with the events up to then.

An entry goes through four shapes while the lock is held: as it was made, made
with an object that is not yet in it, with the object but not marked, and loaded.
`AtPoint` says which of them a thread may rely on at each point of `resolve`, and
`EntryInv` is the invariant: every thread is right about the entry, and a free lock
means that the entry is as it was made or loaded.

The threads that do not hold the lock rely on nothing, or on the entry being
loaded.  So a step that changes the shape disturbs nobody (`EntryInv.others_wait`).
-/

namespace AiPipelines.LlmRegistry

open PyStd

variable {Cfg : Type}

/-! ## What should hold -/

/-- The object that the event is the construction of. -/
def Event.constructedFor (mid : Str) : Event Cfg → Option Nat
  | .constructed m llm => if m = mid then some llm else none
  | _ => none

/-- The objects that were constructed for a model. -/
def constructedOf (mid : Str) (events : List (Event Cfg)) : List Nat :=
  events.filterMap (Event.constructedFor mid)

/-- A resolve of the model that no other thread disturbs. -/
def resolveAlone (t : Nat) (id : Option Str) : List Action :=
  .call t (.resolve id) :: List.replicate 8 (.advance t true)

/-- The property of one model, whose entry was `e₀` at first. -/
structure LoadedOnce (p : Json.Printer) (mid : Str) (e₀ : LlmModelEntry Cfg) (s : State Cfg)
    (events : List (Event Cfg)) : Prop where
  once : (constructedOf mid events).length ≤ 1
  /-- all resolves return the one object and the model's own configuration -/
  resolved : ∀ llm cfg info, .resolved mid llm cfg info ∈ events →
    cfg = e₀.cfg ∧ ∃ n, llm = some n ∧ constructedOf mid events = [n]
  /-- a construction that fails changes nothing -/
  failure : ∀ t preload s₁ es, s.threads t = .resolving mid preload .make →
    step p s (.advance t false) = some (s₁, es) →
      s₁.registry = s.registry ∧ s₁.threads t = .resolving mid preload (.unlock false)
  leave : ∀ t preload ok s₁ es, s.threads t = .resolving mid preload (.unlock false) →
    step p s (.advance t ok) = some (s₁, es) → es = [.failed mid] ∧ s₁.entry mid = some e₀
  /-- until a construction succeeds, the next resolve tries again -/
  retry : constructedOf mid events = [] →
    (∀ t preload point, s.threads t = .resolving mid preload point → point.inside = false) →
    s.entry mid = some e₀ ∧
      ∀ t id, s.threads t = .idle → s.registry.modelId id = mid →
        ∃ s₁, Transition.run (step p) s (resolveAlone t id) = some (s₁,
          [.constructed mid s.next,
            .resolved mid (some s.next) e₀.cfg { e₀.info with loaded := true }])
  loaded : ∀ e, s.entry mid = some e → e.info.loaded = true → e.llm.isSome = true
  settled : (∀ t preload point, s.threads t = .resolving mid preload point →
      point.inside = false) →
    ∀ e, s.entry mid = some e → (e.info.loaded = true ↔ e.llm.isSome = true)

/-! ## The state -/

section State

variable {s : State Cfg} {t : Nat} {th : Thread} {mid mid' : Str} {e : LlmModelEntry Cfg}

@[simp] theorem entry_setThread : (s.setThread t th).entry mid = s.entry mid := rfl

@[simp] theorem entry_setEntry_self : (s.setEntry mid e).entry mid = some e :=
  Dict.get?_set_self _ _ _

theorem entry_setEntry_of_ne (h : mid ≠ mid') : (s.setEntry mid e).entry mid' = s.entry mid' :=
  Dict.get?_set_of_ne _ _ h

@[simp] theorem threads_setThread :
    (s.setThread t th).threads = Function.update s.threads t th := rfl

@[simp] theorem threads_setEntry : (s.setEntry mid e).threads = s.threads := rfl

@[simp] theorem registry_setThread : (s.setThread t th).registry = s.registry := rfl

end State

@[simp] theorem constructedOf_nil (mid : Str) : constructedOf mid ([] : List (Event Cfg)) = [] :=
  rfl

@[simp] theorem constructedOf_append (mid : Str) (hist es : List (Event Cfg)) :
    constructedOf mid (hist ++ es) = constructedOf mid hist ++ constructedOf mid es :=
  List.filterMap_append

/-! ## The invariant -/

namespace LlmModelEntry

/-- The entry without its lock. -/
def released (e : LlmModelEntry Cfg) : LlmModelEntry Cfg := { e with lock := none }

/-- The entry once it is loaded. -/
def ready (e : LlmModelEntry Cfg) (llm : Nat) : LlmModelEntry Cfg :=
  { e with llm := some llm, info := { e.info with loaded := true } }

end LlmModelEntry

/-- The entry as `parse_llm_registry` makes it. -/
structure IsNew (e : LlmModelEntry Cfg) : Prop where
  llm : e.llm = none
  loaded : e.info.loaded = false
  lock : e.lock = none

/-- The entry is as it was made. -/
def Unloaded (e₀ e : LlmModelEntry Cfg) (made : List Nat) : Prop := made = [] ∧ e.released = e₀

/-- The entry is loaded with the object that was constructed. -/
def Loaded (e₀ e : LlmModelEntry Cfg) (made : List Nat) : Prop :=
  ∃ n, made = [n] ∧ e.released = e₀.ready n

/-- What a thread may rely on at a point of `resolve`. -/
def AtPoint (e₀ e : LlmModelEntry Cfg) (made : List Nat) : Point → Prop
  | .lock => True
  | .check => Unloaded e₀ e made ∨ Loaded e₀ e made
  | .make => Unloaded e₀ e made
  | .assign n => made = [n] ∧ e.released = e₀
  | .markLoaded => ∃ n, made = [n] ∧ e.released = { e₀ with llm := some n }
  | .unlock ok => if ok then Loaded e₀ e made else Unloaded e₀ e made
  | .readLlm => Loaded e₀ e made
  | .readInfo llm => ∃ n, llm = some n ∧ made = [n] ∧ e.released = e₀.ready n

structure EntryInv (mid : Str) (e₀ e : LlmModelEntry Cfg) (hist : List (Event Cfg))
    (s : State Cfg) : Prop where
  point : ∀ t preload point, s.threads t = .resolving mid preload point →
    AtPoint e₀ e (constructedOf mid hist) point ∧ (point.inside = true ↔ e.lock = some t)
  owner : ∀ t, e.lock = some t →
    ∃ preload point, s.threads t = .resolving mid preload point ∧ point.inside = true
  free : e.lock = none →
    Unloaded e₀ e (constructedOf mid hist) ∨ Loaded e₀ e (constructedOf mid hist)
  resolved : ∀ llm cfg info, .resolved mid llm cfg info ∈ hist →
    cfg = e₀.cfg ∧ AtPoint e₀ e (constructedOf mid hist) (.readInfo llm)

def Inv (mid : Str) (e₀ : LlmModelEntry Cfg) (hist : List (Event Cfg)) (s : State Cfg) : Prop :=
  ∃ e, s.entry mid = some e ∧ EntryInv mid e₀ e hist s

/-! ## How threads disturb each other -/

section Move

variable {mid : Str} {e₀ e e' : LlmModelEntry Cfg} {hist es : List (Event Cfg)} {s s' : State Cfg}
  {t : Nat} {th : Thread} {made : List Nat}

/-- A thread relies on nothing but the shape of the entry. -/
theorem AtPoint.congr {point : Point} (h : AtPoint e₀ e made point)
    (hsame : e'.released = e.released) : AtPoint e₀ e' made point := by
  have heq : AtPoint e₀ e' made point = AtPoint e₀ e made point := by
    cases point <;> simp only [AtPoint, Unloaded, Loaded, hsame]
  rw [heq]
  exact h

theorem AtPoint.loaded {point : Point} (h : AtPoint e₀ e made point)
    (hinside : point.inside = false) (hlock : point ≠ .lock) : Loaded e₀ e made := by
  cases point with
  | lock => exact absurd rfl hlock
  | readLlm => exact h
  | readInfo llm =>
    obtain ⟨n, -, hmade, hshape⟩ := h
    exact ⟨n, hmade, hshape⟩
  | check => cases hinside
  | make => cases hinside
  | assign n => cases hinside
  | markLoaded => cases hinside
  | unlock ok => cases hinside

/-- Thread `t` has moved to `th`, and the others can still rely on what they
relied on. -/
theorem EntryInv.move (h : EntryInv mid e₀ e hist s)
    (hthreads : s'.threads = Function.update s.threads t th)
    (hown : ∀ preload point, th = .resolving mid preload point →
      AtPoint e₀ e' (constructedOf mid (hist ++ es)) point ∧
        (point.inside = true ↔ e'.lock = some t))
    (howner : e'.lock = some t →
      ∃ preload point, th = .resolving mid preload point ∧ point.inside = true)
    (hlock : ∀ t', t' ≠ t → (e'.lock = some t' ↔ e.lock = some t'))
    (hothers : ∀ t' preload point, t' ≠ t → s.threads t' = .resolving mid preload point →
      AtPoint e₀ e' (constructedOf mid (hist ++ es)) point)
    (hfree : e'.lock = none → Unloaded e₀ e' (constructedOf mid (hist ++ es)) ∨
      Loaded e₀ e' (constructedOf mid (hist ++ es)))
    (hresolved : ∀ llm cfg info, .resolved mid llm cfg info ∈ hist ++ es →
      cfg = e₀.cfg ∧ AtPoint e₀ e' (constructedOf mid (hist ++ es)) (.readInfo llm)) :
    EntryInv mid e₀ e' (hist ++ es) s' where
  point := by
    intro t' preload point ht'
    rw [hthreads] at ht'
    by_cases htt : t' = t
    · rw [htt, Function.update_self] at ht'
      rw [htt]
      exact hown preload point ht'
    · rw [Function.update_of_ne htt] at ht'
      exact ⟨hothers t' preload point htt ht',
        (h.point t' preload point ht').2.trans (hlock t' htt).symm⟩
  owner := by
    intro t' ht'
    rw [hthreads]
    by_cases htt : t' = t
    · rw [htt, Function.update_self]
      rw [htt] at ht'
      exact howner ht'
    · rw [Function.update_of_ne htt]
      exact h.owner t' ((hlock t' htt).mp ht')
  free := hfree
  resolved := hresolved

/-- A step that leaves the shape of the entry alone. -/
theorem EntryInv.same_shape (h : EntryInv mid e₀ e hist s)
    (hthreads : s'.threads = Function.update s.threads t th)
    (hshape : e'.released = e.released) (hmade : constructedOf mid es = [])
    (hown : ∀ preload point, th = .resolving mid preload point →
      AtPoint e₀ e (constructedOf mid hist) point ∧ (point.inside = true ↔ e'.lock = some t))
    (howner : e'.lock = some t →
      ∃ preload point, th = .resolving mid preload point ∧ point.inside = true)
    (hlock : ∀ t', t' ≠ t → (e'.lock = some t' ↔ e.lock = some t'))
    (hfree : e'.lock = none → Unloaded e₀ e (constructedOf mid hist) ∨
      Loaded e₀ e (constructedOf mid hist))
    (hresolved : ∀ llm cfg info, .resolved mid llm cfg info ∈ es →
      cfg = e₀.cfg ∧ AtPoint e₀ e (constructedOf mid hist) (.readInfo llm)) :
    EntryInv mid e₀ e' (hist ++ es) s' := by
  have hsame : constructedOf mid (hist ++ es) = constructedOf mid hist := by
    rw [constructedOf_append, hmade, List.append_nil]
  refine h.move hthreads ?_ howner hlock ?_ ?_ ?_
  · intro preload point hth
    rw [hsame]
    exact ⟨(hown preload point hth).1.congr hshape, (hown preload point hth).2⟩
  · intro t' preload point _ ht'
    rw [hsame]
    exact (h.point t' preload point ht').1.congr hshape
  · intro hnone
    rw [hsame]
    exact (show AtPoint e₀ e (constructedOf mid hist) .check from hfree hnone).congr hshape
  · intro llm cfg info hmem
    rw [hsame]
    rcases List.mem_append.mp hmem with hmem | hmem
    · exact ⟨(h.resolved llm cfg info hmem).1, (h.resolved llm cfg info hmem).2.congr hshape⟩
    · exact ⟨(hresolved llm cfg info hmem).1, (hresolved llm cfg info hmem).2.congr hshape⟩

/-- While the entry is not loaded, everyone but the owner waits for the lock. -/
theorem EntryInv.others_wait (h : EntryInv mid e₀ e hist s) (howner : e.lock = some t)
    (hnot : ¬ Loaded e₀ e (constructedOf mid hist)) {t' : Nat} {preload : Bool} {point : Point}
    (htt : t' ≠ t) (ht' : s.threads t' = .resolving mid preload point) : point = .lock := by
  obtain ⟨hpoint, hinside⟩ := h.point t' preload point ht'
  by_contra hne
  refine hnot (hpoint.loaded ?_ hne)
  rw [← Bool.not_eq_true, hinside, howner]
  intro heq
  exact htt (Option.some.inj heq).symm

/-- A step of the owner that changes the shape of the entry. -/
theorem EntryInv.reshape {preload : Bool} {point : Point} (h : EntryInv mid e₀ e hist s)
    (hthreads : s'.threads = Function.update s.threads t (.resolving mid preload point))
    (howner : e.lock = some t) (hlock : e'.lock = e.lock)
    (hnot : ¬ Loaded e₀ e (constructedOf mid hist))
    (hpoint : AtPoint e₀ e' (constructedOf mid (hist ++ es)) point) (hinside : point.inside = true)
    (hquiet : ∀ llm cfg info, .resolved mid llm cfg info ∉ es) :
    EntryInv mid e₀ e' (hist ++ es) s' := by
  refine h.move hthreads ?_ ?_ ?_ ?_ ?_ ?_
  · intro preload' point' hth
    obtain ⟨-, rfl, rfl⟩ := Thread.resolving.inj hth
    exact ⟨hpoint, by rw [hinside, hlock, howner]; simp⟩
  · intro _
    exact ⟨preload, point, rfl, hinside⟩
  · intro t' _
    rw [hlock]
  · intro t' preload' point' htt ht'
    rw [h.others_wait howner hnot htt ht']
    trivial
  · intro hnone
    rw [hlock, howner] at hnone
    cases hnone
  · intro llm cfg info hmem
    rcases List.mem_append.mp hmem with hmem | hmem
    · obtain ⟨n, -, hmade, hshape⟩ := (h.resolved llm cfg info hmem).2
      exact absurd ⟨n, hmade, hshape⟩ hnot
    · exact absurd hmem (hquiet llm cfg info)

end Move

/-! ## The steps of `resolve` -/

section Resolve

variable {mid : Str} {e₀ e : LlmModelEntry Cfg} {hist es : List (Event Cfg)} {s s₁ : State Cfg}
  {t : Nat} {preload : Bool} {made : List Nat}

theorem Unloaded.llm (h : Unloaded e₀ e made) (hnew : IsNew e₀) : e.llm = none :=
  (congrArg LlmModelEntry.llm h.2).trans hnew.llm

theorem Loaded.llm {n : Nat} (h : e.released = e₀.ready n) : e.llm = some n :=
  congrArg LlmModelEntry.llm h

/-- A step of `resolve` that leaves the entry and the others alone. -/
theorem EntryInv.go (h : EntryInv mid e₀ e hist s) {point point' : Point}
    (ht : s.threads t = .resolving mid preload point)
    (hpoint : AtPoint e₀ e (constructedOf mid hist) point')
    (hinside : point'.inside = point.inside) :
    EntryInv mid e₀ e (hist ++ []) (s.setThread t (.resolving mid preload point')) := by
  have hlock := (h.point t preload point ht).2
  refine h.same_shape rfl rfl rfl ?_ ?_ (fun _ _ => Iff.rfl) h.free nofun
  · intro preload' point₁ hth
    obtain ⟨-, -, rfl⟩ := Thread.resolving.inj hth
    rw [hinside]
    exact ⟨hpoint, hlock⟩
  · intro howner
    exact ⟨preload, point', rfl, hinside.trans (hlock.mpr howner)⟩

theorem lock_inv (h : EntryInv mid e₀ e hist s) (hnone : e.lock = none) :
    EntryInv mid e₀ { e with lock := some t } (hist ++ [])
      ((s.setEntry mid { e with lock := some t }).setThread t (.resolving mid preload .check)) := by
  refine h.same_shape rfl rfl rfl ?_ ?_ ?_ nofun nofun
  · intro preload' point hth
    obtain ⟨-, -, rfl⟩ := Thread.resolving.inj hth
    exact ⟨h.free hnone, by simp [Point.inside]⟩
  · intro _
    exact ⟨preload, .check, rfl, rfl⟩
  · intro t' htt
    rw [hnone]
    constructor
    · intro heq
      exact absurd (Option.some.inj heq).symm htt
    · exact nofun

theorem unlock_inv (h : EntryInv mid e₀ e hist s) {ok : Bool} {th : Thread}
    (ht : s.threads t = .resolving mid preload (.unlock ok))
    (hth : ∀ preload' point, th = .resolving mid preload' point →
      AtPoint e₀ e (constructedOf mid hist) point ∧ point.inside = false)
    (hmade : constructedOf mid es = []) (hquiet : ∀ llm cfg info, .resolved mid llm cfg info ∉ es) :
    EntryInv mid e₀ { e with lock := none } (hist ++ es)
      ((s.setEntry mid { e with lock := none }).setThread t th) := by
  obtain ⟨hpoint, hlock⟩ := h.point t preload (.unlock ok) ht
  have howner : e.lock = some t := hlock.mp rfl
  refine h.same_shape rfl rfl hmade ?_ nofun ?_ ?_ ?_
  · intro preload' point hth'
    obtain ⟨hpoint', hout⟩ := hth preload' point hth'
    exact ⟨hpoint', by simp [hout]⟩
  · intro t' htt
    rw [howner]
    constructor
    · exact nofun
    · intro heq
      exact absurd (Option.some.inj heq).symm htt
  · intro _
    cases ok with
    | true => exact .inr hpoint
    | false => exact .inl hpoint
  · intro llm cfg info hmem
    exact absurd hmem (hquiet llm cfg info)

/-- One step of `resolve` of the model. -/
theorem advanceResolve_inv (hnew : IsNew e₀) (h : EntryInv mid e₀ e hist s)
    (he : s.entry mid = some e) {makeOk : Bool} {point : Point}
    (ht : s.threads t = .resolving mid preload point)
    (hstep : s.advanceResolve t mid preload e makeOk point = some (s₁, es)) :
    Inv mid e₀ (hist ++ es) s₁ := by
  obtain ⟨hpoint, hlock⟩ := h.point t preload point ht
  cases point with
  | lock =>
    simp only [State.advanceResolve] at hstep
    split_ifs at hstep with hfree
    cases hstep
    exact ⟨_, entry_setEntry_self, lock_inv h (by simpa using hfree)⟩
  | check =>
    simp only [State.advanceResolve] at hstep
    split_ifs at hstep with hnone
    · cases hstep
      refine ⟨e, he, h.go ht ?_ rfl⟩
      rcases hpoint with hunloaded | ⟨n, -, hshape⟩
      · exact hunloaded
      · rw [Loaded.llm hshape] at hnone
        cases hnone
    · cases hstep
      refine ⟨e, he, h.go ht ?_ rfl⟩
      rcases hpoint with hunloaded | hloaded
      · rw [hunloaded.llm hnew] at hnone
        exact absurd rfl hnone
      · exact hloaded
  | make =>
    simp only [State.advanceResolve] at hstep
    split_ifs at hstep
    · cases hstep
      refine ⟨e, he, h.reshape rfl (hlock.mp rfl) rfl ?_ ?_ rfl (by simp)⟩
      · intro hloaded
        obtain ⟨n, hmade, -⟩ := hloaded
        rw [hpoint.1] at hmade
        cases hmade
      · refine ⟨?_, hpoint.2⟩
        rw [constructedOf_append, hpoint.1]
        simp [constructedOf, Event.constructedFor]
    · cases hstep
      exact ⟨e, he, h.go ht hpoint rfl⟩
  | assign n =>
    cases hstep
    obtain ⟨hmade, hshape⟩ := hpoint
    refine ⟨_, entry_setEntry_self, h.reshape rfl (hlock.mp rfl) rfl ?_ ?_ rfl nofun⟩
    · intro hloaded
      obtain ⟨m, -, hloaded⟩ := hloaded
      have hnone := congrArg LlmModelEntry.llm (hshape.symm.trans hloaded)
      rw [hnew.llm] at hnone
      cases hnone
    · refine ⟨n, by rw [List.append_nil]; exact hmade, ?_⟩
      rw [← hshape]
      rfl
  | markLoaded =>
    cases hstep
    obtain ⟨n, hmade, hshape⟩ := hpoint
    refine ⟨_, entry_setEntry_self, h.reshape rfl (hlock.mp rfl) rfl ?_ ?_ rfl nofun⟩
    · intro hloaded
      obtain ⟨m, -, hloaded⟩ := hloaded
      have hmarked : e₀.info.loaded = true :=
        congrArg (fun e => e.info.loaded) (hshape.symm.trans hloaded)
      rw [hnew.loaded] at hmarked
      cases hmarked
    · refine ⟨n, by rw [List.append_nil]; exact hmade, ?_⟩
      show { e.released with info := { e.released.info with loaded := true } } = e₀.ready n
      rw [hshape]
      rfl
  | unlock ok =>
    simp only [State.advanceResolve] at hstep
    split_ifs at hstep with hok
    · cases hstep
      refine ⟨_, entry_setEntry_self, unlock_inv h ht ?_ rfl nofun⟩
      intro preload' point hth
      obtain ⟨-, -, rfl⟩ := Thread.resolving.inj hth
      rw [hok] at hpoint
      exact ⟨hpoint, rfl⟩
    · cases hstep
      exact ⟨_, entry_setEntry_self, unlock_inv h ht nofun rfl (by simp)⟩
  | readLlm =>
    cases hstep
    obtain ⟨n, hmade, hshape⟩ := hpoint
    exact ⟨e, he, h.go ht ⟨n, Loaded.llm hshape, hmade, hshape⟩ rfl⟩
  | readInfo llm =>
    cases hstep
    refine ⟨e, he, h.same_shape rfl rfl ?_ nofun ?_ (fun _ _ => Iff.rfl) h.free ?_⟩
    · cases preload <;> rfl
    · intro howner
      exact absurd (hlock.mpr howner) nofun
    · intro llm' cfg info hmem
      cases preload with
      | true => simp at hmem
      | false =>
        obtain ⟨-, rfl, rfl, -⟩ := Event.resolved.inj (List.mem_singleton.mp hmem)
        obtain ⟨n, -, -, hshape⟩ := id hpoint
        exact ⟨(congrArg LlmModelEntry.cfg hshape :), hpoint⟩

end Resolve

/-! ## All steps -/

section Step

variable {mid mid' : Str} {e₀ e : LlmModelEntry Cfg} {hist es : List (Event Cfg)}
  {s s₁ : State Cfg} {t : Nat} {th : Thread}

/-- What a step does that has nothing to do with the model: thread `t` moves on, not
further than to the lock. -/
structure Elsewhere (mid : Str) (t : Nat) (s s₁ : State Cfg) (es : List (Event Cfg)) : Prop where
  entry : s₁.entry mid = s.entry mid
  threads : ∃ th, s₁.threads = Function.update s.threads t th ∧
    ∀ preload point, th = .resolving mid preload point → point = .lock
  constructed : constructedOf mid es = []
  resolved : ∀ llm cfg info, .resolved mid llm cfg info ∉ es

theorem EntryInv.elsewhere (h : EntryInv mid e₀ e hist s) (hstep : Elsewhere mid t s s₁ es)
    (ht : ∀ preload point, s.threads t ≠ .resolving mid preload point) :
    EntryInv mid e₀ e (hist ++ es) s₁ := by
  have hnot : e.lock ≠ some t := by
    intro howner
    obtain ⟨preload, point, hthread, -⟩ := h.owner t howner
    exact ht preload point hthread
  obtain ⟨th, hthreads, hth⟩ := hstep.threads
  refine h.same_shape hthreads rfl hstep.constructed ?_ ?_ (fun _ _ => Iff.rfl) h.free ?_
  · intro preload point heq
    rw [hth preload point heq]
    exact ⟨trivial, by simp [Point.inside, hnot]⟩
  · intro howner
    exact absurd howner hnot
  · intro llm cfg info hmem
    exact absurd hmem (hstep.resolved llm cfg info)

/-- A thread moves on by itself. -/
theorem elsewhere_setThread
    (hth : ∀ preload point, th = .resolving mid preload point → point = .lock) :
    Elsewhere mid t s (s.setThread t th) [] :=
  ⟨rfl, ⟨th, rfl, hth⟩, rfl, nofun⟩

theorem startCall_elsewhere (p : Json.Printer) (c : Call) (ht : s.threads t = .idle) :
    Elsewhere mid t s (s.startCall p t c).1 (s.startCall p t c).2 := by
  have hresolve : ∀ id preload, Elsewhere mid t s (s.startResolve p t id preload).1
      (s.startResolve p t id preload).2 := by
    intro id preload
    unfold State.startResolve
    dsimp only
    cases s.entry (s.registry.modelId id) with
    | none =>
      refine ⟨rfl, ⟨.idle, ?_, nofun⟩, rfl, by simp⟩
      rw [← ht, Function.update_eq_self]
    | some e =>
      apply elsewhere_setThread
      intro preload' point heq
      exact (Thread.resolving.inj heq).2.2.symm
  cases c with
  | resolve id => exact hresolve id false
  | preload id => exact hresolve (some id) true
  | listModels => exact elsewhere_setThread nofun

theorem advanceListing_elsewhere {copies : List LlmModelInfo} {rest : List Str}
    (hstep : s.advanceListing t copies rest = some (s₁, es)) : Elsewhere mid t s s₁ es := by
  cases rest with
  | nil =>
    cases hstep
    exact ⟨rfl, ⟨.idle, rfl, nofun⟩, rfl, by simp⟩
  | cons m rest =>
    obtain ⟨e, -, heq⟩ := Option.map_eq_some_iff.mp hstep
    cases heq
    exact elsewhere_setThread nofun

/-- A step of `resolve` of another model. -/
theorem advanceResolve_elsewhere (hne : mid' ≠ mid) {preload makeOk : Bool} {point : Point}
    (hstep : s.advanceResolve t mid' preload e makeOk point = some (s₁, es)) :
    Elsewhere mid t s s₁ es := by
  have hth : ∀ point' preload' point'', Thread.resolving mid' preload point' =
      .resolving mid preload' point'' → point'' = .lock := by
    intro point' preload' point'' heq
    exact absurd (Thread.resolving.inj heq).1 hne
  have hset : ∀ e' point', Elsewhere mid t s
      ((s.setEntry mid' e').setThread t (.resolving mid' preload point')) [] :=
    fun e' point' => ⟨entry_setEntry_of_ne hne, ⟨_, rfl, hth point'⟩, rfl, nofun⟩
  cases point with
  | lock =>
    simp only [State.advanceResolve] at hstep
    split_ifs at hstep
    cases hstep
    exact hset _ _
  | check =>
    simp only [State.advanceResolve] at hstep
    split_ifs at hstep
    · cases hstep
      exact elsewhere_setThread (hth _)
    · cases hstep
      exact elsewhere_setThread (hth _)
  | make =>
    simp only [State.advanceResolve] at hstep
    split_ifs at hstep
    · cases hstep
      refine ⟨rfl, ⟨_, rfl, hth _⟩, ?_, by simp⟩
      simp [constructedOf, Event.constructedFor, hne]
    · cases hstep
      exact elsewhere_setThread (hth _)
  | assign n =>
    cases hstep
    exact hset _ _
  | markLoaded =>
    cases hstep
    exact hset _ _
  | unlock ok =>
    simp only [State.advanceResolve] at hstep
    split_ifs at hstep
    · cases hstep
      exact hset _ _
    · cases hstep
      exact ⟨entry_setEntry_of_ne hne, ⟨.idle, rfl, nofun⟩, rfl, by simp⟩
  | readLlm =>
    cases hstep
    exact elsewhere_setThread (hth _)
  | readInfo llm =>
    cases hstep
    refine ⟨rfl, ⟨.idle, rfl, nofun⟩, ?_, ?_⟩
    · cases preload <;> rfl
    · intro llm' cfg info hmem
      cases preload with
      | true => simp at hmem
      | false => exact hne (Event.resolved.inj (List.mem_singleton.mp hmem)).1.symm

theorem Inv.elsewhere (h : Inv mid e₀ hist s) (hstep : Elsewhere mid t s s₁ es)
    (ht : ∀ preload point, s.threads t ≠ .resolving mid preload point) :
    Inv mid e₀ (hist ++ es) s₁ := by
  obtain ⟨e, he, hinv⟩ := h
  exact ⟨e, hstep.entry.trans he, hinv.elsewhere hstep ht⟩

theorem step_inv {p : Json.Printer} {a : Action} (hnew : IsNew e₀) (h : Inv mid e₀ hist s)
    (hstep : step p s a = some (s₁, es)) : Inv mid e₀ (hist ++ es) s₁ := by
  cases a with
  | call t c =>
    simp only [step] at hstep
    split_ifs at hstep with ht
    obtain ⟨rfl, rfl⟩ := Prod.mk.inj (Option.some.inj hstep)
    exact h.elsewhere (startCall_elsewhere p c ht) (by simp [ht])
  | advance t makeOk =>
    simp only [step] at hstep
    cases ht : s.threads t with
    | idle => simp [ht] at hstep
    | listing copies rest =>
      simp only [ht] at hstep
      exact h.elsewhere (advanceListing_elsewhere hstep) (by simp [ht])
    | resolving mid' preload point =>
      simp only [ht] at hstep
      cases he : s.entry mid' with
      | none => simp [he] at hstep
      | some e =>
        simp only [he] at hstep
        by_cases hmid : mid' = mid
        · subst hmid
          obtain ⟨e', he', hinv⟩ := h
          obtain rfl : e = e' := Option.some.inj (he.symm.trans he')
          exact advanceResolve_inv hnew hinv he ht hstep
        · refine h.elsewhere (advanceResolve_elsewhere hmid hstep) ?_
          intro preload' point' heq
          exact hmid (Thread.resolving.inj (ht.symm.trans heq)).1

end Step

/-! ## From the invariant to the property -/

section Property

variable {mid : Str} {e₀ e : LlmModelEntry Cfg} {hist es : List (Event Cfg)} {s s₁ : State Cfg}
  {t : Nat} {made : List Nat}

/-- The next step of a thread that goes on alone. -/
theorem run_advance {p : Json.Printer} {k : Nat} {point : Point} {es' : List (Event Cfg)}
    (he : s.entry mid = some e)
    (hstep : (s.setThread t (.resolving mid false point)).advanceResolve t mid false e true point =
      some (s₁, es))
    (hrest : ∃ s₂, Transition.run (step p) s₁ (List.replicate k (.advance t true)) =
      some (s₂, es')) :
    ∃ s₂, Transition.run (step p) (s.setThread t (.resolving mid false point))
      (List.replicate (k + 1) (.advance t true)) = some (s₂, es ++ es') := by
  obtain ⟨s₂, hrun⟩ := hrest
  refine ⟨s₂, Transition.run_cons_eq_some.mpr ⟨s₁, es, es', ?_, hrun, rfl⟩⟩
  simp only [step, threads_setThread, Function.update_self, entry_setThread, he]
  exact hstep

theorem resolveAlone_run (p : Json.Printer) (hnew : IsNew e₀) (he : s.entry mid = some e₀)
    (ht : s.threads t = .idle) {id : Option Str} (hid : s.registry.modelId id = mid) :
    ∃ s₁, Transition.run (step p) s (resolveAlone t id) = some (s₁,
      [.constructed mid s.next,
        .resolved mid (some s.next) e₀.cfg { e₀.info with loaded := true }]) := by
  have hstart : step p s (.call t (.resolve id)) =
      some (s.setThread t (.resolving mid false .lock), []) := by
    simp [step, ht, State.startCall, State.startResolve, hid, he]
  suffices hrun : ∃ s₁, Transition.run (step p) (s.setThread t (.resolving mid false .lock))
      (List.replicate 8 (.advance t true)) = some (s₁,
        [] ++ ([] ++ ([.constructed mid s.next] ++ ([] ++ ([] ++ ([] ++ ([] ++
          ([.resolved mid (some s.next) e₀.cfg { e₀.info with loaded := true }] ++ [])))))))) by
    obtain ⟨s₁, hrun⟩ := hrun
    exact ⟨s₁, Transition.run_cons_eq_some.mpr ⟨_, [], _, hstart, hrun, rfl⟩⟩
  have hfree : ¬ e₀.lock.isSome = true := by
    rw [hnew.lock]
    decide
  have hnone : e₀.llm.isNone = true := by
    rw [hnew.llm]
    rfl
  -- one step for each point, from the lock to the return
  refine run_advance he (if_neg hfree) ?_
  refine run_advance entry_setEntry_self (if_pos hnone) ?_
  iterate 6 refine run_advance (by exact entry_setEntry_self) (by rfl) ?_
  exact ⟨_, rfl⟩

theorem AtPoint.made_length {point : Point} (h : AtPoint e₀ e made point)
    (hinside : point.inside = true) : made.length ≤ 1 := by
  have hunloaded : Unloaded e₀ e made → made.length ≤ 1 := by
    intro hun
    rw [hun.1]
    decide
  have hloaded : Loaded e₀ e made → made.length ≤ 1 := by
    intro hload
    obtain ⟨n, hmade, -⟩ := hload
    rw [hmade]
    exact Nat.le_refl 1
  cases point with
  | lock => cases hinside
  | readLlm => cases hinside
  | readInfo llm => cases hinside
  | check => exact h.elim hunloaded hloaded
  | make => exact hunloaded h
  | assign n => rw [h.1]; exact Nat.le_refl 1
  | markLoaded =>
    obtain ⟨n, hmade, -⟩ := h
    rw [hmade]
    exact Nat.le_refl 1
  | unlock ok =>
    cases ok with
    | true => exact hloaded h
    | false => exact hunloaded h

theorem Unloaded.not_loaded (h : Unloaded e₀ e made) (hnew : IsNew e₀) : e.info.loaded = false := by
  have hinfo : e.released.info = e₀.info := congrArg LlmModelEntry.info h.2
  exact (congrArg LlmModelInfo.loaded hinfo).trans hnew.loaded

theorem Loaded.isSome (h : Loaded e₀ e made) : e.llm.isSome = true := by
  obtain ⟨n, -, hshape⟩ := h
  rw [Loaded.llm hshape]
  rfl

theorem Loaded.marked (h : Loaded e₀ e made) : e.info.loaded = true := by
  obtain ⟨n, -, hshape⟩ := h
  exact (congrArg (fun e => e.info.loaded) hshape :)

theorem AtPoint.llm_of_loaded (hnew : IsNew e₀) {point : Point} (h : AtPoint e₀ e made point)
    (hinside : point.inside = true) (hmarked : e.info.loaded = true) : e.llm.isSome = true := by
  have hunloaded : Unloaded e₀ e made → e.llm.isSome = true := by
    intro hun
    rw [hun.not_loaded hnew] at hmarked
    cases hmarked
  cases point with
  | lock => cases hinside
  | readLlm => cases hinside
  | readInfo llm => cases hinside
  | check => exact h.elim hunloaded Loaded.isSome
  | make => exact hunloaded h
  | assign n =>
    have hinfo : e.released.info = e₀.info := congrArg LlmModelEntry.info h.2
    rw [show e.info = e₀.info from hinfo, hnew.loaded] at hmarked
    cases hmarked
  | markLoaded =>
    obtain ⟨n, -, hshape⟩ := h
    have hllm : e.llm = some n := congrArg LlmModelEntry.llm hshape
    rw [hllm]
    rfl
  | unlock ok =>
    cases ok with
    | true => exact Loaded.isSome h
    | false => exact hunloaded h

/-- Whoever holds the lock, the entry has one of the shapes. -/
theorem EntryInv.shape (h : EntryInv mid e₀ e hist s) :
    ∃ point, AtPoint e₀ e (constructedOf mid hist) point ∧ point.inside = true := by
  cases hlock : e.lock with
  | none => exact ⟨.check, h.free hlock, rfl⟩
  | some t =>
    obtain ⟨preload, point, ht, hinside⟩ := h.owner t hlock
    exact ⟨point, (h.point t preload point ht).1, hinside⟩

theorem EntryInv.unlocked (h : EntryInv mid e₀ e hist s)
    (hnobody : ∀ t preload point, s.threads t = .resolving mid preload point →
      point.inside = false) :
    e.lock = none := by
  cases hlock : e.lock with
  | none => rfl
  | some t =>
    obtain ⟨preload, point, ht, hinside⟩ := h.owner t hlock
    rw [hnobody t preload point ht] at hinside
    cases hinside

theorem Inv.loadedOnce (p : Json.Printer) (hnew : IsNew e₀) (h : Inv mid e₀ hist s) :
    LoadedOnce p mid e₀ s hist := by
  obtain ⟨e, he, hinv⟩ := h
  obtain ⟨point, hpoint, hinside⟩ := hinv.shape
  have hentry : ∀ e', s.entry mid = some e' → e' = e := by
    intro e' he'
    exact Option.some.inj (he'.symm.trans he)
  refine ⟨hpoint.made_length hinside, ?_, ?_, ?_, ?_, ?_, ?_⟩
  · intro llm cfg info hmem
    obtain ⟨hcfg, n, hllm, hmade, -⟩ := hinv.resolved llm cfg info hmem
    exact ⟨hcfg, n, hllm, hmade⟩
  · intro t preload s₁ es ht hstep
    simp only [step, ht, he, State.advanceResolve, Bool.false_eq_true, if_false] at hstep
    cases hstep
    exact ⟨rfl, Function.update_self ..⟩
  · intro t preload ok s₁ es ht hstep
    have hun : Unloaded e₀ e (constructedOf mid hist) := (hinv.point t preload _ ht).1
    simp only [step, ht, he, State.advanceResolve, Bool.false_eq_true, if_false] at hstep
    cases hstep
    refine ⟨rfl, ?_⟩
    rw [← hun.2]
    exact entry_setEntry_self
  · intro hmade hnobody
    have hlock := hinv.unlocked hnobody
    have heq : e = e₀ := by
      rcases hinv.free hlock with hun | ⟨n, hloaded, -⟩
      · rw [← hun.2, LlmModelEntry.released, ← hlock]
      · rw [hmade] at hloaded
        cases hloaded
    rw [heq] at he
    exact ⟨he, fun t id ht hid => resolveAlone_run p hnew he ht hid⟩
  · intro e' he' hmarked
    rw [hentry e' he'] at hmarked ⊢
    exact hpoint.llm_of_loaded hnew hinside hmarked
  · intro hnobody e' he'
    rw [hentry e' he']
    rcases hinv.free (hinv.unlocked hnobody) with hun | hloaded
    · rw [hun.not_loaded hnew, hun.llm hnew]
      decide
    · exact ⟨fun _ => hloaded.isSome, fun _ => hloaded.marked⟩

theorem initial_inv {g : Registry Cfg} (hnew : IsNew e₀) (he : g.models.get? mid = some e₀) :
    Inv mid e₀ [] (State.initial g) := by
  refine ⟨e₀, he, nofun, ?_, ?_, nofun⟩
  · intro t ht
    rw [hnew.lock] at ht
    cases ht
  · intro _
    left
    refine ⟨rfl, ?_⟩
    rw [LlmModelEntry.released, ← hnew.lock]

/-- The entries of a registry that was just built are new. -/
theorem entries_isNew {specs : List (ModelSpec Cfg)} (h : (entries specs).get? mid = some e) :
    IsNew e := by
  rw [entries, Dict.get?_update, Dict.get?_nil, Option.or_none] at h
  have hmem := List.mem_reverse.mp (Dict.mem_of_get? h)
  obtain ⟨m, -, heq⟩ := List.mem_map.mp hmem
  rw [← (Prod.mk.inj heq).2]
  exact ⟨rfl, rfl, rfl⟩

end Property

/-- Every model is loaded once, in whatever order the threads take their steps. -/
theorem loads_once (p : Json.Printer) {specs : List (ModelSpec Cfg)} {defaultId : Str}
    {g : Registry Cfg} (hg : Registry.init p (entries specs) defaultId = .ok g)
    {actions : List Action} {s : State Cfg} {events : List (Event Cfg)}
    (hrun : Transition.run (step p) (State.initial g) actions = some (s, events))
    {mid : Str} {e₀ : LlmModelEntry Cfg} (he : g.models.get? mid = some e₀) :
    LoadedOnce p mid e₀ s events := by
  have hmodels : g.models = entries specs := by
    unfold Registry.init at hg
    split_ifs at hg
    cases hg
    rfl
  have hnew : IsNew e₀ := entries_isNew (hmodels ▸ he)
  have hinv : Inv mid e₀ ([] ++ events) s :=
    Transition.run_history (fun _ _ _ _ _ h hstep => step_inv hnew h hstep)
      (initial_inv hnew he) hrun
  exact hinv.loadedOnce p hnew

/-- A registry with two models. -/
def twoModels : List (ModelSpec Nat) := [⟨"a", "A", "hf", 1⟩, ⟨"b", "B", "remote", 2⟩]

/-- Threads 0 and 1 resolve the same model.  The first construction fails, and thread
1 tries again. -/
def failThenRetry : List Action :=
  [.call 0 (.resolve none), .call 1 (.resolve (some "a")), .advance 0 true, .advance 0 true,
    .advance 0 false, .advance 0 true, .advance 1 true, .advance 1 true, .advance 1 true,
    .advance 1 true, .advance 1 true, .advance 1 true, .advance 1 true, .advance 1 true]

/-- Quotes as Python writes them around a plain text. -/
def quoting : Json.Printer := ⟨fun s => '\'' :: s ++ ['\''], fun l => l⟩

theorem failThenRetry_loaded_once :
    ∃ g s events, Registry.init quoting (entries twoModels) "a" = .ok g ∧
      Transition.run (step quoting) (State.initial g) failThenRetry = some (s, events) ∧
      events = [.failed "a", .constructed "a" 0, .resolved "a" (some 0) 1 ⟨"a", "A", "hf", true⟩] ∧
      LoadedOnce quoting "a" ⟨⟨"a", "A", "hf", false⟩, 1, none, none⟩ s events := by
  have hg : Registry.init quoting (entries twoModels) "a" =
      .ok ⟨entries twoModels, "a", by decide⟩ := rfl
  have hrun : ∃ s, Transition.run (step quoting)
      (State.initial ⟨entries twoModels, "a", by decide⟩) failThenRetry = some (s,
        [.failed "a", .constructed "a" 0, .resolved "a" (some 0) 1 ⟨"a", "A", "hf", true⟩]) :=
    ⟨_, rfl⟩
  obtain ⟨s, hrun⟩ := hrun
  exact ⟨_, s, _, hg, hrun, rfl, loads_once quoting hg hrun rfl⟩

end AiPipelines.LlmRegistry
