import Mathlib.Data.List.Induction
import Mathlib.Data.List.Nodup

/-!
# Python dictionaries

A `dict` keeps its items in insertion order.  `Dict K V` is the list of
these items.  `set` replaces the value of a key that is there and appends a
new item otherwise, as an assignment `d[k] = v` does.

The rules that the users of this module need say what `get?` finds after
`set`, `pop` and `update`: `get?_set`, `get?_pop` and `get?_update`.
`update_eq_self_iff` says when a series of assignments changes nothing.

The module names nothing of the repository.
-/

namespace AiPipelines.PyStd

/-- A Python `dict`, as the list of its items in insertion order. -/
abbrev Dict (K V : Type) := List (K × V)

namespace Dict

variable {K V : Type} [DecidableEq K]

/-- `d.get(k)`. -/
def get? (d : Dict K V) (k : K) : Option V := (d.find? (fun e => e.1 = k)).map Prod.snd

/-- `d[k] = v`. -/
def set : Dict K V → K → V → Dict K V
  | [], k, v => [(k, v)]
  | (k', v') :: d, k, v => if k' = k then (k', v) :: d else (k', v') :: set d k v

/-- `d.pop(k, None)`. -/
def pop (d : Dict K V) (k : K) : Dict K V := d.filter (fun e => e.1 ≠ k)

/-- `d.update(e)`. -/
def update (d e : Dict K V) : Dict K V := e.foldl (fun d kv => d.set kv.1 kv.2) d

/-- `list(d)`. -/
def keys (d : Dict K V) : List K := d.map Prod.fst

@[simp] theorem get?_nil (k : K) : get? ([] : Dict K V) k = none := rfl

theorem get?_cons (k' : K) (v' : V) (d : Dict K V) (k : K) :
    get? ((k', v') :: d) k = if k' = k then some v' else get? d k := by
  by_cases h : k' = k <;> simp [get?, h]

@[simp] theorem get?_set_self (d : Dict K V) (k : K) (v : V) :
    (d.set k v).get? k = some v := by
  induction d with
  | nil => simp [set, get?_cons]
  | cons e d ih =>
    obtain ⟨k', v'⟩ := e
    by_cases h : k' = k <;> simp [set, get?_cons, h, ih]

theorem get?_set_of_ne (d : Dict K V) {k k' : K} (v : V) (h : k ≠ k') :
    (d.set k v).get? k' = d.get? k' := by
  induction d with
  | nil => simp [set, get?_cons, h]
  | cons e d ih =>
    obtain ⟨k₀, v₀⟩ := e
    by_cases h₀ : k₀ = k
    · subst h₀
      simp [set, get?_cons, h]
    · simp only [set, h₀, if_false, get?_cons, ih]

/-- What a lookup finds after an assignment. -/
theorem get?_set (d : Dict K V) (k k' : K) (v : V) :
    (d.set k v).get? k' = if k = k' then some v else d.get? k' := by
  split_ifs with h
  · rw [h, get?_set_self]
  · exact get?_set_of_ne d v h

/-- Of two assignments to a key the second counts. -/
theorem set_set (d : Dict K V) (k : K) (v v' : V) : (d.set k v).set k v' = d.set k v' := by
  induction d with
  | nil => simp [set]
  | cons e d ih =>
    obtain ⟨k', w⟩ := e
    by_cases h : k' = k
    · simp [set, h]
    · simp [set, h, ih]

/-- What a lookup finds after a key was popped. -/
theorem get?_pop (d : Dict K V) (k k' : K) :
    (d.pop k).get? k' = if k = k' then none else d.get? k' := by
  induction d with
  | nil => simp [pop]
  | cons e d ih =>
    obtain ⟨k₀, v₀⟩ := e
    simp only [pop] at ih ⊢
    by_cases h₀ : k₀ = k
    · subst h₀
      rw [List.filter_cons_of_neg (by simp), ih, get?_cons]
      split_ifs <;> rfl
    · rw [List.filter_cons_of_pos (by simpa using h₀), get?_cons, ih, get?_cons]
      by_cases h : k = k'
      · simp [← h, h₀]
      · simp [h]

/-- Popping adds no key. -/
theorem keys_pop_sublist (d : Dict K V) (k : K) : (d.pop k).keys.Sublist d.keys :=
  List.filter_sublist.map Prod.fst

theorem update_append (d e e' : Dict K V) : d.update (e ++ e') = (d.update e).update e' :=
  List.foldl_append

theorem get?_isSome {d : Dict K V} {k : K} : (d.get? k).isSome ↔ k ∈ d.keys := by
  induction d with
  | nil => simp [keys]
  | cons e d ih =>
    obtain ⟨k', v'⟩ := e
    rw [get?_cons]
    by_cases h : k' = k
    · simp [h, keys]
    · rw [if_neg h, ih]
      simp [keys, Ne.symm h]

/-! ## Assignments that change nothing -/

theorem set_eq_self {d : Dict K V} {k : K} {v : V} (h : d.get? k = some v) : d.set k v = d := by
  induction d with
  | nil => simp at h
  | cons e d ih =>
    obtain ⟨k', v'⟩ := e
    rw [get?_cons] at h
    by_cases hk : k' = k
    · rw [if_pos hk] at h
      rw [set, if_pos hk, Option.some.inj h]
    · rw [if_neg hk] at h
      rw [set, if_neg hk, ih h]

theorem update_eq_self {d e : Dict K V} (h : ∀ kv ∈ e, d.get? kv.1 = some kv.2) :
    d.update e = d := by
  induction e with
  | nil => rfl
  | cons kv e ih =>
    show (d.set kv.1 kv.2).update e = d
    rw [set_eq_self (h kv List.mem_cons_self)]
    exact ih fun kv' hkv' => h kv' (List.mem_cons_of_mem kv hkv')

/-- What a lookup finds is an item. -/
theorem mem_of_get? {d : Dict K V} {k : K} {v : V} (h : d.get? k = some v) : (k, v) ∈ d := by
  obtain ⟨kv, hfind, rfl⟩ := Option.map_eq_some_iff.mp h
  have hk : kv.1 = k := by simpa using List.find?_some hfind
  rw [← hk]
  exact List.mem_of_find?_eq_some hfind

theorem get?_of_mem {d : Dict K V} (hd : d.keys.Nodup) {kv : K × V} (h : kv ∈ d) :
    d.get? kv.1 = some kv.2 := by
  induction d with
  | nil => cases h
  | cons e d ih =>
    obtain ⟨k', v'⟩ := e
    have hnd : k' ∉ keys d ∧ (keys d).Nodup := List.nodup_cons.1 hd
    rw [get?_cons]
    rcases List.mem_cons.1 h with h | h
    · rw [h, if_pos rfl]
    · have hne : k' ≠ kv.1 := by
        intro heq
        exact hnd.1 (heq ▸ List.mem_map_of_mem h)
      rw [if_neg hne]
      exact ih hnd.2 h

/-- `d.update(dict(d))` changes nothing. -/
theorem update_self {d : Dict K V} (hd : d.keys.Nodup) : d.update d = d :=
  update_eq_self fun _ h => get?_of_mem hd h

theorem keys_set_of_mem {d : Dict K V} {k : K} {v : V} (h : k ∈ d.keys) :
    (d.set k v).keys = d.keys := by
  induction d with
  | nil => cases h
  | cons e d ih =>
    obtain ⟨k', v'⟩ := e
    by_cases hk : k' = k
    · rw [set, if_pos hk]
      rfl
    · have hmem : k ∈ keys d := by
        rcases List.mem_cons.1 h with h | h
        · exact absurd h.symm hk
        · exact h
      rw [set, if_neg hk]
      show k' :: (set d k v).keys = k' :: keys d
      rw [ih hmem]

/-- A new key is put at the end. -/
theorem set_of_not_mem {d : Dict K V} {k : K} {v : V} (h : k ∉ d.keys) :
    d.set k v = d ++ [(k, v)] := by
  induction d with
  | nil => rfl
  | cons e d ih =>
    obtain ⟨k', v'⟩ := e
    have hne : k' ≠ k := fun hk => h (hk ▸ List.mem_cons_self)
    have hd : k ∉ keys d := fun hk => h (List.mem_cons_of_mem k' hk)
    rw [set, if_neg hne, ih hd, List.cons_append]

theorem keys_set_of_not_mem {d : Dict K V} {k : K} {v : V} (h : k ∉ d.keys) :
    (d.set k v).keys = d.keys ++ [k] := by
  rw [set_of_not_mem h]
  exact List.map_append

/-- Items with new and distinct keys are put at the end. -/
theorem update_eq_append {d e : Dict K V} (h : (d.keys ++ e.keys).Nodup) : d.update e = d ++ e := by
  induction e generalizing d with
  | nil => exact (List.append_nil d).symm
  | cons kv e ih =>
    obtain ⟨k, v⟩ := kv
    have hk : k ∉ d.keys := by
      intro hk
      exact (List.nodup_append.mp h).2.2 k hk k List.mem_cons_self rfl
    have hrest : ((d.set k v).keys ++ keys e).Nodup := by
      rw [keys_set_of_not_mem hk, List.append_assoc]
      exact h
    show (d.set k v).update e = d ++ (k, v) :: e
    rw [ih hrest, set_of_not_mem hk, List.append_assoc]
    rfl

theorem mem_keys_set {d : Dict K V} {k k' : K} {v : V} (h : k' ∈ d.keys) :
    k' ∈ (d.set k v).keys := by
  rw [← get?_isSome, get?_set]
  split_ifs
  · rfl
  · exact get?_isSome.mpr h

theorem mem_keys_set_iff {d : Dict K V} {k k' : K} {v : V} :
    k' ∈ (d.set k v).keys ↔ k' = k ∨ k' ∈ d.keys := by
  rw [← get?_isSome, get?_set, ← get?_isSome]
  by_cases h : k = k'
  · simp [h]
  · simp [h, Ne.symm h]

/-- An assignment makes one new item at most. -/
theorem mem_set {d : Dict K V} {k : K} {v : V} {kv : K × V} (h : kv ∈ d.set k v) :
    kv = (k, v) ∨ kv ∈ d := by
  induction d with
  | nil => exact .inl (List.mem_singleton.1 h)
  | cons e d ih =>
    obtain ⟨k', v'⟩ := e
    unfold set at h
    split_ifs at h with hk
    · rcases List.mem_cons.1 h with h | h
      · exact .inl (hk ▸ h)
      · exact .inr (List.mem_cons_of_mem _ h)
    · rcases List.mem_cons.1 h with h | h
      · exact .inr (h ▸ List.mem_cons_self)
      · rcases ih h with h | h
        · exact .inl h
        · exact .inr (List.mem_cons_of_mem _ h)

theorem nodup_keys_set {d : Dict K V} {k : K} {v : V} (hd : d.keys.Nodup) :
    (d.set k v).keys.Nodup := by
  by_cases h : k ∈ d.keys
  · rw [keys_set_of_mem h]
    exact hd
  · rw [keys_set_of_not_mem h, List.nodup_append]
    refine ⟨hd, List.nodup_singleton k, ?_⟩
    intro a ha b hb heq
    rw [List.mem_singleton.1 hb] at heq
    exact h (heq ▸ ha)

theorem nodup_keys_update {d e : Dict K V} (hd : d.keys.Nodup) : (d.update e).keys.Nodup := by
  induction e generalizing d with
  | nil => exact hd
  | cons kv e ih => exact ih (nodup_keys_set hd)

theorem keys_update_of_mem {d e : Dict K V} (h : ∀ kv ∈ e, kv.1 ∈ d.keys) :
    (d.update e).keys = d.keys := by
  induction e generalizing d with
  | nil => rfl
  | cons kv e ih =>
    have hset : (d.set kv.1 kv.2).keys = d.keys := keys_set_of_mem (h kv List.mem_cons_self)
    show ((d.set kv.1 kv.2).update e).keys = d.keys
    rw [ih, hset]
    intro kv' hkv'
    rw [hset]
    exact h kv' (List.mem_cons_of_mem kv hkv')

/-- Of several assignments to a key the last one counts. -/
theorem get?_update (d e : Dict K V) (k : K) :
    (d.update e).get? k = (get? e.reverse k).or (d.get? k) := by
  induction e using List.reverseRecOn with
  | nil => rfl
  | append_singleton e kv ih =>
    rw [update_append]
    show ((d.update e).set kv.1 kv.2).get? k = _
    rw [get?_set, List.reverse_append, List.reverse_singleton, List.singleton_append, get?_cons]
    split_ifs
    · rfl
    · exact ih

/-- Two dictionaries with the same keys in the same order and the same values. -/
theorem ext_get? {d e : Dict K V} (hkeys : d.keys = e.keys) (hd : d.keys.Nodup)
    (h : ∀ k, d.get? k = e.get? k) : d = e := by
  induction d generalizing e with
  | nil =>
    cases e with
    | nil => rfl
    | cons _ _ => cases hkeys
  | cons kv d ih =>
    cases e with
    | nil => cases hkeys
    | cons kv' e =>
      obtain ⟨k, v⟩ := kv
      obtain ⟨k', v'⟩ := kv'
      obtain ⟨hk, hrest⟩ : k = k' ∧ keys d = keys e := List.cons.inj hkeys
      have hnd : k ∉ keys d ∧ (keys d).Nodup := List.nodup_cons.1 hd
      subst hk
      have hv : v = v' := by
        have := h k
        rw [get?_cons, get?_cons, if_pos rfl, if_pos rfl] at this
        exact Option.some.inj this
      rw [hv, ih hrest hnd.2]
      intro k'
      by_cases hk' : k = k'
      · have hnone : ∀ {f : Dict K V}, k ∉ f.keys → f.get? k = none := by
          intro f hf
          exact Option.not_isSome_iff_eq_none.1 fun hs => hf (get?_isSome.1 hs)
        rw [← hk', hnone hnd.1, hnone (hrest ▸ hnd.1)]
      · have := h k'
        rw [get?_cons, get?_cons, if_neg hk', if_neg hk'] at this
        exact this

/-- Assignments change nothing exactly when the last one to each key gives it the
value that it has. -/
theorem update_eq_self_iff {d e : Dict K V} (hd : d.keys.Nodup) :
    d.update e = d ↔ ∀ k v, get? e.reverse k = some v → d.get? k = some v := by
  constructor
  · intro h k v hk
    rw [← h, get?_update, hk]
    rfl
  · intro h
    have hkeys : (d.update e).keys = d.keys := by
      apply keys_update_of_mem
      intro kv hkv
      have hmem : kv.1 ∈ keys e.reverse := List.mem_map_of_mem (List.mem_reverse.2 hkv)
      obtain ⟨v, hv⟩ := Option.isSome_iff_exists.1 (get?_isSome.2 hmem)
      exact get?_isSome.1 (by rw [h kv.1 v hv]; rfl)
    apply ext_get? hkeys (hkeys ▸ hd)
    intro k
    rw [get?_update]
    cases hk : get? e.reverse k with
    | none => rfl
    | some v => rw [h k v hk]; rfl

/-! ## Counting -/

/-- How many items meet a condition after an assignment, and how many before. -/
theorem countP_set (d : Dict K V) (q : K × V → Bool) (k : K) (v : V) :
    (d.set k v).countP q + ((d.get? k).elim 0 fun w => if q (k, w) then 1 else 0) =
      d.countP q + if q (k, v) then 1 else 0 := by
  induction d with
  | nil =>
    rw [set, List.countP_singleton]
    simp
  | cons e d ih =>
    obtain ⟨k', v'⟩ := e
    rw [get?_cons, set]
    by_cases hk : k' = k
    · subst hk
      simp only [if_true, List.countP_cons, Option.elim_some]
      omega
    · simp only [if_neg hk, List.countP_cons]
      omega

theorem countP_pop {d : Dict K V} (hd : d.keys.Nodup) (q : K × V → Bool) (k : K) :
    (d.pop k).countP q + ((d.get? k).elim 0 fun w => if q (k, w) then 1 else 0) = d.countP q := by
  induction d with
  | nil => rfl
  | cons e d ih =>
    obtain ⟨k', v'⟩ := e
    obtain ⟨hnot, hrest⟩ : k' ∉ keys d ∧ (keys d).Nodup := List.nodup_cons.1 hd
    have hd' := ih hrest
    rw [get?_cons]
    by_cases hk : k' = k
    · subst hk
      have hnone : get? d k' = none := by
        rw [← Option.not_isSome_iff_eq_none, get?_isSome]
        exact hnot
      rw [hnone, Option.elim_none] at hd'
      rw [if_pos rfl, Option.elim_some, pop, List.filter_cons_of_neg (by simp), List.countP_cons,
        ← hd']
      rfl
    · rw [if_neg hk, pop, List.filter_cons_of_pos (by simpa using hk), List.countP_cons,
        List.countP_cons, ← hd']
      show List.countP q (pop d k) + _ + _ = _
      omega

end Dict

end AiPipelines.PyStd
