import AiPipelines.PyStd.JsonDump
import AiPipelines.PyStd.Raise

/-!
# What is loaded has distinct keys

`json.loads` builds its objects as dictionaries, item by item, so none of them has
a key twice.  `loads_distinctKeys` says so for everything that `loads` returns.

The module names nothing of the repository.
-/

namespace AiPipelines.PyStd.Json

/-- A scanner that gives values without repeated keys. -/
def Distinct (scan : Str → Except LoadError (Json × Str)) : Prop :=
  ∀ s v r, scan s = .ok (v, r) → DistinctKeys v

variable {scan : Str → Except LoadError (Json × Str)}

theorem scanItems_distinct (hscan : Distinct scan) {fuel : Nat} {s r : Str} {vs : List Json}
    (h : scanItems scan fuel s = .ok (vs, r)) : ∀ v ∈ vs, DistinctKeys v := by
  induction fuel generalizing s vs r with
  | zero => cases h
  | succ fuel ih =>
    rw [scanItems] at h
    obtain ⟨⟨v, s₁⟩, hv, h⟩ := bind_eq_ok_iff.1 h
    have hfirst : DistinctKeys v := hscan s v s₁ hv
    dsimp only at h
    split at h
    · cases h
      exact List.forall_mem_singleton.mpr hfirst
    · obtain ⟨⟨vs', r'⟩, hrest, h⟩ := bind_eq_ok_iff.1 h
      cases h
      exact List.forall_mem_cons.mpr ⟨hfirst, ih hrest⟩
    · cases h

/-- A dictionary of values without repeated keys stays one. -/
theorem forall_mem_set {P : Json → Prop} {d : Dict Str Json} (hd : ∀ kv ∈ d, P kv.2) (k : Str)
    {v : Json} (hv : P v) : ∀ kv ∈ d.set k v, P kv.2 := by
  induction d with
  | nil => exact List.forall_mem_singleton.mpr hv
  | cons e d ih =>
    obtain ⟨k', v'⟩ := e
    obtain ⟨he, hd⟩ := List.forall_mem_cons.mp hd
    rw [Dict.set]
    split_ifs
    · exact List.forall_mem_cons.mpr ⟨hv, hd⟩
    · exact List.forall_mem_cons.mpr ⟨he, ih hd⟩

theorem scanPairs_distinct (hscan : Distinct scan) {fuel : Nat} {d d' : Dict Str Json} {s r : Str}
    (hkeys : d.keys.Nodup) (hvalues : ∀ kv ∈ d, DistinctKeys kv.2)
    (h : scanPairs scan fuel d s = .ok (d', r)) :
    d'.keys.Nodup ∧ ∀ kv ∈ d', DistinctKeys kv.2 := by
  induction fuel generalizing d s with
  | zero => cases h
  | succ fuel ih =>
    rw [scanPairs] at h
    obtain ⟨⟨k, s₁⟩, -, h⟩ := bind_eq_ok_iff.1 h
    dsimp only at h
    split at h
    · obtain ⟨⟨v, s₃⟩, hv, h⟩ := bind_eq_ok_iff.1 h
      have hkeys' : (d.set k v).keys.Nodup := Dict.nodup_keys_set hkeys
      have hvalues' : ∀ kv ∈ d.set k v, DistinctKeys kv.2 :=
        forall_mem_set hvalues k (hscan _ v s₃ hv)
      dsimp only at h
      split at h
      · cases h
        exact ⟨hkeys', hvalues'⟩
      · split at h
        · exact ih hkeys' hvalues' h
        · cases h
      · cases h
    · cases h

theorem scanNumber_distinct {neg : Bool} {s r : Str} {v : Json}
    (h : scanNumber neg s = .ok (v, r)) : DistinctKeys v := by
  unfold scanNumber at h
  split at h
  · cases h
  · dsimp only at h
    split at h
    · split at h
      · cases h
      · cases h
        trivial
    · cases h
      trivial

theorem scanString_bind_distinct {s r : Str} {v : Json}
    (h : (do let (t, r) ← scanString s; return (str t, r)) = Except.ok (v, r)) :
    DistinctKeys v := by
  obtain ⟨⟨t, r'⟩, -, h⟩ := bind_eq_ok_iff.1 h
  cases h
  trivial

/-- One value, when the values in it are read by a scanner of this kind. -/
theorem scanOnce_distinct_of {depth : Nat} (ih : ∀ d, depth = d + 1 → Distinct (scanOnce d)) :
    Distinct (scanOnce depth) := by
  intro s v r h
  unfold scanOnce at h
  split at h
  case h_1 => exact scanString_bind_distinct h
  case h_3 d rest =>
    have hscan : Distinct (scanOnce d) := ih d rfl
    split at h
    · cases h
      exact ⟨List.nodup_nil, trivial⟩
    · obtain ⟨⟨d', r'⟩, hpairs, h⟩ := bind_eq_ok_iff.1 h
      cases h
      obtain ⟨hkeys, hvalues⟩ := scanPairs_distinct (d := []) hscan List.nodup_nil
        (List.forall_mem_nil _) hpairs
      exact ⟨hkeys, distinctKeysPairs_iff.mpr hvalues⟩
    · cases h
  case h_5 d rest =>
    have hscan : Distinct (scanOnce d) := ih d rfl
    split at h
    · cases h
      trivial
    · obtain ⟨⟨vs, r'⟩, hitems, h⟩ := bind_eq_ok_iff.1 h
      cases h
      exact distinctKeysItems_iff.mpr (scanItems_distinct hscan hitems)
  case h_12 => exact scanNumber_distinct h
  case h_13 => exact scanNumber_distinct h
  -- a literal is no object, and the other cases raise
  all_goals
    cases h
    try trivial

theorem scanOnce_distinct (depth : Nat) : Distinct (scanOnce depth) := by
  induction depth with
  | zero => exact scanOnce_distinct_of fun d hd => absurd hd.symm (Nat.succ_ne_zero d)
  | succ depth ih =>
    apply scanOnce_distinct_of
    intro d hd
    rw [← Nat.succ.inj hd]
    exact ih

theorem loads_distinctKeys {depth : Nat} {s : Str} {v : Json} (h : loads depth s = .ok v) :
    DistinctKeys v := by
  unfold loads at h
  split at h
  · cases h
  · obtain ⟨⟨v', r⟩, hscan, h⟩ := bind_eq_ok_iff.1 h
    dsimp only at h
    split_ifs at h
    cases h
    exact scanOnce_distinct depth _ _ _ hscan

end AiPipelines.PyStd.Json
