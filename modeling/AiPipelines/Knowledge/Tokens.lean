import AiPipelines.Knowledge.Chunks
import AiPipelines.PyStd.Tally
import AiPipelines.PyStd.Unicode
import Mathlib.Algebra.Ring.Nat

/-!
# Tokens

What `server/app/agent/rag.py` compares of a query and a chunk: their tokens, each with the
number of times it is there.
-/

namespace AiPipelines.Knowledge

open PyStd

/-- A hit of a search. -/
structure RetrievedChunk (K : Type) where
  chunk : DocumentChunk
  score : K
  deriving Repr, DecidableEq

/-- What `[a-z0-9]` matches with `re.I`.  Four letters outside of ASCII are equal to one of
these letters but for the case. -/
def isTokenChar (c : Char) : Bool :=
  c.isAlphanum || [0x130, 0x131, 0x17F, 0x212A].contains c.toNat

/-- `_tokenize`. -/
def tokenize (u : Unicode) (text : Str) : List Str :=
  ((u.lower text).splitOnP fun c => !isTokenChar c).filter (· ≠ [])

/-- `_term_freq`. -/
def termFreq (tokens : List Str) : Dict Str Nat :=
  tokens.foldl (fun tf t => tf.set t ((tf.get? t).getD 0 + 1)) []

/-! ## Frequencies -/

/-- How often a text has a term. -/
def frequency (u : Unicode) (text t : Str) : Nat := (tokenize u text).count t

theorem termFreq_eq (tokens : List Str) : termFreq tokens = Dict.tally [] (tokens.map (·, 1)) := by
  unfold termFreq Dict.tally
  rw [List.foldl_map]
  rfl

theorem sumAt_ones (tokens : List Str) (t : Str) :
    Dict.sumAt t (tokens.map (·, 1)) = tokens.count t := by
  induction tokens with
  | nil => rfl
  | cons x tokens ih =>
    rw [List.map_cons, Dict.sumAt, ih, List.count_cons, add_comm]
    simp

theorem termFreq_at0 (tokens : List Str) (t : Str) : (termFreq tokens).at0 t = tokens.count t := by
  rw [termFreq_eq, Dict.at0_tally, sumAt_ones]
  exact zero_add _

theorem termFreq_nodup (tokens : List Str) : (termFreq tokens).keys.Nodup := by
  rw [termFreq_eq]
  exact Dict.nodup_keys_tally (d := []) List.nodup_nil _

theorem mem_keys_termFreq {tokens : List Str} {t : Str} :
    t ∈ (termFreq tokens).keys ↔ t ∈ tokens := by
  rw [termFreq_eq, Dict.mem_keys_tally]
  simp [Dict.keys]

end AiPipelines.Knowledge
