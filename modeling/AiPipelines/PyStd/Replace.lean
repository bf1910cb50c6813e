import AiPipelines.PyStd.Str

/-!
# What `str.replace` does to a text

The scan goes over the text from the left.  `replace_char` is a step over a character at which
no match starts, `replace_match` a step over a match, and `replace_append` a step over
characters that no match starts with.

The module names nothing of the repository.
-/

namespace AiPipelines.PyStd

variable {old new s : Str} {c : Char}

theorem replaceFrom_skip (m s : Str) :
    replaceFrom old new m.length (m ++ s) = replaceFrom old new 0 s := by
  induction m with
  | nil => rfl
  | cons c m ih =>
    show replaceFrom old new m.length (m ++ s) = _
    exact ih

/-- No match starts here. -/
theorem replace_char (h : ¬ startsWith old (c :: s) = true) :
    replace old new (c :: s) = c :: replace old new s := by
  unfold replace
  rw [replaceFrom, if_neg h]

/-- A match starts here. -/
theorem replace_match (s : Str) :
    replace (c :: old) new (c :: old ++ s) = new ++ replace (c :: old) new s := by
  unfold replace
  have hstarts : startsWith (c :: old) (c :: (old ++ s)) = true :=
    startsWith_iff.2 (List.prefix_append (c :: old) s)
  rw [List.cons_append, replaceFrom, if_pos hstarts]
  congr 1
  exact replaceFrom_skip old s

/-- A match starts with another character. -/
theorem replace_ne {d : Char} (h : d ≠ c) (s : Str) :
    replace (c :: old) new (d :: s) = d :: replace (c :: old) new s := by
  apply replace_char
  rw [startsWith_iff]
  exact fun hprefix => h (List.cons_prefix_cons.1 hprefix).1.symm

theorem replace_append {w : Str} (h : c ∉ w) (s : Str) :
    replace (c :: old) new (w ++ s) = w ++ replace (c :: old) new s := by
  induction w with
  | nil => rfl
  | cons d w ih =>
    rw [List.mem_cons, not_or] at h
    rw [List.cons_append, replace_ne (Ne.symm h.1), ih h.2, List.cons_append]

theorem replace_eq_self (h : c ∉ s) : replace (c :: old) new s = s := by
  have happend : replace (c :: old) new (s ++ []) = s ++ replace (c :: old) new [] :=
    replace_append h []
  rw [List.append_nil] at happend
  rw [happend]
  exact List.append_nil s

theorem mem_of_mem_replaceFrom {skip : Nat} (h : c ∈ replaceFrom old new skip s) :
    c ∈ s ∨ c ∈ new := by
  induction s generalizing skip with
  | nil => exact .inl h
  | cons d s ih =>
    cases skip with
    | succ skip => exact (ih h).imp_left (List.mem_cons_of_mem d)
    | zero =>
      rw [replaceFrom] at h
      split_ifs at h
      · rcases List.mem_append.1 h with h | h
        · exact .inr h
        · exact (ih h).imp_left (List.mem_cons_of_mem d)
      · rcases List.mem_cons.1 h with h | h
        · rw [h]
          exact .inl List.mem_cons_self
        · exact (ih h).imp_left (List.mem_cons_of_mem d)

/-- The characters come from the text or from the replacement. -/
theorem mem_of_mem_replace (h : c ∈ replace old new s) : c ∈ s ∨ c ∈ new :=
  mem_of_mem_replaceFrom h

end AiPipelines.PyStd
