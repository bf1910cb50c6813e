import AiPipelines.PyStd.ReSub
import AiPipelines.PyStd.Unicode

/-!
# The thread count of a system-mode run

Before a binary runs in a simulated system, its arguments get the thread count that matches the
cores of the machine.  `_prepare_system_mode_shared_dir` and `_prepare_system_mode_initrd` do so
with substring tests and substitutions on the text, although the arguments are tokens.

What the substitutions do to the tokens is `substituted` and `inserted`.  `expectedTokens` is the
editing of the tokens that they stand for, and `updatedArgs_tokens_iff` says for which arguments
the two are the same.
-/

namespace AiPipelines.Iminnt

open PyStd

/-! ## The substitutions -/

/-- `str(smp_cores)`. -/
def coresText (smpCores : Nat) : Str := Nat.toDigits 10 smpCores

/-- `updated_args`, as both functions compute it from the arguments. -/
def updateThreads (u : Unicode) (smpCores : Nat) (binArgs : Str) : Str :=
  if contains "-t " binArgs then
    subAll (matchWord "-t" u.isDigit) (fun _ => "-t ".toList ++ coresText smpCores) binArgs
  else if contains "-m " binArgs then
    subFirst (matchWord "-m" isVisible)
      (fun matched => matched ++ (" -t ".toList ++ coresText smpCores))
      binArgs
  else "-t ".toList ++ coresText smpCores ++ " ".toList ++ binArgs

/-- The thread rewriting of `_prepare_system_mode_shared_dir`. -/
def prepareSystemModeSharedDirArgs (u : Unicode) (smpCores : Nat) (binArgs : Str) : Str :=
  updateThreads u smpCores binArgs

/-- The thread rewriting of `_prepare_system_mode_initrd`. -/
def prepareSystemModeInitrdArgs (u : Unicode) (smpCores : Nat) (binArgs : Str) : Str :=
  updateThreads u smpCores binArgs

/-! ## The tokens -/

/-- Every token behind a `-t` is replaced. -/
def replaceAfter (v : Str) : Str → List Str → List Str
  | _, [] => []
  | prev, w :: ws => (if prev = "-t".toList then v else w) :: replaceAfter v w ws

/-- The tokens are put behind the first `-m` with a value. -/
def insertBehindModel (added : List Str) : Str → List Str → Option (List Str)
  | _, [] => none
  | prev, w :: ws =>
    if prev = "-m".toList then some (w :: (added ++ ws))
      else (insertBehindModel added w ws).map (w :: ·)

/-- The tokens with the thread count: a value behind every `-t`, or one more pair. -/
def expectedTokens (smpCores : Nat) (ws : List Str) : List Str :=
  let added := ["-t".toList, coresText smpCores]
  if ws.contains "-t".toList then replaceAfter (coresText smpCores) [] ws
  else (insertBehindModel added [] ws).getD (added ++ ws)

/-- A token side by side with the one before it.  Behind a `-t` it is a number.  Behind another
token that ends in `-t` it does not start with a number, or with the thread count. -/
def EditedAlike (p : Char → Bool) (v prev w : Str) : Prop :=
  (prev = "-t".toList → ∀ c ∈ w, p c = true) ∧
    (prev ≠ "-t".toList → "-t".toList <:+ prev → w.takeWhile p = [] ∨ w.takeWhile p = v)

/-- The first token that ends in `-m` and has one behind it. -/
def modelToken (ws : List Str) : Option Str := ws.dropLast.find? fun w => "-m".toList.isSuffixOf w

/-- Arguments that the substitutions edit as tokens. -/
structure ThreadsEditable (u : Unicode) (smpCores : Nat) (binArgs : Str) : Prop where
  /-- There is a `-t`, and what looks like one to the pattern is one. -/
  threads : contains "-t " binArgs = true →
    "-t".toList ∈ split binArgs ∧
    (split binArgs).IsChain (EditedAlike u.isDigit (coresText smpCores))
  /-- The pair goes behind a `-m`. -/
  model : contains "-t " binArgs = false → contains "-m " binArgs = true →
    "-t".toList ∉ split binArgs →
    modelToken (split binArgs) = some "-m".toList
  /-- There is a `-t` that is not seen, and nothing is to be done. -/
  model_threads : contains "-t " binArgs = false → contains "-m " binArgs = true →
    "-t".toList ∈ split binArgs → modelToken (split binArgs) = none ∧
      (split binArgs).IsChain fun prev w => prev = "-t".toList → w = coresText smpCores
  /-- The pair goes in front. -/
  front : contains "-t " binArgs = false → contains "-m " binArgs = false →
    "-t".toList ∉ split binArgs ∧ (split binArgs).IsChain fun prev _ => prev ≠ "-m".toList

/-! ## What becomes of the tokens -/

variable {u : Unicode} {smpCores : Nat} {binArgs v prev w : Str} {ws added l : List Str}
  {p : Char → Bool}

theorem isDigit_of_mem_coresText {c : Char} (hc : c ∈ coresText smpCores) : u.isDigit c = true := by
  have hdigit : c.isDigit = true := Nat.isDigit_of_mem_toDigits (by decide) (by decide) hc
  rw [u.isDigit_ascii c (ascii_of_isDigit hdigit), hdigit]

theorem isWord_coresText (u : Unicode) (smpCores : Nat) : IsWord (coresText smpCores) :=
  ⟨Nat.toDigits_ne_nil, fun c hc => u.isDigit_not_isSpace c (isDigit_of_mem_coresText hc)⟩

theorem threadPattern (u : Unicode) : WordPattern "-t".toList u.isDigit where
  name_ne := by decide
  name_solid := not_isSpace_of_all (by decide)
  value_solid := u.isDigit_not_isSpace

theorem modelPattern : WordPattern "-m".toList isVisible where
  name_ne := by decide
  name_solid := not_isSpace_of_all (by decide)
  value_solid := by simp [isVisible]

theorem notDigit_threadName (u : Unicode) : ∀ c ∈ "-t".toList, u.isDigit c = false := by
  have hhyphen : u.isDigit '-' = false := u.isDigit_ascii '-' (by decide)
  have ht : u.isDigit 't' = false := u.isDigit_ascii 't' (by decide)
  exact List.forall_mem_cons.2 ⟨hhyphen, List.forall_mem_singleton.2 ht⟩

theorem behind_added (u : Unicode) (smpCores : Nat) :
    Behind (" -t ".toList ++ coresText smpCores) ["-t".toList, coresText smpCores] := by
  have hend : Behind ([' '] ++ (coresText smpCores ++ [])) [coresText smpCores] :=
    .word [' '] _ [] [] (by decide) (by decide) (isWord_coresText u smpCores)
      (.done [] (List.forall_mem_nil _))
  rw [List.append_nil] at hend
  exact .word [' '] "-t".toList _ _ (by decide) (by decide) (by decide) hend

/-- The tokens behind the substitutions. -/
theorem split_updateThreads (u : Unicode) (smpCores : Nat) (binArgs : Str) :
    split (updateThreads u smpCores binArgs) =
      if contains "-t " binArgs then
        substituted "-t" u.isDigit (coresText smpCores) [] (split binArgs)
      else if contains "-m " binArgs then
        inserted "-m" ["-t".toList, coresText smpCores] [] (split binArgs)
      else "-t".toList :: coresText smpCores :: split binArgs := by
  unfold updateThreads
  split_ifs
  · exact split_subAll (threadPattern u) (notDigit_threadName u)
      (isWord_coresText u smpCores) binArgs
  · exact split_subFirst modelPattern (behind_added u smpCores) binArgs
  · have hfront : Behind (" -t ".toList ++ coresText smpCores ++ ' ' :: binArgs)
        (["-t".toList, coresText smpCores] ++ split binArgs) :=
      (behind_added u smpCores).append (behind_split (by decide) binArgs)
    have hsplit := hfront.split_eq
    have hblank : IsBlank [' '] := by decide
    rw [← split_append_gap hblank]
    simpa using hsplit

/-! ## A value behind every `-t` -/

theorem editedAlike_iff (hdigits : ∀ c ∈ v, p c = true) (hw : w ≠ []) :
    ((if "-t".toList <:+ prev ∧ w.takeWhile p ≠ [] then v ++ w.dropWhile p else w) =
      if prev = "-t".toList then v else w) ↔ EditedAlike p v prev w := by
  have hdrop : w.takeWhile p ++ w.dropWhile p = w := List.takeWhile_append_dropWhile
  have hnumber : (∀ c ∈ w, p c = true) → w.takeWhile p ≠ [] := by
    intro hall
    rw [List.takeWhile_eq_self_iff.2 hall]
    exact hw
  unfold EditedAlike
  by_cases hprev : prev = "-t".toList
  · subst hprev
    rw [if_pos rfl]
    by_cases hvalue : w.takeWhile p ≠ []
    · rw [if_pos ⟨List.suffix_refl _, hvalue⟩, List.append_right_eq_self, List.dropWhile_eq_nil_iff]
      exact ⟨fun h => ⟨fun _ => h, fun hne => absurd rfl hne⟩, fun h => h.1 rfl⟩
    · rw [if_neg fun h => hvalue h.2]
      refine ⟨fun h => absurd (hnumber ?_) hvalue, fun h => absurd (hnumber (h.1 rfl)) hvalue⟩
      rw [h]
      exact hdigits
  · rw [if_neg hprev]
    have hforget : (prev = "-t".toList → ∀ c ∈ w, p c = true) := fun h => absurd h hprev
    by_cases hmatch : "-t".toList <:+ prev ∧ w.takeWhile p ≠ []
    · have hsame : v ++ w.dropWhile p = w ↔ w.takeWhile p = v := by
        conv_lhs => rhs; rw [← hdrop]
        rw [List.append_cancel_right_eq, eq_comm]
      rw [if_pos hmatch, hsame]
      exact ⟨fun h => ⟨hforget, fun _ _ => .inr h⟩,
        fun h => (h.2 hprev hmatch.1).resolve_left hmatch.2⟩
    · rw [if_neg hmatch]
      refine ⟨fun _ => ⟨hforget, fun _ hsuffix => .inl ?_⟩, fun _ => rfl⟩
      exact not_not.1 fun hvalue => hmatch ⟨hsuffix, hvalue⟩

theorem substituted_eq_iff (hdigits : ∀ c ∈ v, p c = true) (hws : ∀ w ∈ ws, w ≠ []) :
    substituted "-t" p v prev ws = replaceAfter v prev ws ↔
      (prev :: ws).IsChain (EditedAlike p v) := by
  induction ws generalizing prev with
  | nil => exact iff_of_true rfl (.singleton prev)
  | cons w ws ih =>
    rw [List.forall_mem_cons] at hws
    rw [substituted, replaceAfter, List.cons.injEq, editedAlike_iff hdigits hws.1, ih hws.2,
      List.isChain_cons_cons]

theorem isChain_nil_cons {r : Str → Str → Prop} (h : ∀ w, r [] w) :
    ([] :: ws).IsChain r ↔ ws.IsChain r := by
  cases ws with
  | nil => exact iff_of_true (.singleton []) .nil
  | cons w ws => exact List.isChain_cons_cons.trans (and_iff_right (h w))

theorem editedAlike_nil (w : Str) : EditedAlike p v [] w :=
  ⟨fun h => absurd h (by decide), fun _ h => absurd h (by decide)⟩

@[simp] theorem length_substituted {name : Str} :
    (substituted name p v prev ws).length = ws.length := by
  induction ws generalizing prev with
  | nil => rfl
  | cons w ws ih => rw [substituted, List.length_cons, List.length_cons, ih]

@[simp] theorem length_replaceAfter : (replaceAfter v prev ws).length = ws.length := by
  induction ws generalizing prev with
  | nil => rfl
  | cons w ws ih => rw [replaceAfter, List.length_cons, List.length_cons, ih]

theorem replaceAfter_eq_self_iff :
    replaceAfter v prev ws = ws ↔ (prev :: ws).IsChain fun prev w => prev = "-t".toList →
      w = v := by
  induction ws generalizing prev with
  | nil => exact iff_of_true rfl (.singleton prev)
  | cons w ws ih =>
    have hhead : (if prev = "-t".toList then v else w) = w ↔ (prev = "-t".toList → w = v) := by
      split_ifs with hprev
      · exact ⟨fun h _ => h.symm, fun h => (h hprev).symm⟩
      · exact iff_of_true rfl fun h => absurd h hprev
    rw [replaceAfter, List.cons.injEq, hhead, ih, List.isChain_cons_cons]

/-! ## One more pair -/

theorem mem_of_insertBehindModel {a : Str} (h : insertBehindModel added prev ws = some (a :: l)) :
    a ∈ ws := by
  cases ws with
  | nil => cases h
  | cons w ws =>
    rw [insertBehindModel] at h
    split_ifs at h
    · rw [← (List.cons.inj (Option.some.inj h)).1]
      exact List.mem_cons_self
    · obtain ⟨l', -, hl⟩ := Option.map_eq_some_iff.1 h
      rw [← (List.cons.inj hl).1]
      exact List.mem_cons_self

theorem length_of_insertBehindModel (h : insertBehindModel added prev ws = some l) :
    l.length = ws.length + added.length := by
  induction ws generalizing prev l with
  | nil => cases h
  | cons w ws ih =>
    rw [insertBehindModel] at h
    split_ifs at h
    · rw [← Option.some.inj h, List.length_cons, List.length_append, List.length_cons]
      omega
    · obtain ⟨l', hl', rfl⟩ := Option.map_eq_some_iff.1 h
      rw [List.length_cons, List.length_cons, ih hl']
      omega

theorem head_mem_of_inserted {a : Str} (h : inserted "-m" added prev ws = a :: l) : a ∈ ws := by
  cases ws with
  | nil => cases h
  | cons w ws =>
    rw [inserted] at h
    split_ifs at h <;>
    · rw [← (List.cons.inj h).1]
      exact List.mem_cons_self

/-- The front of the list is not the pair unless there is a `-t` already. -/
theorem insertBehindModel_ne (h : "-t".toList ∉ ws) {ws' : List Str} :
    insertBehindModel added prev ws ≠ some ("-t".toList :: ws') :=
  fun heq => h (mem_of_insertBehindModel heq)

theorem insertBehindModel_eq_none_iff : insertBehindModel added prev ws = none ↔
    (prev :: ws).IsChain fun prev _ => prev ≠ "-m".toList := by
  induction ws generalizing prev with
  | nil => exact iff_of_true rfl (.singleton prev)
  | cons w ws ih =>
    rw [insertBehindModel, List.isChain_cons_cons]
    split_ifs with hprev
    · exact iff_of_false (by simp) fun h => h.1 hprev
    · rw [Option.map_eq_none_iff, ih]
      exact (and_iff_right hprev).symm

theorem modelToken_cons (prev w : Str) (ws : List Str) : modelToken (prev :: w :: ws) =
    if "-m".toList <:+ prev then some prev else modelToken (w :: ws) := by
  unfold modelToken
  rw [List.dropLast_cons_cons, List.find?_cons]
  by_cases hprev : "-m".toList <:+ prev
  · rw [if_pos hprev, List.isSuffixOf_iff_suffix.2 hprev]
  · have hfalse : "-m".toList.isSuffixOf prev = false :=
      Bool.eq_false_iff.2 fun h => hprev (List.isSuffixOf_iff_suffix.1 h)
    rw [if_neg hprev, hfalse]

theorem modelToken_nil_cons (ws : List Str) : modelToken ([] :: ws) = modelToken ws := by
  cases ws with
  | nil => rfl
  | cons w ws =>
    rw [modelToken_cons, if_neg (by decide)]

theorem inserted_of_none (h : modelToken (prev :: ws) = none) :
    inserted "-m" added prev ws = ws := by
  induction ws generalizing prev with
  | nil => rfl
  | cons w ws ih =>
    rw [modelToken_cons] at h
    split_ifs at h with hprev
    rw [inserted, if_neg hprev, ih h]

theorem length_inserted (h : modelToken (prev :: ws) ≠ none) :
    (inserted "-m" added prev ws).length = ws.length + added.length := by
  induction ws generalizing prev with
  | nil => exact absurd rfl h
  | cons w ws ih =>
    rw [modelToken_cons] at h
    rw [inserted]
    split_ifs at h ⊢ with hprev
    · rw [List.length_cons, List.length_append, List.length_cons]
      omega
    · rw [List.length_cons, List.length_cons, ih h]
      omega

/-- The pair goes behind the first `-m` exactly if no other token that ends so comes before. -/
theorem insertBehindModel_eq_iff (h : "-t".toList ∉ ws) :
    insertBehindModel ("-t".toList :: added) prev ws =
      some (inserted "-m" ("-t".toList :: added) prev ws) ↔
      modelToken (prev :: ws) = some "-m".toList := by
  induction ws generalizing prev with
  | nil => exact iff_of_false (by rintro ⟨⟩) (by rintro ⟨⟩)
  | cons w ws ih =>
    rw [List.mem_cons, not_or] at h
    rw [insertBehindModel, modelToken_cons, inserted]
    by_cases hprev : prev = "-m".toList
    · subst hprev
      rw [if_pos rfl, if_pos (List.suffix_refl _), if_pos (List.suffix_refl _)]
      exact iff_of_true rfl rfl
    · rw [if_neg hprev]
      by_cases hsuffix : "-m".toList <:+ prev
      · rw [if_pos hsuffix, if_pos hsuffix]
        refine iff_of_false (fun heq => ?_) fun heq => hprev (Option.some.inj heq)
        obtain ⟨l, hl, hcons⟩ := Option.map_eq_some_iff.1 heq
        rw [(List.cons.inj hcons).2] at hl
        exact insertBehindModel_ne h.2 hl
      · rw [if_neg hsuffix, if_neg hsuffix, ← ih h.2]
        constructor
        · intro heq
          obtain ⟨l, hl, hcons⟩ := Option.map_eq_some_iff.1 heq
          rw [hl, (List.cons.inj hcons).2]
        · intro heq
          rw [heq]
          rfl

/-! ## The editing of the tokens -/

section Expected

variable (u) (smpCores)

theorem expectedTokens_of_mem (h : "-t".toList ∈ ws) :
    expectedTokens smpCores ws = replaceAfter (coresText smpCores) [] ws := by
  unfold expectedTokens
  exact if_pos (List.contains_iff_mem.2 h)

theorem expectedTokens_of_not_mem (h : "-t".toList ∉ ws) : expectedTokens smpCores ws =
    (insertBehindModel ["-t".toList, coresText smpCores] [] ws).getD
      ("-t".toList :: coresText smpCores :: ws) := by
  unfold expectedTokens
  exact if_neg fun hcontains => h (List.contains_iff_mem.1 hcontains)

/-- One more pair makes two more tokens. -/
theorem length_expectedTokens (h : "-t".toList ∉ ws) :
    (expectedTokens smpCores ws).length = ws.length + 2 := by
  rw [expectedTokens_of_not_mem smpCores h]
  cases hinsert : insertBehindModel ["-t".toList, coresText smpCores] [] ws with
  | none => rfl
  | some l => exact length_of_insertBehindModel hinsert

theorem threads_iff (hws : ∀ w ∈ ws, w ≠ []) :
    substituted "-t" u.isDigit (coresText smpCores) [] ws = expectedTokens smpCores ws ↔
      "-t".toList ∈ ws ∧ ws.IsChain (EditedAlike u.isDigit (coresText smpCores)) := by
  by_cases hmem : "-t".toList ∈ ws
  · rw [expectedTokens_of_mem smpCores hmem,
      substituted_eq_iff (fun c => isDigit_of_mem_coresText) hws, isChain_nil_cons editedAlike_nil]
    exact (and_iff_right hmem).symm
  · refine iff_of_false (fun heq => ?_) fun h => hmem h.1
    have hlength := congrArg List.length heq
    rw [length_substituted, length_expectedTokens smpCores hmem] at hlength
    omega

theorem model_iff (h : "-t".toList ∉ ws) :
    inserted "-m" ["-t".toList, coresText smpCores] [] ws = expectedTokens smpCores ws ↔
      modelToken ws = some "-m".toList := by
  rw [expectedTokens_of_not_mem smpCores h, ← modelToken_nil_cons, ← insertBehindModel_eq_iff h]
  cases hinsert : insertBehindModel ["-t".toList, coresText smpCores] [] ws with
  | none =>
    refine iff_of_false (fun heq => h ?_) nofun
    exact head_mem_of_inserted heq
  | some l => exact eq_comm.trans Option.some_inj.symm

theorem model_threads_iff (h : "-t".toList ∈ ws) :
    inserted "-m" ["-t".toList, coresText smpCores] [] ws = expectedTokens smpCores ws ↔
      modelToken ws = none ∧ ws.IsChain fun prev w => prev = "-t".toList →
      w = coresText smpCores := by
  rw [expectedTokens_of_mem smpCores h, ← modelToken_nil_cons]
  by_cases hnone : modelToken ([] :: ws) = none
  · rw [inserted_of_none hnone, eq_comm, replaceAfter_eq_self_iff,
      isChain_nil_cons fun w hnil => absurd hnil (by decide)]
    exact (and_iff_right hnone).symm
  · refine iff_of_false (fun heq => ?_) fun h => hnone h.1
    have hlength := congrArg List.length heq
    rw [length_inserted hnone, length_replaceAfter] at hlength
    exact Nat.ne_of_gt (Nat.lt_add_of_pos_right (Nat.zero_lt_succ _)) hlength

theorem front_iff : "-t".toList :: coresText smpCores :: ws = expectedTokens smpCores ws ↔
    "-t".toList ∉ ws ∧ ws.IsChain fun prev _ => prev ≠ "-m".toList := by
  by_cases hmem : "-t".toList ∈ ws
  · refine iff_of_false (fun heq => ?_) fun h => h.1 hmem
    rw [expectedTokens_of_mem smpCores hmem] at heq
    have hlength := congrArg List.length heq
    rw [length_replaceAfter, List.length_cons, List.length_cons] at hlength
    omega
  · rw [expectedTokens_of_not_mem smpCores hmem, and_iff_right hmem,
      ← isChain_nil_cons (fun w => by decide)]
    have hnone : insertBehindModel ["-t".toList, coresText smpCores] [] ws = none ↔
        ([] :: ws).IsChain fun prev _ => prev ≠ "-m".toList := insertBehindModel_eq_none_iff
    rw [← hnone]
    cases hinsert : insertBehindModel ["-t".toList, coresText smpCores] [] ws with
    | none => exact iff_of_true rfl rfl
    | some l =>
      refine iff_of_false (fun heq => ?_) nofun
      rw [Option.getD_some] at heq
      rw [← heq] at hinsert
      exact insertBehindModel_ne hmem hinsert

end Expected

/-- The substitutions edit the tokens of exactly these arguments. -/
theorem updatedArgs_tokens_iff (u : Unicode) (smpCores : Nat) (binArgs : Str) :
    (split (prepareSystemModeSharedDirArgs u smpCores binArgs) =
      expectedTokens smpCores (split binArgs) ∧
      prepareSystemModeInitrdArgs u smpCores binArgs =
        prepareSystemModeSharedDirArgs u smpCores binArgs) ↔
    ThreadsEditable u smpCores binArgs := by
  have hagree : prepareSystemModeInitrdArgs u smpCores binArgs =
      prepareSystemModeSharedDirArgs u smpCores binArgs := rfl
  have hwords : ∀ w ∈ split binArgs, w ≠ [] := fun w hw => (mem_split hw).1
  rw [and_iff_left hagree]
  unfold prepareSystemModeSharedDirArgs
  rw [split_updateThreads]
  by_cases hthreads : contains "-t " binArgs = true
  · rw [if_pos hthreads, threads_iff u smpCores hwords]
    refine ⟨fun h => ⟨fun _ => h, ?_, ?_, ?_⟩, fun h => h.threads hthreads⟩ <;>
      exact fun hfalse => absurd hthreads (Bool.eq_false_iff.1 hfalse)
  · rw [if_neg hthreads]
    have hunseen : contains "-t " binArgs = false := Bool.eq_false_iff.2 hthreads
    by_cases hmodel : contains "-m " binArgs = true
    · rw [if_pos hmodel]
      have hfront : contains "-m " binArgs = false → "-t".toList ∉ split binArgs ∧
          (split binArgs).IsChain fun prev _ => prev ≠ "-m".toList :=
        fun hfalse => absurd hmodel (Bool.eq_false_iff.1 hfalse)
      by_cases hmem : "-t".toList ∈ split binArgs
      · rw [model_threads_iff smpCores hmem]
        exact ⟨fun h => ⟨fun hseen => absurd hseen hthreads, fun _ _ hnot => absurd hmem hnot,
          fun _ _ _ => h, fun _ => hfront⟩, fun h => h.model_threads hunseen hmodel hmem⟩
      · rw [model_iff smpCores hmem]
        exact ⟨fun h =>
          ⟨fun hseen => absurd hseen hthreads, fun _ _ _ => h, fun _ _ hin => absurd hin hmem,
            fun _ => hfront⟩, fun h => h.model hunseen hmodel hmem⟩
    · rw [if_neg hmodel, front_iff]
      have hnone : contains "-m " binArgs = false := Bool.eq_false_iff.2 hmodel
      exact ⟨fun h => ⟨fun hseen => absurd hseen hthreads, fun _ hseen => absurd hseen hmodel,
        fun _ hseen => absurd hseen hmodel, fun _ _ => h⟩, fun h => h.front hunseen hnone⟩

/-- A thread count that is no number stays. -/
theorem threads_auto :
    ¬ (split (prepareSystemModeSharedDirArgs Unicode.ascii 2 "-m model.gguf -t auto") =
      expectedTokens 2 (split "-m model.gguf -t auto") ∧
    prepareSystemModeInitrdArgs Unicode.ascii 2 "-m model.gguf -t auto" =
      prepareSystemModeSharedDirArgs Unicode.ascii 2 "-m model.gguf -t auto") := by
  have hcode : split (prepareSystemModeSharedDirArgs Unicode.ascii 2 "-m model.gguf -t auto") =
      ["-m".toList, "model.gguf".toList, "-t".toList, "auto".toList] := by decide
  have hexpected : expectedTokens 2 (split "-m model.gguf -t auto") =
      ["-m".toList, "model.gguf".toList, "-t".toList, "2".toList] := by decide
  rw [hcode, hexpected]
  decide

end AiPipelines.Iminnt
