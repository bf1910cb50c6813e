import AiPipelines.Iminnt.SimCfg

/-!
# The two definitions that name the program

A configuration has to define `func::argv` and `func::imi_spike::no_args::m_pk` once each.
`_check_sim_cfg` puts in a default for the one that the user left out.  It goes by the index of
the line of the user, and 0 stands for none, so it misses a definition in the first line.

What a line defines is a matter of who reads it, and `Sense` has the check and the reader
`get_sim_cfg`.  They differ where blanks stand around a key, or no `=` behind it.
`definedOnce_iff` says for both when the keys are defined once.
-/

namespace AiPipelines.Iminnt

open PyStd

/-! ## Definitions -/

/-- What is defined once: the command lines of the emulator and of `spike`. -/
inductive Program where
  | argv
  | imiSpike
  deriving DecidableEq

def Program.key : Program → Str
  | .argv => argvKey
  | .imiSpike => imiSpikeKey

/-- The line of `iminnt`. -/
def Program.defaultLine (env : SimEnv) : Program → Str
  | .argv => defaultArgv env
  | .imiSpike => defaultImiSpike env

/-- The index that the check has for it, where 0 also means none. -/
def Program.index (cfg : List Str) : Program → Nat
  | .argv => argvIndex cfg
  | .imiSpike => imiSpikeIndex cfg

/-- Who takes a line for a definition. -/
inductive Sense where
  /-- `_check_sim_cfg`. -/
  | check
  /-- The loop of `get_sim_cfg`. -/
  | reader

def Sense.defines : Sense → Str → Str → Bool
  | .check, key, l => definesKey key l
  | .reader, key, l => (readLine l).any fun kv => decide (kv.1 = key)

/-- Each of the two is defined once, by the user or else by `iminnt`, and the other lines of the
user stand in their order. -/
structure DefinedOnce (s : Sense) (env : SimEnv) (cfg newCfg : List Str) : Prop where
  once : ∀ p : Program, newCfg.filter (s.defines p.key) =
    [((cfg.find? (s.defines p.key)).map keepLine).getD (p.defaultLine env)]
  others :
    ((cfg.filter fun l => !s.defines argvKey l && !s.defines imiSpikeKey l).map keepLine).Sublist
      newCfg

/-- The definition of the user, if there is one, is seen by the check and not in the first
line. -/
def Recognized (s : Sense) (cfg : List Str) (p : Program) : Prop :=
  (∀ l ∈ cfg.head?, s.defines p.key l = false) ∧
    ∀ l ∈ cfg, s.defines p.key l = true → definesKey p.key l = true

/-! ## Insertions -/

section Insertions

variable {α : Type} {xs : List α} {x : α}

theorem insertAt_perm (xs : List α) (i : Nat) (x : α) : (insertAt xs i x).Perm (x :: xs) := by
  unfold insertAt
  have hmiddle : (xs.take i ++ x :: xs.drop i).Perm (x :: (xs.take i ++ xs.drop i)) :=
    List.perm_middle
  rw [List.take_append_drop] at hmiddle
  exact hmiddle

theorem sublist_insertAt (xs : List α) (i : Nat) (x : α) : xs.Sublist (insertAt xs i x) := by
  unfold insertAt
  conv_lhs => rw [← List.take_append_drop i xs]
  exact (List.Sublist.refl _).append (List.sublist_cons_self x _)

theorem filter_insertAt {q : α → Bool} (hx : q x = false) (i : Nat) :
    (insertAt xs i x).filter q = xs.filter q := by
  unfold insertAt
  rw [List.filter_append, List.filter_cons_of_neg (by rw [hx]; decide), ← List.filter_append,
    List.take_append_drop]

theorem filter_insertAt_perm {q : α → Bool} (hx : q x = true) (i : Nat) :
    ((insertAt xs i x).filter q).Perm (x :: xs.filter q) := by
  have hfilter := (insertAt_perm xs i x).filter q
  rw [List.filter_cons_of_pos hx] at hfilter
  exact hfilter

end Insertions

/-! ## What the lines define -/

variable {env : SimEnv} {cfg newCfg : List Str} {s : Sense} {p : Program} {key l : Str}

theorem sense_of_readLine {value : Str} (hread : readLine l = some (key, value)) (k : Str) :
    Sense.reader.defines k l = decide (key = k) := by
  show (readLine l).any _ = _
  rw [hread]
  rfl

/-- A definition of the plain form is one in both senses. -/
theorem defines_definition {path : Str} (hkey : IsWord key) (heq : '=' ∉ key) (hhash : '#' ∉ key)
    (k : Str) :
    s.defines k (key ++ '=' :: path) = decide (key = k) := by
  cases s with
  | reader => exact sense_of_readLine (readLine_definition hkey heq hhash) k
  | check =>
    have hstrip : strip key = key := strip_eq_self hkey.2
    have hmem : '=' ∈ key ++ '=' :: path := List.mem_append_right _ List.mem_cons_self
    show definesKey k _ = _
    unfold definesKey
    rw [isComment_line hkey.1 hstrip (startsWith_hash_of_not_mem hhash),
      keyVal_line hkey.1 hstrip heq, decide_eq_true hmem]
    rfl

theorem defaultLine_isPrefix (env : SimEnv) (p : Program) :
    p.key ++ ['='] <+: p.defaultLine env := by
  cases p with
  | argv =>
    show argvKey ++ ['='] <+: defaultArgv env
    unfold defaultArgv
    refine List.IsPrefix.trans ?_ (List.prefix_append _ _)
    refine List.IsPrefix.trans ?_ (List.prefix_append _ _)
    refine List.IsPrefix.trans ?_ (List.prefix_append _ _)
    refine List.IsPrefix.trans ?_ (List.prefix_append _ _)
    decide
  | imiSpike =>
    show imiSpikeKey ++ ['='] <+: defaultImiSpike env
    unfold defaultImiSpike
    refine List.IsPrefix.trans ?_ (List.prefix_append _ _)
    refine List.IsPrefix.trans ?_ (List.prefix_append _ _)
    refine List.IsPrefix.trans ?_ (List.prefix_append _ _)
    refine List.IsPrefix.trans ?_ (List.prefix_append _ _)
    decide

theorem defines_defaultLine (env : SimEnv) (p : Program) (k : Str) :
    s.defines k (p.defaultLine env) = decide (p.key = k) := by
  obtain ⟨path, hpath⟩ := defaultLine_isPrefix env p
  rw [List.append_assoc] at hpath
  rw [← hpath]
  cases p with
  | argv => exact defines_definition (by decide) (by decide) (by decide) k
  | imiSpike => exact defines_definition (by decide) (by decide) (by decide) k

theorem defines_reserved (env : SimEnv) (r : Reserved) (p : Program) :
    s.defines p.key (r.line env) = false := by
  have hline : s.defines p.key (r.line env) = decide (r.key = p.key) := by
    cases r <;> exact defines_definition (by decide) (by decide) (by decide) p.key
  rw [hline]
  cases r <;> cases p <;> decide

theorem definesKey_append_newlines {nls : Str} (hnls : ∀ c ∈ nls, c = '\n') :
    definesKey key (l ++ nls) = definesKey key l := by
  have hnot : '=' ∉ nls := fun hc => absurd (hnls '=' hc) (by decide)
  unfold definesKey
  rw [isComment_append_newlines hnls]
  by_cases heq : '=' ∈ l
  · obtain ⟨a, b, rfl, ha⟩ := List.eq_append_cons_of_mem heq
    have hstrip : '=' ∉ lstrip a := by
      obtain ⟨front, hfront, -⟩ := exists_lstrip a
      rw [hfront] at ha
      exact fun hc => ha (List.mem_append_right _ hc)
    have hkeyVal : ∀ t : Str, (keyVal (a ++ '=' :: t)).1 = lstrip a := by
      intro t
      rw [keyVal_eq, lstrip_append_cons a t (by decide),
        List.takeWhile_append_of_pos (all_ne_of_not_mem hstrip)]
      simp
    rw [List.append_assoc, List.cons_append, hkeyVal, hkeyVal]
    simp
  · have heq' : '=' ∉ l ++ nls := fun hc => (List.mem_append.1 hc).elim heq hnot
    simp [heq, heq']

/-- The check and the reader take a line as they would without the newlines at its end. -/
theorem defines_keepLine (s : Sense) (key l : Str) :
    s.defines key (keepLine l) = s.defines key l := by
  cases s with
  | reader =>
    show (readLine (keepLine l)).any _ = (readLine l).any _
    rw [readLine_keepLine]
  | check =>
    obtain ⟨nls, hnls, hl⟩ := exists_keepLine l
    calc definesKey key (keepLine l) = definesKey key (keepLine l ++ nls) :=
          (definesKey_append_newlines hnls).symm
      _ = definesKey key l := by rw [← hl]

/-- What the check takes for a definition is one for the reader. -/
theorem defines_of_definesKey (s : Sense) (p : Program) (h : definesKey p.key l = true) :
    s.defines p.key l = true := by
  cases s with
  | check => exact h
  | reader =>
    unfold definesKey at h
    simp only [Bool.and_eq_true, Bool.not_eq_true', decide_eq_true_eq] at h
    obtain ⟨⟨hcomment, heq⟩, hkey⟩ := h
    have hblank : strip l ≠ [] := by
      rw [ne_eq, strip_eq_nil_iff]
      exact fun hall => absurd (hall '=' heq) (by decide)
    have hword : dropNewlines (strip p.key) = p.key := by cases p <;> decide
    show (readLine l).any _ = true
    unfold readLine
    rw [if_neg hblank, hcomment, if_neg (by decide), hkey, hword]
    simp

/-! ## The index of the check -/

theorem lastIndex_eq_zero_iff {q : Str → Bool} {ls : List Str} {i d : Nat} (hi : 0 < i) :
    lastIndex q i ls d = 0 ↔ d = 0 ∧ ∀ l ∈ ls, q l = false := by
  induction ls generalizing i d with
  | nil => simp [lastIndex]
  | cons l ls ih =>
    unfold lastIndex
    rw [ih (Nat.succ_pos i), List.forall_mem_cons]
    cases hl : q l with
    | true => simp [hi.ne']
    | false => simp

/-- The check has no index for a definition in the first line. -/
theorem index_eq_zero_iff (cfg : List Str) (p : Program) :
    p.index cfg = 0 ↔ ∀ l ∈ cfg.tail, definesKey p.key l = false := by
  have hindex : p.index cfg = lastIndex (definesKey p.key) 0 cfg 0 := by cases p <;> rfl
  rw [hindex]
  cases cfg with
  | nil => simp [lastIndex]
  | cons l ls =>
    unfold lastIndex
    rw [ite_self, lastIndex_eq_zero_iff (Nat.succ_pos 0)]
    simp

/-! ## What the new configuration defines -/

theorem filter_insertReserved (env : SimEnv) (xs : List Str) (i : Nat) (s : Sense) (p : Program) :
    (insertReserved env xs i).filter (s.defines p.key) = xs.filter (s.defines p.key) := by
  unfold insertReserved
  rw [filter_insertAt (defines_reserved env .perf p),
    filter_insertAt (defines_reserved env .execution p),
    filter_insertAt (defines_reserved env .memory p),
    filter_insertAt (defines_reserved env .liveTrace p)]

theorem sublist_insertReserved (env : SimEnv) (xs : List Str) (i : Nat) :
    xs.Sublist (insertReserved env xs i) := by
  unfold insertReserved
  refine (sublist_insertAt xs i (Reserved.line env .liveTrace)).trans ?_
  refine (sublist_insertAt _ i (Reserved.line env .memory)).trans ?_
  refine (sublist_insertAt _ i (Reserved.line env .execution)).trans ?_
  exact sublist_insertAt _ i (Reserved.line env .perf)

theorem filter_withDefaults_perm (env : SimEnv) (st : CheckState) (s : Sense) :
    ((st.withDefaults env).filter (s.defines argvKey)).Perm
        ((if st.argvIdx = 0 then [defaultArgv env] else []) ++
          st.newCfg.filter (s.defines argvKey)) ∧
      ((st.withDefaults env).filter (s.defines imiSpikeKey)).Perm
        ((if st.imiSpikeIdx = 0 then [defaultImiSpike env] else []) ++
          st.newCfg.filter (s.defines imiSpikeKey)) := by
  have hargv : s.defines argvKey (defaultArgv env) = true := defines_defaultLine env .argv argvKey
  have hspike : s.defines imiSpikeKey (defaultImiSpike env) = true :=
    defines_defaultLine env .imiSpike imiSpikeKey
  have hargvSpike : s.defines imiSpikeKey (defaultArgv env) = false :=
    defines_defaultLine env .argv imiSpikeKey
  have hspikeArgv : s.defines argvKey (defaultImiSpike env) = false :=
    defines_defaultLine env .imiSpike argvKey
  unfold CheckState.withDefaults
  constructor
  · by_cases hi : st.imiSpikeIdx = 0 <;> by_cases ha : st.argvIdx = 0 <;>
      simp only [hi, ha, if_true, if_false, filter_insertAt hspikeArgv, List.nil_append,
        List.Perm.refl]
    · exact filter_insertAt_perm hargv 1
    · exact filter_insertAt_perm hargv 1
  · by_cases hi : st.imiSpikeIdx = 0 <;> by_cases ha : st.argvIdx = 0 <;>
      simp only [hi, ha, if_true, if_false, filter_insertAt hargvSpike, List.nil_append,
        List.Perm.refl]
    · refine (filter_insertAt_perm hspike 2).trans ?_
      rw [filter_insertAt hargvSpike]
      exact List.Perm.refl _
    · exact filter_insertAt_perm hspike 2

theorem sublist_withDefaults (env : SimEnv) (st : CheckState) :
    st.newCfg.Sublist (st.withDefaults env) := by
  unfold CheckState.withDefaults
  split_ifs
  · exact (sublist_insertAt _ 1 _).trans (sublist_insertAt _ 2 _)
  · exact sublist_insertAt _ 1 _
  · exact sublist_insertAt _ 2 _
  · exact List.Sublist.refl _

/-- The definitions of the user, and that of `iminnt` when the check has no index. -/
theorem newCfg_filter_perm (h : checkSimCfg env cfg = .ok newCfg) (s : Sense) (p : Program) :
    (newCfg.filter (s.defines p.key)).Perm
      ((if p.index cfg = 0 then [p.defaultLine env] else []) ++
        (cfg.filter (s.defines p.key)).map keepLine) := by
  obtain ⟨st, hloop, rfl⟩ := checkSimCfg_ok h
  obtain ⟨hcfg, hargv, hspike⟩ := checkLoop_spec hloop
  rw [List.nil_append] at hcfg
  have hkept : st.newCfg.filter (s.defines p.key) =
      (cfg.filter (s.defines p.key)).map keepLine := by
    rw [hcfg, List.filter_map]
    congr 2
    funext l
    exact defines_keepLine s p.key l
  rw [filter_insertReserved, ← hkept]
  obtain ⟨hfilterArgv, hfilterSpike⟩ := filter_withDefaults_perm env st s
  cases p with
  | argv =>
    have hindex : Program.index cfg .argv = st.argvIdx := hargv.symm
    rw [hindex]
    exact hfilterArgv
  | imiSpike =>
    have hindex : Program.index cfg .imiSpike = st.imiSpikeIdx := hspike.symm
    rw [hindex]
    exact hfilterSpike

theorem newCfg_sublist (h : checkSimCfg env cfg = .ok newCfg) :
    (cfg.map keepLine).Sublist newCfg := by
  obtain ⟨st, hloop, rfl⟩ := checkSimCfg_ok h
  have hcfg := (checkLoop_spec hloop).1
  rw [List.nil_append] at hcfg
  rw [← hcfg]
  exact (sublist_withDefaults env st).trans (sublist_insertReserved env _ _)

/-! ## Defined once -/

/-- One of the two is defined once exactly when the check has an index for the definition of the
user. -/
theorem once_iff (h : checkSimCfg env cfg = .ok newCfg)
    (honce : (cfg.filter (s.defines p.key)).length ≤ 1) :
    newCfg.filter (s.defines p.key) =
        [((cfg.find? (s.defines p.key)).map keepLine).getD (p.defaultLine env)] ↔
      Recognized s cfg p := by
  have hperm := newCfg_filter_perm h s p
  have hsub : ∀ l ∈ cfg, definesKey p.key l = true → l ∈ cfg.filter (s.defines p.key) :=
    fun l hl hdef => List.mem_filter.2 ⟨hl, defines_of_definesKey s p hdef⟩
  rw [← List.head?_filter]
  cases hfilter : cfg.filter (s.defines p.key) with
  | nil =>
    rw [hfilter] at hperm hsub
    have hnone : ∀ l ∈ cfg, ¬ s.defines p.key l = true := List.filter_eq_nil_iff.1 hfilter
    have hindex : p.index cfg = 0 := by
      rw [index_eq_zero_iff]
      intro l hl
      rw [Bool.eq_false_iff]
      exact fun hdef => List.not_mem_nil (hsub l (List.mem_of_mem_tail hl) hdef)
    rw [if_pos hindex] at hperm
    refine iff_of_true (List.perm_singleton.1 hperm) ⟨fun l hl => ?_, fun l hl hdef => ?_⟩
    · exact Bool.eq_false_iff.2 (hnone l (List.mem_of_mem_head? hl))
    · exact absurd hdef (hnone l hl)
  | cons l rest =>
    rw [hfilter] at honce hperm hsub
    obtain rfl : rest = [] := List.length_eq_zero_iff.1 (by simpa using honce)
    have hl : l ∈ cfg ∧ s.defines p.key l = true := List.mem_filter.1 (by simp [hfilter])
    have hlone : ∀ l' ∈ cfg, s.defines p.key l' = true → l' = l := fun l' hl' hdef =>
      List.mem_singleton.1 (hfilter ▸ List.mem_filter.2 ⟨hl', hdef⟩)
    have hindex : newCfg.filter (s.defines p.key) = [keepLine l] ↔ p.index cfg ≠ 0 := by
      constructor
      · intro heq hzero
        rw [heq, if_pos hzero] at hperm
        exact absurd hperm.length_eq (by simp)
      · intro hne
        rw [if_neg hne] at hperm
        exact List.perm_singleton.1 hperm
    show newCfg.filter (s.defines p.key) = [keepLine l] ↔ Recognized s cfg p
    rw [hindex, ne_eq, index_eq_zero_iff]
    simp only [not_forall, exists_prop, Bool.not_eq_false]
    constructor
    · rintro ⟨l', htail, hdef⟩
      obtain rfl : l' = l := List.mem_singleton.1 (hsub l' (List.mem_of_mem_tail htail) hdef)
      refine ⟨fun first hfirst => ?_, fun l'' hl'' hdef'' => ?_⟩
      · -- the first line and the one behind it would be two
        cases cfg with
        | nil => cases hfirst
        | cons a tail =>
          obtain rfl : a = first := Option.some.inj hfirst
          rw [Bool.eq_false_iff]
          intro hdefFirst
          rw [List.filter_cons_of_pos hdefFirst, List.cons.injEq] at hfilter
          have hmem : l' ∈ tail.filter (s.defines p.key) := List.mem_filter.2 ⟨htail, hl.2⟩
          rw [hfilter.2] at hmem
          exact List.not_mem_nil hmem
      · rw [hlone l'' hl'' hdef'']
        exact hdef
    · rintro ⟨hfirst, hseen⟩
      refine ⟨l, ?_, hseen l hl.1 hl.2⟩
      cases cfg with
      | nil => exact absurd hl.1 List.not_mem_nil
      | cons a tail =>
        refine (List.mem_cons.1 hl.1).resolve_left ?_
        rintro rfl
        exact absurd (hfirst l rfl) (by simp [hl.2])

/-- The lines of the user stand in their order. -/
theorem others_sublist (h : checkSimCfg env cfg = .ok newCfg) (q : Str → Bool) :
    ((cfg.filter q).map keepLine).Sublist newCfg :=
  (List.filter_sublist.map keepLine).trans (newCfg_sublist h)

/-- In a configuration that is accepted each of the two is defined once, exactly when the check
sees each definition of the user, and none is in the first line. -/
theorem definedOnce_iff (h : checkSimCfg env cfg = .ok newCfg)
    (honce : ∀ p : Program, (cfg.filter (s.defines p.key)).length ≤ 1) :
    DefinedOnce s env cfg newCfg ↔ ∀ p : Program, Recognized s cfg p := by
  constructor
  · intro hdefined p
    exact (once_iff h (honce p)).1 (hdefined.once p)
  · intro hrec
    exact ⟨fun p => (once_iff h (honce p)).2 (hrec p), others_sublist h _⟩

/-- A command line of the user, for the emulator. -/
def demoArgv : Str := "func::argv=qemu.so $carbon<SIM_BIN> $SIM_ARGS$\n"

theorem definedOnce_second :
    ∃ newCfg, checkSimCfg demoEnv ["wait_for_roi=0\n", demoArgv] = .ok newCfg ∧
      DefinedOnce .check demoEnv ["wait_for_roi=0\n", demoArgv] newCfg ∧
      DefinedOnce .reader demoEnv ["wait_for_roi=0\n", demoArgv] newCfg := by
  have hpass : (checkSimCfg demoEnv ["wait_for_roi=0\n", demoArgv]).isOk = true := by decide
  cases hcheck : checkSimCfg demoEnv ["wait_for_roi=0\n", demoArgv] with
  | error e => rw [hcheck] at hpass; cases hpass
  | ok newCfg =>
    refine ⟨newCfg, rfl, (definedOnce_iff hcheck ?_).2 ?_, (definedOnce_iff hcheck ?_).2 ?_⟩
    · rintro (_ | _) <;> decide
    · rintro (_ | _) <;> exact ⟨by decide, by decide⟩
    · rintro (_ | _) <;> decide
    · rintro (_ | _) <;> exact ⟨by decide, by decide⟩

/-- A command line in the first line, which gets that of `iminnt` as a second one. -/
theorem definedTwice_first :
    ∃ newCfg, checkSimCfg demoEnv [demoArgv, "wait_for_roi=0\n"] = .ok newCfg ∧
      (∀ (s : Sense) (p : Program),
        ([demoArgv, "wait_for_roi=0\n"].filter (s.defines p.key)).length ≤ 1) ∧
      ∀ s : Sense, ¬ DefinedOnce s demoEnv [demoArgv, "wait_for_roi=0\n"] newCfg := by
  have hpass : (checkSimCfg demoEnv [demoArgv, "wait_for_roi=0\n"]).isOk = true := by decide
  have honce : ∀ (s : Sense) (p : Program),
      ([demoArgv, "wait_for_roi=0\n"].filter (s.defines p.key)).length ≤ 1 := by
    rintro (_ | _) (_ | _) <;> decide
  cases hcheck : checkSimCfg demoEnv [demoArgv, "wait_for_roi=0\n"] with
  | error e => rw [hcheck] at hpass; cases hpass
  | ok newCfg =>
    refine ⟨newCfg, rfl, honce, fun s hdefined => ?_⟩
    have hrec := (once_iff hcheck (honce s .argv)).1 (hdefined.once .argv)
    have hseen : s.defines argvKey demoArgv = false := hrec.1 demoArgv rfl
    cases s <;> exact absurd hseen (by decide)

end AiPipelines.Iminnt
