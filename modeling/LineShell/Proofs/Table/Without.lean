import LineShell.Proofs.Table.Log

/-! What changes of a table cannot touch: the entries of all names but theirs, and their order. -/

namespace LineShell.Table

def without (t : Table) (names : List Text) : List (Text × Text) :=
  t.entries.filter fun e => e.1 ∉ names

section

variable {t u : Table} {name : Text} {names more : List Text}

theorem without_nil (t : Table) : t.without [] = t.entries := by
  simp [without]

theorem eq_of_without_nil (h : t.without [] = u.without []) : t = u := by
  rw [without_nil, without_nil] at h
  cases t
  cases u
  exact congrArg Table.mk h

theorem lookup_filter_notMem {entries : List (Text × Text)} (h : name ∉ names) :
    (entries.filter fun e => e.1 ∉ names).lookup name = entries.lookup name := by
  induction entries with
  | nil => rfl
  | cons e later ih =>
    obtain ⟨k, v⟩ := e
    rw [lookup_cons_eq]
    by_cases hk : k ∈ names
    · have hne : name ≠ k := fun heq => h (heq ▸ hk)
      rw [List.filter_cons_of_neg (by simpa using hk), if_neg hne, ih]
    · rw [List.filter_cons_of_pos (by simpa using hk), lookup_cons_eq, ih]

theorem get?_of_without_eq (h : t.without names = u.without names) (hname : name ∉ names) :
    t.get? name = u.get? name := by
  have hlookup := congrArg (List.lookup name) h
  rwa [without, without, lookup_filter_notMem hname, lookup_filter_notMem hname] at hlookup

theorem without_eq_of_subset (h : t.without names = u.without names) (hsub : names ⊆ more) :
    t.without more = u.without more := by
  have hboth (v : Table) : v.without more = (v.without names).filter fun e => e.1 ∉ more := by
    rw [without, without, List.filter_filter]
    refine List.filter_congr fun e _ => ?_
    by_cases hmore : e.1 ∈ more
    · simp [hmore]
    · have hnames : e.1 ∉ names := fun hc => hmore (hsub hc)
      simp [hmore, hnames]
  rw [hboth t, hboth u, h]

theorem filter_put (h : name ∈ names) (value : Text) (entries : List (Text × Text)) :
    ((put name value entries).filter fun e => e.1 ∉ names) =
      entries.filter fun e => e.1 ∉ names := by
  induction entries with
  | nil => simp [put, h]
  | cons e later ih =>
    obtain ⟨k, v⟩ := e
    rw [put]
    split
    · next hk => simp [hk, h]
    · rw [List.filter_cons, List.filter_cons, ih]

theorem filter_put_self {entries : List (Text × Text)} (h : (entries.map (·.1)).Nodup)
    (value : Text) : ((put name value entries).filter fun e => e.1 = name) = [(name, value)] := by
  induction entries with
  | nil => simp [put]
  | cons e later ih =>
    obtain ⟨k, v⟩ := e
    obtain ⟨hk, hlater⟩ : k ∉ later.map (·.1) ∧ (later.map (·.1)).Nodup := List.nodup_cons.1 h
    rw [put]
    split
    · next hname =>
      subst hname
      have hnone : later.filter (fun e => e.1 = k) = [] := by
        refine List.filter_eq_nil_iff.2 fun e he hsame => hk ?_
        rw [← of_decide_eq_true hsame]
        exact List.mem_map_of_mem he
      rw [List.filter_cons_of_pos (by simp), hnone]
    · next hname => rw [List.filter_cons_of_neg (by simpa using hname), ih hlater]

theorem without_apply {c : Change} (h : c.name ∈ names) (t : Table) :
    (c.apply t).without names = t.without names := by
  cases c with
  | put name value => exact filter_put h value t.entries
  | drop name =>
    rw [Change.apply, without, without, erase, List.filter_filter]
    refine List.filter_congr fun e _ => ?_
    by_cases he : e.1 = name
    · have hmem : e.1 ∈ names := he ▸ h
      simp [hmem]
    · simp [he]

theorem without_foldl_apply {log : List Change} (h : ∀ c ∈ log, c.name ∈ names) (t : Table) :
    (log.foldl Change.apply t).without names = t.without names := by
  induction log generalizing t with
  | nil => rfl
  | cons c later ih =>
    obtain ⟨hc, hlater⟩ := List.forall_mem_cons.1 h
    rw [List.foldl_cons, ih hlater, without_apply hc]

end

end LineShell.Table
