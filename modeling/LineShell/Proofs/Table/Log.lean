import LineShell.Table
import Mathlib.Data.List.Induction

/-! What a table holds is decided by the log of its changes: a name has the value that it was given
last, and the names stand in the order in which they came in. -/

namespace LineShell.Table

section

variable {name n : Text} {entries : List (Text × Text)}

theorem lookup_cons_eq (k u n : Text) (later : List (Text × Text)) :
    ((k, u) :: later).lookup n = if n = k then some u else later.lookup n := by
  by_cases h : n = k
  · simp [h]
  · rw [List.lookup_cons, beq_false_of_ne h, if_neg h]

theorem lookup_put (name value n : Text) (entries : List (Text × Text)) :
    (put name value entries).lookup n = if n = name then some value else entries.lookup n := by
  induction entries with
  | nil => exact lookup_cons_eq name value n []
  | cons e later ih =>
    obtain ⟨k, u⟩ := e
    rw [put]
    split
    · next hk =>
      subst hk
      rw [lookup_cons_eq, lookup_cons_eq]
      split <;> rfl
    · next hk =>
      rw [lookup_cons_eq, lookup_cons_eq, ih]
      by_cases hn : n = k
      · rw [if_pos hn, if_pos hn, if_neg (hn ▸ hk)]
      · rw [if_neg hn, if_neg hn]

theorem lookup_filter_ne (name n : Text) (entries : List (Text × Text)) :
    (entries.filter fun e => e.1 ≠ name).lookup n =
      if n = name then none else entries.lookup n := by
  induction entries with
  | nil => exact (ite_self none).symm
  | cons e later ih =>
    obtain ⟨k, u⟩ := e
    by_cases hk : k = name
    · rw [List.filter_cons_of_neg (by simpa using hk), ih, lookup_cons_eq, hk]
      split <;> rfl
    · rw [List.filter_cons_of_pos (by simpa using hk), lookup_cons_eq, lookup_cons_eq, ih]
      by_cases hn : n = k
      · rw [if_pos hn, if_pos hn, if_neg (hn ▸ hk)]
      · rw [if_neg hn, if_neg hn]

theorem lookup_isSome : (entries.lookup n).isSome ↔ n ∈ entries.map (·.1) := by
  induction entries with
  | nil => simp
  | cons e later ih =>
    obtain ⟨k, u⟩ := e
    rw [lookup_cons_eq, List.map_cons, List.mem_cons, ← ih]
    split <;> simp_all

theorem map_fst_put (value : Text) (h : name ∈ entries.map (·.1)) :
    (put name value entries).map (·.1) = entries.map (·.1) := by
  induction entries with
  | nil => exact absurd h List.not_mem_nil
  | cons e later ih =>
    obtain ⟨k, u⟩ := e
    rw [put]
    split
    · rfl
    · next hk =>
      rw [List.map_cons, List.mem_cons] at h
      rw [List.map_cons, ih (h.resolve_left (Ne.symm hk)), List.map_cons]

theorem put_of_notMem (value : Text) (h : name ∉ entries.map (·.1)) :
    put name value entries = entries ++ [(name, value)] := by
  induction entries with
  | nil => rfl
  | cons e later ih =>
    obtain ⟨k, u⟩ := e
    rw [List.map_cons, List.mem_cons, not_or] at h
    rw [put, if_neg (Ne.symm h.1), ih h.2, List.cons_append]

theorem mem_put {name value : Text} {e : Text × Text} (h : e ∈ put name value entries) :
    e = (name, value) ∨ e ∈ entries := by
  induction entries with
  | nil => exact .inl (List.mem_singleton.1 h)
  | cons d later ih =>
    obtain ⟨k, u⟩ := d
    rw [put] at h
    split at h
    · next hk =>
      subst hk
      rcases List.mem_cons.1 h with rfl | h
      · exact .inl rfl
      · exact .inr (List.mem_cons_of_mem _ h)
    · rcases List.mem_cons.1 h with rfl | h
      · exact .inr List.mem_cons_self
      · exact (ih h).imp_right (List.mem_cons_of_mem _)

end

section

variable {t : Table}

theorem get?_insert (t : Table) (name value n : Text) :
    (t.insert name value).get? n = if n = name then some value else t.get? n :=
  lookup_put name value n t.entries

theorem get?_erase (t : Table) (name n : Text) :
    (t.erase name).get? n = if n = name then none else t.get? n :=
  lookup_filter_ne name n t.entries

theorem get?_isSome {n : Text} : (t.get? n).isSome ↔ n ∈ t.names := lookup_isSome

theorem names_insert_of_mem {name : Text} (h : name ∈ t.names) (value : Text) :
    (t.insert name value).names = t.names := map_fst_put value h

theorem names_insert_of_notMem {name : Text} (h : name ∉ t.names) (value : Text) :
    (t.insert name value).names = t.names ++ [name] := by
  rw [names, insert, put_of_notMem value h, List.map_append]
  rfl

theorem names_erase (t : Table) (name : Text) :
    (t.erase name).names = t.names.filter fun n => n ≠ name := by
  rw [names, erase, names, List.filter_map]
  rfl

theorem erase_of_notMem {name : Text} (h : name ∉ t.names) : t.erase name = t := by
  have hall : (t.entries.filter fun e => e.1 ≠ name) = t.entries := by
    refine List.filter_eq_self.2 fun e he => ?_
    have hne : e.1 ≠ name := fun hc => h (hc ▸ List.mem_map_of_mem he)
    simpa using hne
  rw [erase, hall]

theorem nodup_names_insert (h : t.names.Nodup) (name value : Text) :
    (t.insert name value).names.Nodup := by
  by_cases hname : name ∈ t.names
  · rwa [names_insert_of_mem hname]
  · rw [names_insert_of_notMem hname]
    refine List.nodup_append.2 ⟨h, List.nodup_cons.2 ⟨List.not_mem_nil, List.nodup_nil⟩, ?_⟩
    rintro n hn m hm rfl
    exact hname (List.mem_singleton.1 hm ▸ hn)

theorem nodup_names_erase (h : t.names.Nodup) (name : Text) : (t.erase name).names.Nodup := by
  rw [names_erase]
  exact h.filter _

end

inductive Change
  | put (name value : Text)
  | drop (name : Text)
  deriving DecidableEq, Repr

namespace Change

def name : Change → Text
  | put name _ => name
  | drop name => name

def apply (t : Table) : Change → Table
  | put name value => t.insert name value
  | drop name => t.erase name

end Change

def after (log : List Change) : Table := log.foldl Change.apply {}

/-- The last change that a log makes to a name is to give it a value. -/
def Settled (log : List Change) (name value : Text) : Prop :=
  ∃ earlier later, log = earlier ++ .put name value :: later ∧ ∀ c ∈ later, c.name ≠ name

def Present (log : List Change) (name : Text) : Prop := ∃ value, Settled log name value

/-- After these first changes of a log, which leave a name absent, it is put in and is not dropped
any more. -/
def Entered (log : List Change) (name : Text) (earlier : List Change) : Prop :=
  ¬ Present earlier name ∧
    ∃ value later, log = earlier ++ .put name value :: later ∧ .drop name ∉ later

section

variable {log earlier p q : List Change} {c : Change} {name value : Text}

theorem after_concat (log : List Change) (c : Change) :
    after (log ++ [c]) = c.apply (after log) := by
  rw [after, List.foldl_append]
  rfl

theorem cases_of_concat {d : Change} {later : List Change}
    (h : log ++ [c] = earlier ++ d :: later) :
    (earlier = log ∧ d = c ∧ later = []) ∨
      ∃ rest, log = earlier ++ d :: rest ∧ later = rest ++ [c] := by
  rcases List.eq_nil_or_concat later with rfl | ⟨rest, e, rfl⟩
  · obtain ⟨rfl, hc⟩ := List.append_inj' h rfl
    exact .inl ⟨rfl, (List.cons.inj hc).1.symm, rfl⟩
  · have hconcat : log ++ [c] = (earlier ++ d :: rest) ++ [e] := by simpa using h
    obtain ⟨rfl, hc⟩ := List.append_inj' hconcat rfl
    rw [List.concat_eq_append, (List.cons.inj hc).1]
    exact .inr ⟨rest, rfl, rfl⟩

theorem settled_concat :
    Settled (log ++ [c]) name value ↔
      c = .put name value ∨ (c.name ≠ name ∧ Settled log name value) := by
  constructor
  · rintro ⟨earlier, later, h, hlater⟩
    rcases cases_of_concat h with ⟨-, hc, -⟩ | ⟨rest, hlog, rfl⟩
    · exact .inl hc.symm
    · obtain ⟨hrest, hc⟩ := List.forall_mem_append.1 hlater
      exact .inr ⟨hc c (List.mem_singleton_self c), earlier, rest, hlog, hrest⟩
  · rintro (rfl | ⟨hc, earlier, later, rfl, hlater⟩)
    · exact ⟨log, [], rfl, fun _ hd => absurd hd List.not_mem_nil⟩
    · refine ⟨earlier, later ++ [c], by simp, ?_⟩
      exact List.forall_mem_append.2 ⟨hlater, fun d hd => List.mem_singleton.1 hd ▸ hc⟩

theorem entered_concat :
    Entered (log ++ [c]) name p ↔
      (Entered log name p ∧ c ≠ .drop name) ∨
        (p = log ∧ ¬ Present log name ∧ ∃ value, c = .put name value) := by
  constructor
  · rintro ⟨habsent, value, later, h, hdrop⟩
    rcases cases_of_concat h with ⟨rfl, hc, -⟩ | ⟨rest, hlog, rfl⟩
    · exact .inr ⟨rfl, habsent, value, hc.symm⟩
    · rw [List.mem_append, not_or, List.mem_singleton] at hdrop
      exact .inl ⟨⟨habsent, value, rest, hlog, hdrop.1⟩, Ne.symm hdrop.2⟩
  · rintro (⟨⟨habsent, value, later, rfl, hdrop⟩, hc⟩ | ⟨rfl, habsent, value, rfl⟩)
    · refine ⟨habsent, value, later ++ [c], by simp, ?_⟩
      rw [List.mem_append, not_or, List.mem_singleton]
      exact ⟨hdrop, Ne.symm hc⟩
    · exact ⟨habsent, value, [], rfl, List.not_mem_nil⟩

theorem not_settled_nil : ¬ Settled [] name value := by
  rintro ⟨earlier, later, h, -⟩
  exact List.append_ne_nil_of_right_ne_nil earlier (List.cons_ne_nil _ later) h.symm

theorem not_entered_nil : ¬ Entered [] name p := by
  rintro ⟨-, value, later, h, -⟩
  exact List.append_ne_nil_of_right_ne_nil p (List.cons_ne_nil _ later) h.symm

theorem get?_after_iff : (after log).get? name = some value ↔ Settled log name value := by
  -- from the right: the last change settles its own name and leaves the others to those before
  induction log using List.reverseRecOn with
  | nil => exact ⟨nofun, fun h => absurd h not_settled_nil⟩
  | append_singleton log c ih =>
    rw [after_concat, settled_concat, ← ih]
    cases c with
    | put n v =>
      rw [Change.apply, get?_insert]
      by_cases hn : name = n
      · simp [hn, Change.name]
      · simp [hn, Ne.symm hn, Change.name]
    | drop n =>
      rw [Change.apply, get?_erase]
      by_cases hn : name = n
      · simp [hn, Change.name]
      · simp [hn, Ne.symm hn, Change.name]

theorem mem_names_after : name ∈ (after log).names ↔ Present log name := by
  rw [← get?_isSome, Option.isSome_iff_exists]
  exact exists_congr fun value => get?_after_iff

theorem nodup_names_after (log : List Change) : (after log).names.Nodup := by
  induction log using List.reverseRecOn with
  | nil => exact List.nodup_nil
  | append_singleton log c ih =>
    rw [after_concat]
    cases c with
    | put n v => exact nodup_names_insert ih n v
    | drop n => exact nodup_names_erase ih n

theorem present_concat :
    Present (log ++ [c]) name ↔
      (∃ value, c = .put name value) ∨ (c.name ≠ name ∧ Present log name) := by
  simp only [Present, settled_concat, exists_or, exists_and_left]

theorem Entered.present (h : Entered log name p) : Present log name := by
  induction log using List.reverseRecOn generalizing p with
  | nil => exact absurd h not_entered_nil
  | append_singleton log c ih =>
    rw [present_concat]
    rcases entered_concat.1 h with ⟨hlog, hc⟩ | ⟨-, -, hput⟩
    · by_cases hname : c.name = name
      · cases c with
        | put n v => exact .inl ⟨v, by rw [← hname, Change.name]⟩
        | drop n => exact absurd (congrArg Change.drop hname) hc
      · exact .inr ⟨hname, ih hlog⟩
    · exact .inl hput

theorem Entered.of_concat (h : Entered (log ++ [c]) name p) (hlog : Present log name) :
    Entered log name p := by
  rcases entered_concat.1 h with ⟨h, -⟩ | ⟨-, habsent, -⟩
  · exact h
  · exact absurd hlog habsent

theorem Entered.eq_of_absent (h : Entered (log ++ [c]) name p) (hlog : ¬ Present log name) :
    p = log := by
  rcases entered_concat.1 h with ⟨h, -⟩ | ⟨hp, -, -⟩
  · exact absurd h.present hlog
  · exact hp

theorem Entered.unique (hp : Entered log name p) (hq : Entered log name q) : p = q := by
  induction log using List.reverseRecOn with
  | nil => exact absurd hp not_entered_nil
  | append_singleton log c ih =>
    by_cases hlog : Present log name
    · exact ih (hp.of_concat hlog) (hq.of_concat hlog)
    · rw [hp.eq_of_absent hlog, hq.eq_of_absent hlog]

theorem Entered.length_lt (h : Entered log name p) : p.length < log.length := by
  obtain ⟨-, value, later, rfl, -⟩ := h
  simp

theorem exists_entered (h : Present log name) : ∃ p, Entered log name p := by
  induction log using List.reverseRecOn with
  | nil => exact absurd h.choose_spec not_settled_nil
  | append_singleton log c ih =>
    have hkept (hlog : Present log name) (hc : c ≠ .drop name) :
        ∃ p, Entered (log ++ [c]) name p := by
      obtain ⟨p, hp⟩ := ih hlog
      exact ⟨p, entered_concat.2 (.inl ⟨hp, hc⟩)⟩
    rcases present_concat.1 h with ⟨value, rfl⟩ | ⟨hc, hlog⟩
    · by_cases hlog : Present log name
      · exact hkept hlog nofun
      · exact ⟨log, entered_concat.2 (.inr ⟨rfl, hlog, value, rfl⟩)⟩
    · refine hkept hlog ?_
      rintro rfl
      exact hc rfl

theorem pairwise_names_after (log : List Change) :
    (after log).names.Pairwise fun a b =>
      ∀ p q, Entered log a p → Entered log b q → p.length < q.length := by
  induction log using List.reverseRecOn with
  | nil => exact List.Pairwise.nil
  | append_singleton log c ih =>
    have hold : (after log).names.Pairwise fun a b => ∀ p q,
        Entered (log ++ [c]) a p → Entered (log ++ [c]) b q → p.length < q.length :=
      ih.imp_of_mem fun ha hb h p q hp hq =>
        h p q (hp.of_concat (mem_names_after.1 ha)) (hq.of_concat (mem_names_after.1 hb))
    rw [after_concat]
    cases c with
    | put n v =>
      rw [Change.apply]
      by_cases hn : n ∈ (after log).names
      · rwa [names_insert_of_mem hn]
      · rw [names_insert_of_notMem hn]
        refine List.pairwise_append.2 ⟨hold, List.pairwise_singleton _ n, ?_⟩
        intro a ha b hb p q hp hq
        obtain rfl := List.mem_singleton.1 hb
        -- the new name comes in with this change, and all the others have come in before
        rw [hq.eq_of_absent fun hc => hn (mem_names_after.2 hc)]
        exact (hp.of_concat (mem_names_after.1 ha)).length_lt
    | drop n =>
      rw [Change.apply, names_erase]
      exact hold.filter _

end

end LineShell.Table
