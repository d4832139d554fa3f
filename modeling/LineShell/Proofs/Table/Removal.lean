import LineShell.Proofs.Table.Without

/-! A table that is only ever added to and removed from. Whatever was done to it, a name stands in
it once at most, and so looking a name up, setting it in its place and removing all of it speak of
the same entry. -/

namespace LineShell.Table

variable {t : Table} {name : Text}

theorem remove_eq_true_iff : (t.remove name).1 = true ↔ name ∈ t.names := by
  have hkept : (t.entries.filter fun e => e.1 ≠ name).length = t.entries.length ↔
      ∀ e ∈ t.entries, e.1 ≠ name := by
    rw [List.length_filter_eq_length_iff]
    exact forall₂_congr fun e _ => decide_eq_true_iff
  rw [remove, bne_iff_ne, Ne, eq_comm, erase, hkept, names, List.mem_map]
  push Not
  rfl

structure Follows (log : List Change) (t : Table) : Prop where
  distinct : t.names.Nodup
  get : ∀ name value, t.get? name = some value ↔ Settled log name value
  entered : ∀ name ∈ t.names, ∃! p, Entered log name p
  ordered : t.names.Pairwise fun a b =>
    ∀ p q, Entered log a p → Entered log b q → p.length < q.length
  removed : ∀ name, (t.remove name).1 = true ↔ Present log name
  withoutRemoved : ∀ name, (t.remove name).2.without [name] = t.without [name]
  withoutInserted : ∀ name value, (t.insert name value).without [name] = t.without [name]

/-- Any log leaves a table of distinct names in the order in which they have come in, each with the
value that it was given last. Removing tells whether the name was there, one more change makes the
log longer, and neither touches the entries of other names. -/
theorem follows_after (log : List Change) :
    Follows log (after log) ∧ ∀ name,
      ((after log).remove name).2 = after (log ++ [.drop name]) ∧
        ∀ value, (after log).insert name value = after (log ++ [.put name value]) := by
  refine ⟨?_, fun name => ⟨(after_concat log (.drop name)).symm, fun value => ?_⟩⟩
  swap
  · exact (after_concat log (.put name value)).symm
  constructor
  · exact nodup_names_after log
  · exact fun name value => get?_after_iff
  · intro name hname
    obtain ⟨p, hp⟩ := exists_entered (mem_names_after.1 hname)
    exact ⟨p, hp, fun q hq => hq.unique hp⟩
  · exact pairwise_names_after log
  · exact fun name => remove_eq_true_iff.trans mem_names_after
  · exact fun name => without_apply (c := .drop name) (List.mem_singleton_self name) _
  · exact fun name value => without_apply (c := .put name value) (List.mem_singleton_self name) _

-- setting a name again keeps its place, and removing it in between does not
example : (after [.put "a".toList "1".toList, .put "b".toList [], .put "a".toList "2".toList,
    .drop "b".toList, .put "c".toList [], .put "b".toList "3".toList]).entries =
      [("a".toList, "2".toList), ("c".toList, []), ("b".toList, "3".toList)] := by
  decide

end LineShell.Table
