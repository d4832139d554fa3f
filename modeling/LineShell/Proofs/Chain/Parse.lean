import LineShell.Proofs.Chain.Pieces
import LineShell.Proofs.Text.Trim

/-! A parsed line holds exactly the pieces of its one decomposition that are not all blank. -/

namespace LineShell.Chain

open Text

def Pieces.kept (d : Pieces) : List (Operator × Text) :=
  ((.first, d.1) :: d.2).filter fun x => !x.2.all isBlank

theorem isEmpty_trim (t : Text) : (trim t).isEmpty = t.all isBlank := by
  rw [Bool.eq_iff_iff, List.isEmpty_iff, trim_eq_nil, all_isBlank]

theorem keep_eq_map (ps : List (Operator × Text)) :
    keep ps = (ps.filter fun x => !x.2.all isBlank).map fun x => ⟨x.1, trim x.2⟩ := by
  rw [keep, List.filter_map]
  congr 2
  funext x
  rw [Function.comp_apply, isEmpty_trim]

theorem keep_append (ps qs : List (Operator × Text)) : keep (ps ++ qs) = keep ps ++ keep qs := by
  simp only [keep, List.map_append, List.filter_append]

theorem keep_cons_blank {t : Text} (ht : Blank t) (o : Operator) (ps : List (Operator × Text)) :
    keep ((o, t) :: ps) = keep ps := by
  rw [← trim_eq_nil] at ht
  simp [keep, ht]

theorem keep_cons_shown {t : Text} (ht : ¬ Blank t) (o : Operator) (ps : List (Operator × Text)) :
    keep ((o, t) :: ps) = ⟨o, trim t⟩ :: keep ps := by
  rw [← trim_eq_nil] at ht
  simp [keep, ht]

theorem markFirst_eq_mapIdx (c : Chain) :
    markFirst c = c.mapIdx fun i link => ⟨if i = 0 then .first else link.operator, link.text⟩ := by
  refine List.ext_getElem? fun i => ?_
  cases c with
  | nil => rfl
  | cons link later => cases i <;> simp [markFirst]

theorem parse_eq_mapIdx (line : Text) :
    parse line = (Pieces.kept (split (stripComment line))).mapIdx fun i x =>
      ⟨if i = 0 then .first else x.1, trim x.2⟩ := by
  rw [parse, keep_eq_map, markFirst_eq_mapIdx]
  refine List.ext_getElem? fun i => ?_
  simp [Pieces.kept, Function.comp_def]

theorem mem_texts_of_kept {d : Pieces} {x : Operator × Text} (hx : x ∈ d.kept) :
    x.2 ∈ d.texts := by
  have hin : x ∈ (.first, d.1) :: d.2 := (List.mem_filter.1 hx).1
  rcases List.mem_cons.1 hin with rfl | h
  · exact List.mem_cons_self
  · exact List.mem_cons_of_mem _ (List.mem_map_of_mem h)

theorem mem_operators_of_kept {d : Pieces} {x : Operator × Text} {i : Nat}
    (hx : d.kept[i + 1]? = some x) : x.1 ∈ d.operators := by
  have hlater : x ∈ d.2.filter fun y => !y.2.all isBlank := by
    rw [Pieces.kept, List.filter_cons] at hx
    split at hx
    · rw [List.getElem?_cons_succ] at hx
      exact List.mem_of_getElem? hx
    · exact List.mem_of_getElem? hx
  exact List.mem_map_of_mem (List.mem_filter.1 hlater).1

theorem exists_kept {line : Text} {i : Nat} {link : Link} (h : (parse line)[i]? = some link) :
    ∃ x : Operator × Text, (Pieces.kept (split (stripComment line)))[i]? = some x ∧
      link = ⟨if i = 0 then .first else x.1, trim x.2⟩ := by
  rw [parse_eq_mapIdx, List.getElem?_mapIdx, Option.map_eq_some_iff] at h
  obtain ⟨x, hx, hlink⟩ := h
  exact ⟨x, hx, hlink.symm⟩

theorem operator_eq_first_iff {line : Text} {i : Nat} {link : Link}
    (h : (parse line)[i]? = some link) : link.operator = .first ↔ i = 0 := by
  obtain ⟨x, hx, rfl⟩ := exists_kept h
  cases i with
  | zero => simp
  | succ i =>
    have hwritten := (isDecomposition_split (stripComment line)).written
    have ho : x.1 ≠ .first := hwritten x.1 (mem_operators_of_kept hx)
    simp [ho]

/-- What is known of the text of a link, and where in the line it comes from. -/
structure IsLinkText (line t : Text) : Prop where
  shown : t ≠ []
  trimmed : Trimmed t
  free : OperatorFree t
  isInfix : t <:+: stripComment line

theorem isLinkText_of_mem {line : Text} {link : Link} (h : link ∈ parse line) :
    IsLinkText line link.text := by
  obtain ⟨i, hi⟩ := List.getElem?_of_mem h
  obtain ⟨x, hx, rfl⟩ := exists_kept hi
  have hd := isDecomposition_split (stripComment line)
  have hkept : x ∈ Pieces.kept (split (stripComment line)) := List.mem_of_getElem? hx
  have hpiece : x.2 ∈ Pieces.texts (split (stripComment line)) := mem_texts_of_kept hkept
  have hblank : ¬ Blank x.2 := by
    rw [← all_isBlank]
    simpa using (List.mem_filter.1 hkept).2
  have hinfix : x.2 <:+: stripComment line := hd.assembled ▸ Pieces.isInfix_assemble hpiece
  constructor
  · exact fun hnil => hblank (trim_eq_nil.1 hnil)
  · exact trimmed_trim x.2
  · exact operatorFree_of_infix (hd.free x.2 hpiece) (trim_isInfix x.2)
  · exact (trim_isInfix x.2).trans hinfix

/-- A line without its comment can be read in one way only as pieces between operators, and its
chain is made of the pieces that are not all blank: each loses the blanks around it and stands
after the operator written right before it, but for the first, which stands after none. -/
theorem parse_grammar (line : Text) :
    ∃ d : Pieces, IsDecomposition d (stripComment line) ∧
      (∀ d', IsDecomposition d' (stripComment line) → d' = d) ∧
      parse line = (d.kept.mapIdx fun i x => ⟨if i = 0 then .first else x.1, trim x.2⟩) ∧
      (∀ x ∈ d.kept, ∃ u w, Blank u ∧ Blank w ∧ x.2 = u ++ trim x.2 ++ w) ∧
      ∀ i link, (parse line)[i]? = some link →
        (link.operator = .first ↔ i = 0) ∧ link.text ≠ [] ∧ Trimmed link.text ∧
          OperatorFree link.text := by
  have hd := isDecomposition_split (stripComment line)
  refine ⟨split (stripComment line), hd, fun d' h => h.eq_split, parse_eq_mapIdx line,
    fun x _ => exists_trim x.2, ?_⟩
  intro i link h
  have htext := isLinkText_of_mem (List.mem_of_getElem? h)
  exact ⟨operator_eq_first_iff h, htext.shown, htext.trimmed, htext.free⟩

example : parse "a ||| b &&& ; ;; c # d".toList =
    [⟨.first, "a".toList⟩, ⟨.or, "| b".toList⟩, ⟨.and, "&".toList⟩, ⟨.seq, "c".toList⟩] := by
  decide

end LineShell.Chain
