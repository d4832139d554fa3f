import LineShell.Proofs.Chain.Joining
import Mathlib.Algebra.Ring.Parity

/-! The piece that a line ends with. Ampersands and bars pair off from the left of each run, so one
of them is left over at the end of a line if the line ends in an odd number of them. -/

namespace LineShell.Chain

open Text

def lastOf (p : Text) : List (Operator × Text) → Text
  | [] => p
  | (_, q) :: later => lastOf q later

/-- What stands in a text after its last operator. -/
def lastPiece (t : Text) : Text := lastOf (split t).1 (split t).2

theorem lastOf_isSuffix (p : Text) (ps : List (Operator × Text)) :
    lastOf p ps <:+ Pieces.assemble (p, ps) := by
  induction ps generalizing p with
  | nil => simp [lastOf, Pieces.assemble]
  | cons x ps ih =>
    have hassemble : Pieces.assemble (p, x :: ps) =
        p ++ x.1.spelling ++ Pieces.assemble (x.2, ps) := by
      simp [Pieces.assemble]
    rw [hassemble]
    exact (ih x.2).trans (List.suffix_append _ _)

theorem lastPiece_isSuffix (t : Text) : lastPiece t <:+ t := by
  have h := lastOf_isSuffix (split t).1 (split t).2
  rwa [(isDecomposition_split t).assembled] at h

theorem exists_concat_lastOf (o : Operator) (p : Text) (ps : List (Operator × Text)) :
    ∃ init o', (o, p) :: ps = init ++ [(o', lastOf p ps)] := by
  induction ps generalizing o p with
  | nil => exact ⟨[], o, rfl⟩
  | cons x ps ih =>
    obtain ⟨init, o', h⟩ := ih x.1 x.2
    exact ⟨(o, p) :: init, o', congrArg _ h⟩

theorem getLast?_markFirst (c : Chain) :
    (markFirst c).getLast?.map (·.text) = c.getLast?.map (·.text) := by
  cases c with
  | nil => rfl
  | cons link later => cases later <;> simp [markFirst]

theorem text_getLast?_parse {line : Text} (h : ¬ Blank (lastPiece (stripComment line))) :
    (parse line).getLast?.map (·.text) = some (trim (lastPiece (stripComment line))) := by
  obtain ⟨init, o, hpieces⟩ := exists_concat_lastOf .first (split (stripComment line)).1
    (split (stripComment line)).2
  rw [← lastPiece] at hpieces
  rw [parse, getLast?_markFirst, hpieces, keep_append, keep_cons_shown h]
  simp [keep]

theorem lastOf_glue (p : Text) (ps : List (Operator × Text)) (u : Text) :
    lastOf (glue p ps (u, [])).1 (glue p ps (u, [])).2 = lastOf p ps ++ u := by
  induction ps generalizing p with
  | nil => rfl
  | cons x ps ih => exact ih x.2

theorem lastOf_glue_cons (p : Text) (ps : List (Operator × Text)) (u : Text)
    (x : Operator × Text) (later : List (Operator × Text)) :
    lastOf (glue p ps (u, x :: later)).1 (glue p ps (u, x :: later)).2 = lastOf x.2 later := by
  induction ps generalizing p with
  | nil => rfl
  | cons y ps ih => exact ih y.2

theorem lastPiece_append_free {t u : Text} (h : Apart t u) (hu : OperatorFree u) :
    lastPiece (t ++ u) = lastPiece t ++ u := by
  rw [lastPiece, split_append h, split_of_free hu, lastOf_glue]
  rfl

theorem lastPiece_append_spelling {o : Operator} (ho : o ≠ .first) {t r : Text}
    (h : Apart t (o.spelling ++ r)) : lastPiece (t ++ (o.spelling ++ r)) = lastPiece r := by
  rw [lastPiece, split_append h, split_spelling ho, lastOf_glue_cons]
  rfl

section

variable {o : Operator} {c : Char} {u : Text}

theorem exists_pair (h : c = '&' ∨ c = '|') : ∃ o : Operator, o ≠ .first ∧ o.spelling = [c, c] := by
  rcases h with rfl | rfl
  · exact ⟨.and, by decide, rfl⟩
  · exact ⟨.or, by decide, rfl⟩

theorem apart_nil (t : Text) : Apart [] t := by
  intro c hc
  cases hc

theorem apart_cons (hu : u.getLast? ≠ some c) (r : Text) : Apart u (c :: r) := by
  intro d hlast hhead
  obtain rfl : c = d := Option.some.inj hhead
  exact absurd hlast hu

theorem getLast?_run (u : Text) (n : Nat) (c : Char) :
    (u ++ List.replicate (n + 1) c).getLast? = some c := by
  rw [List.replicate_succ', ← List.append_assoc, List.getLast?_concat]

theorem replicate_pair (hpair : o.spelling = [c, c]) (k : Nat) (r : Text) :
    List.replicate (2 * k + 2) c ++ r = o.spelling ++ (List.replicate (2 * k) c ++ r) := by
  rw [hpair, Nat.add_comm, ← List.replicate_append_replicate, List.append_assoc]
  rfl

theorem lastPiece_replicate (ho : o ≠ .first) (hpair : o.spelling = [c, c]) (k : Nat) (r : Text) :
    lastPiece (List.replicate (2 * k) c ++ r) = lastPiece r := by
  induction k with
  | zero => rfl
  | succ k ih =>
    have hread := lastPiece_append_spelling ho
      (apart_nil (o.spelling ++ (List.replicate (2 * k) c ++ r)))
    rw [Nat.mul_succ, replicate_pair hpair, ← ih]
    exact hread

theorem lastPiece_run (hc : c = '&' ∨ c = '|') (hu : u.getLast? ≠ some c) (k : Nat) (r : Text) :
    lastPiece (u ++ (List.replicate (2 * k + 2) c ++ r)) = lastPiece r := by
  obtain ⟨o, ho, hpair⟩ := exists_pair hc
  have hapart : Apart u (o.spelling ++ (List.replicate (2 * k) c ++ r)) := by
    rw [hpair]
    exact apart_cons hu (c :: (List.replicate (2 * k) c ++ r))
  rw [replicate_pair hpair, lastPiece_append_spelling ho hapart, lastPiece_replicate ho hpair]

theorem exists_run (t : Text) (c : Char) :
    ∃ u n, t = u ++ List.replicate n c ∧ u.getLast? ≠ some c := by
  induction t using List.reverseRecOn with
  | nil => exact ⟨[], 0, rfl, by simp⟩
  | append_singleton t d ih =>
    by_cases hd : d = c
    · obtain ⟨u, n, rfl, hu⟩ := ih
      refine ⟨u, n + 1, ?_, hu⟩
      rw [hd, List.append_assoc, ← List.replicate_succ']
    · exact ⟨t ++ [d], 0, by simp, by simpa using hd⟩

def EndsOperator (t : Text) : Prop := ∃ o : Operator, o ≠ .first ∧ o.spelling <:+ t

theorem endsOperator_iff {t : Text} :
    EndsOperator t ↔ "&&".toList <:+ t ∨ "||".toList <:+ t ∨ ";".toList <:+ t :=
  exists_spelling_iff (· <:+ t)

instance (t : Text) : Decidable (EndsOperator t) := decidable_of_iff' _ endsOperator_iff

theorem endsOperator_concat : EndsOperator (u ++ [c]) ↔
    c = ';' ∨ (c = '&' ∨ c = '|') ∧ u.getLast? = some c := by
  have hconcat (s : Text) (d : Char) : s ++ [d] <:+ u ++ [c] ↔ d = c ∧ s <:+ u := by
    rw [← List.reverse_prefix]
    simp [List.cons_prefix_cons, List.reverse_prefix]
  have hand : "&&".toList <:+ u ++ [c] ↔ '&' = c ∧ u.getLast? = some '&' := by
    rw [← List.singleton_suffix_iff_getLast?_eq_some]
    exact hconcat ['&'] '&'
  have hor : "||".toList <:+ u ++ [c] ↔ '|' = c ∧ u.getLast? = some '|' := by
    rw [← List.singleton_suffix_iff_getLast?_eq_some]
    exact hconcat ['|'] '|'
  have hseq : ";".toList <:+ u ++ [c] ↔ ';' = c ∧ [] <:+ u := hconcat [] ';'
  rw [endsOperator_iff, hand, hor, hseq]
  constructor
  · rintro (⟨rfl, h⟩ | ⟨rfl, h⟩ | ⟨rfl, -⟩)
    · exact .inr ⟨.inl rfl, h⟩
    · exact .inr ⟨.inr rfl, h⟩
    · exact .inl rfl
  · rintro (rfl | ⟨rfl | rfl, h⟩)
    · exact .inr (.inr ⟨rfl, List.nil_suffix⟩)
    · exact .inl ⟨rfl, h⟩
    · exact .inr (.inl ⟨rfl, h⟩)

/-- The text ends in three ampersands or bars, or in any greater odd number of them. -/
def OddRun (t : Text) : Prop :=
  ∃ c u k, (c = '&' ∨ c = '|') ∧ t = u ++ List.replicate (2 * k + 3) c ∧ u.getLast? ≠ some c

theorem OddRun.lastPiece {t : Text} (h : OddRun t) :
    EndsOperator t ∧ ∃ c, (c = '&' ∨ c = '|') ∧ lastPiece t = [c] := by
  obtain ⟨c, u, k, hc, rfl, hu⟩ := h
  have hrun : List.replicate (2 * k + 3) c = List.replicate (2 * k + 2) c ++ [c] :=
    List.replicate_succ'
  constructor
  · have hlast := getLast?_run u (2 * k + 1) c
    rw [hrun, ← List.append_assoc]
    exact endsOperator_concat.2 (.inr ⟨hc, hlast⟩)
  · refine ⟨c, hc, ?_⟩
    rw [hrun, lastPiece_run hc hu]
    rcases hc with rfl | rfl <;> rfl

theorem lastPiece_concat_ne_nil (hc : c ≠ ';') (hu : Apart u [c]) : lastPiece (u ++ [c]) ≠ [] := by
  rw [lastPiece_append_free hu (operatorFree_singleton hc)]
  exact List.append_ne_nil_of_right_ne_nil _ (List.cons_ne_nil c [])

theorem lastPiece_concat_pair (hc : c = '&' ∨ c = '|') (h : ¬ OddRun (u ++ [c])) :
    lastPiece (u ++ [c]) = [] ↔ u.getLast? = some c := by
  obtain ⟨v, n, rfl, hv⟩ := exists_run u c
  have hrun : v ++ List.replicate n c ++ [c] = v ++ List.replicate (n + 1) c := by
    rw [List.append_assoc, ← List.replicate_succ']
  obtain ⟨k, rfl | rfl⟩ := Nat.even_or_odd' n
  · cases k with
    | zero =>
      have hsemi : c ≠ ';' := by
        rcases hc with rfl | rfl <;> decide
      have hlast : (v ++ List.replicate (2 * 0) c).getLast? ≠ some c := by simpa using hv
      exact iff_of_false (lastPiece_concat_ne_nil hsemi (apart_cons hlast [])) hlast
    | succ k => exact absurd ⟨c, v, k, hc, hrun, hv⟩ h
  · have hread := lastPiece_run hc hv k []
    rw [List.append_nil] at hread
    rw [hrun]
    exact iff_of_true hread (getLast?_run v (2 * k) c)

theorem lastPiece_concat_other (hc : ¬ (c = '&' ∨ c = '|')) :
    lastPiece (u ++ [c]) = [] ↔ c = ';' := by
  have hdetached : Detached [c] := by
    intro d hd
    obtain rfl : c = d := Option.some.inj hd
    exact not_or.1 hc
  have hapart : Apart u [c] := hdetached.apart u
  by_cases hsemi : c = ';'
  · subst hsemi
    exact iff_of_true (lastPiece_append_spelling (o := .seq) (by decide) (r := []) hapart) rfl
  · exact iff_of_false (lastPiece_concat_ne_nil hsemi hapart) hsemi

theorem lastPiece_eq_nil_iff {t : Text} (h : ¬ OddRun t) :
    lastPiece t = [] ↔ t = [] ∨ EndsOperator t := by
  rcases List.eq_nil_or_concat' t with rfl | ⟨u, c, rfl⟩
  · exact iff_of_true rfl (.inl rfl)
  · have hne : u ++ [c] ≠ [] := List.append_ne_nil_of_right_ne_nil u (List.cons_ne_nil c [])
    rw [or_iff_right hne, endsOperator_concat]
    by_cases hc : c = '&' ∨ c = '|'
    · have hsemi : c ≠ ';' := by
        rcases hc with rfl | rfl <;> decide
      rw [lastPiece_concat_pair hc h, or_iff_right hsemi, and_iff_right hc]
    · rw [lastPiece_concat_other hc, or_iff_left fun h => hc h.1]

theorem oddRun_iff {t : Text} : OddRun t ↔ EndsOperator t ∧ lastPiece t ≠ [] := by
  constructor
  · intro h
    obtain ⟨hends, c, -, hpiece⟩ := h.lastPiece
    rw [hpiece]
    exact ⟨hends, List.cons_ne_nil c []⟩
  · rintro ⟨hends, hpiece⟩
    by_contra h
    exact hpiece ((lastPiece_eq_nil_iff h).2 (.inr hends))

instance (t : Text) : Decidable (OddRun t) := decidable_of_iff' _ oddRun_iff

end

section

variable {before w : Text}

theorem commentFree_of_word (hw : Word w) (hhead : w.head? ≠ some '#') : CommentFree w := by
  rintro u v rfl
  rcases List.eq_nil_or_concat' u with rfl | ⟨r, c, rfl⟩
  · exact absurd rfl hhead
  · exact ⟨c, List.getLast?_concat, hw.2 c (by simp)⟩

theorem operatorFree_blank_append {gap : Text} (hgap : Blank gap) (hw : OperatorFree w) :
    OperatorFree (gap ++ w) := by
  induction gap with
  | nil => exact hw
  | cons c gap ih =>
    obtain ⟨hc, hlater⟩ := blank_cons.1 hgap
    exact operatorFree_cons.2 ⟨not_startsOperator (ne_of_isBlank hc) _, ih hlater⟩

theorem lastPiece_append_word (hbefore : ∀ c, before.getLast? = some c → isBlank c = true)
    (hfree : OperatorFree w) :
    ∃ gap, Blank gap ∧ (gap = [] → before = []) ∧
      lastPiece (before ++ w) = lastPiece (trimEnd before) ++ (gap ++ w) := by
  obtain ⟨gap, hgap, hsplit⟩ := exists_trimEnd before
  have hempty (hnil : gap = []) : before = [] := by
    rw [hnil, List.append_nil] at hsplit
    rcases List.eq_nil_or_concat' before with h | ⟨r, c, hr⟩
    · exact h
    · have hlast : isBlank c = true := hbefore c (by rw [hr, List.getLast?_concat])
      have hsuffix : [c] <:+ trimEnd before := ⟨r, by rw [← hsplit, hr]⟩
      cases eq_nil_of_isSuffix_trimEnd hsuffix (blank_cons.2 ⟨hlast, blank_nil⟩)
  have hapart : Apart (trimEnd before) (gap ++ w) := by
    cases gap with
    | nil =>
      rw [hempty rfl]
      exact apart_nil _
    | cons c gap =>
      have hc : isBlank c = true := (blank_cons.1 hgap).1
      exact (detached_of_isBlank hc (gap ++ w)).apart _
  refine ⟨gap, hgap, hempty, ?_⟩
  rw [← lastPiece_append_free hapart (operatorFree_blank_append hgap hfree), ← List.append_assoc,
    ← hsplit]

theorem blank_lastPiece_trimEnd (t : Text) :
    Blank (lastPiece (trimEnd t)) ↔ lastPiece (trimEnd t) = [] := by
  constructor
  · exact eq_nil_of_isSuffix_trimEnd (lastPiece_isSuffix (trimEnd t))
  · intro hnil
    rw [hnil]
    exact blank_nil

theorem text_getLast?_parse_append (hbefore : ∀ c, before.getLast? = some c → isBlank c = true)
    (hcomment : CommentFree before) (hword : Word w) (hfree : OperatorFree w)
    (hhead : w.head? ≠ some '#') :
    ∃ gap, Blank gap ∧ (gap = [] → before = []) ∧ (parse (before ++ w)).getLast?.map (·.text) =
      some (trim (lastPiece (trimEnd before) ++ gap ++ w)) := by
  obtain ⟨gap, hgap, hempty, hpiece⟩ := lastPiece_append_word hbefore hfree
  refine ⟨gap, hgap, hempty, ?_⟩
  have hline : stripComment (before ++ w) = before ++ w :=
    commentFree_iff.1 (hcomment.append (commentFree_of_word hword hhead))
  have hshown : ¬ Blank (lastPiece (stripComment (before ++ w))) := by
    rw [hline, hpiece, blank_append, blank_append]
    exact fun h => hword.not_blank h.2.2
  rw [text_getLast?_parse hshown, hline, hpiece, List.append_assoc]

end

end LineShell.Chain
