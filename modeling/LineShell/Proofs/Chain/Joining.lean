import LineShell.Proofs.Chain.Comment
import LineShell.Proofs.Chain.Parse

/-! Two texts with an operator between them are parsed apart: what stands on one side cannot change
the links of the other, except that the operator comes before the first link after it. -/

namespace LineShell

def Operator.joint (o : Operator) : Text := ' ' :: (o.spelling ++ [' '])

namespace Chain

open Text

def glue (p : Text) : List (Operator × Text) → Pieces → Pieces
  | [], d => (p ++ d.1, d.2)
  | (o, q) :: ps, d => (p, (o, (glue q ps d).1) :: (glue q ps d).2)

theorem glue_nil (ps : List (Operator × Text)) (p c : Text) (d : Pieces) :
    glue (c ++ p) ps d = (c ++ (glue p ps d).1, (glue p ps d).2) := by
  cases ps with
  | nil => simp [glue]
  | cons x ps => rfl

theorem split_append {t u : Text} (h : Apart t u) :
    split (t ++ u) = glue (split t).1 (split t).2 (split u) := by
  induction t using split_induction with
  | nil => rfl
  | operator o r ho ih =>
    rw [List.append_assoc, split_spelling ho, split_spelling ho, ih h.of_append]
    rfl
  | cons c r hc ih =>
    have hstart : ¬ StartsOperator (c :: (r ++ u)) := fun hs => hc (StartsOperator.of_append hs h)
    have hr : Apart r u := Apart.of_append (s := [c]) h
    rw [List.cons_append, split_cons hstart, split_cons hc, ih hr]
    exact (glue_nil _ _ [c] _).symm

theorem keep_glue (o : Operator) (p : Text) (ps : List (Operator × Text)) {d : Pieces}
    (hd : Blank d.1) :
    keep ((o, (glue p ps d).1) :: (glue p ps d).2) = keep ((o, p) :: ps) ++ keep d.2 := by
  induction ps generalizing o p with
  | nil =>
    rw [← keep_append, glue, List.cons_append, List.nil_append]
    simp only [keep, List.map_cons, trim_append_blank p hd]
  | cons x ps ih =>
    rw [glue, ← List.singleton_append, keep_append, ih, ← List.append_assoc, ← keep_append]
    rfl

theorem trimmed_spelling (o : Operator) : Trimmed o.spelling := by
  have hall : (o.spelling.all fun c => !isBlank c) = true := by cases o <;> rfl
  have hshown (c : Char) (hc : c ∈ o.spelling) : isBlank c = false := by
    simpa using List.all_eq_true.1 hall c hc
  exact ⟨fun c hc => hshown c (List.mem_of_mem_head? hc),
    fun c hc => hshown c (List.mem_of_mem_getLast? hc)⟩

theorem spelling_ne_nil {o : Operator} (ho : o ≠ .first) : o.spelling ≠ [] := by
  cases o <;> simp_all [Operator.spelling]

theorem not_startsOperator {c : Char} (hc : c ≠ '&' ∧ c ≠ '|' ∧ c ≠ ';') (r : Text) :
    ¬ StartsOperator (c :: r) := by
  rw [startsOperator_iff]
  simp [List.cons_prefix_cons, hc.1.symm, hc.2.1.symm, hc.2.2.symm]

theorem ne_of_isBlank {c : Char} (hc : isBlank c = true) : c ≠ '&' ∧ c ≠ '|' ∧ c ≠ ';' := by
  refine ⟨?_, ?_, ?_⟩ <;> rintro rfl <;> cases hc

theorem detached_of_head {t : Text} (ht : ∀ c, t.head? = some c → isBlank c = true) :
    Detached t :=
  fun c hc => ⟨(ne_of_isBlank (ht c hc)).1, (ne_of_isBlank (ht c hc)).2.1⟩

theorem detached_of_isBlank {c : Char} (hc : isBlank c = true) (r : Text) : Detached (c :: r) :=
  detached_of_head fun _ hd => Option.some.inj hd ▸ hc

theorem split_blank_append {gap : Text} (hgap : Blank gap) (t : Text) :
    split (gap ++ t) = (gap ++ (split t).1, (split t).2) := by
  induction gap with
  | nil => rfl
  | cons c gap ih =>
    obtain ⟨hc, hgap⟩ := blank_cons.1 hgap
    rw [List.cons_append, split_cons (not_startsOperator (ne_of_isBlank hc) _), ih hgap]
    rfl

theorem split_of_blank {gap : Text} (hgap : Blank gap) : split gap = (gap, []) := by
  have hsplit := split_blank_append hgap []
  rwa [List.append_nil, split_of_free operatorFree_nil, List.append_nil] at hsplit

theorem go_of_blank {w : Text} (hw : Blank w) (flag : Bool) : stripComment.go flag w = w := by
  induction w generalizing flag with
  | nil => rfl
  | cons c w ih =>
    obtain ⟨hc, hw⟩ := blank_cons.1 hw
    have hsign : ¬ (c = '#' ∧ flag = true) := by
      rintro ⟨rfl, -⟩
      cases hc
    rw [stripComment.go, if_neg hsign, ih hw]

theorem commentFree_of_blank {w : Text} (hw : Blank w) : CommentFree w :=
  commentFree_iff.2 (go_of_blank hw true)

theorem stripComment_append_joint {a : Text} (ha : CommentFree a) (o : Operator) (b : Text) :
    stripComment (a ++ o.joint ++ b) = a ++ o.joint ++ stripComment b := by
  have hspace : isBlank ' ' = true := by decide
  have hgo (flag : Bool) :
      stripComment.go flag (o.joint ++ b) = o.joint ++ stripComment b := by
    cases o <;> simp [Operator.joint, Operator.spelling, stripComment, stripComment.go, hspace]
  rw [commentFree_iff] at ha
  rw [List.append_assoc, stripComment, go_append ha, hgo, List.append_assoc]

theorem commentFree_joint (o : Operator) : CommentFree o.joint := by
  cases o <;> decide

theorem split_joint {o : Operator} (ho : o ≠ .first) (t : Text) :
    split (o.joint ++ t) = ([' '], (o, ' ' :: (split t).1) :: (split t).2) := by
  have hjoint : o.joint ++ t = ' ' :: (o.spelling ++ ' ' :: t) := by
    rw [Operator.joint, List.cons_append, List.append_assoc, List.singleton_append]
  rw [hjoint, split_cons (not_startsOperator (by decide) _), split_spelling ho,
    split_cons (not_startsOperator (by decide) t)]

def linksAfter (o : Operator) (t : Text) : Chain :=
  keep ((o, (split (stripComment t)).1) :: (split (stripComment t)).2)

theorem linksAfter_append_joint (o : Operator) {a : Text} (ha : CommentFree a) {p : Operator}
    (hp : p ≠ .first) (b : Text) :
    linksAfter o (a ++ p.joint ++ b) = linksAfter o a ++ linksAfter p b := by
  have hblank : Blank [' '] := blank_cons.2 ⟨by decide, blank_nil⟩
  have hdet : Detached (p.joint ++ stripComment b) :=
    detached_of_isBlank (c := ' ') (by decide) (p.spelling ++ [' '] ++ stripComment b)
  have hlater : keep ((p, ' ' :: (split (stripComment b)).1) :: (split (stripComment b)).2) =
      linksAfter p b := by
    have htrim := trim_blank_append hblank (split (stripComment b)).1
    rw [List.singleton_append] at htrim
    simp only [linksAfter, keep, List.map_cons, htrim]
  have hearlier : keep ((o, (split a).1) :: (split a).2) = linksAfter o a := by
    rw [linksAfter, commentFree_iff.1 ha]
  rw [linksAfter, stripComment_append_joint ha, List.append_assoc, split_append (hdet.apart a),
    split_joint hp, keep_glue _ _ _ hblank, hearlier, hlater]

theorem markFirst_linksAfter (o : Operator) (t : Text) :
    markFirst (linksAfter o t) = parse t := by
  rw [linksAfter, parse]
  by_cases h : Blank (split (stripComment t)).1
  · rw [keep_cons_blank h, keep_cons_blank h]
  · rw [keep_cons_shown h, keep_cons_shown h, markFirst, markFirst]

theorem markFirst_eq_nil {c : Chain} : markFirst c = [] ↔ c = [] := by
  cases c <;> simp [markFirst]

/-- A text that may follow a semicolon: if it has any links, no operator stands before them. -/
def Joinable (t : Text) : Prop := parse t = [] ∨ ¬ StartsOperator (trim (stripComment t))

instance (t : Text) : Decidable (Joinable t) := inferInstanceAs (Decidable (_ ∨ _))

def Unconditional (c : Chain) : Prop :=
  ∀ link ∈ c.head?, link.operator = .first ∨ link.operator = .seq

theorem unconditional_linksAfter {t : Text} (ht : Joinable t) :
    Unconditional (linksAfter .seq t) := by
  intro link hlink
  rcases hs : split (stripComment t) with ⟨p, ps⟩
  have hd := isDecomposition_split (stripComment t)
  rw [linksAfter, hs] at hlink
  rw [hs] at hd
  by_cases hp : Blank p
  · -- the operator before the first link would be one that the text begins with
    rw [keep_cons_blank hp] at hlink
    rcases ht with hnil | hstart
    · rw [parse, hs, markFirst_eq_nil, keep_cons_blank hp] at hnil
      simp [hnil] at hlink
    · cases ps with
      | nil => simp [keep] at hlink
      | cons x ps =>
        obtain ⟨ho, -, -, r, hr, -⟩ := isDecomposition_more.1 hd
        refine absurd ⟨x.1, ho, ?_⟩ hstart
        rw [hr, trim_blank_append hp]
        exact (trimmed_spelling x.1).prefix_trim (spelling_ne_nil ho) r
  · rw [keep_cons_shown hp, List.head?_cons, Option.mem_some_iff] at hlink
    exact .inr (by rw [← hlink])

end Chain

end LineShell
