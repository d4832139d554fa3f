import LineShell.Chain.Basic

/-! The grammar of a line without its comment: pieces of text with operators between them. The
leftmost reading of the operators is the only one, and it is the one that splitting finds. -/

namespace LineShell

def Operator.spelling : Operator → Text
  | .first => []
  | .and => "&&".toList
  | .or => "||".toList
  | .seq => ";".toList

namespace Chain

def StartsOperator (t : Text) : Prop := ∃ o : Operator, o ≠ .first ∧ o.spelling <+: t

def OperatorFree (t : Text) : Prop := ∀ o : Operator, o ≠ .first → ¬ o.spelling <:+: t

abbrev Pieces := Text × List (Operator × Text)

namespace Pieces

def assemble (d : Pieces) : Text := d.1 ++ d.2.flatMap fun p => p.1.spelling ++ p.2

def texts (d : Pieces) : List Text := d.1 :: d.2.map (·.2)

def operators (d : Pieces) : List Operator := d.2.map (·.1)

theorem isInfix_assemble {d : Pieces} {p : Text} (hp : p ∈ d.texts) : p <:+: d.assemble := by
  rcases List.mem_cons.1 hp with rfl | hlater
  · exact (List.prefix_append d.1 _).isInfix
  · obtain ⟨x, hx, rfl⟩ := List.mem_map.1 hlater
    obtain ⟨before, after, hd⟩ := List.append_of_mem hx
    refine ⟨d.1 ++ (before.flatMap fun p => p.1.spelling ++ p.2) ++ x.1.spelling,
      after.flatMap fun p => p.1.spelling ++ p.2, ?_⟩
    rw [assemble, hd, List.flatMap_append, List.flatMap_cons]
    simp only [List.append_assoc]

end Pieces

/-- A reading of a text as pieces and operators in which no operator is overlooked, and none that
is a pair could have begun one character earlier. -/
structure IsDecomposition (d : Pieces) (t : Text) : Prop where
  assembled : d.assemble = t
  written : ∀ o ∈ d.operators, o ≠ .first
  free : ∀ p ∈ d.texts, OperatorFree p
  leftmost : ∀ x ∈ d.texts.zip d.operators, x.2 = .and ∨ x.2 = .or →
    OperatorFree (x.1 ++ x.2.spelling.take 1)

theorem exists_spelling_iff (p : Text → Prop) :
    (∃ o : Operator, o ≠ .first ∧ p o.spelling) ↔
      p "&&".toList ∨ p "||".toList ∨ p ";".toList := by
  constructor
  · rintro ⟨o, ho, h⟩
    cases o with
    | first => exact absurd rfl ho
    | and => exact .inl h
    | or => exact .inr (.inl h)
    | seq => exact .inr (.inr h)
  · rintro (h | h | h)
    · exact ⟨.and, by decide, h⟩
    · exact ⟨.or, by decide, h⟩
    · exact ⟨.seq, by decide, h⟩

theorem startsOperator_iff {t : Text} :
    StartsOperator t ↔ "&&".toList <+: t ∨ "||".toList <+: t ∨ ";".toList <+: t :=
  exists_spelling_iff (· <+: t)

instance (t : Text) : Decidable (StartsOperator t) := decidable_of_iff' _ startsOperator_iff

theorem split_spelling {o : Operator} (ho : o ≠ .first) (r : Text) :
    split (o.spelling ++ r) = ([], (o, (split r).1) :: (split r).2) := by
  cases o with
  | first => exact absurd rfl ho
  | and => rfl
  | or => rfl
  | seq => rfl

theorem split_cons {c : Char} {r : Text} (h : ¬ StartsOperator (c :: r)) :
    split (c :: r) = (c :: (split r).1, (split r).2) := by
  rw [startsOperator_iff, not_or, not_or] at h
  obtain ⟨hand, hor, hseq⟩ := h
  rw [split.eq_5]
  · rintro u rfl rfl
    exact hand ⟨u, rfl⟩
  · rintro u rfl rfl
    exact hor ⟨u, rfl⟩
  · rintro rfl
    exact hseq ⟨r, rfl⟩

/-- What splitting looks at: an operator at the start, or a character that begins none. -/
@[elab_as_elim]
theorem split_induction {motive : Text → Prop} (nil : motive [])
    (operator : ∀ (o : Operator) (r : Text), o ≠ .first → motive r → motive (o.spelling ++ r))
    (cons : ∀ (c : Char) (r : Text), ¬ StartsOperator (c :: r) → motive r → motive (c :: r))
    (t : Text) : motive t := by
  induction hn : t.length using Nat.strongRecOn generalizing t with
  | ind n ih =>
    subst hn
    cases t with
    | nil => exact nil
    | cons c r =>
      by_cases h : StartsOperator (c :: r)
      · obtain ⟨o, ho, u, hu⟩ := h
        have hlt : u.length < (c :: r).length := by
          rw [← hu, List.length_append]
          cases o with
          | first => exact absurd rfl ho
          | and | or | seq => simp [Operator.spelling]
        rw [← hu]
        exact operator o u ho (ih _ hlt u rfl)
      · exact cons c r h (ih _ (by simp) r rfl)

theorem StartsOperator.mono {t u : Text} (h : StartsOperator t) (htu : t <+: u) :
    StartsOperator u := by
  obtain ⟨o, ho, hp⟩ := h
  exact ⟨o, ho, hp.trans htu⟩

theorem operatorFree_cons {c : Char} {t : Text} :
    OperatorFree (c :: t) ↔ ¬ StartsOperator (c :: t) ∧ OperatorFree t := by
  constructor
  · intro h
    refine ⟨?_, fun o ho hi => h o ho (hi.trans (List.suffix_cons c t).isInfix)⟩
    rintro ⟨o, ho, hp⟩
    exact h o ho hp.isInfix
  · rintro ⟨hs, hf⟩ o ho hi
    rcases List.infix_cons_iff.1 hi with hp | ht
    · exact hs ⟨o, ho, hp⟩
    · exact hf o ho ht

theorem operatorFree_nil : OperatorFree [] := by
  intro o ho hi
  cases o <;> simp_all [Operator.spelling]

theorem operatorFree_of_infix {t u : Text} (h : OperatorFree u) (htu : t <:+: u) :
    OperatorFree t := fun o ho hi => h o ho (hi.trans htu)

theorem operatorFree_singleton {c : Char} (hc : c ≠ ';') : OperatorFree [c] := by
  refine operatorFree_cons.2 ⟨?_, operatorFree_nil⟩
  rw [startsOperator_iff]
  simp [List.cons_prefix_cons, hc.symm]

theorem operatorFree_take {o : Operator} (ho : o = .and ∨ o = .or) :
    OperatorFree (o.spelling.take 1) := by
  rcases ho with rfl | rfl
  · exact operatorFree_singleton (c := '&') (by decide)
  · exact operatorFree_singleton (c := '|') (by decide)

theorem StartsOperator.take {c : Char} {p s : Text} (h : StartsOperator (c :: p ++ s)) :
    StartsOperator (c :: p ++ s.take 1) := by
  obtain ⟨o, ho, hp⟩ := h
  have hlen : o.spelling.length ≤ (c :: p).length + 1 := by
    cases o <;> simp [Operator.spelling]
  have htake : (c :: p ++ s).take ((c :: p).length + 1) = c :: p ++ s.take 1 := by
    rw [List.take_length_add_append]
  exact ⟨o, ho, htake ▸ List.prefix_take_iff.2 ⟨hp, hlen⟩⟩

/-- No pair of operator characters is formed where the two texts meet. -/
def Apart (t u : Text) : Prop :=
  ∀ c, t.getLast? = some c → u.head? = some c → c ≠ '&' ∧ c ≠ '|'

def Detached (t : Text) : Prop := ∀ c, t.head? = some c → c ≠ '&' ∧ c ≠ '|'

theorem Detached.apart {u : Text} (h : Detached u) (t : Text) : Apart t u := fun c _ hc => h c hc

theorem Apart.of_append {s t u : Text} (h : Apart (s ++ t) u) : Apart t u := by
  intro c hlast hhead
  refine h c ?_ hhead
  rw [List.getLast?_append, hlast, Option.some_or]

theorem StartsOperator.of_append {c : Char} {p s : Text} (h : StartsOperator (c :: p ++ s))
    (hs : Apart (c :: p) s) : StartsOperator (c :: p) := by
  cases p with
  | cons d u =>
    obtain ⟨o, ho, hp⟩ := h
    have hlen : o.spelling.length ≤ (c :: d :: u).length := by
      cases o <;> simp [Operator.spelling]
    exact ⟨o, ho, List.prefix_of_prefix_length_le hp (List.prefix_append _ _) hlen⟩
  | nil =>
    cases s with
    | nil => simpa using h
    | cons d u =>
      have hapart (heq : c = d) : c ≠ '&' ∧ c ≠ '|' := hs c rfl (congrArg some heq.symm)
      rw [startsOperator_iff] at h ⊢
      rcases h with h | h | h
      · have hcd : '&' = c ∧ '&' = d := by simpa [List.cons_prefix_cons] using h
        exact absurd hcd.1.symm (hapart (hcd.1.symm.trans hcd.2)).1
      · have hcd : '|' = c ∧ '|' = d := by simpa [List.cons_prefix_cons] using h
        exact absurd hcd.1.symm (hapart (hcd.1.symm.trans hcd.2)).2
      · exact .inr (.inr (by simpa [List.cons_prefix_cons] using h))

theorem split_of_free {p : Text} (h : OperatorFree p) : split p = (p, []) := by
  induction p with
  | nil => rfl
  | cons c u ih =>
    rw [operatorFree_cons] at h
    rw [split_cons h.1, ih h.2]

theorem split_free_append {o : Operator} (ho : o ≠ .first) {p : Text} (hp : OperatorFree p)
    (hl : o = .and ∨ o = .or → OperatorFree (p ++ o.spelling.take 1)) (r : Text) :
    split (p ++ (o.spelling ++ r)) = (p, (o, (split r).1) :: (split r).2) := by
  induction p with
  | nil => exact split_spelling ho r
  | cons c u ih =>
    have hu := operatorFree_cons.1 hp
    have hstart : ¬ StartsOperator (c :: u ++ (o.spelling ++ r)) := by
      intro h
      by_cases hpair : o = .and ∨ o = .or
      · have hne : (o.spelling ++ r).take 1 = o.spelling.take 1 := by
          cases o <;> simp_all [Operator.spelling]
        have htake := h.take
        rw [hne] at htake
        exact (operatorFree_cons.1 (hl hpair)).1 htake
      · have hdet : Detached (o.spelling ++ r) := by
          cases o <;> simp_all [Operator.spelling, Detached]
        exact hu.1 (h.of_append (hdet.apart (c :: u)))
    have hlu : o = .and ∨ o = .or → OperatorFree (u ++ o.spelling.take 1) := fun hpair =>
      (operatorFree_cons.1 (hl hpair)).2
    rw [List.cons_append] at hstart ⊢
    rw [split_cons hstart, ih hu.2 hlu]

theorem isDecomposition_last {p t : Text} :
    IsDecomposition (p, []) t ↔ p = t ∧ OperatorFree p := by
  constructor
  · rintro ⟨ha, -, hf, -⟩
    exact ⟨by simpa [Pieces.assemble] using ha, hf p (List.mem_singleton_self p)⟩
  · rintro ⟨rfl, hf⟩
    exact ⟨by simp [Pieces.assemble], by simp [Pieces.operators], by simpa [Pieces.texts] using hf,
      by simp [Pieces.operators]⟩

theorem isDecomposition_more {p q t : Text} {o : Operator} {ps : List (Operator × Text)} :
    IsDecomposition (p, (o, q) :: ps) t ↔
      o ≠ .first ∧ OperatorFree p ∧
      (o = .and ∨ o = .or → OperatorFree (p ++ o.spelling.take 1)) ∧
      ∃ r, t = p ++ (o.spelling ++ r) ∧ IsDecomposition (q, ps) r := by
  constructor
  · rintro ⟨ha, hw, hf, hl⟩
    simp only [Pieces.operators, Pieces.texts, List.map_cons, List.mem_cons, forall_eq_or_imp,
      List.zip_cons_cons] at hw hf hl
    refine ⟨hw.1, hf.1, hl.1, Pieces.assemble (q, ps), ?_, rfl, hw.2, ?_, hl.2⟩
    · simp [← ha, Pieces.assemble]
    · simpa [Pieces.texts] using hf.2
  · rintro ⟨ho, hp, hpair, r, rfl, ha, hw, hf, hl⟩
    constructor
    · simp [← ha, Pieces.assemble]
    · exact List.forall_mem_cons.2 ⟨ho, hw⟩
    · exact List.forall_mem_cons.2 ⟨hp, hf⟩
    · simp only [Pieces.operators, Pieces.texts, List.map_cons, List.mem_cons, forall_eq_or_imp,
        List.zip_cons_cons]
      exact ⟨hpair, hl⟩

theorem isDecomposition_split (t : Text) : IsDecomposition (split t) t := by
  induction t using split_induction with
  | nil => exact isDecomposition_last.2 ⟨rfl, operatorFree_nil⟩
  | operator o r ho ih =>
    rw [split_spelling ho]
    refine isDecomposition_more.2 ⟨ho, operatorFree_nil, fun hpair => ?_, r, rfl, ih⟩
    exact operatorFree_take hpair
  | cons c r h ih =>
    rw [split_cons h]
    rcases hs : split r with ⟨p, _ | ⟨⟨o, q⟩, ps⟩⟩
    · rw [hs, isDecomposition_last] at ih
      obtain ⟨rfl, hf⟩ := ih
      exact isDecomposition_last.2 ⟨rfl, operatorFree_cons.2 ⟨h, hf⟩⟩
    · rw [hs, isDecomposition_more] at ih
      obtain ⟨ho, hf, hpair, u, rfl, hu⟩ := ih
      have hstart (v : Text) (hv : v <+: p ++ (o.spelling ++ u)) : ¬ StartsOperator (c :: v) :=
        fun hc => h (hc.mono (List.cons_prefix_cons.2 ⟨rfl, hv⟩))
      refine isDecomposition_more.2 ⟨ho, ?_, fun ho' => ?_, u, rfl, hu⟩
      · exact operatorFree_cons.2 ⟨hstart p (List.prefix_append _ _), hf⟩
      · have htake : p ++ o.spelling.take 1 <+: p ++ (o.spelling ++ u) :=
          (List.prefix_append_right_inj p).2
            ((List.take_prefix 1 _).trans (List.prefix_append _ _))
        exact operatorFree_cons.2 ⟨hstart _ htake, hpair ho'⟩

theorem operatorFree_iff {t : Text} : OperatorFree t ↔ split t = (t, []) := by
  constructor
  · exact split_of_free
  · intro h
    have hd := isDecomposition_split t
    rw [h] at hd
    exact (isDecomposition_last.1 hd).2

instance (t : Text) : Decidable (OperatorFree t) := decidable_of_iff' _ operatorFree_iff

theorem IsDecomposition.eq_split {d : Pieces} {t : Text} (h : IsDecomposition d t) :
    d = split t := by
  obtain ⟨p, ps⟩ := d
  induction ps generalizing p t with
  | nil =>
    obtain ⟨rfl, hf⟩ := isDecomposition_last.1 h
    rw [split_of_free hf]
  | cons x ps ih =>
    obtain ⟨o, q⟩ := x
    obtain ⟨ho, hp, hpair, r, rfl, hr⟩ := isDecomposition_more.1 h
    rw [split_free_append ho hp hpair, ← ih q hr]

end Chain

end LineShell
