import LineShell.Text.Basic
import Mathlib.Data.List.Basic

/-! Replacing a pattern wherever it occurs. A part of a text is left alone if no occurrence begins
in it, and a whole text only if there is no occurrence or nothing else to put in its place. -/

namespace LineShell.Text

variable {pattern new t r a b : Text} {c : Char}

@[simp]
theorem replace_nil : replace pattern new [] = [] := rfl

theorem go_eq_replace_drop (n : Nat) (t : Text) :
    replace.go pattern new n t = replace pattern new (t.drop n) := by
  induction n generalizing t with
  | zero => rfl
  | succ n ih =>
    cases t with
    | nil => rfl
    | cons c r => exact ih r

theorem replace_cons_append (c : Char) (p new r : Text) :
    replace (c :: p) new (c :: (p ++ r)) = new ++ replace (c :: p) new r := by
  have hhere : List.isPrefixOf (c :: p) (c :: (p ++ r)) = true :=
    List.isPrefixOf_iff_prefix.2 (List.prefix_append (c :: p) r)
  rw [replace, replace.go, if_pos hhere, go_eq_replace_drop, List.length_cons, Nat.add_sub_cancel,
    List.drop_left]

theorem replace_append (hp : pattern ≠ []) (r : Text) :
    replace pattern new (pattern ++ r) = new ++ replace pattern new r := by
  obtain ⟨c, p, rfl⟩ := List.exists_cons_of_ne_nil hp
  exact replace_cons_append c p new r

theorem replace_cons (h : ¬ pattern <+: c :: r) :
    replace pattern new (c :: r) = c :: replace pattern new r := by
  rw [replace, replace.go, if_neg (mt List.isPrefixOf_iff_prefix.1 h), replace]

theorem occurrence_induction {P : Text → Prop} (hP : ∀ p, P p → p ≠ []) {motive : Text → Prop}
    (nil : motive []) (occurrence : ∀ p, P p → ∀ r, motive r → motive (p ++ r))
    (cons : ∀ c r, (∀ p, P p → ¬ p <+: c :: r) → motive r → motive (c :: r)) (t : Text) :
    motive t := by
  induction hn : t.length using Nat.strongRecOn generalizing t with
  | ind n ih =>
    subst hn
    cases t with
    | nil => exact nil
    | cons c r =>
      by_cases h : ∃ p, P p ∧ p <+: c :: r
      · obtain ⟨p, hp, u, hu⟩ := h
        have hpos : 0 < p.length := List.length_pos_iff.2 (hP p hp)
        have hlt : u.length < (c :: r).length := by
          rw [← hu, List.length_append]
          omega
        rw [← hu]
        exact occurrence p hp u (ih _ hlt u rfl)
      · exact cons c r (fun p hp hprefix => h ⟨p, hp, hprefix⟩) (ih _ (by simp) r rfl)

/-- What replacing looks at: an occurrence at the start, or a character that begins none. -/
@[elab_as_elim]
theorem replace_induction (hp : pattern ≠ []) {motive : Text → Prop} (nil : motive [])
    (occurrence : ∀ r, motive r → motive (pattern ++ r))
    (cons : ∀ c r, ¬ pattern <+: c :: r → motive r → motive (c :: r)) (t : Text) : motive t := by
  refine occurrence_induction (P := (· = pattern)) ?_ nil ?_ (fun c r h => cons c r (h _ rfl)) t
  · rintro _ rfl
    exact hp
  · rintro _ rfl
    exact occurrence

/-- No occurrence begins in the first text, be it seen alone or followed by the second one. -/
def Clear (pattern a b : Text) : Prop := ∀ s, s ≠ [] → s <:+ a → ¬ pattern <+: s ++ b

theorem Clear.replace_append (h : Clear pattern a b) :
    replace pattern new (a ++ b) = a ++ replace pattern new b := by
  induction a with
  | nil => rfl
  | cons c a ih =>
    have hlater : Clear pattern a b := fun s hs hsuffix =>
      h s hs (hsuffix.trans (List.suffix_cons c a))
    have hhere : ¬ pattern <+: c :: (a ++ b) := h (c :: a) (List.cons_ne_nil c a) List.suffix_rfl
    rw [List.cons_append, replace_cons hhere, ih hlater, List.cons_append]

theorem clear_of_notMem {p : Text} (h : c ∉ a) (b : Text) : Clear (c :: p) a b := by
  rintro s hs hsuffix hprefix
  obtain ⟨d, u, rfl⟩ := List.exists_cons_of_ne_nil hs
  have hcd : c = d := (List.cons_prefix_cons.1 hprefix).1
  exact h (hcd ▸ hsuffix.subset List.mem_cons_self)

theorem prefix_append_cases {s : Text} (h : s <+: a ++ b) :
    s <+: a ∨ ∃ q, q ≠ [] ∧ s = a ++ q ∧ q <+: b := by
  obtain ⟨u, hu⟩ := h
  rcases List.append_eq_append_iff.1 hu with ⟨v, rfl, -⟩ | ⟨q, rfl, rfl⟩
  · exact .inl (List.prefix_append s v)
  · by_cases hq : q = []
    · rw [hq, List.append_nil]
      exact .inl List.prefix_rfl
    · exact .inr ⟨q, hq, rfl, List.prefix_append q u⟩

theorem length_replace (hp : pattern ≠ []) (new t : Text) : ∃ n,
    (replace pattern new t).length + n * pattern.length = t.length + n * new.length := by
  induction t using replace_induction hp with
  | nil => exact ⟨0, by simp⟩
  | occurrence r ih =>
    obtain ⟨n, hn⟩ := ih
    refine ⟨n + 1, ?_⟩
    rw [replace_append hp, List.length_append, List.length_append, Nat.succ_mul, Nat.succ_mul]
    omega
  | cons c r h ih =>
    obtain ⟨n, hn⟩ := ih
    refine ⟨n, ?_⟩
    rw [replace_cons h, List.length_cons, List.length_cons]
    omega

theorem replace_eq_self_iff (hp : pattern ≠ []) :
    replace pattern new t = t ↔ new = pattern ∨ ¬ pattern <:+: t := by
  induction t using replace_induction hp with
  | nil => exact iff_of_true replace_nil (.inr fun h => hp (List.infix_nil.1 h))
  | occurrence r ih =>
    have hinfix : pattern <:+: pattern ++ r := (List.prefix_append pattern r).isInfix
    rw [replace_append hp, or_iff_left (not_not.2 hinfix)]
    constructor
    · intro h
      obtain ⟨n, hn⟩ := length_replace hp new r
      have hlength := congrArg List.length h
      rw [List.length_append, List.length_append] at hlength
      have hsame : (n + 1) * new.length = (n + 1) * pattern.length := by
        rw [Nat.succ_mul, Nat.succ_mul]
        omega
      exact (List.append_inj h (Nat.eq_of_mul_eq_mul_left n.succ_pos hsame)).1
    · intro h
      rw [ih.2 (.inl h), h]
  | cons c r h ih =>
    rw [replace_cons h, List.cons.injEq, and_iff_right rfl, ih, List.infix_cons_iff,
      or_iff_right h]

theorem replace_self (hp : pattern ≠ []) (t : Text) : replace pattern pattern t = t :=
  (replace_eq_self_iff hp).2 (.inl rfl)

end LineShell.Text
