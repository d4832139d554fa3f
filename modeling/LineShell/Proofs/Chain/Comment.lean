import LineShell.Chain.Basic
import Mathlib.Data.List.Basic

/-! Comments in a line that is put together from parts. A text has no comment just if each number
sign in it stands right after a character that is not blank. -/

namespace LineShell.Chain

/-- Whether a number sign right after the text would begin a comment, when the flag tells the
same of a number sign right before the text. -/
def blankAfter : Bool → Text → Bool
  | afterBlank, [] => afterBlank
  | _, c :: r => blankAfter (Text.isBlank c) r

theorem go_append {flag : Bool} {t : Text} (h : stripComment.go flag t = t) (r : Text) :
    stripComment.go flag (t ++ r) = t ++ stripComment.go (blankAfter flag t) r := by
  induction t generalizing flag with
  | nil => rfl
  | cons c u ih =>
    rw [stripComment.go] at h
    by_cases hc : c = '#' ∧ flag = true
    · rw [if_pos hc] at h
      cases h
    · rw [if_neg hc, List.cons.injEq] at h
      rw [List.cons_append, stripComment.go, if_neg hc, ih h.2, blankAfter, List.cons_append]

theorem blankAfter_eq_false {flag : Bool} {t : Text} :
    blankAfter flag t = false ↔
      t = [] ∧ flag = false ∨ ∃ c, t.getLast? = some c ∧ Text.isBlank c = false := by
  induction t generalizing flag with
  | nil => simp [blankAfter]
  | cons c r ih =>
    rw [blankAfter, ih]
    cases r with
    | nil => simp
    | cons d u => simp

theorem go_eq_self {flag : Bool} {t : Text} :
    stripComment.go flag t = t ↔ ∀ u v, t = u ++ '#' :: v → blankAfter flag u = false := by
  induction t generalizing flag with
  | nil => simp [stripComment.go]
  | cons c r ih =>
    have hcut : (∀ u v, c :: r = u ++ '#' :: v → blankAfter flag u = false) ↔
        (c = '#' → flag = false) ∧
          ∀ u v, r = u ++ '#' :: v → blankAfter (Text.isBlank c) u = false := by
      constructor
      · intro h
        refine ⟨fun hc => h [] r (by rw [hc]; rfl), fun u v hr => h (c :: u) v ?_⟩
        rw [hr, List.cons_append]
      · rintro ⟨hfirst, hlater⟩ u v huv
        cases u with
        | nil => exact hfirst (List.cons.inj huv).1
        | cons d u =>
          obtain ⟨rfl, hr⟩ := List.cons.inj huv
          exact hlater u v hr
    rw [hcut, ← ih, stripComment.go]
    by_cases hc : c = '#' ∧ flag = true
    · simp [hc]
    · have hfirst : c = '#' → flag = false := fun h => eq_false_of_ne_true fun hf => hc ⟨h, hf⟩
      rw [if_neg hc, List.cons.injEq]
      exact ⟨fun h => ⟨hfirst, h.2⟩, fun h => ⟨rfl, h.2⟩⟩

/-- No number sign stands at the start of the text or right after a blank. -/
def CommentFree (t : Text) : Prop :=
  ∀ u v, t = u ++ '#' :: v → ∃ c, u.getLast? = some c ∧ Text.isBlank c = false

theorem commentFree_iff {t : Text} : CommentFree t ↔ stripComment t = t := by
  rw [stripComment, go_eq_self]
  simp [CommentFree, blankAfter_eq_false]

instance (t : Text) : Decidable (CommentFree t) := decidable_of_iff' _ commentFree_iff

theorem commentFree_stripComment (t : Text) : CommentFree (stripComment t) := by
  have hgo (flag : Bool) (t : Text) :
      stripComment.go flag (stripComment.go flag t) = stripComment.go flag t := by
    induction t generalizing flag with
    | nil => rfl
    | cons c r ih =>
      by_cases hc : c = '#' ∧ flag = true
      · rw [stripComment.go, if_pos hc, stripComment.go]
      · rw [stripComment.go, if_neg hc, stripComment.go, if_neg hc, ih]
  exact commentFree_iff.2 (hgo true t)

theorem CommentFree.append {a b : Text} (ha : CommentFree a) (hb : CommentFree b) :
    CommentFree (a ++ b) := by
  intro u v huv
  rcases List.append_eq_append_iff.1 huv with ⟨s, rfl, hsign⟩ | ⟨s, rfl, hsign⟩
  · obtain ⟨c, hlast, hc⟩ := hb s v hsign
    refine ⟨c, ?_, hc⟩
    rw [List.getLast?_append, hlast, Option.some_or]
  · cases s with
    | nil =>
      obtain ⟨c, hlast, -⟩ := hb [] v hsign.symm
      cases hlast
    | cons d s =>
      obtain ⟨rfl, -⟩ := List.cons.inj hsign
      exact ha u s rfl

theorem commentFree_of_infix {s t : Text} (h : CommentFree t) (hst : s <:+: t)
    (hhead : s.head? ≠ some '#') : CommentFree s := by
  rintro u v rfl
  obtain ⟨x, y, rfl⟩ := hst
  cases u with
  | nil => exact absurd rfl hhead
  | cons d u =>
    have hlast := h (x ++ d :: u) (v ++ y) (by simp)
    rwa [List.getLast?_append_of_ne_nil _ (List.cons_ne_nil d u)] at hlast

end LineShell.Chain
