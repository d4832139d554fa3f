import LineShell.Text.Basic
import Mathlib.Tactic.Common

/-! One pair of matching quotes around the whole of a text. What stands between the quotes is not
looked at, so that a text in quotes comes back as it was. -/

namespace LineShell.Text

inductive Unquotes : Text → Text → Prop
  | pair {q : Char} {t : Text} (hq : q = '\'' ∨ q = '"') : Unquotes (q :: (t ++ [q])) t
  | bare {t : Text} (h : ∀ q u, q = '\'' ∨ q = '"' → t ≠ q :: (u ++ [q])) : Unquotes t t

theorem stripQuotes_subset (t : Text) : stripQuotes t ⊆ t := by
  unfold stripQuotes
  split
  · split
    · exact List.Subset.trans (List.dropLast_subset _) (List.subset_cons_self _ _)
    · exact List.Subset.refl _
  · exact List.Subset.refl _

theorem stripQuotes_quoted {q : Char} (hq : q = '\'' ∨ q = '"') (t : Text) :
    stripQuotes (q :: (t ++ [q])) = t := by
  simp [stripQuotes, hq]

theorem stripQuotes_eq_self {t : Text} (h : ∀ q u, q = '\'' ∨ q = '"' → t ≠ q :: (u ++ [q])) :
    stripQuotes t = t := by
  unfold stripQuotes
  split
  · next q r =>
    refine if_neg fun hends => ?_
    obtain ⟨u, rfl⟩ := List.getLast?_eq_some_iff.1 hends.2
    exact h q u hends.1 rfl
  · rfl

theorem stripQuotes_eq_iff {t u : Text} : stripQuotes t = u ↔ Unquotes t u := by
  constructor
  · rintro rfl
    by_cases h : ∃ q u, (q = '\'' ∨ q = '"') ∧ t = q :: (u ++ [q])
    · obtain ⟨q, u, hq, rfl⟩ := h
      rw [stripQuotes_quoted hq]
      exact .pair hq
    · have hbare : ∀ q u, q = '\'' ∨ q = '"' → t ≠ q :: (u ++ [q]) :=
        fun q u hq ht => h ⟨q, u, hq, ht⟩
      rw [stripQuotes_eq_self hbare]
      exact .bare hbare
  · rintro (⟨hq⟩ | ⟨hbare⟩)
    · exact stripQuotes_quoted hq u
    · exact stripQuotes_eq_self hbare

end LineShell.Text
