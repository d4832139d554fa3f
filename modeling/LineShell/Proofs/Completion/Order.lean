import LineShell.Completion.Completer
import Mathlib.Data.Char
import Mathlib.Data.List.Induction
import Mathlib.Data.List.Lex

/-! Candidates come in order. Texts that are put into a sorted set one after another stand in it
once each, and sorting by what is displayed is strict where no two candidates look the same. -/

namespace LineShell

section

variable {t u : Text} {ts : List Text}

theorem mem_insertSorted : u ∈ insertSorted t ts ↔ u = t ∨ u ∈ ts := by
  induction ts with
  | nil => simp [insertSorted]
  | cons v later ih =>
    rw [insertSorted]
    split
    · next h =>
      subst h
      simp
    · split
      · exact List.mem_cons
      · rw [List.mem_cons, ih, List.mem_cons, or_left_comm]

theorem pairwise_insertSorted (t : Text) (h : ts.Pairwise (· < ·)) :
    (insertSorted t ts).Pairwise (· < ·) := by
  induction ts with
  | nil => exact List.pairwise_singleton _ t
  | cons v later ih =>
    obtain ⟨hv, hlater⟩ := List.pairwise_cons.1 h
    rw [insertSorted]
    split
    · exact h
    · next hne =>
      split
      · next hlt =>
        refine List.pairwise_cons.2 ⟨?_, h⟩
        exact List.forall_mem_cons.2 ⟨hlt, fun u hu => hlt.trans (hv u hu)⟩
      · next hnot =>
        have hlt : v < t := lt_of_le_of_ne (not_lt.1 hnot) (Ne.symm hne)
        refine List.pairwise_cons.2 ⟨fun u hu => ?_, ih hlater⟩
        rcases mem_insertSorted.1 hu with rfl | hu
        · exact hlt
        · exact hv u hu

theorem sortedSet_concat (ts : List Text) (t : Text) :
    sortedSet (ts ++ [t]) = insertSorted t (sortedSet ts) := List.foldl_concat _ _ t ts

theorem mem_sortedSet : t ∈ sortedSet ts ↔ t ∈ ts := by
  induction ts using List.reverseRecOn with
  | nil => exact Iff.rfl
  | append_singleton ts u ih =>
    rw [sortedSet_concat, mem_insertSorted, ih, List.mem_append, List.mem_singleton, or_comm]

theorem pairwise_sortedSet (ts : List Text) : (sortedSet ts).Pairwise (· < ·) := by
  induction ts using List.reverseRecOn with
  | nil => exact List.Pairwise.nil
  | append_singleton ts u ih =>
    rw [sortedSet_concat]
    exact pairwise_insertSorted u ih

end

namespace Candidate

theorem mem_sorted {cs : List Candidate} {k : Candidate} : k ∈ sorted cs ↔ k ∈ cs :=
  List.mem_mergeSort

theorem pairwise_sorted {cs : List Candidate} (h : cs.Pairwise fun a b => a.display ≠ b.display) :
    (sorted cs).Pairwise fun a b => a.display < b.display := by
  have hiff (a b : Candidate) :
      (!decide (b.display < a.display)) = true ↔ a.display ≤ b.display := by simp
  have hle : (sorted cs).Pairwise fun a b => a.display ≤ b.display := by
    have htrans (a b c : Candidate) (hab : (!decide (b.display < a.display)) = true)
        (hbc : (!decide (c.display < b.display)) = true) :
        (!decide (c.display < a.display)) = true :=
      (hiff a c).2 (((hiff a b).1 hab).trans ((hiff b c).1 hbc))
    have htotal (a b : Candidate) :
        (!decide (b.display < a.display) || !decide (a.display < b.display)) = true := by
      rw [Bool.or_eq_true, hiff, hiff]
      exact le_total a.display b.display
    exact (List.pairwise_mergeSort htrans htotal cs).imp fun {a b} => (hiff a b).1
  have hne : (sorted cs).Pairwise fun a b => a.display ≠ b.display :=
    (List.mergeSort_perm cs _).symm.pairwise h fun hab => Ne.symm hab
  exact hle.imp₂ (fun a b => lt_of_le_of_ne) hne

end Candidate

end LineShell
