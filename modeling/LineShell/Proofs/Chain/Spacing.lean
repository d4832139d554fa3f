import LineShell.Proofs.Chain.Ending
import LineShell.Proofs.Text.Words

/-! Lines in which operators stand apart from other words. Splitting such a line cuts it between its
words, so that every link can be told from the words alone. -/

namespace LineShell.Chain

open Text

/-- Each operator of the line is a word of its own, and there is no comment. -/
def Spaced (line : Text) : Prop :=
  ∀ w ∈ words line, w.head? ≠ some '#' ∧
    (w = "&&".toList ∨ w = "||".toList ∨ w = ";".toList ∨ OperatorFree w)

instance (line : Text) : Decidable (Spaced line) := List.decidableBAll _ _

def leaders (c : Chain) : List (Option Text) := c.map fun link => (words link.text).head?

section

variable {t w r gap : Text}

theorem spaced_word_append (hgap : Blank gap) (hw : Word w) (hr : Parting r) :
    Spaced (gap ++ w ++ r) ↔
      (w.head? ≠ some '#' ∧
        (w = "&&".toList ∨ w = "||".toList ∨ w = ";".toList ∨ OperatorFree w)) ∧ Spaced r := by
  rw [Spaced, words_word_append hgap hw hr, List.forall_mem_cons, Spaced]

theorem Spaced.commentFree (h : Spaced t) : CommentFree t := by
  induction t using word_induction with
  | blank gap hgap => exact commentFree_of_blank hgap
  | word gap w r hgap hw hr ih =>
    obtain ⟨⟨hhead, -⟩, hlater⟩ := (spaced_word_append hgap hw hr).1 h
    exact ((commentFree_of_blank hgap).append (commentFree_of_word hw hhead)).append (ih hlater)

theorem split_word_append (hw : OperatorFree w) (hr : Parting r) :
    split (w ++ r) = (w ++ (split r).1, (split r).2) := by
  rw [split_append ((detached_of_head hr).apart w), split_of_free hw]
  rfl

theorem parting_fst_split (hr : Parting r) : Parting (split r).1 := by
  have hassembled := (isDecomposition_split r).assembled
  intro c hc
  refine hr c ?_
  rw [← hassembled, Pieces.assemble, List.head?_append, hc, Option.some_or]

theorem leaders_markFirst (c : Chain) : leaders (markFirst c) = leaders c := by
  cases c <;> rfl

theorem leaders_keep_word (hgap : Blank gap) (hw : Word w) (hr : Parting r) (o : Operator)
    (ps : List (Operator × Text)) :
    leaders (keep ((o, gap ++ w ++ r) :: ps)) = some w :: leaders (keep ps) := by
  have hshown : ¬ Blank (gap ++ w ++ r) := by
    rw [blank_append, blank_append]
    exact fun h => hw.not_blank h.1.2
  rw [keep_cons_shown hshown, leaders, List.map_cons, words_trim, words_word_append hgap hw hr]
  rfl

end

end LineShell.Chain
