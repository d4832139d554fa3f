import LineShell.Proofs.Chain.Ending
import LineShell.Proofs.Chain.Rendering
import LineShell.Proofs.Text.Words

/-! Commands that are written word by word. Words that hold no operator and begin no comment make
up a single command when they stand in a row, with the blanks between them. -/

namespace LineShell.Chain

open Text

structure IsArgument (w : Text) : Prop where
  word : Word w
  operatorFree : OperatorFree w
  head : w.head? ≠ some '#'

section

variable {t u w name : Text} {ws : List Text}

theorem isArgument_iff :
    IsArgument w ↔ Word w ∧ OperatorFree w ∧ w.head? ≠ some '#' :=
  ⟨fun h => ⟨h.word, h.operatorFree, h.head⟩, fun ⟨hword, hfree, hhead⟩ => ⟨hword, hfree, hhead⟩⟩

instance (w : Text) : Decidable (IsArgument w) := decidable_of_iff' _ isArgument_iff

theorem operatorFree_append (ht : OperatorFree t) (hu : OperatorFree u) (h : Apart t u) :
    OperatorFree (t ++ u) := by
  rw [operatorFree_iff] at ht hu ⊢
  rw [split_append h, ht, hu]
  rfl

theorem operatorFree_of_forall (h : ∀ c ∈ t, c ≠ '&' ∧ c ≠ '|' ∧ c ≠ ';') : OperatorFree t := by
  induction t with
  | nil => exact operatorFree_nil
  | cons c t ih =>
    obtain ⟨hc, ht⟩ := List.forall_mem_cons.1 h
    exact operatorFree_cons.2 ⟨not_startsOperator hc t, ih ht⟩

theorem IsCommand.cons (hw : IsArgument w) (ht : IsCommand t) : IsCommand (w ++ ' ' :: t) := by
  have hspace : Blank [' '] := by decide
  constructor
  · exact List.append_ne_nil_of_left_ne_nil hw.word.1 _
  · constructor
    · intro c hc
      rw [List.head?_append_of_ne_nil _ hw.word.1] at hc
      exact hw.word.trimmed.head c hc
    · intro c hc
      rw [← List.singleton_append, ← List.append_assoc,
        List.getLast?_append_of_ne_nil _ ht.shown] at hc
      exact ht.trimmed.last c hc
  · exact operatorFree_append hw.operatorFree (operatorFree_blank_append hspace ht.operatorFree)
      ((detached_of_isBlank (by decide) t).apart w)
  · have hfree : CommentFree [' '] := by decide
    exact (commentFree_of_word hw.word hw.head).append (hfree.append ht.commentFree)

theorem IsArgument.isCommand (hw : IsArgument w) : IsCommand w :=
  ⟨hw.word.1, hw.word.trimmed, hw.operatorFree, commentFree_of_word hw.word hw.head⟩

theorem isCommand_unwords (hne : ws ≠ []) (h : ∀ w ∈ ws, IsArgument w) :
    IsCommand (unwords ws) := by
  induction ws with
  | nil => exact absurd rfl hne
  | cons w ws ih =>
    obtain ⟨hw, hws⟩ := List.forall_mem_cons.1 h
    by_cases hnil : ws = []
    · rw [hnil, unwords, List.intercalate_singleton]
      exact hw.isCommand
    · rw [unwords_cons w hnil]
      exact .cons hw (ih hnil hws)

theorem IsCommand.parse_eq (ht : IsCommand t) : parse t = [⟨.first, t⟩] := by
  rw [← markFirst_linksAfter .first, linksAfter_command ht]
  rfl

theorem IsCommand.joinable (ht : IsCommand t) : Joinable t := by
  right
  rw [commentFree_iff.1 ht.commentFree, ht.trimmed.trim_eq]
  obtain ⟨c, r, rfl⟩ := List.exists_cons_of_ne_nil ht.shown
  exact (operatorFree_cons.1 ht.operatorFree).1

theorem isArgument_of_isNameChar (hne : name ≠ []) (h : ∀ c ∈ name, isNameChar c = true) :
    IsArgument name ∧ IsArgument ('$' :: name) := by
  have hplain (c : Char) (hc : c ∈ name) : c ≠ '&' ∧ c ≠ '|' ∧ c ≠ ';' := by
    have hname := h c hc
    refine ⟨?_, ?_, ?_⟩ <;> rintro rfl <;> exact absurd hname (by decide)
  have hshown (c : Char) (hc : c ∈ name) : isBlank c = false := isBlank_of_isNameChar (h c hc)
  refine ⟨⟨⟨hne, hshown⟩, operatorFree_of_forall hplain, fun hhead => ?_⟩, ⟨⟨?_, ?_⟩, ?_, ?_⟩⟩
  · exact absurd (h '#' (List.mem_of_mem_head? hhead)) (by decide)
  · exact List.cons_ne_nil _ _
  · exact List.forall_mem_cons.2 ⟨by decide, hshown⟩
  · exact operatorFree_of_forall (List.forall_mem_cons.2 ⟨by decide, hplain⟩)
  · exact fun hhead => absurd (Option.some.inj hhead) (by decide)

end

end LineShell.Chain
