import LineShell.Completion.Completer
import LineShell.Proofs.Chain.Ending

/-! Where completion expects a command, against where parsing finds one. Completion looks only at
the end of what stands before the word, and goes wrong just where operator characters are left over
from pairs. -/

namespace LineShell.Completer

open Text Chain

variable {before w : Text}

theorem isCommandPosition_iff : isCommandPosition before = true ↔
    trimEnd before = [] ∨ EndsOperator (trimEnd before) := by
  have hsuffix (t u : Text) : isSuffixOf t u = true ↔ t <:+ u := by
    rw [isSuffixOf, List.isPrefixOf_iff_prefix, List.reverse_prefix]
  simp only [isCommandPosition, Bool.or_eq_true, hsuffix, List.isEmpty_iff,
    endsOperator_iff, or_assoc]

/-- A word is completed as a command just where it would be parsed as one, except after ampersands
or bars of which one is left over from the pairs: there it is an argument of that one. -/
theorem command_position (hbefore : ∀ c, before.getLast? = some c → isBlank c = true)
    (hcomment : stripComment before = before) (hword : Word w) (hfree : OperatorFree w)
    (hhead : w.head? ≠ some '#') :
    (¬ OddRun (trimEnd before) →
      (isCommandPosition before = true ↔
        (parse (before ++ w)).getLast?.map (·.text) = some w)) ∧
    (OddRun (trimEnd before) →
      isCommandPosition before = true ∧
        (parse (before ++ w)).getLast?.map (·.text) ≠ some w ∧
        ∃ c gap, (c = '&' ∨ c = '|') ∧ Blank gap ∧ gap ≠ [] ∧
          (parse (before ++ w)).getLast?.map (·.text) = some (c :: (gap ++ w))) := by
  obtain ⟨gap, hgap, hempty, htext⟩ :=
    text_getLast?_parse_append hbefore (commentFree_iff.2 hcomment) hword hfree hhead
  have hwhole : (parse (before ++ w)).getLast?.map (·.text) = some w ↔
      lastPiece (trimEnd before) = [] := by
    rw [htext, Option.some.injEq, hword.trimmed.trim_append_eq_iff hword.1, blank_append,
      blank_lastPiece_trimEnd]
    exact and_iff_left hgap
  refine ⟨fun hodd => ?_, fun hodd => ?_⟩
  · rw [isCommandPosition_iff, hwhole, lastPiece_eq_nil_iff hodd]
  · obtain ⟨hends, c, hc, hpiece⟩ := hodd.lastPiece
    have hleft : lastPiece (trimEnd before) ≠ [] := by
      rw [hpiece]
      exact List.cons_ne_nil c []
    have hgap' : gap ≠ [] := by
      intro hnil
      rw [hempty hnil] at hleft
      exact hleft rfl
    have hblank : isBlank c = false := by
      rcases hc with rfl | rfl <;> decide
    have htrimmed : Trimmed (c :: (gap ++ w)) := hword.trimmed_cons_append hblank gap
    refine ⟨isCommandPosition_iff.2 (.inr hends), fun h => hleft (hwhole.1 h), ?_⟩
    refine ⟨c, gap, hc, hgap, hgap', ?_⟩
    rw [htext, hpiece, List.append_assoc, List.singleton_append, htrimmed.trim_eq]

theorem command_position_after_bars :
    (¬ OddRun (trimEnd "true |||| && ".toList) ∧
      (isCommandPosition "true |||| && ".toList = true ↔
        (parse ("true |||| && ".toList ++ "&x#".toList)).getLast?.map (·.text) =
          some "&x#".toList)) ∧
    OddRun (trimEnd "true |||\t".toList) ∧
      isCommandPosition "true |||\t".toList = true ∧
      (parse ("true |||\t".toList ++ "ls".toList)).getLast?.map (·.text) ≠ some "ls".toList := by
  have heven : ¬ OddRun (trimEnd "true |||| && ".toList) := by decide
  have hodd : OddRun (trimEnd "true |||\t".toList) := by decide
  have hspace (c : Char) (hc : "true |||| && ".toList.getLast? = some c) : isBlank c = true := by
    obtain rfl : ' ' = c := Option.some.inj hc
    decide
  have htab (c : Char) (hc : "true |||\t".toList.getLast? = some c) : isBlank c = true := by
    obtain rfl : '\t' = c := Option.some.inj hc
    decide
  have hagree := (@command_position "true |||| && ".toList "&x#".toList hspace
    (by decide) (by decide) (by decide) (by decide)).1 heven
  have hdiffer := (@command_position "true |||\t".toList "ls".toList htab
    (by decide) (by decide) (by decide) (by decide)).2 hodd
  exact ⟨⟨heven, hagree⟩, hodd, hdiffer.1, hdiffer.2.1⟩

end LineShell.Completer
