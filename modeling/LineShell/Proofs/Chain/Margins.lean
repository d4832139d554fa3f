import LineShell.Proofs.Chain.Ending
import LineShell.Proofs.Execution.Sequence

/-! What may stand around a line without making a difference: blanks on either side, and a comment
after it. Whatever the line ends with, what is left of an addition when its comments are cut is
blank, and blanks at the ends of a line belong to pieces that are trimmed. -/

namespace LineShell

namespace Chain

open Text

section

variable {t u w r : Text} {flag : Bool}

theorem go_append_of_ne (h : stripComment.go flag t ≠ t) (r : Text) :
    stripComment.go flag (t ++ r) = stripComment.go flag t := by
  induction t generalizing flag with
  | nil => exact absurd rfl h
  | cons c t ih =>
    rw [List.cons_append, stripComment.go, stripComment.go]
    rw [stripComment.go] at h
    by_cases hc : c = '#' ∧ flag = true
    · rw [if_pos hc, if_pos hc]
    · rw [if_neg hc] at h
      have hlater : stripComment.go (isBlank c) t ≠ t := fun heq => h (by rw [heq])
      rw [if_neg hc, if_neg hc, ih hlater]

theorem go_isPrefix (flag : Bool) (t : Text) : stripComment.go flag t <+: t := by
  induction t generalizing flag with
  | nil => exact List.prefix_rfl
  | cons c t ih =>
    rw [stripComment.go]
    split
    · exact List.nil_prefix
    · exact List.cons_prefix_cons.2 ⟨rfl, ih _⟩

theorem CommentFree.prefix_stripComment (h : CommentFree u) (hu : u <+: t) :
    u <+: stripComment t := by
  obtain ⟨r, rfl⟩ := hu
  rw [stripComment, go_append (commentFree_iff.1 h)]
  exact List.prefix_append u _

theorem blankAfter_of_blank (hu : Blank u) : blankAfter true u = true := by
  induction u with
  | nil => rfl
  | cons c u ih =>
    obtain ⟨hc, hu⟩ := blank_cons.1 hu
    rw [blankAfter, hc, ih hu]

theorem stripComment_blank_append (hu : Blank u) (t : Text) :
    stripComment (u ++ t) = u ++ stripComment t := by
  rw [stripComment, go_append (go_of_blank hu true), blankAfter_of_blank hu, stripComment]

def links (t : Text) : Chain := markFirst (keep ((.first, (split t).1) :: (split t).2))

theorem links_append_blank (t : Text) (hw : Blank w) : links (t ++ w) = links t := by
  have hdetached : Detached w := detached_of_head fun c hc => hw c (List.mem_of_mem_head? hc)
  have hkeep : keep [] = [] := rfl
  rw [links, split_append (hdetached.apart t), split_of_blank hw, keep_glue _ _ _ hw, hkeep,
    List.append_nil, links]

theorem links_blank_append (hu : Blank u) (t : Text) : links (u ++ t) = links t := by
  rw [links, split_blank_append hu, links]
  simp only [keep, List.map_cons, trim_blank_append hu]

theorem parse_append_of_blank (line : Text) (hr : ∀ flag, Blank (stripComment.go flag r)) :
    parse (line ++ r) = parse line := by
  show links (stripComment (line ++ r)) = links (stripComment line)
  by_cases hline : stripComment line = line
  · rw [hline, stripComment, go_append hline, links_append_blank line (hr _)]
  · rw [stripComment, go_append_of_ne hline, stripComment]

theorem parse_append_comment (line x : Text) : parse (line ++ " #".toList ++ x) = parse line := by
  rw [List.append_assoc]
  refine parse_append_of_blank line fun flag => ?_
  have hcut : stripComment.go flag (" #".toList ++ x) = [' '] := by cases flag <;> rfl
  rw [hcut]
  exact blank_cons.2 ⟨by decide, blank_nil⟩

theorem parse_append_blank (line : Text) (hw : Blank w) : parse (line ++ w) = parse line := by
  refine parse_append_of_blank line fun flag => ?_
  rwa [go_of_blank hw]

theorem parse_blank_append (hu : Blank u) (line : Text) : parse (u ++ line) = parse line := by
  show links (stripComment (u ++ line)) = links (stripComment line)
  rw [stripComment_blank_append hu, links_blank_append hu]

end

end Chain

namespace Machine

open Text Chain

/-- A comment is cut off right before the first number sign that begins a word, so that no longer
part of the line would do. Neither another comment after a line nor blanks around it make a
difference to its links, and so none to what running it does, from any machine in any world. -/
theorem runLine_margins (line : Text) :
    (stripComment line <+: line ∧ CommentFree (stripComment line) ∧
      ∀ u, u <+: line → CommentFree u → u <+: stripComment line) ∧
    stripComment (stripComment line) = stripComment line ∧
    (∀ x, parse (line ++ " #".toList ++ x) = parse line) ∧
    (∀ u w, Blank u → Blank w → parse (u ++ line ++ w) = parse line) ∧
    ∀ {σ : Type} (host : Host σ) (m : Machine σ),
      (∀ x, runLine host m (line ++ " #".toList ++ x) = runLine host m line) ∧
      (∀ u w, Blank u → Blank w → runLine host m (u ++ line ++ w) = runLine host m line) ∧
      runLine host m (line ++ ['\r']) = runLine host m line := by
  have hblanks (u w : Text) (hu : Blank u) (hw : Blank w) :
      parse (u ++ line ++ w) = parse line := by
    rw [parse_append_blank _ hw, parse_blank_append hu]
  have hreturn : Blank ['\r'] := blank_cons.2 ⟨by decide, blank_nil⟩
  refine ⟨⟨go_isPrefix true line, commentFree_stripComment line, fun u hu h => ?_⟩,
    commentFree_iff.1 (commentFree_stripComment line), parse_append_comment line, hblanks,
    fun host m => ⟨fun x => ?_, fun u w hu hw => ?_, ?_⟩⟩
  · exact h.prefix_stripComment hu
  · rw [runLine, parse_append_comment, runLine]
  · rw [runLine, hblanks u w hu hw, runLine]
  · rw [runLine, parse_append_blank line hreturn, runLine]

theorem runLine_margins_half_operator :
    stripComment "echo a&".toList <+: stripComment "echo a& #b".toList ∧
      parse ("\t".toList ++ "ls &&& #a".toList ++ [Char.ofNat 0x2003, '\r']) =
        parse "ls &&& #a".toList ∧
      runLine Host.void idle ("\t".toList ++ "exit 3 |".toList ++ ['\r']) =
        runLine Host.void idle "exit 3 |".toList := by
  have htab : Blank "\t".toList := by decide
  obtain ⟨⟨-, -, hlongest⟩, -⟩ := runLine_margins "echo a& #b".toList
  obtain ⟨-, -, -, hparse, -⟩ := runLine_margins "ls &&& #a".toList
  obtain ⟨-, -, -, -, hrun⟩ := runLine_margins "exit 3 |".toList
  exact ⟨hlongest _ (by decide) (commentFree_stripComment _),
    hparse _ _ htab (by decide), (hrun Host.void idle).2.1 _ _ htab (by decide)⟩

end Machine

end LineShell
