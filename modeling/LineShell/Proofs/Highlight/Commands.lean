import LineShell.Proofs.Chain.Spacing
import LineShell.Proofs.Highlight.Painting

/-! The words that are coloured as commands are those that the links of the line begin with, as long
as operators are written apart from other words. The colours go word by word and the links come out
of splitting and trimming, but both start a command at the first word after an operator. -/

namespace LineShell.Highlight

open Text Chain

def commandWords (ps : List (Text × Option Style)) : List Text :=
  (ps.filter fun p => p.2.any fun s => s.colour == .cyan).map (·.1)

section

variable {t w : Text} {ws : List Text} {isCommand : Bool} {s : Style}

theorem isOperator_iff :
    isOperator w = true ↔ ∃ o : Operator, o ≠ .first ∧ w = o.spelling := by
  rw [exists_spelling_iff (w = ·)]
  simp [isOperator, or_assoc]

theorem styleOf_operator (hw : isOperator w = true) (isCommand : Bool) :
    styleOf isCommand w = (some .operator, true) := if_pos hw

theorem styleOf_command (hw : isOperator w = false) :
    styleOf true w = (some (.command w), false) := by
  simp [styleOf, hw]

theorem styleOf_argument (hw : isOperator w = false) :
    ∃ style, styleOf false w = (style, false) ∧ ∀ s, style = some s → s.colour ≠ .cyan := by
  simp only [styleOf, hw, Bool.false_eq_true, if_false]
  split
  · exact ⟨_, rfl, by rintro s ⟨rfl⟩; decide⟩
  · split
    · exact ⟨_, rfl, by rintro s ⟨rfl⟩; decide⟩
    · exact ⟨_, rfl, nofun⟩

theorem eq_command_of_styleOf (h : (styleOf isCommand w).1 = some s) (hs : s.colour = .cyan) :
    s = .command w := by
  cases hw : isOperator w with
  | true =>
    rw [styleOf_operator hw] at h
    obtain rfl := Option.some.inj h
    cases hs
  | false =>
    cases isCommand with
    | true =>
      rw [styleOf_command hw] at h
      exact (Option.some.inj h).symm
    | false =>
      obtain ⟨style, hstyle, hother⟩ := styleOf_argument hw
      rw [hstyle] at h
      exact absurd hs (hother s h)

theorem commandWords_operator (hw : isOperator w = true) (isCommand : Bool) :
    commandWords (styles isCommand (w :: ws)) = commandWords (styles true ws) := by
  rw [styles, styleOf_operator hw]
  rfl

theorem commandWords_command (hw : isOperator w = false) :
    commandWords (styles true (w :: ws)) = w :: commandWords (styles false ws) := by
  rw [styles, styleOf_command hw]
  rfl

theorem commandWords_argument (hw : isOperator w = false) :
    commandWords (styles false (w :: ws)) = commandWords (styles false ws) := by
  obtain ⟨style, hstyle, hother⟩ := styleOf_argument hw
  have hcolour : ¬ (style.any fun s => s.colour == .cyan) = true := by
    rw [Option.any_eq_true]
    rintro ⟨s, hs, hcyan⟩
    exact hother s hs (beq_iff_eq.1 hcyan)
  rw [styles, hstyle, commandWords, List.filter_cons_of_neg, commandWords]
  exact hcolour

theorem leaders_keep_split (h : Spaced t) :
    (∀ o, leaders (keep ((o, (split t).1) :: (split t).2)) =
      (commandWords (styles true (words t))).map some) ∧
    leaders (keep (split t).2) = (commandWords (styles false (words t))).map some := by
  induction t using word_induction with
  | blank gap hgap =>
    rw [words_of_blank hgap, split_of_blank hgap]
    refine ⟨fun o => ?_, rfl⟩
    rw [keep_cons_blank hgap]
    rfl
  | word gap w r hgap hw hr ih =>
    obtain ⟨⟨-, hword⟩, hlater⟩ := (spaced_word_append hgap hw hr).1 h
    obtain ⟨hanew, hwithin⟩ := ih hlater
    rw [words_word_append hgap hw hr, List.append_assoc, split_blank_append hgap]
    cases hplain : isOperator w with
    | true =>
      obtain ⟨o, ho, rfl⟩ := isOperator_iff.1 hplain
      rw [split_spelling ho, List.append_nil, commandWords_operator hplain,
        commandWords_operator hplain]
      exact ⟨fun o' => by rw [keep_cons_blank hgap, hanew o], hanew o⟩
    | false =>
      have hfree : OperatorFree w := by
        have hno : ¬ ∃ o : Operator, o ≠ .first ∧ w = o.spelling := by
          rw [← isOperator_iff, hplain]
          exact Bool.false_ne_true
        rw [exists_spelling_iff (w = ·), ← or_assoc] at hno
        rw [← or_assoc, ← or_assoc] at hword
        exact hword.resolve_left hno
      rw [split_word_append hfree hr, commandWords_command hplain, commandWords_argument hplain]
      refine ⟨fun o => ?_, hwithin⟩
      rw [← List.append_assoc, leaders_keep_word hgap hw (parting_fst_split hr), hwithin,
        List.map_cons]

theorem leaders_parse (h : Spaced t) :
    leaders (parse t) = (commandWords (styles true (words t))).map some := by
  rw [parse, commentFree_iff.1 h.commentFree, leaders_markFirst]
  exact (leaders_keep_split h).1 .first

theorem eq_command_of_mem_styles (h : (w, some s) ∈ styles isCommand ws)
    (hs : s.colour = .cyan) : s = .command w := by
  induction ws generalizing isCommand with
  | nil => cases h
  | cons v ws ih =>
    rw [styles, List.mem_cons, Prod.mk.injEq] at h
    rcases h with ⟨rfl, hstyle⟩ | h
    · exact eq_command_of_styleOf hstyle.symm hs
    · exact ih h

theorem bold_command (w : Text) : (Style.command w).bold = true ↔ ∃ b : Builtin, b.name = w := by
  rw [Style.command, ← Option.ne_none_iff_isSome, Ne, Builtin.named?_eq_none_iff]
  simp

end

/-- What is painted for a line tells the styles of its words. In a spaced line the words in the
colour of commands are the first words of its links, one for each link, and just the names of
builtins are bold among them. -/
theorem commands_lead_links {line : Text} (h : Spaced line) :
    ∃ ps, Painted line ps (command true line) ∧
      (∀ qs, Painted line qs (command true line) → qs = ps) ∧
      (parse line).map (fun link => (words link.text).head?) = (commandWords ps).map some ∧
      ∀ w s, (w, some s) ∈ ps → s.colour = .cyan →
        (s.bold = true ↔ ∃ b : Builtin, b.name = w) := by
  have hpainted : Painted line (styles true (words line)) (command true line) :=
    painted_paintFrom true line
  refine ⟨styles true (words line), hpainted, fun qs hqs => hpainted.unique hqs, leaders_parse h,
    fun w s hmem hs => ?_⟩
  rw [eq_command_of_mem_styles hmem hs]
  exact bold_command w

theorem commands_lead_links_lone_bar :
    let line := " ; & cd -P $x|y ||".toList ++ Char.ofNat 0x2003 :: "exit && ;\t| a#b ".toList
    Spaced line ∧ ∃ ps, Painted line ps (command true line) ∧
      commandWords ps = ["&".toList, "exit".toList, "|".toList] ∧
      ∀ w s, (w, some s) ∈ ps → s.colour = .cyan →
        (s.bold = true ↔ ∃ b : Builtin, b.name = w) := by
  intro line
  have hspaced : Spaced line := by decide
  obtain ⟨ps, hpainted, -, hleaders, hbold⟩ := commands_lead_links hspaced
  refine ⟨hspaced, ps, hpainted, ?_, hbold⟩
  have hlinks : (parse line).map (fun link => (words link.text).head?) =
      ["&".toList, "exit".toList, "|".toList].map some := by decide
  exact List.map_injective_iff.2 (Option.some_injective Text) (hleaders.symm.trans hlinks)

end LineShell.Highlight
