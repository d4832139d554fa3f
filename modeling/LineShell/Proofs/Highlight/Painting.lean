import LineShell.Highlight
import LineShell.Proofs.Text.Words

/-! A painted text, read word by word. Between its blanks, which are copied, each word stands in one
style or in none. A style makes a word longer, and by how much depends on the style, so what was
painted tells the styles of the words even if the words hold escapes of their own. -/

namespace LineShell.Highlight

open Text

def dress : Option Style → Text → Text
  | some s, word => s.paint word
  | none, word => word

inductive Painted : Text → List (Text × Option Style) → Text → Prop
  | blank {gap : Text} (hgap : Blank gap) : Painted gap [] gap
  | word {gap w r out : Text} {s : Option Style} {later : List (Text × Option Style)}
      (hgap : Blank gap) (hw : Word w) (hr : Parting r) (hlater : Painted r later out) :
      Painted (gap ++ w ++ r) ((w, s) :: later) (gap ++ dress s w ++ out)

def styles (isCommand : Bool) : List Text → List (Text × Option Style)
  | [] => []
  | w :: ws => (w, (styleOf isCommand w).1) :: styles (styleOf isCommand w).2 ws

section

variable {t w r out gap : Text} {s s' : Option Style} {ps qs : List (Text × Option Style)}

theorem paintWord_nil (isCommand : Bool) : paintWord isCommand [] = ([], isCommand) := rfl

theorem paintWord_of_ne_nil (isCommand : Bool) (hw : w ≠ []) :
    paintWord isCommand w = (dress (styleOf isCommand w).1 w, (styleOf isCommand w).2) := by
  rw [paintWord, if_neg (by simpa using hw)]
  split <;> rename_i hstyle <;> rw [hstyle, dress]

theorem paintFrom_blank_append (isCommand : Bool) (hgap : Blank gap) (t : Text) :
    paintFrom isCommand [] (gap ++ t) = gap ++ paintFrom isCommand [] t := by
  induction gap with
  | nil => rfl
  | cons c gap ih =>
    obtain ⟨hc, hgap⟩ := blank_cons.1 hgap
    rw [List.cons_append, paintFrom, if_pos hc, List.reverse_nil, paintWord_nil]
    exact congrArg (c :: ·) (ih hgap)

theorem paintFrom_shown_append (isCommand : Bool) (begun : Text)
    (hw : ∀ c ∈ w, isBlank c = false) (t : Text) :
    paintFrom isCommand begun (w ++ t) = paintFrom isCommand (w.reverse ++ begun) t := by
  induction w generalizing begun with
  | nil => rfl
  | cons c w ih =>
    obtain ⟨hc, hw⟩ := List.forall_mem_cons.1 hw
    rw [List.cons_append, paintFrom, if_neg (by simp [hc]), ih _ hw, List.reverse_cons,
      List.append_assoc, List.singleton_append]

theorem paintFrom_of_parting (isCommand : Bool) (begun : Text) (hr : Parting r) :
    paintFrom isCommand begun r =
      (paintWord isCommand begun.reverse).1 ++
        paintFrom (paintWord isCommand begun.reverse).2 [] r := by
  cases r with
  | nil => exact (List.append_nil _).symm
  | cons c r =>
    have hc : isBlank c = true := hr c rfl
    rw [paintFrom, if_pos hc, paintFrom, if_pos hc]
    rfl

theorem painted_paintFrom (isCommand : Bool) (t : Text) :
    Painted t (styles isCommand (words t)) (paintFrom isCommand [] t) := by
  induction t using word_induction generalizing isCommand with
  | blank gap hgap =>
    have hpaint := paintFrom_blank_append isCommand hgap []
    rw [List.append_nil, paintFrom, List.reverse_nil, paintWord_nil, List.append_nil] at hpaint
    rw [words_of_blank hgap, hpaint]
    exact .blank hgap
  | word gap w r hgap hw hr ih =>
    rw [words_word_append hgap hw hr, styles, List.append_assoc,
      paintFrom_blank_append isCommand hgap, paintFrom_shown_append isCommand [] hw.2,
      List.append_nil, paintFrom_of_parting isCommand _ hr, List.reverse_reverse,
      paintWord_of_ne_nil isCommand hw.1, ← List.append_assoc, ← List.append_assoc]
    exact .word hgap hw hr (ih _)

theorem word_sequence (hw : Word w) : Word (Style.sequence w) := by
  have hopening : Word [Char.ofNat 27, '['] := by decide
  have hclosing : Word ['m'] := by decide
  refine ⟨List.cons_ne_nil _ _, ?_⟩
  exact List.forall_mem_append.2 ⟨hopening.2, List.forall_mem_append.2 ⟨hw.2, hclosing.2⟩⟩

theorem word_dress (s : Option Style) (hw : Word w) : Word (dress s w) := by
  cases s with
  | none => exact hw
  | some s =>
    have hcode : Word s.colour.code := by cases s.colour <;> decide
    have hone : Word (Style.sequence "1".toList) := word_sequence (by decide)
    have hbold : ∀ c ∈ (if s.bold then Style.sequence "1".toList else []), isBlank c = false := by
      split
      · exact hone.2
      · exact fun c hc => absurd hc List.not_mem_nil
    have hreset : Word (Style.sequence "0".toList) := word_sequence (by decide)
    constructor
    · exact List.append_ne_nil_of_left_ne_nil (List.append_ne_nil_of_right_ne_nil _ hw.1) _
    · rw [dress, Style.paint]
      simp only [List.forall_mem_append]
      exact ⟨⟨⟨(word_sequence hcode).2, hbold⟩, hw.2⟩, hreset.2⟩

theorem dress_inj (h : dress s w = dress s' w) : s = s' := by
  have hlength := congrArg List.length h
  have hdigit := congrArg (·[3]?) h
  have hread (colour : Colour) (bold : Bool) :
      (dress (some ⟨colour, bold⟩) w)[3]? = colour.code[1]? := by cases colour <;> rfl
  rcases s with _ | ⟨colour, bold⟩ <;> rcases s' with _ | ⟨colour', bold'⟩
  · rfl
  · simp only [dress, Style.paint, Style.sequence, List.length_append, List.length_cons] at hlength
    omega
  · simp only [dress, Style.paint, Style.sequence, List.length_append, List.length_cons] at hlength
    omega
  · have hcode : colour.code[1]? = colour'.code[1]? := by rw [← hread, ← hread]; exact hdigit
    obtain rfl : colour = colour' := by
      revert hcode
      cases colour <;> cases colour' <;> decide
    obtain rfl : bold = bold' := by
      cases bold <;> cases bold' <;> simp [dress, Style.paint, Style.sequence] at hlength ⊢
    rfl

theorem Painted.parting (h : Painted r ps out) (hr : Parting r) : Parting out := by
  cases h with
  | blank hgap => exact hr
  | @word gap w r out s later hgap hw hr' hlater =>
    cases gap with
    | nil =>
      obtain ⟨c, w, rfl⟩ := List.exists_cons_of_ne_nil hw.1
      have hc := hr c rfl
      rw [hw.2 c List.mem_cons_self] at hc
      cases hc
    | cons c gap => exact parting_cons (hgap c List.mem_cons_self) _

theorem Painted.words_eq (h : Painted t ps out) : words t = ps.map (·.1) := by
  induction h with
  | blank hgap => exact words_of_blank hgap
  | word hgap hw hr _ ih => rw [words_word_append hgap hw hr, ih, List.map_cons]

theorem Painted.unique (h : Painted t ps out) (h' : Painted t qs out) : qs = ps := by
  induction h generalizing qs with
  | blank hgap =>
    have hwords := h'.words_eq
    rw [words_of_blank hgap] at hwords
    exact List.map_eq_nil_iff.1 hwords.symm
  | @word gap w r out s later hgap hw hr hlater ih =>
    generalize ht : gap ++ w ++ r = t at h'
    generalize hout : gap ++ dress s w ++ out = whole at h'
    cases h' with
    | blank hgap' =>
      have hwords := words_of_blank hgap'
      rw [← ht, words_word_append hgap hw hr] at hwords
      cases hwords
    | @word gap' w' r' out' s' later' hgap' hw' hr' hlater' =>
      have hcut := cut_eq hgap hw hr
      have hcut' := cut_eq hgap (word_dress s hw) (hlater.parting hr)
      rw [ht, (cut_eq hgap' hw' hr').1, (cut_eq hgap' hw' hr').2.1, (cut_eq hgap' hw' hr').2.2]
        at hcut
      rw [hout, (cut_eq hgap' (word_dress s' hw') (hlater'.parting hr')).1,
        (cut_eq hgap' (word_dress s' hw') (hlater'.parting hr')).2.1,
        (cut_eq hgap' (word_dress s' hw') (hlater'.parting hr')).2.2] at hcut'
      obtain ⟨rfl, rfl, rfl⟩ := hcut
      obtain ⟨-, hdress, rfl⟩ := hcut'
      rw [dress_inj hdress, ih hlater']

end

end LineShell.Highlight
