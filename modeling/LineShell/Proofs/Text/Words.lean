import LineShell.Proofs.Text.Trim

/-! The words of a text that is put together from parts, and the first word of a text. What comes
after a text leaves its words alone if it begins with a blank. -/

namespace LineShell.Text

/-- What the text begins with cannot prolong a word before it. -/
def Parting (t : Text) : Prop := ∀ c, t.head? = some c → isBlank c = true

def unwords (ws : List Text) : Text := [' '].intercalate ws

section

variable {t u v w r gap : Text} {c : Char}

theorem parting_cons (hc : isBlank c = true) (t : Text) : Parting (c :: t) := by
  intro d hd
  rwa [← Option.some.inj hd]

theorem leadingWord_cons (c : Char) (r : Text) :
    leadingWord (c :: r) =
      if isBlank c = true then ([], words r) else (c :: (leadingWord r).1, (leadingWord r).2) := by
  rfl

theorem words_cons_of_isBlank (hc : isBlank c = true) (r : Text) : words (c :: r) = words r := by
  rw [words, leadingWord_cons, if_pos hc]
  rfl

theorem words_blank_append (hu : Blank u) (t : Text) : words (u ++ t) = words t := by
  induction u with
  | nil => rfl
  | cons c u ih =>
    obtain ⟨hc, hu⟩ := blank_cons.1 hu
    rw [List.cons_append, words_cons_of_isBlank hc, ih hu]

theorem words_of_leadingWord {later : List Text}
    (h : leadingWord u = ((leadingWord t).1, (leadingWord t).2 ++ later)) :
    words u = words t ++ later := by
  have hwords (s : Text) : words s =
      if (leadingWord s).1.isEmpty then (leadingWord s).2
      else (leadingWord s).1 :: (leadingWord s).2 := rfl
  rw [hwords, hwords, h]
  split <;> rfl

theorem leadingWord_append (t : Text) (hr : Parting r) :
    leadingWord (t ++ r) = ((leadingWord t).1, (leadingWord t).2 ++ words r) := by
  induction t with
  | nil =>
    cases r with
    | nil => rfl
    | cons c r =>
      have hc : isBlank c = true := hr c rfl
      rw [List.nil_append, leadingWord_cons, if_pos hc, words_cons_of_isBlank hc]
      rfl
  | cons c t ih =>
    rw [List.cons_append, leadingWord_cons, leadingWord_cons, ih, words_of_leadingWord ih]
    split <;> rfl

theorem words_append (t : Text) (hr : Parting r) : words (t ++ r) = words t ++ words r :=
  words_of_leadingWord (leadingWord_append t hr)

theorem leadingWord_of_shown (hw : ∀ c ∈ w, isBlank c = false) : leadingWord w = (w, []) := by
  induction w with
  | nil => rfl
  | cons c w ih =>
    obtain ⟨hc, hw⟩ := List.forall_mem_cons.1 hw
    rw [leadingWord_cons, if_neg (by simp [hc]), ih hw]

theorem Word.words_eq (hw : Word w) : words w = [w] := by
  rw [words, leadingWord_of_shown hw.2]
  exact if_neg (by simpa using hw.1)

theorem isBlank_of_isNameChar (h : isNameChar c = true) : isBlank c = false := by
  have hrange : 48 ≤ c.toNat ∧ c.toNat ≤ 122 := by
    delta isNameChar Char.isAlphanum Char.isAlpha Char.isUpper Char.isLower Char.isDigit at h
    simp only [Bool.or_eq_true, Bool.and_eq_true, decide_eq_true_eq, beq_iff_eq] at h
    rcases h with ((h | h) | h) | rfl
    · exact ⟨Nat.le_trans (by decide) h.1, Nat.le_trans h.2 (by decide)⟩
    · exact ⟨Nat.le_trans (by decide) h.1, Nat.le_trans h.2 (by decide)⟩
    · exact ⟨h.1, Nat.le_trans h.2 (by decide)⟩
    · decide
  simp only [isBlank, Bool.or_eq_false_iff, Bool.and_eq_false_iff, beq_eq_false_iff_ne,
    decide_eq_false_iff_not]
  omega

theorem unwords_cons (w : Text) {ws : List Text} (h : ws ≠ []) :
    unwords (w :: ws) = w ++ ' ' :: unwords ws := by
  rw [unwords, List.intercalate_cons_of_ne_nil h, unwords, List.append_assoc]
  rfl

theorem words_unwords {ws : List Text} (h : ∀ w ∈ ws, Word w) : words (unwords ws) = ws := by
  induction ws with
  | nil => rfl
  | cons w ws ih =>
    obtain ⟨hw, hws⟩ := List.forall_mem_cons.1 h
    by_cases hne : ws = []
    · rw [hne, unwords, List.intercalate_singleton, hw.words_eq]
    · have hspace : isBlank ' ' = true := by decide
      rw [unwords_cons w hne, words_append w (parting_cons hspace _), hw.words_eq,
        words_cons_of_isBlank hspace, ih hws]
      rfl

theorem takeWhile_append_of_head? {p : Char → Bool} (ht : ∀ c ∈ t, p c = true)
    (hr : ∀ c, r.head? = some c → p c = false) :
    (t ++ r).takeWhile p = t ∧ (t ++ r).dropWhile p = r := by
  rw [List.takeWhile_append_of_pos ht, List.dropWhile_append_of_pos ht]
  cases r with
  | nil => exact ⟨List.append_nil t, rfl⟩
  | cons c r =>
    have hc : ¬ p c = true := by simp [hr c rfl]
    rw [List.takeWhile_cons_of_neg hc, List.dropWhile_cons_of_neg hc]
    exact ⟨List.append_nil t, rfl⟩

theorem firstWord_append_afterFirstWord (t : Text) :
    firstWord t ++ afterFirstWord t = trimStart t := List.takeWhile_append_dropWhile

theorem isBlank_of_mem_firstWord (hc : c ∈ firstWord t) : isBlank c = false := by
  simpa using List.mem_takeWhile_imp hc

theorem parting_afterFirstWord (t : Text) : Parting (afterFirstWord t) := by
  intro c hc
  have hnot := List.head?_dropWhile_not (fun c => !isBlank c) (trimStart t)
  rw [← afterFirstWord, hc] at hnot
  simpa using hnot

theorem exists_firstWord (t : Text) :
    ∃ before, Blank before ∧ t = before ++ firstWord t ++ afterFirstWord t := by
  refine ⟨t.takeWhile isBlank, fun c hc => List.mem_takeWhile_imp hc, ?_⟩
  rw [List.append_assoc, firstWord_append_afterFirstWord, trimStart,
    List.takeWhile_append_dropWhile]

theorem afterFirstWord_eq_nil (h : firstWord t = []) : afterFirstWord t = [] := by
  have hwhole := firstWord_append_afterFirstWord t
  rw [h, List.nil_append] at hwhole
  rcases hr : afterFirstWord t with _ | ⟨c, r⟩
  · rfl
  · have hblank : isBlank c = true := parting_afterFirstWord t c (by rw [hr, List.head?_cons])
    have hshown := List.head?_dropWhile_not isBlank t
    rw [← trimStart, ← hwhole, hr, List.head?_cons] at hshown
    exact absurd hblank (by simpa using hshown)

theorem words_eq_firstWord (t : Text) :
    words t = if firstWord t = [] then [] else firstWord t :: words (afterFirstWord t) := by
  obtain ⟨before, hbefore, ht⟩ := exists_firstWord t
  conv_lhs => rw [ht, List.append_assoc, words_blank_append hbefore]
  split
  · next h =>
    rw [h, afterFirstWord_eq_nil h]
    rfl
  · next h =>
    have hword : Word (firstWord t) := ⟨h, fun c hc => isBlank_of_mem_firstWord hc⟩
    rw [words_append _ (parting_afterFirstWord t), hword.words_eq]
    rfl

theorem headD_words (t : Text) : (words t).headD [] = firstWord t := by
  rw [words_eq_firstWord]
  split
  · next h => exact h.symm
  · rfl

theorem firstWord_unwords {ws : List Text} (h : ∀ u ∈ w :: ws, Word u) :
    firstWord (unwords (w :: ws)) = w := by
  rw [← headD_words, words_unwords h, List.headD_cons]

theorem tail_words (t : Text) : (words t).tail = words (afterFirstWord t) := by
  rw [words_eq_firstWord]
  split
  · next h =>
    rw [afterFirstWord_eq_nil h]
    rfl
  · rfl

theorem firstWord_append (hv : ¬ Blank v) (hr : Parting r) :
    firstWord (v ++ r) = firstWord v ∧ afterFirstWord (v ++ r) = afterFirstWord v ++ r := by
  have hstart : trimStart (v ++ r) = firstWord v ++ (afterFirstWord v ++ r) := by
    have hne : trimStart v ≠ [] := fun h => hv (List.dropWhile_eq_nil_iff.1 h)
    rw [trimStart, List.dropWhile_append, ← trimStart, if_neg (by simpa using hne),
      ← List.append_assoc, firstWord_append_afterFirstWord]
  have hparting : Parting (afterFirstWord v ++ r) := by
    intro c hc
    rcases h : afterFirstWord v with _ | ⟨d, s⟩ <;> rw [h] at hc
    · exact hr c hc
    · exact parting_afterFirstWord v c (h ▸ hc)
  rw [firstWord, afterFirstWord, hstart]
  apply takeWhile_append_of_head?
  · exact fun c hc => by simp [isBlank_of_mem_firstWord hc]
  · exact fun c hc => by simp [hparting c hc]

theorem cut_eq (hgap : Blank gap) (hw : Word w) (hr : Parting r) :
    (gap ++ w ++ r).takeWhile isBlank = gap ∧ firstWord (gap ++ w ++ r) = w ∧
      afterFirstWord (gap ++ w ++ r) = r := by
  have hstart (c : Char) (hc : (w ++ r).head? = some c) : isBlank c = false := by
    rw [List.head?_append_of_ne_nil w hw.1] at hc
    exact hw.trimmed.head c hc
  have hshown (c : Char) (hc : c ∈ w) : (!isBlank c) = true := by simp [hw.2 c hc]
  have hrest (c : Char) (hc : r.head? = some c) : (!isBlank c) = false := by simp [hr c hc]
  obtain ⟨hbefore, hlater⟩ := takeWhile_append_of_head? hgap hstart
  obtain ⟨hword, hafter⟩ := takeWhile_append_of_head? hshown hrest
  rw [List.append_assoc]
  refine ⟨hbefore, ?_, ?_⟩
  · rw [firstWord, trimStart, hlater, hword]
  · rw [afterFirstWord, trimStart, hlater, hafter]

theorem words_word_append (hgap : Blank gap) (hw : Word w) (hr : Parting r) :
    words (gap ++ w ++ r) = w :: words r := by
  rw [words_append _ hr, words_blank_append hgap, hw.words_eq, List.singleton_append]

theorem words_of_blank (hgap : Blank gap) : words gap = [] := by
  have h := words_blank_append hgap []
  rwa [List.append_nil] at h

@[elab_as_elim]
theorem word_induction {motive : Text → Prop} (blank : ∀ gap, Blank gap → motive gap)
    (word : ∀ gap w r, Blank gap → Word w → Parting r → motive r → motive (gap ++ w ++ r))
    (t : Text) : motive t := by
  induction hn : t.length using Nat.strongRecOn generalizing t with
  | ind n ih =>
    obtain ⟨gap, hgap, ht⟩ := exists_firstWord t
    by_cases hnil : firstWord t = []
    · rw [ht, hnil, afterFirstWord_eq_nil hnil, List.append_nil, List.append_nil]
      exact blank gap hgap
    · have hword : Word (firstWord t) := ⟨hnil, fun c hc => isBlank_of_mem_firstWord hc⟩
      have hlt : (afterFirstWord t).length < n := by
        have hlength := congrArg List.length ht
        have hpos := List.length_pos_of_ne_nil hnil
        simp only [List.length_append] at hlength
        omega
      rw [ht]
      exact word gap _ _ hgap hword (parting_afterFirstWord t) (ih _ hlt _ rfl)

theorem words_trim (t : Text) : words (trim t) = words t := by
  obtain ⟨u, w, hu, hw, ht⟩ := exists_trim t
  have hparting : Parting w := fun c hc => hw c (List.mem_of_mem_head? hc)
  conv_rhs => rw [ht, words_append _ hparting, words_blank_append hu, words_of_blank hw]
  rw [List.append_nil]

end

end LineShell.Text
