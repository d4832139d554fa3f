import LineShell.Alias
import LineShell.Proofs.Text.Words

/-! The laws of cutting a text into words. They leave no choice: whatever obeys them cuts every text
as `words` does. -/

namespace LineShell.Text

structure CutsWords (f : Text → List Text) : Prop where
  append : ∀ a gap b, Blank gap → gap ≠ [] → f (a ++ gap ++ b) = f a ++ f b
  word : ∀ t, ∀ w ∈ f t, w ≠ [] ∧ ∀ c ∈ w, isBlank c = false
  flatten : ∀ t, (f t).flatten = t.filter fun c => !isBlank c
  joined : ∀ t, f (unwords (f t)) = f t
  first : ∀ t, (f t).headD [] = firstWord t

theorem filter_eq_nil_of_blank {gap : Text} (hgap : Blank gap) :
    (gap.filter fun c => !isBlank c) = [] :=
  List.filter_eq_nil_iff.2 fun c hc => by simp [hgap c hc]

theorem Word.filter_eq {w : Text} (hw : Word w) : (w.filter fun c => !isBlank c) = w :=
  List.filter_eq_self.2 fun c hc => by simp [hw.2 c hc]

theorem flatten_words (t : Text) : (words t).flatten = t.filter fun c => !isBlank c := by
  induction t using word_induction with
  | blank gap hgap => rw [words_of_blank hgap, filter_eq_nil_of_blank hgap, List.flatten_nil]
  | word gap w r hgap hw hr ih =>
    rw [words_word_append hgap hw hr, List.filter_append, List.filter_append,
      filter_eq_nil_of_blank hgap, hw.filter_eq, List.flatten_cons, ih, List.nil_append]

theorem words_append_gap (a b : Text) {gap : Text} (hgap : Blank gap) (hne : gap ≠ []) :
    words (a ++ gap ++ b) = words a ++ words b := by
  obtain ⟨c, later, rfl⟩ := List.exists_cons_of_ne_nil hne
  have hparting : Parting (c :: later ++ b) := parting_cons (hgap c List.mem_cons_self) _
  rw [List.append_assoc, words_append a hparting, words_blank_append hgap]

theorem cutsWords_words : CutsWords words where
  append a _ b hgap hne := words_append_gap a b hgap hne
  word _ _ hw := word_of_mem_words hw
  flatten := flatten_words
  joined _ := words_unwords fun _ hw => word_of_mem_words hw
  first := headD_words

section

variable {f : Text → List Text} {gap w r : Text}

theorem CutsWords.of_blank (h : CutsWords f) (hgap : Blank gap) : f gap = [] := by
  have hflat := h.flatten gap
  rw [filter_eq_nil_of_blank hgap, List.flatten_eq_nil_iff] at hflat
  exact List.eq_nil_iff_forall_not_mem.2 fun w hw => (h.word gap w hw).1 (hflat w hw)

theorem CutsWords.of_word (h : CutsWords f) (hw : Word w) : f w = [w] := by
  have hfirst : firstWord w = w := by rw [← headD_words, hw.words_eq, List.headD_cons]
  have hhead := h.first w
  have hflat := h.flatten w
  rw [hfirst] at hhead
  rw [hw.filter_eq] at hflat
  rcases hf : f w with _ | ⟨v, later⟩ <;> rw [hf] at hhead hflat
  · exact absurd hhead.symm hw.1
  · obtain rfl : v = w := hhead
    have hlater : later.flatten = [] := List.append_right_eq_self.1 hflat
    have hnone : later = [] := by
      refine List.eq_nil_iff_forall_not_mem.2 fun u hu => ?_
      exact (h.word v u (hf ▸ List.mem_cons_of_mem v hu)).1 (List.flatten_eq_nil_iff.1 hlater u hu)
    rw [hnone]

theorem CutsWords.blank_append (h : CutsWords f) (hgap : Blank gap) (t : Text) :
    f (gap ++ t) = f t := by
  by_cases hne : gap = []
  · rw [hne, List.nil_append]
  · have happend := h.append [] gap t hgap hne
    rwa [List.nil_append, h.of_blank blank_nil, List.nil_append] at happend

theorem CutsWords.word_append (h : CutsWords f) (hgap : Blank gap) (hw : Word w) (hr : Parting r) :
    f (gap ++ w ++ r) = w :: f r := by
  rw [List.append_assoc, h.blank_append hgap]
  cases r with
  | nil => rw [List.append_nil, h.of_word hw, h.of_blank blank_nil]
  | cons c r =>
    have hc : Blank [c] := fun d hd => List.mem_singleton.1 hd ▸ hr c rfl
    have happend := h.append w [c] r hc (List.cons_ne_nil c [])
    rw [List.append_assoc, h.of_word hw, ← h.blank_append hc r] at happend
    exact happend

theorem CutsWords.eq_words (h : CutsWords f) : f = words := by
  funext t
  induction t using word_induction with
  | blank gap hgap => rw [h.of_blank hgap, words_of_blank hgap]
  | word gap w r hgap hw hr ih =>
    rw [h.word_append hgap hw hr, words_word_append hgap hw hr, ih]

end

/-- Words come apart at every gap, and no blank is in them and nothing else is lost. Joined by
single spaces they are found again, and the first of them is the one that is looked up as an alias.
Nothing but `words` does all that. -/
theorem words_lawful (aliases : Table) (t : Text) :
    CutsWords words ∧ (∀ f, CutsWords f ↔ f = words) ∧
      Alias.expandOnce aliases t =
        (aliases.get? ((words t).headD [])).map fun value => value ++ afterFirstWord t := by
  refine ⟨cutsWords_words, fun f => ⟨CutsWords.eq_words, ?_⟩, ?_⟩
  · rintro rfl
    exact cutsWords_words
  · rw [headD_words]
    rfl

example : words "\u3000ls\t\u2028-l  'a b'\n".toList =
    ["ls".toList, "-l".toList, "'a".toList, "b'".toList] := by
  decide

end LineShell.Text
