import LineShell.Text.Basic
import Mathlib.Data.List.DropRight

/-! Trimming takes away the blanks at both ends of a text and nothing else, and that is all there
is to know about it: a text has only one such core. -/

namespace LineShell.Text

def Blank (t : Text) : Prop := ∀ c ∈ t, isBlank c = true

structure Trimmed (t : Text) : Prop where
  head : ∀ c, t.head? = some c → isBlank c = false
  last : ∀ c, t.getLast? = some c → isBlank c = false

theorem blank_nil : Blank [] := fun _ hc => absurd hc List.not_mem_nil

theorem blank_cons {c : Char} {t : Text} : Blank (c :: t) ↔ isBlank c = true ∧ Blank t :=
  List.forall_mem_cons

theorem blank_append {t u : Text} : Blank (t ++ u) ↔ Blank t ∧ Blank u := List.forall_mem_append

theorem all_isBlank {t : Text} : t.all isBlank = true ↔ Blank t := List.all_eq_true

instance (t : Text) : Decidable (Blank t) := decidable_of_iff _ all_isBlank

theorem trimEnd_eq_rdropWhile (t : Text) : trimEnd t = t.rdropWhile isBlank := by
  induction t with
  | nil => rfl
  | cons c r ih =>
    rw [trimEnd, ih, List.rdropWhile, List.rdropWhile, List.reverse_cons, List.dropWhile_append]
    cases h : r.reverse.dropWhile isBlank with
    | nil => by_cases hc : isBlank c = true <;> simp [hc]
    | cons d u => rcases hd : (d :: u).reverse with _ | ⟨e, v⟩ <;> simp_all

theorem trimEnd_append_blank (t : Text) {w : Text} (hw : Blank w) :
    trimEnd (t ++ w) = trimEnd t := by
  have hr : ∀ c ∈ w.reverse, isBlank c = true := fun c hc => hw c (List.mem_reverse.1 hc)
  rw [trimEnd_eq_rdropWhile, trimEnd_eq_rdropWhile, List.rdropWhile, List.reverse_append,
    List.dropWhile_append_of_pos hr, List.rdropWhile]

theorem exists_trimEnd (t : Text) : ∃ w, Blank w ∧ t = trimEnd t ++ w := by
  refine ⟨t.rtakeWhile isBlank, fun c hc => List.mem_rtakeWhile_imp hc, ?_⟩
  rw [trimEnd_eq_rdropWhile, List.rdropWhile_append_rtakeWhile]

theorem isBlank_getLast?_trimEnd {t : Text} {c : Char} (h : (trimEnd t).getLast? = some c) :
    isBlank c = false := by
  rw [trimEnd_eq_rdropWhile] at h
  have hne : t.rdropWhile isBlank ≠ [] := by
    intro hnil
    rw [hnil] at h
    cases h
  have hlast := List.rdropWhile_last_not isBlank t hne
  rw [List.getLast?_eq_some_getLast hne, Option.some.injEq] at h
  simpa [h] using hlast

theorem eq_nil_of_isSuffix_trimEnd {s t : Text} (hs : s <:+ trimEnd t) (hblank : Blank s) :
    s = [] := by
  rcases List.eq_nil_or_concat' s with hnil | ⟨r, c, rfl⟩
  · exact hnil
  · obtain ⟨u, hu⟩ := hs
    have hlast : (trimEnd t).getLast? = some c := by
      rw [← hu, ← List.append_assoc, List.getLast?_concat]
    have hc : isBlank c = true := hblank c List.mem_concat_self
    rw [isBlank_getLast?_trimEnd hlast] at hc
    cases hc

theorem trimStart_blank_append {u : Text} (hu : Blank u) (t : Text) :
    trimStart (u ++ t) = trimStart t := List.dropWhile_append_of_pos hu

theorem Trimmed.trimStart_append {t : Text} (h : Trimmed t) (hne : t ≠ []) (u : Text) :
    trimStart (t ++ u) = t ++ u := by
  obtain ⟨c, r, rfl⟩ := List.exists_cons_of_ne_nil hne
  exact List.dropWhile_cons_of_neg (by simp [h.head c rfl])

theorem Trimmed.trimEnd_eq {t : Text} (h : Trimmed t) : trimEnd t = t := by
  rw [trimEnd_eq_rdropWhile, List.rdropWhile_eq_self_iff]
  intro hne
  simp [h.last _ (List.getLast?_eq_some_getLast hne)]

theorem Trimmed.trim_eq_of_blank {u t w : Text} (h : Trimmed t) (hu : Blank u) (hw : Blank w) :
    trim (u ++ t ++ w) = t := by
  rw [List.append_assoc, trim, trimStart_blank_append hu]
  by_cases hne : t = []
  · have hs : trimStart w = [] := List.dropWhile_eq_nil_iff.2 hw
    rw [hne, List.nil_append, hs, trimEnd]
  · rw [h.trimStart_append hne, trimEnd_append_blank t hw, h.trimEnd_eq]

theorem Trimmed.trim_eq {t : Text} (h : Trimmed t) : trim t = t := by
  simpa using h.trim_eq_of_blank blank_nil blank_nil

theorem exists_trim (t : Text) : ∃ u w, Blank u ∧ Blank w ∧ t = u ++ trim t ++ w := by
  obtain ⟨w, hw, htrim⟩ := exists_trimEnd (trimStart t)
  refine ⟨t.takeWhile isBlank, w, fun c hc => List.mem_takeWhile_imp hc, hw, ?_⟩
  rw [trim, List.append_assoc, ← htrim, trimStart, List.takeWhile_append_dropWhile]

theorem trimmed_trim (t : Text) : Trimmed (trim t) := by
  constructor
  · intro c hc
    obtain ⟨w, -, htrim⟩ := exists_trimEnd (trimStart t)
    have hhead : (trimStart t).head? = some c := by
      rw [htrim, List.head?_append, ← trim, hc, Option.some_or]
    have hstart := List.head?_dropWhile_not isBlank t
    rw [← trimStart, hhead] at hstart
    simpa using hstart
  · exact fun c hc => isBlank_getLast?_trimEnd hc

theorem trimmed_iff {t : Text} : Trimmed t ↔ trim t = t :=
  ⟨Trimmed.trim_eq, fun h => h ▸ trimmed_trim t⟩

instance (t : Text) : Decidable (Trimmed t) := decidable_of_iff' _ trimmed_iff

theorem trim_blank_append {u : Text} (hu : Blank u) (t : Text) : trim (u ++ t) = trim t := by
  obtain ⟨u', w, hu', hw, ht⟩ := exists_trim t
  have h : u ++ t = (u ++ u') ++ trim t ++ w := by
    conv_lhs => rw [ht]
    simp only [List.append_assoc]
  rw [h, (trimmed_trim t).trim_eq_of_blank (blank_append.2 ⟨hu, hu'⟩) hw]

theorem trim_append_blank (t : Text) {w : Text} (hw : Blank w) : trim (t ++ w) = trim t := by
  rcases exists_trim t with ⟨u, w', hu, hw', ht⟩
  have h : t ++ w = u ++ trim t ++ (w' ++ w) := by
    conv_lhs => rw [ht]
    simp only [List.append_assoc]
  rw [h, (trimmed_trim t).trim_eq_of_blank hu (blank_append.2 ⟨hw', hw⟩)]

theorem trim_eq_nil {t : Text} : trim t = [] ↔ Blank t := by
  constructor
  · intro h
    obtain ⟨u, w, hu, hw, ht⟩ := exists_trim t
    rw [ht, h, List.append_nil]
    exact blank_append.2 ⟨hu, hw⟩
  · intro h
    simpa [trim, trimStart, trimEnd] using trim_append_blank [] h

theorem Trimmed.trim_append_eq_iff {t : Text} (h : Trimmed t) (hne : t ≠ []) (u : Text) :
    trim (u ++ t) = t ↔ Blank u := by
  constructor
  · intro htrim
    obtain ⟨before, after, hbefore, hafter, hut⟩ := exists_trim (u ++ t)
    rw [htrim] at hut
    rcases List.eq_nil_or_concat' after with rfl | ⟨r, c, rfl⟩
    · rw [List.append_nil] at hut
      rwa [List.append_cancel_right hut]
    · have hlast : t.getLast? = some c := by
        rw [← List.getLast?_append_of_ne_nil u hne, hut, ← List.append_assoc, List.getLast?_concat]
      have hblank : isBlank c = true := hafter c List.mem_concat_self
      rw [h.last c hlast] at hblank
      cases hblank
  · intro hu
    rw [trim_blank_append hu, h.trim_eq]

theorem Trimmed.prefix_trim {t : Text} (h : Trimmed t) (hne : t ≠ []) (u : Text) :
    t <+: trim (t ++ u) := by
  rw [trim, h.trimStart_append hne, trimEnd_eq_rdropWhile, List.rdropWhile, List.reverse_append,
    List.dropWhile_append]
  split
  · have hcore : (t.reverse.dropWhile isBlank).reverse = t := by
      rw [← List.rdropWhile, ← trimEnd_eq_rdropWhile, h.trimEnd_eq]
    exact hcore.symm ▸ List.prefix_rfl
  · rw [List.reverse_append, List.reverse_reverse]
    exact List.prefix_append _ _

def Word (t : Text) : Prop := t ≠ [] ∧ ∀ c ∈ t, isBlank c = false

theorem word_iff {t : Text} : Word t ↔ t ≠ [] ∧ t.any isBlank = false := by
  simp [Word]

instance (t : Text) : Decidable (Word t) := decidable_of_iff' _ word_iff

theorem Word.trimmed {t : Text} (h : Word t) : Trimmed t :=
  ⟨fun c hc => h.2 c (List.mem_of_mem_head? hc), fun c hc => h.2 c (List.mem_of_getLast? hc)⟩

theorem Word.trimmed_cons_append {w : Text} (hw : Word w) {c : Char} (hc : isBlank c = false)
    (t : Text) : Trimmed (c :: (t ++ w)) := by
  constructor
  · intro d hd
    rwa [← Option.some.inj hd]
  · intro d hd
    rw [← List.cons_append, List.getLast?_append_of_ne_nil _ hw.1] at hd
    exact hw.trimmed.last d hd

theorem Word.not_blank {t : Text} (h : Word t) : ¬ Blank t := by
  intro hblank
  obtain ⟨c, r, rfl⟩ := List.exists_cons_of_ne_nil h.1
  have hc := hblank c List.mem_cons_self
  rw [h.2 c List.mem_cons_self] at hc
  cases hc

theorem word_of_leadingWord (t : Text) :
    (∀ c ∈ (leadingWord t).1, isBlank c = false) ∧ ∀ w ∈ (leadingWord t).2, Word w := by
  induction t with
  | nil => simp [leadingWord]
  | cons c r ih =>
    rcases hr : leadingWord r with ⟨word, later⟩
    rw [hr] at ih
    obtain ⟨hword, hlater⟩ := ih
    simp only [leadingWord, hr]
    split
    · refine ⟨fun _ hd => absurd hd List.not_mem_nil, ?_⟩
      split
      · exact hlater
      · next hne => exact List.forall_mem_cons.2 ⟨⟨by simpa using hne, hword⟩, hlater⟩
    · next hc => exact ⟨List.forall_mem_cons.2 ⟨eq_false_of_ne_true hc, hword⟩, hlater⟩

theorem word_of_mem_words {w t : Text} (h : w ∈ words t) : Word w := by
  obtain ⟨hword, hlater⟩ := word_of_leadingWord t
  rcases ht : leadingWord t with ⟨word, later⟩
  rw [ht] at hword hlater
  simp only [words, ht] at h
  split at h
  · exact hlater w h
  · next hne =>
    rcases List.mem_cons.1 h with rfl | h
    · exact ⟨by simpa using hne, hword⟩
    · exact hlater w h

theorem trim_isInfix (t : Text) : trim t <:+: t := by
  obtain ⟨u, w, -, -, ht⟩ := exists_trim t
  exact ⟨u, w, ht.symm⟩

end LineShell.Text
