import LineShell.Highlight
import LineShell.Proofs.Text.Words

/-! What a terminal shows of a text in colour. Escape sequences show nothing, and they open and
close styles. A word is painted in one style that is closed after it, so the text itself is shown
and no blank of it has a style. -/

namespace LineShell.Highlight

open Text

def escape : Char := Char.ofNat 27

def isParameter (c : Char) : Bool := c.isDigit || c == ';'

def sequence? : Text → Option (Text × Text)
  | e :: '[' :: r =>
    match r.dropWhile isParameter with
    | 'm' :: later => if e = escape then some (r.takeWhile isParameter, later) else none
    | _ => none
  | _ => none

theorem eq_of_sequence? {t parameters later : Text} (h : sequence? t = some (parameters, later)) :
    t = Style.sequence parameters ++ later := by
  unfold sequence? at h
  split at h
  · next e r =>
    have hr := List.takeWhile_append_dropWhile (p := isParameter) (l := r)
    split at h
    · next rest hrest =>
      split at h
      · next he =>
        obtain ⟨rfl, rfl⟩ := Prod.mk.inj (Option.some.inj h)
        have hsequence : Style.sequence (r.takeWhile isParameter) ++ rest =
            escape :: '[' :: (r.takeWhile isParameter ++ 'm' :: rest) := by
          simp [Style.sequence, escape]
        rw [hsequence, ← hrest, hr, he]
      · cases h
    · cases h
  · cases h

/-- The characters that are shown, each with whether a style is open there. The flag tells whether
one is open before the text. -/
def cells (styled : Bool) (t : Text) : List (Char × Bool) :=
  match _ : sequence? t with
  | some (parameters, later) => cells (parameters != "0".toList) later
  | none =>
    match t with
    | [] => []
    | c :: r => (c, styled) :: cells styled r
termination_by t.length
decreasing_by
  · rename_i h
    rw [eq_of_sequence? h, Style.sequence]
    simp only [List.length_cons, List.length_append]
    omega
  · simp

def withoutSequences (t : Text) : Text := (cells false t).map (·.1)

variable {t w parameters : Text} {c : Char}

theorem cells_sequence (h : parameters.all isParameter = true) (styled : Bool) (r : Text) :
    cells styled (Style.sequence parameters ++ r) = cells (parameters != "0".toList) r := by
  have hm (c : Char) (hc : ('m' :: r).head? = some c) : isParameter c = false := by
    obtain rfl : 'm' = c := Option.some.inj hc
    decide
  obtain ⟨htake, hdrop⟩ := takeWhile_append_of_head? (List.all_eq_true.1 h) hm
  have hread : sequence? (Style.sequence parameters ++ r) = some (parameters, r) := by
    simp [sequence?, Style.sequence, escape, htake, hdrop]
  rw [cells]
  split
  · next h' =>
    rw [hread] at h'
    obtain ⟨rfl, rfl⟩ := Prod.mk.inj (Option.some.inj h')
    rfl
  · next h' =>
    rw [hread] at h'
    cases h'

theorem cells_cons (hc : c ≠ escape) (styled : Bool) (r : Text) :
    cells styled (c :: r) = (c, styled) :: cells styled r := by
  rw [cells]
  split
  · next h =>
    have heq := eq_of_sequence? h
    exact absurd (List.cons.inj heq).1 hc
  · rfl

theorem cells_nil (styled : Bool) : cells styled [] = [] := by
  rw [cells]
  split
  · next h => cases h
  · rfl

theorem cells_append (h : escape ∉ w) (styled : Bool) (r : Text) :
    cells styled (w ++ r) = w.map (·, styled) ++ cells styled r := by
  induction w with
  | nil => rfl
  | cons c w ih =>
    rw [List.mem_cons, not_or] at h
    rw [List.cons_append, cells_cons (Ne.symm h.1), ih h.2, List.map_cons, List.cons_append]

def Shows (t : Text) (cs : List (Char × Bool)) : Prop :=
  ∀ r, cells false (t ++ r) = cs ++ cells false r

theorem Shows.cells_eq {cs : List (Char × Bool)} (h : Shows t cs) : cells false t = cs := by
  have hnil := h []
  rwa [List.append_nil, cells_nil, List.append_nil] at hnil

theorem Shows.append {cs ds : List (Char × Bool)} (ht : Shows t cs) (hw : Shows w ds) :
    Shows (t ++ w) (cs ++ ds) := by
  intro r
  rw [List.append_assoc, ht, hw, List.append_assoc]

theorem shows_plain (h : escape ∉ w) : Shows w (w.map (·, false)) := cells_append h false

theorem code_parameters (c : Colour) :
    c.code.all isParameter = true ∧ (c.code != "0".toList) = true := by
  cases c <;> decide

theorem shows_paint (s : Style) (h : escape ∉ w) : Shows (s.paint w) (w.map (·, true)) := by
  intro r
  obtain ⟨hcode, hopen⟩ := code_parameters s.colour
  have hone : "1".toList.all isParameter = true := by decide
  have hzero : "0".toList.all isParameter = true := by decide
  have hclosed : ("0".toList != "0".toList) = false := by decide
  have hword : cells true (w ++ (Style.sequence "0".toList ++ r)) =
      w.map (·, true) ++ cells false r := by
    rw [cells_append h, cells_sequence hzero, hclosed]
  rw [Style.paint, List.append_assoc, List.append_assoc, List.append_assoc, cells_sequence hcode,
    hopen]
  split
  · rw [cells_sequence hone]
    exact hword
  · exact hword

theorem shows_paintWord (isCommand : Bool) (h : escape ∉ w) :
    ∃ styled, Shows (paintWord isCommand w).1 (w.map (·, styled)) := by
  rw [paintWord]
  split
  · next hw =>
    rw [List.isEmpty_iff.1 hw]
    exact ⟨false, fun r => rfl⟩
  · split
    · next s _ _ => exact ⟨true, shows_paint s h⟩
    · exact ⟨false, shows_plain h⟩

/-- The text comes out as it is, and no style is open at a blank of it or after it. -/
def Faithful (out t : Text) : Prop :=
  ∃ cs, Shows out cs ∧ cs.map (·.1) = t ∧ ∀ cell ∈ cs, isBlank cell.1 = true → cell.2 = false

theorem Faithful.append {out more u : Text} (h : Faithful out t) (h' : Faithful more u) :
    Faithful (out ++ more) (t ++ u) := by
  obtain ⟨cs, hshows, rfl, hblank⟩ := h
  obtain ⟨ds, hshows', rfl, hblank'⟩ := h'
  exact ⟨cs ++ ds, hshows.append hshows', List.map_append,
    List.forall_mem_append.2 ⟨hblank, hblank'⟩⟩

theorem faithful_plain (h : escape ∉ t) : Faithful t t := by
  refine ⟨_, shows_plain h, by simp [Function.comp_def], fun cell hcell _ => ?_⟩
  obtain ⟨c, -, rfl⟩ := List.mem_map.1 hcell
  rfl

theorem faithful_paintWord (isCommand : Bool) (hescape : escape ∉ w)
    (hshown : ∀ c ∈ w, isBlank c = false) : Faithful (paintWord isCommand w).1 w := by
  obtain ⟨styled, hshows⟩ := shows_paintWord isCommand hescape
  refine ⟨_, hshows, by simp [Function.comp_def], fun cell hcell hblank => ?_⟩
  obtain ⟨c, hc, rfl⟩ := List.mem_map.1 hcell
  exact absurd hblank (by simp [hshown c hc])

theorem faithful_paintFrom (isCommand : Bool) (word : Text) (hescape : escape ∉ word.reverse)
    (hshown : ∀ c ∈ word.reverse, isBlank c = false) (ht : escape ∉ t) :
    Faithful (paintFrom isCommand word t) (word.reverse ++ t) := by
  induction t generalizing isCommand word with
  | nil =>
    rw [List.append_nil]
    exact faithful_paintWord isCommand hescape hshown
  | cons c r ih =>
    obtain ⟨hc, hr⟩ := not_or.1 (mt List.mem_cons.2 ht)
    rw [paintFrom]
    by_cases hblank : isBlank c = true
    · have hword := faithful_paintWord isCommand hescape hshown
      have hgap : Faithful [c] [c] := faithful_plain (by simpa using hc)
      have hlater := ih (paintWord isCommand word.reverse).2 [] (by simp) (by simp) hr
      rw [if_pos hblank]
      exact hword.append (hgap.append hlater)
    · have hescape' : escape ∉ (c :: word).reverse := by simpa [not_or, hc] using hescape
      have hshown' : ∀ d ∈ (c :: word).reverse, isBlank d = false := by
        rw [List.reverse_cons]
        exact List.forall_mem_append.2 ⟨hshown, by simpa using hblank⟩
      have hlater := ih isCommand (c :: word) hescape' hshown' hr
      rw [if_neg hblank]
      rwa [List.reverse_cons, List.append_assoc, List.singleton_append] at hlater

/-- A text without escapes is shown as it is, with or without colour. No style is open at a blank,
nor after the text, and without colour nothing is added to it. -/
theorem command_shown (ht : escape ∉ t) (inColour : Bool) :
    withoutSequences (command inColour t) = t ∧
    (∀ cell ∈ cells false (command inColour t), isBlank cell.1 = true → cell.2 = false) ∧
    (∀ r, cells false (command inColour t ++ r) =
      cells false (command inColour t) ++ cells false r) ∧
    command false t = t := by
  have hfaithful : Faithful (command inColour t) t := by
    cases inColour with
    | false => exact faithful_plain ht
    | true => exact faithful_paintFrom true [] (by simp) (by simp) ht
  obtain ⟨cs, hshows, htext, hblank⟩ := hfaithful
  rw [withoutSequences, hshows.cells_eq]
  exact ⟨htext, hblank, hshows, rfl⟩

theorem command_shown_wide_blank :
    let t : Text := "\tcd".toList ++ Char.ofNat 0x2003 :: "-é && [0m ;x $y ".toList
    escape ∉ t ∧ command true t ≠ t ∧ withoutSequences (command true t) = t ∧
      ∀ cell ∈ cells false (command true t), isBlank cell.1 = true → cell.2 = false := by
  intro t
  have ht : escape ∉ t := by decide
  obtain ⟨htext, hblank, -⟩ := command_shown ht true
  exact ⟨ht, by decide, htext, hblank⟩

end LineShell.Highlight
