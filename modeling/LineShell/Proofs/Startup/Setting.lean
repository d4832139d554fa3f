import LineShell.Proofs.Text.Lines
import LineShell.Proofs.Text.Numeral
import LineShell.Proofs.Text.Trim
import LineShell.Startup.Setting

/-! Lines of the startup file by their shapes: what a well-formed line asks for, and what is wrong
with a malformed one. Reading a line finds out just that. -/

namespace LineShell.Setting

open Text

variable {line : Text}

inductive Asks (line : Text) : Setting → Prop
  | exported {name value : Text} (shape : trim line = "export ".toList ++ (name ++ '=' :: value))
      (first : '=' ∉ name) : Asks line (.directive (.setenv (trim name) (stripQuotes (trim value))))
  | aliased {name value : Text} (shape : trim line = "alias ".toList ++ (name ++ '=' :: value))
      (first : '=' ∉ name) : Asks line (.directive (.alias (trim name) (stripQuotes (trim value))))
  | assigned {args name value : Text} (shape : trim line = "setenv ".toList ++ args)
      (two : words args = [name, value]) : Asks line (.directive (.setenv name value))
  | sized {numeral : Text} {n : Nat} (shape : trim line = "histsize ".toList ++ numeral)
      (value : Numeral.Denotes (trim numeral) n) (fits : n ≤ Numeral.wordMax) : Asks line (.bound n)

/-- The line begins with the word of a directive, but it does not go on as that directive has to. -/
inductive Malformed (line : Text) : SettingError → Prop
  | exported {rest : Text} (shape : trim line = "export ".toList ++ rest) (bare : '=' ∉ rest) :
      Malformed line (.exportShape (trim rest))
  | aliased {rest : Text} (shape : trim line = "alias ".toList ++ rest) (bare : '=' ∉ rest) :
      Malformed line (.aliasShape (trim rest))
  | assigned {args : Text} (shape : trim line = "setenv ".toList ++ args)
      (count : (words args).length ≠ 2) : Malformed line .setenvShape
  | sized {numeral : Text} (shape : trim line = "histsize ".toList ++ numeral)
      (unfit : ∀ n, Numeral.Denotes (trim numeral) n → Numeral.wordMax < n) :
      Malformed line (.bound (trim numeral))

theorem definition?_append {name : Text} (h : '=' ∉ name) (value : Text) :
    definition? (name ++ '=' :: value) = some (trim name, stripQuotes (trim value)) := by
  rw [definition?, cutAt_append h, Option.map_some]

theorem definition?_eq_none_iff {t : Text} : definition? t = none ↔ '=' ∉ t := by
  rw [definition?, Option.map_eq_none_iff, cutAt_eq_none_iff]

theorem parse_of_trim {word rest : Text} {reader : Text → Except SettingError Setting}
    (hr : (word, reader) ∈ readers) (h : trim line = word ++ rest) : parse line = reader rest := by
  have hfind : readers.find? (fun r => r.1.isPrefixOf (word ++ rest)) = some (word, reader) := by
    simp only [readers, List.mem_cons, Prod.mk.injEq, List.not_mem_nil, or_false] at hr
    rcases hr with ⟨rfl, rfl⟩ | ⟨rfl, rfl⟩ | ⟨rfl, rfl⟩ | ⟨rfl, rfl⟩ <;> rfl
  simp only [parse, h, hfind, List.drop_left]

theorem Asks.parse_eq {s : Setting} (h : Asks line s) : parse line = .ok s := by
  cases h with
  | exported shape first =>
    have hparse : parse line = ofExport _ := parse_of_trim (by simp [readers]) shape
    rw [hparse, ofExport, definition?_append first]
  | aliased shape first =>
    have hparse : parse line = ofAlias _ := parse_of_trim (by simp [readers]) shape
    rw [hparse, ofAlias, definition?_append first]
  | assigned shape two =>
    have hparse : parse line = ofSetenv _ := parse_of_trim (by simp [readers]) shape
    rw [hparse, ofSetenv, two]
  | sized shape value fits =>
    have hparse : parse line = ofHistsize _ := parse_of_trim (by simp [readers]) shape
    rw [hparse, ofHistsize, Numeral.read?_eq_some_iff.2 ⟨value, fits⟩]

theorem Malformed.parse_eq {e : SettingError} (h : Malformed line e) : parse line = .error e := by
  cases h with
  | exported shape bare =>
    have hparse : parse line = ofExport _ := parse_of_trim (by simp [readers]) shape
    rw [hparse, ofExport, definition?_eq_none_iff.2 bare]
  | aliased shape bare =>
    have hparse : parse line = ofAlias _ := parse_of_trim (by simp [readers]) shape
    rw [hparse, ofAlias, definition?_eq_none_iff.2 bare]
  | assigned shape count =>
    have hparse : parse line = ofSetenv _ := parse_of_trim (by simp [readers]) shape
    rw [hparse, ofSetenv]
    split
    · next h => simp [h] at count
    · rfl
  | sized shape unfit =>
    have hparse : parse line = ofHistsize _ := parse_of_trim (by simp [readers]) shape
    rw [hparse, ofHistsize, Numeral.read?_eq_none_iff.2 unfit]

theorem shape_cases (line : Text) :
    (∃ s, Asks line s) ∨ (∃ e, Malformed line e) ∨ parse line = .ok .nothing := by
  rcases hfind : readers.find? fun r => r.1.isPrefixOf (trim line) with _ | ⟨word, reader⟩
  · simp [parse, hfind]
  · have hr := List.mem_of_find?_eq_some hfind
    have hprefix := List.find?_some hfind
    obtain ⟨rest, hrest⟩ : word <+: trim line := List.isPrefixOf_iff_prefix.1 hprefix
    have shape := hrest.symm
    simp only [readers, List.mem_cons, Prod.mk.injEq, List.not_mem_nil, or_false] at hr
    rcases hr with ⟨rfl, -⟩ | ⟨rfl, -⟩ | ⟨rfl, -⟩ | ⟨rfl, -⟩
    · by_cases bare : '=' ∉ rest
      · exact .inr (.inl ⟨_, .exported shape bare⟩)
      · obtain ⟨name, value, rfl, first⟩ := List.eq_append_cons_of_mem (not_not.1 bare)
        exact .inl ⟨_, .exported shape first⟩
    · by_cases count : (words rest).length = 2
      · obtain ⟨name, value, two⟩ := List.length_eq_two.1 count
        exact .inl ⟨_, .assigned shape two⟩
      · exact .inr (.inl ⟨_, .assigned shape count⟩)
    · by_cases bare : '=' ∉ rest
      · exact .inr (.inl ⟨_, .aliased shape bare⟩)
      · obtain ⟨name, value, rfl, first⟩ := List.eq_append_cons_of_mem (not_not.1 bare)
        exact .inl ⟨_, .aliased shape first⟩
    · rcases hread : Numeral.read? Numeral.wordMax (trim rest) with _ | n
      · exact .inr (.inl ⟨_, .sized shape (Numeral.read?_eq_none_iff.1 hread)⟩)
      · obtain ⟨value, fits⟩ := Numeral.read?_eq_some_iff.1 hread
        exact .inl ⟨_, .sized shape value fits⟩

theorem parse_eq_ok_iff {s : Setting} (hs : s ≠ .nothing) : parse line = .ok s ↔ Asks line s := by
  refine ⟨fun h => ?_, Asks.parse_eq⟩
  rcases shape_cases line with ⟨s', hasks⟩ | ⟨e, hbad⟩ | hnothing
  · rw [hasks.parse_eq] at h
    cases h
    exact hasks
  · rw [hbad.parse_eq] at h
    cases h
  · rw [hnothing] at h
    cases h
    exact absurd rfl hs

theorem parse_eq_error_iff {e : SettingError} : parse line = .error e ↔ Malformed line e := by
  refine ⟨fun h => ?_, Malformed.parse_eq⟩
  rcases shape_cases line with ⟨s, hasks⟩ | ⟨e', hbad⟩ | hnothing
  · rw [hasks.parse_eq] at h
    cases h
  · rw [hbad.parse_eq] at h
    cases h
    exact hbad
  · rw [hnothing] at h
    cases h

end LineShell.Setting
