import LineShell.Alias
import LineShell.Proofs.Table.Log
import LineShell.Proofs.Text.Words

/-! Expansion of aliases as it is seen by the words of a command. A value takes the place of the
first word and does not run into the rest, so that the words are those of the value and then all
others; the word that has come first is looked up too, and the search ends there. -/

namespace LineShell.Alias

open Text

variable {aliases : Table} {command value next : Text}

theorem expandOnce_eq (h : aliases.get? (firstWord command) = some value) :
    expandOnce aliases command = some (value ++ afterFirstWord command) := by
  rw [expandOnce, h, Option.map_some]

theorem expandOnce_eq_none (h : aliases.get? (firstWord command) = none) :
    expandOnce aliases command = none := by
  rw [expandOnce, h, Option.map_none]

theorem expand_of_none (h : aliases.get? (firstWord command) = none) :
    expand aliases command = command := by
  rw [expand, expandOnce_eq_none h]

theorem expand_of_once (h : aliases.get? (firstWord command) = some value)
    (hends : firstWord (value ++ afterFirstWord command) = firstWord command ∨
      aliases.get? (firstWord (value ++ afterFirstWord command)) = none) :
    expand aliases command = value ++ afterFirstWord command := by
  rw [expand, expandOnce_eq h]
  dsimp only
  split
  · rfl
  · next hother => rw [expandOnce_eq_none (hends.resolve_left hother), Option.getD_none]

theorem expand_of_twice (h : aliases.get? (firstWord command) = some value)
    (hother : firstWord (value ++ afterFirstWord command) ≠ firstWord command)
    (hnext : aliases.get? (firstWord (value ++ afterFirstWord command)) = some next) :
    expand aliases command = next ++ afterFirstWord (value ++ afterFirstWord command) := by
  rw [expand, expandOnce_eq h]
  dsimp only
  rw [if_neg hother, expandOnce_eq hnext, Option.getD_some]

theorem words_append_afterFirstWord (value command : Text) :
    words (value ++ afterFirstWord command) = words value ++ (words command).tail := by
  rw [words_append value (parting_afterFirstWord command), tail_words]

theorem afterFirstWord_isSuffix (h : aliases.get? (firstWord command) = some value)
    (hvalue : ¬ Blank value) : afterFirstWord command <:+ expand aliases command := by
  obtain ⟨-, hafter⟩ := firstWord_append hvalue (parting_afterFirstWord command)
  by_cases hends : firstWord (value ++ afterFirstWord command) = firstWord command ∨
      aliases.get? (firstWord (value ++ afterFirstWord command)) = none
  · rw [expand_of_once h hends]
    exact List.suffix_append _ _
  · obtain ⟨hother, hfound⟩ := not_or.1 hends
    obtain ⟨next, hnext⟩ := Option.ne_none_iff_exists'.1 hfound
    rw [expand_of_twice h hother hnext, hafter]
    exact (List.suffix_append _ _).trans (List.suffix_append _ _)

/-- The words of a command after its alias was put in: those of the value, and then all but the
first. If another alias comes first by that, it is put in as well, and nothing else is looked up.
What stood after the first word stands there as it was, unless the value is blank. -/
theorem expand_words (aliases : Table) (command : Text) :
    let t := words command
    let first (ws : List Text) : Text := ws.headD []
    (aliases.get? (first t) = none → expand aliases command = command) ∧
    ∀ value, aliases.get? (first t) = some value →
      let t₁ := words value ++ t.tail
      (first t₁ = first t ∨ aliases.get? (first t₁) = none →
        words (expand aliases command) = t₁) ∧
      (∀ next, first t₁ ≠ first t → aliases.get? (first t₁) = some next →
        words (expand aliases command) = words next ++ t₁.tail) ∧
      (∀ other : Table, other.get? (first t) = aliases.get? (first t) →
        other.get? (first t₁) = aliases.get? (first t₁) →
        expand other command = expand aliases command) ∧
      ∃ before rest, Blank before ∧ command = before ++ first t ++ rest ∧
        (first t = [] → rest = []) ∧ (¬ Blank value → rest <:+ expand aliases command) := by
  intro t first
  have hfirst : first t = firstWord command := headD_words command
  rw [hfirst]
  refine ⟨expand_of_none, ?_⟩
  intro value h t₁
  have hwords : words (value ++ afterFirstWord command) = t₁ :=
    words_append_afterFirstWord value command
  have hsecond : first t₁ = firstWord (value ++ afterFirstWord command) := by
    rw [← headD_words, hwords]
  rw [hsecond]
  refine ⟨fun hends => ?_, fun next hother hnext => ?_, fun other hsame hsame' => ?_, ?_⟩
  · rw [expand_of_once h hends, hwords]
  · rw [expand_of_twice h hother hnext, words_append_afterFirstWord, hwords]
  · have hother : other.get? (firstWord command) = some value := hsame.trans h
    have hagain : expandOnce other (value ++ afterFirstWord command) =
        expandOnce aliases (value ++ afterFirstWord command) := by
      rw [expandOnce, hsame', expandOnce]
    rw [expand, expand, expandOnce_eq h, expandOnce_eq hother]
    dsimp only
    rw [hagain]
  · obtain ⟨before, hbefore, hcommand⟩ := exists_firstWord command
    exact ⟨before, afterFirstWord command, hbefore, hcommand, afterFirstWord_eq_nil,
      afterFirstWord_isSuffix h⟩

example :
    let aliases : Table :=
      ⟨[("a".toList, " b  x".toList), ("b".toList, " ".toList), ("x".toList, "y".toList)]⟩
    expand aliases " a\u00a0 c".toList = "   x\u00a0 c".toList := by
  decide

theorem mem_entries_of_get? {name : Text} (h : aliases.get? name = some value) :
    (name, value) ∈ aliases.entries := by
  obtain ⟨earlier, later, hentries, -⟩ := List.lookup_eq_some_iff.1 h
  rw [hentries]
  exact List.mem_append_right earlier List.mem_cons_self

/-- Expansion leaves what it has made of a command alone if no value is blank and no chain of
aliases is longer than two: what the first word of a value stands for does not begin with an alias
itself. -/
theorem expand_idempotent (hshown : ∀ e ∈ aliases.entries, ¬ Blank e.2)
    (hchain : ∀ e ∈ aliases.entries, ∀ next ∈ aliases.get? (firstWord e.2),
      aliases.get? (firstWord next) = none) (command : Text) :
    expand aliases (expand aliases command) = expand aliases command := by
  rcases h : aliases.get? (firstWord command) with _ | value
  · rw [expand_of_none h, expand_of_none h]
  · have hmem := mem_entries_of_get? h
    obtain ⟨hfirst, hafter⟩ :=
      firstWord_append (hshown _ hmem) (parting_afterFirstWord command)
    rcases hnext : aliases.get? (firstWord value) with _ | next
    · have hends := hfirst ▸ hnext
      rw [expand_of_once h (.inr hends), expand_of_none hends]
    · have hlast : aliases.get? (firstWord next) = none := hchain _ hmem next hnext
      -- a value that begins with its own name would be a chain without an end
      have hother : firstWord value ≠ firstWord command := by
        intro hsame
        have hself : aliases.get? (firstWord value) = some value := hsame ▸ h
        rw [hchain _ hmem value hself] at hself
        exact nomatch hself
      obtain ⟨hfirst', -⟩ :=
        firstWord_append (hshown _ (mem_entries_of_get? hnext))
          (parting_afterFirstWord (value ++ afterFirstWord command))
      have hended := hfirst' ▸ hlast
      rw [expand_of_twice h (hfirst ▸ hother) (hfirst ▸ hnext), expand_of_none hended]

theorem expand_idempotent_chain_of_two :
    let aliases : Table := ⟨[("la".toList, "  ll -a".toList), ("ll".toList, "ls -l".toList)]⟩
    expand aliases (expand aliases " la\tx".toList) = expand aliases " la\tx".toList :=
  expand_idempotent (by decide) (by decide) _

-- with a chain of three, another expansion goes one alias further
example :
    let aliases : Table :=
      ⟨[("a".toList, "b".toList), ("b".toList, "c".toList), ("c".toList, "d".toList)]⟩
    expand aliases "a".toList = "c".toList ∧ expand aliases "c".toList = "d".toList := by
  decide

end LineShell.Alias
