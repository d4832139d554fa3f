import LineShell.Builtin.Listing
import LineShell.Proofs.Builtin.Frame
import LineShell.Proofs.Host.Contents
import Mathlib.Data.List.DropRight

/-! Which lines a history keeps, and under which numbers. Entries can be kept one by one, each under
the number that is free when it comes in, and numbered anew when the oldest are given up. A history
comes to the same: it has the newest lines that are not blank, numbered from zero. -/

namespace LineShell.History

def shown (lines : List Text) : List Text := lines.filter fun line => !line.all Text.isBlank

def numbered (lines : List Text) : List HistoryEntry :=
  lines.zipIdx.map fun (line, index) => { index, line }

section

variable {bound : Nat} {h : History} {line : Text}

theorem map_line_numbered (lines : List Text) :
    (numbered lines).map HistoryEntry.line = lines := by
  rw [numbered, List.map_map]
  exact List.zipIdx_map_fst 0 lines

theorem entries_eq_numbered (h : History) : h.entries = numbered h.lines := rfl

theorem map_line_entries (h : History) : h.entries.map HistoryEntry.line = h.lines :=
  map_line_numbered h.lines

theorem entries_eq_iff {h h' : History} : h'.entries = h.entries ↔ h'.lines = h.lines := by
  constructor
  · intro hentries
    rw [← map_line_entries, hentries, map_line_entries]
  · intro hlines
    rw [entries_eq_numbered, hlines, entries_eq_numbered]

theorem lines_record (h : History) (fresh : List Text) :
    (h.record fresh).lines = (h.lines ++ fresh.reverse).rtake h.bound := by
  rw [List.rtake_eq_reverse_take_reverse, lines, lines, record, List.reverse_append,
    List.reverse_reverse, List.reverse_reverse]

theorem lines_foldl_add (h : History) (lines : List Text) :
    (lines.foldl add h).lines = (h.lines ++ shown lines).rtake h.bound := by
  rw [← addAll_eq_foldl, addAll, lines_record, List.reverse_reverse, shown]

theorem lines_foldl_add_inMemory (bound : Nat) (lines : List Text) :
    (lines.foldl add (inMemory bound)).lines = (shown lines).rtake bound :=
  lines_foldl_add (inMemory bound) lines

end

end LineShell.History
