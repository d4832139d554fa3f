import LineShell.Proofs.History.Numbering
import LineShell.Proofs.Text.Lines
import LineShell.Proofs.Text.Trim

/-! A history that is written to its file and opened from there again. Lines come back as they were
unless the format of the file cannot hold them: it ends a line with a line feed, and takes a
carriage return before that for a part of the end. -/

namespace LineShell.History

variable {σ : Type} {path : Path} {bound : Nat} {h : History}

inductive Backed (path : Path) (bound : Nat) : History → Prop
  | opened {σ : Type} {host : Host σ} {w : σ} {h : History}
      (hopened : (ofFile host path bound w).1 = .ok h) : Backed path bound h
  | added {h : History} (line : Text) (hbacked : Backed path bound h) :
      Backed path bound (h.add line)

def Shown (lines : List Text) : Prop := ∀ line ∈ lines, line.all Text.isBlank = false

theorem shown_of_shown {lines : List Text} (hlines : Shown lines) : shown lines = lines :=
  List.filter_eq_self.2 fun line hline => by rw [hlines line hline]; rfl

theorem shown_shown (lines : List Text) : Shown (shown lines) := fun line hline => by
  simpa using (List.mem_filter.1 hline).2

theorem lines_addAll_inMemory (bound : Nat) (lines : List Text) :
    ((inMemory bound).addAll lines).lines = (shown lines).rtake bound := by
  rw [addAll_eq_foldl, lines_foldl_add_inMemory]

structure Kept (path : Path) (bound : Nat) (h : History) : Prop where
  file : h.file = some path
  bound : h.bound = bound
  shown : Shown h.lines

theorem kept_of_ofFile {host : Host σ} {w : σ} (hopened : (ofFile host path bound w).1 = .ok h) :
    Kept path bound h := by
  unfold ofFile at hopened
  split at hopened
  · exact nomatch hopened
  · next lines w' _ =>
    obtain rfl := Except.ok.inj hopened
    refine ⟨rfl, rfl, fun line hline => ?_⟩
    have hmem : line ∈ ((inMemory bound).addAll lines).lines := hline
    rw [lines_addAll_inMemory] at hmem
    exact shown_shown lines line (List.mem_of_mem_drop hmem)

theorem Kept.add (hkept : Kept path bound h) (line : Text) : Kept path bound (h.add line) := by
  unfold History.add
  split
  · exact hkept
  · next hline =>
    refine ⟨hkept.file, hkept.bound, fun l hl => ?_⟩
    have hmem : l ∈ [line] ++ h.newest := List.mem_of_mem_take (List.mem_reverse.1 hl)
    rcases List.mem_cons.1 hmem with rfl | hold
    · exact eq_false_of_ne_true hline
    · exact hkept.shown l (List.mem_reverse.2 hold)

theorem Backed.kept (hbacked : Backed path bound h) : Kept path bound h := by
  induction hbacked with
  | opened hopened => exact kept_of_ofFile hopened
  | added line _ ih => exact ih.add line

theorem save_of_persist {host : Host σ} {w w' : σ} (hkept : Kept path bound h)
    (hsaved : h.persist host w = (.ok (), w')) :
    host.save path (Utf8.encode (Text.unlines h.lines)) w = (.ok (), w') := by
  simp only [persist, hkept.file, save_lines] at hsaved
  split at hsaved <;> rename_i hsave
  · cases (Prod.mk.inj hsaved).1
  · rw [hsave, (Prod.mk.inj hsaved).2]

theorem ofFile_of_holds {host : Host σ} {t : Text} {w : σ}
    (hholds : host.Holds path (Utf8.encode t) w) (bound : Nat) :
    (ofFile host path bound w).1 =
      .ok { (inMemory bound).addAll (records t) with file := some path } := by
  obtain ⟨w₁, w₂, hpresent, hread⟩ := hholds.answers
  simp only [ofFile, load, hpresent, hread, Stream.text_encode]

def reread (bound : Nat) (lines : List Text) : List Text :=
  ((inMemory bound).addAll (records (Text.unlines lines))).lines

theorem lineFeed_notMem_of_mem_reread {lines : List Text} {line : Text}
    (hline : line ∈ reread bound lines) : '\n' ∉ line := by
  rw [reread, lines_addAll_inMemory] at hline
  have hrecord := List.mem_filter.1 (List.mem_of_mem_drop hline)
  exact Text.lineFeed_notMem_of_mem_lines (List.mem_filter.1 hrecord.1).1

theorem shown_map_dropCarriageReturn {lines : List Text} (hshown : Shown lines) :
    Shown (lines.map Text.dropCarriageReturn) := by
  intro line hline
  obtain ⟨l, hl, rfl⟩ := List.mem_map.1 hline
  rw [Text.all_isBlank_dropCarriageReturn, hshown l hl]

theorem reread_of_lineFeed_notMem {lines : List Text} (hshown : Shown lines)
    (hbound : lines.length ≤ bound) (hfeed : ∀ line ∈ lines, '\n' ∉ line) :
    reread bound lines = lines.map Text.dropCarriageReturn := by
  have hkept := shown_of_shown (shown_map_dropCarriageReturn hshown)
  rw [reread, lines_addAll_inMemory, records, Text.lines_unlines_of_lineFeed_notMem hfeed, ← shown,
    hkept, hkept, List.rtake, List.length_map, Nat.sub_eq_zero_of_le hbound, List.drop_zero]

theorem reread_eq_self_iff {lines : List Text} (hshown : Shown lines)
    (hbound : lines.length ≤ bound) :
    reread bound lines = lines ↔
      ∀ line ∈ lines, '\n' ∉ line ∧ line.getLast? ≠ some '\r' := by
  constructor
  · intro hsame
    -- no line that comes back from a file holds a line feed, so none of these does
    have hfeed : ∀ line ∈ lines, '\n' ∉ line := fun line hline =>
      lineFeed_notMem_of_mem_reread (hsame.symm ▸ hline)
    rw [reread_of_lineFeed_notMem hshown hbound hfeed, Text.map_dropCarriageReturn_eq_self] at hsame
    exact fun line hline => ⟨hfeed line hline, hsame line hline⟩
  · intro hlines
    rw [reread_of_lineFeed_notMem hshown hbound fun line hline => (hlines line hline).1,
      Text.map_dropCarriageReturn_eq_self]
    exact fun line hline => (hlines line hline).2

/-- A history that is saved, and opened again from what the file then holds, is the same if and only
if no line of it holds a line feed or ends with a carriage return. -/
theorem entries_reopened_iff {host : Host σ} {w w' : σ} (hbacked : Backed path bound h)
    (hkeeps : host.Keeps path w) (hsaved : h.persist host w = (.ok (), w')) :
    ∃ h', (ofFile host path bound w').1 = .ok h' ∧
      (h'.entries = h.entries ↔
        ∀ line ∈ h.lines, '\n' ∉ line ∧ line.getLast? ≠ some '\r') := by
  have hkept := hbacked.kept
  have hholds := hkeeps _ _ (save_of_persist hkept hsaved)
  refine ⟨_, ofFile_of_holds hholds bound, ?_⟩
  rw [entries_eq_iff]
  exact reread_eq_self_iff hkept.shown (hkept.bound ▸ h.length_lines_le)

theorem entries_reopened_notebook :
    ∃ h', (ofFile (Host.notebook ⟨[]⟩) ⟨[]⟩ 2
        (some (Utf8.encode "two\nls \r\n".toList))).1 = .ok h' ∧
      (h'.entries = [⟨0, "two".toList⟩, ⟨1, "ls \r".toList⟩] ↔
        ∀ line ∈ ["two".toList, "ls \r".toList],
          '\n' ∉ line ∧ line.getLast? ≠ some '\r') := by
  have hopened : (ofFile (Host.notebook ⟨[]⟩) ⟨[]⟩ 2
      (some (Utf8.encode "one\r\n\ntwo".toList))).1 =
        .ok { (inMemory 2).addAll ["one".toList, "two".toList] with file := some ⟨[]⟩ } := by
    decide
  exact entries_reopened_iff (.added "ls \r".toList (.opened hopened))
    (Host.keeps_notebook ⟨[]⟩ none) (by decide)

end LineShell.History
