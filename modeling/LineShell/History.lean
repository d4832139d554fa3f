import LineShell.Host

/-! The list of accepted lines, bounded and numbered from zero, and the file that keeps it. -/

namespace LineShell

structure HistoryEntry where
  index : Nat
  line : Text
  deriving DecidableEq, Repr

structure History where
  bound : Nat
  /-- The lines that are kept, the newest first. -/
  newest : List Text := []
  newest_le : newest.length ≤ bound := by simp
  file : Option Path := none
  deriving DecidableEq, Repr

structure HistoryError where
  path : Path
  cause : IoError
  deriving DecidableEq, Repr

def HistoryError.message (e : HistoryError) : Text :=
  "history file ".toList ++ e.path.display ++ ": ".toList ++ e.cause.message

namespace History

def inMemory (bound : Nat) : History := { bound }

def record (h : History) (fresh : List Text) : History :=
  { h with newest := (fresh ++ h.newest).take h.bound, newest_le := List.length_take_le .. }

def add (h : History) (line : Text) : History :=
  if line.all Text.isBlank then h else h.record [line]

def addAll (h : History) (lines : List Text) : History :=
  h.record (lines.filter fun line => !line.all Text.isBlank).reverse

theorem record_nil (h : History) : h.record [] = h := by
  cases h with
  | mk bound newest newest_le file => simp [record, List.take_of_length_le newest_le]

theorem record_record (h : History) (older newer : List Text) :
    (h.record older).record newer = h.record (newer ++ older) := by
  simp [record, List.take_append, List.take_take]
  omega

theorem addAll_eq_foldl (h : History) (lines : List Text) : h.addAll lines = lines.foldl add h := by
  induction lines generalizing h with
  | nil => exact h.record_nil
  | cons line rest ih =>
    rw [List.foldl_cons, ← ih, addAll, addAll, add]
    split
    · next blank => simp [blank]
    · next shown => simp [shown, record_record]

def lines (h : History) : List Text := h.newest.reverse

def entries (h : History) : List HistoryEntry :=
  h.lines.zipIdx.map fun (line, index) => { index, line }

def size (h : History) : Nat := h.newest.length

def recent (h : History) (count : Nat) : List HistoryEntry :=
  h.entries.drop (h.entries.length - count)

def records (t : Text) : List Text := (Text.lines t).filter fun line => !line.all Text.isBlank

variable {σ : Type}

def load (host : Host σ) (path : Path) (w : σ) : Except HistoryError (List Text) × σ :=
  match host.isPresent path w with
  | (false, w) => (.ok [], w)
  | (true, w) =>
    match host.read path w with
    | (.error e, w) => (.error ⟨path, e⟩, w)
    | (.ok stream, w) =>
      match stream.text with
      | .error e => (.error ⟨path, e⟩, w)
      | .ok t => (.ok (records t), w)

def save (host : Host σ) (path : Path) (lines : List Text) (bound : Nat) (w : σ) :
    Except HistoryError Unit × σ :=
  let kept := lines.drop (lines.length - bound)
  match host.save path (Utf8.encode (Text.unlines kept)) w with
  | (.error e, w) => (.error ⟨path, e⟩, w)
  | (.ok (), w) => (.ok (), w)

def ofFile (host : Host σ) (path : Path) (bound : Nat) (w : σ) :
    Except HistoryError History × σ :=
  match load host path w with
  | (.error e, w) => (.error e, w)
  | (.ok lines, w) => (.ok { (inMemory bound).addAll lines with file := some path }, w)

def persist (host : Host σ) (h : History) (w : σ) : Except HistoryError Unit × σ :=
  match h.file with
  | none => (.ok (), w)
  | some path => save host path h.lines h.bound w

theorem length_lines_le (h : History) : h.lines.length ≤ h.bound := by
  rw [lines, List.length_reverse]
  exact h.newest_le

theorem save_lines (host : Host σ) (path : Path) (h : History) (w : σ) :
    save host path h.lines h.bound w =
      match host.save path (Utf8.encode (Text.unlines h.lines)) w with
      | (.error e, w) => (.error ⟨path, e⟩, w)
      | (.ok (), w) => (.ok (), w) := by
  simp only [save, Nat.sub_eq_zero_of_le h.length_lines_le, List.drop_zero]

end History

end LineShell
