import LineShell.Proofs.Source.Mending

/-! The lines that a reader gives are those of the text that its octets are, wherever the fetches
cut them. -/

namespace LineShell

def Feed.ofLines (lines : List Text) (last : Feed) : Feed := lines.foldr .line last

namespace Reader

variable {a rest line : Bytes} {r : Reader}

def pending (r : Reader) : Bytes := r.buffer ++ r.fetches.flatten

def spent (r : Reader) : Reader := { r with buffer := [], fetches := [] }

theorem cutLine_append_lineFeed (ha : lineFeed ∉ a) (rest : Bytes) :
    cutLine (a ++ lineFeed :: rest) = some (a, rest) := by
  induction a with
  | nil => rfl
  | cons c a ih =>
    rw [List.mem_cons, not_or] at ha
    rw [List.cons_append, cutLine, if_neg (Ne.symm ha.1), ih ha.2]
    rfl

theorem cutLine_eq_none (ha : lineFeed ∉ a) : cutLine a = none := by
  induction a with
  | nil => rfl
  | cons c a ih =>
    rw [List.mem_cons, not_or] at ha
    rw [cutLine, if_neg (Ne.symm ha.1), ih ha.2]
    rfl

theorem cutLine_append (a b : Bytes) :
    cutLine (a ++ b) =
      match cutLine a with
      | some (line, rest) => some (line, rest ++ b)
      | none => (cutLine b).map fun (line, rest) => (a ++ line, rest) := by
  induction a with
  | nil => cases h : cutLine b <;> simp [cutLine, h]
  | cons c a ih =>
    by_cases hc : c = lineFeed
    · simp [cutLine, hc]
    · rw [List.cons_append, cutLine, cutLine, if_neg hc, if_neg hc, ih]
      cases cutLine a <;> simp [Function.comp_def]

theorem collect_cases (buffer : Bytes) (fetches : List Bytes) :
    (cutLine (buffer ++ fetches.flatten) = none ∧
      collect buffer fetches = (buffer ++ fetches.flatten, none)) ∨
    ∃ line buffer' fetches',
      cutLine (buffer ++ fetches.flatten) = some (line, buffer' ++ fetches'.flatten) ∧
      collect buffer fetches = (line, some (buffer', fetches')) := by
  induction fetches generalizing buffer with
  | nil =>
    rw [List.flatten_nil, List.append_nil, collect]
    rcases h : cutLine buffer with _ | ⟨line, rest⟩
    · exact .inl ⟨rfl, rfl⟩
    · exact .inr ⟨line, rest, [], by simp, rfl⟩
  | cons fetched later ih =>
    rw [collect, cutLine_append]
    rcases h : cutLine buffer with _ | ⟨line, rest⟩
    · rcases ih fetched with ⟨hcut, hcollect⟩ | ⟨line, buffer', fetches', hcut, hcollect⟩
      · exact .inl (by simp [hcut, hcollect])
      · exact .inr ⟨buffer ++ line, buffer', fetches', by simp [hcut], by simp [hcollect]⟩
    · exact .inr ⟨line, rest, fetched :: later, rfl, rfl⟩

theorem next_of_cut (h : r.pending = a ++ lineFeed :: rest) (ha : lineFeed ∉ a) :
    ∃ s, r.next = (.line (Utf8.lossy a), s) ∧ s.pending = rest ∧ s.fault = r.fault := by
  rcases collect_cases r.buffer r.fetches with ⟨hcut, -⟩ | ⟨line, buffer, fetches, hcut, hcollect⟩
  · rw [← pending, h, cutLine_append_lineFeed ha] at hcut
    exact nomatch hcut
  · rw [← pending, h, cutLine_append_lineFeed ha, Option.some.injEq, Prod.mk.injEq] at hcut
    obtain ⟨rfl, rfl⟩ := hcut
    exact ⟨{ r with buffer, fetches }, by rw [next, hcollect], rfl, rfl⟩

theorem collect_of_notMem (h : lineFeed ∉ r.pending) :
    collect r.buffer r.fetches = (r.pending, none) := by
  rcases collect_cases r.buffer r.fetches with ⟨-, hcollect⟩ | ⟨line, buffer, fetches, hcut, -⟩
  · exact hcollect
  · rw [← pending, cutLine_eq_none h] at hcut
    exact nomatch hcut

theorem next_failed (h : lineFeed ∉ r.pending) {e : IoError} (hfault : r.fault = some e) :
    r.next = (.failed e, r.spent) := by
  rw [next, collect_of_notMem h]
  simp [hfault, spent]

theorem next_finished (h : r.pending = []) (hfault : r.fault = none) :
    r.next = (.finished, r.spent) := by
  rw [next, collect_of_notMem (by simp [h])]
  simp [h, hfault, spent]

theorem next_last (h : lineFeed ∉ r.pending) (hne : r.pending ≠ []) (hfault : r.fault = none) :
    r.next = (.line (Utf8.lossy r.pending), r.spent) := by
  rw [next, collect_of_notMem h]
  simp [hne, hfault, spent]

theorem flatten_fetchesOf {size : Nat} (hsize : 0 < size) (data : Bytes) :
    (fetchesOf size data).flatten = data := by
  fun_induction fetchesOf size data with
  | case1 data h =>
    rcases h with rfl | hzero
    · rfl
    · omega
  | case2 data h ih => rw [List.flatten_cons, ih, List.take_append_drop]

end Reader

/-- What there is to be read in a stream, as lines of the text that it is: each that a line feed
ends, and then the rest, unless the rest is empty or cannot be read to its end. -/
def Stream.feed (s : Stream) : Feed :=
  let pieces := List.splitOn '\n' (Utf8.lossy s.data)
  match s.fault with
  | some e => .ofLines pieces.dropLast (.failed e)
  | none =>
    if s.data = [] ∨ s.data.getLast? = some Reader.lineFeed then .ofLines pieces.dropLast .finished
    else .ofLines pieces .finished

namespace Source

open Reader (lineFeed pending)

variable {r s : Reader}

theorem feed_of_line {t : Text} (h : r.next = (.line t, s)) :
    (reader r).feed = .line t (reader s).feed := by
  rw [feed]
  split <;> simp_all [next]

theorem feed_of_finished (h : r.next = (.finished, s)) : (reader r).feed = .finished := by
  rw [feed]
  split <;> simp_all [next]

theorem feed_of_failed {e : IoError} (h : r.next = (.failed e, s)) :
    (reader r).feed = .failed e := by
  rw [feed]
  split <;> simp_all [next]

end Source

namespace Stream

open Reader (lineFeed)

theorem ends_append_lineFeed (a rest : Bytes) :
    a ++ lineFeed :: rest = [] ∨ (a ++ lineFeed :: rest).getLast? = some lineFeed ↔
      rest = [] ∨ rest.getLast? = some lineFeed := by
  rw [List.getLast?_append, List.getLast?_cons, Option.some_or]
  cases rest with
  | nil => simp
  | cons b rest => simp [List.getLast?_cons]

theorem feed_append_lineFeed {a : Bytes} (ha : lineFeed ∉ a) (rest : Bytes)
    (fault : Option IoError) :
    feed { data := a ++ lineFeed :: rest, fault } =
      .line (Utf8.lossy a) (feed { data := rest, fault }) := by
  have hne : (List.splitOn lineFeed rest).map Utf8.lossy ≠ [] :=
    fun hc => List.splitOn_ne_nil lineFeed rest (List.map_eq_nil_iff.1 hc)
  simp only [feed, Utf8.splitOn_lossy, List.splitOn_append_cons_self_of_not_mem ha, List.map_cons,
    List.dropLast_cons_of_ne_nil hne, ends_append_lineFeed]
  cases fault with
  | some e => rfl
  | none => exact (apply_ite (Feed.line (Utf8.lossy a)) _ _ _).symm

theorem feed_of_notMem {data : Bytes} (h : lineFeed ∉ data) (fault : Option IoError) :
    feed { data, fault } =
      match fault with
      | some e => .failed e
      | none => if data = [] then .finished else .line (Utf8.lossy data) .finished := by
  have hlast : data.getLast? ≠ some lineFeed := fun hc => h (List.mem_of_getLast? hc)
  simp only [feed, Utf8.splitOn_lossy, List.splitOn_eq_singleton h, List.map_singleton,
    List.dropLast_singleton]
  cases fault with
  | some e => rfl
  | none => simp [hlast, Feed.ofLines]

end Stream

namespace Source

open Reader (lineFeed)

theorem feed_of_notMem {r : Reader} (h : lineFeed ∉ r.pending) :
    (reader r).feed = Stream.feed { data := r.pending, fault := r.fault } := by
  rw [Stream.feed_of_notMem h]
  cases hfault : r.fault with
  | some e => exact feed_of_failed (Reader.next_failed h hfault)
  | none =>
    by_cases hne : r.pending = []
    · rw [feed_of_finished (Reader.next_finished hne hfault)]
      simp [hne]
    · have hspent : (reader r.spent).feed = .finished :=
        feed_of_finished (Reader.next_finished (r := r.spent) rfl hfault)
      rw [feed_of_line (Reader.next_last h hne hfault), hspent]
      simp [hne]

theorem feed_reader (r : Reader) :
    (reader r).feed = Stream.feed { data := r.pending, fault := r.fault } := by
  generalize hdata : r.pending = data
  induction data using Text.splitOn_induction lineFeed generalizing r with
  | last data hfree =>
    subst hdata
    exact feed_of_notMem hfree
  | cut a rest ha ih =>
    obtain ⟨s, hnext, rfl, hfault⟩ := Reader.next_of_cut hdata ha
    rw [feed_of_line hnext, ih s rfl, Stream.feed_append_lineFeed ha, hfault]

/-- A reader gives the lines of the whole text of its octets, whatever the size of its buffer and
wherever its fetches end, and what is decoded line by line is that text. If reading fails, all lines
that a line feed ends are given before, and what stands after the last of them is not. -/
theorem feed_lines (s : Stream) :
    List.splitOn '\n' (Utf8.lossy s.data) = (List.splitOn lineFeed s.data).map Utf8.lossy ∧
    (∀ size, 0 < size → (reader (.ofStream size s)).feed = s.feed) ∧
    ∀ r : Reader, r.pending = s.data → r.fault = s.fault → (reader r).feed = s.feed := by
  have hreader (r : Reader) (hdata : r.pending = s.data) (hfault : r.fault = s.fault) :
      (reader r).feed = s.feed := by
    rw [feed_reader, hdata, hfault]
  exact ⟨Utf8.splitOn_lossy s.data,
    fun size hsize => hreader _ (Reader.flatten_fetchesOf hsize s.data) rfl, hreader⟩

theorem feed_broken_character :
    (reader (.ofStream 1 { data := [0xE2, 0x82, 10, 65, 0xFF] })).feed =
      .line [Utf8.replacement] (.line ['A', Utf8.replacement] .finished) ∧
    (reader { buffer := [0xE2], fetches := [[0x82, 10], [65], [0xFF]],
              fault := some .notUtf8 }).feed =
      .line [Utf8.replacement] (.failed .notUtf8) := by
  refine ⟨((feed_lines { data := [0xE2, 0x82, 10, 65, 0xFF] }).2.1 1 (by decide)).trans ?_,
    ((feed_lines { data := [0xE2, 0x82, 10, 65, 0xFF], fault := some .notUtf8 }).2.2
      { buffer := [0xE2], fetches := [[0x82, 10], [65], [0xFF]], fault := some .notUtf8 }
      rfl rfl).trans ?_⟩
  · decide
  · decide

end Source

end LineShell
