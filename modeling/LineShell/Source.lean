import LineShell.Host

/-! Where lines come from: a stream of octets read through a buffer, or a single given line. -/

namespace LineShell

inductive Reply
  | line (t : Text)
  | finished
  | failed (cause : IoError)
  deriving DecidableEq, Repr

/-- Octets on their way in: those fetched but not yet used, those that each further fetch will
bring, and whether fetching fails after that instead of telling that all is read. -/
structure Reader where
  buffer : Bytes := []
  fetches : List Bytes
  fault : Option IoError := none
  deriving DecidableEq, Repr

namespace Reader

def lineFeed : UInt8 := 10

def fetchesOf (size : Nat) (data : Bytes) : List Bytes :=
  if data = [] ∨ size = 0 then []
  else data.take size :: fetchesOf size (data.drop size)
termination_by data.length
decreasing_by
  rename_i h
  simp only [not_or] at h
  have := List.length_pos_iff.2 h.1
  simp only [List.length_drop]
  omega

def ofStream (size : Nat) (s : Stream) : Reader :=
  { fetches := fetchesOf size s.data, fault := s.fault }

def cutLine : Bytes → Option (Bytes × Bytes)
  | [] => none
  | b :: r =>
    if b = lineFeed then some ([], r)
    else (cutLine r).map fun (line, rest) => (b :: line, rest)

/-- Collects octets up to a line feed, fetching as often as needed. Without a line feed the
second part is missing, and all octets are in the first. -/
def collect (buffer : Bytes) (fetches : List Bytes) : Bytes × Option (Bytes × List Bytes) :=
  match cutLine buffer with
  | some (line, rest) => (line, some (rest, fetches))
  | none =>
    match fetches with
    | [] => (buffer, none)
    | fetched :: later =>
      let (line, rest) := collect fetched later
      (buffer ++ line, rest)

def next (r : Reader) : Reply × Reader :=
  match collect r.buffer r.fetches with
  | (line, some (buffer, fetches)) => (.line (Utf8.lossy line), { r with buffer, fetches })
  | (line, none) =>
    let spent := { r with buffer := [], fetches := [] }
    match r.fault with
    | some e => (.failed e, spent)
    | none => (if line.isEmpty then .finished else .line (Utf8.lossy line), spent)

def remaining (r : Reader) : Nat := r.buffer.length + r.fetches.flatten.length

theorem length_cutLine {b line rest : Bytes} (h : cutLine b = some (line, rest)) :
    b.length = line.length + 1 + rest.length := by
  induction b generalizing line with
  | nil => simp [cutLine] at h
  | cons c r ih =>
    by_cases hc : c = lineFeed
    · simp only [cutLine, hc, if_true, Option.some.injEq, Prod.mk.injEq] at h
      obtain ⟨rfl, rfl⟩ := h
      simp [Nat.add_comm]
    · simp only [cutLine, hc, if_false, Option.map_eq_some_iff, Prod.mk.injEq] at h
      obtain ⟨⟨l, s⟩, hl, rfl, rfl⟩ := h
      simp only [List.length_cons, ih hl]
      omega

theorem length_collect {buffer : Bytes} {fetches : List Bytes} :
    match (collect buffer fetches).2 with
    | some (rest, later) =>
      rest.length + later.flatten.length < buffer.length + fetches.flatten.length
    | none => (collect buffer fetches).1.length = buffer.length + fetches.flatten.length := by
  induction fetches generalizing buffer with
  | nil =>
    cases h : cutLine buffer with
    | none => simp [collect, h]
    | some p => have := length_cutLine h; simp [collect, h]; omega
  | cons f later ih =>
    cases h : cutLine buffer with
    | none =>
      have := @ih f
      rw [collect, h]
      cases hc : (collect f later).2 <;> simp only [hc] at this ⊢ <;>
        simp only [List.flatten_cons, List.length_append] <;> omega
    | some p => have := length_cutLine h; rw [collect, h]; simp; omega

theorem remaining_next {r s : Reader} {t : Text} (h : r.next = (.line t, s)) :
    s.remaining < r.remaining := by
  have hc := @length_collect r.buffer r.fetches
  revert h
  rw [next]
  split
  · rename_i line buffer fetches e
    rw [e] at hc
    rintro ⟨rfl, rfl⟩
    exact hc
  · rename_i line e
    rw [e] at hc
    cases r.fault with
    | some _ => simp
    | none =>
      cases line with
      | nil => simp
      | cons b l =>
        simp only [List.isEmpty_cons, Bool.false_eq_true, if_false, Prod.mk.injEq]
        rintro ⟨-, rfl⟩
        simp only [remaining, List.length_nil, List.flatten_nil]
        simp only [List.length_cons] at hc
        omega

end Reader

inductive Source
  | reader (r : Reader)
  | single (line : Option Text)
  deriving DecidableEq, Repr

namespace Source

def next : Source → Reply × Source
  | reader r => (r.next.1, reader r.next.2)
  | single (some t) => (.line t, single none)
  | single none => (.finished, single none)

def remaining : Source → Nat
  | reader r => r.remaining
  | single (some _) => 1
  | single none => 0

theorem remaining_next {s s' : Source} {t : Text} (h : s.next = (.line t, s')) :
    s'.remaining < s.remaining := by
  match s with
  | reader r =>
    simp only [next, Prod.mk.injEq] at h
    obtain ⟨h, rfl⟩ := h
    exact Reader.remaining_next (Prod.ext h rfl)
  | single (some u) =>
    simp only [next, Prod.mk.injEq] at h
    obtain ⟨-, rfl⟩ := h
    simp [remaining]
  | single none => simp [next] at h

end Source

inductive Feed
  | line (t : Text) (later : Feed)
  | finished
  | failed (cause : IoError)
  deriving DecidableEq, Repr

def Source.feed (s : Source) : Feed :=
  match _h : s.next with
  | (.line t, later) => .line t later.feed
  | (.finished, _) => .finished
  | (.failed e, _) => .failed e
termination_by s.remaining
decreasing_by exact remaining_next _h

end LineShell
