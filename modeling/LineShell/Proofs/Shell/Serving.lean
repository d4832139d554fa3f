import LineShell.Proofs.Execution.Visit
import LineShell.Proofs.Host.Contents
import LineShell.Shell

/-! A whole run of the shell on lines from any source. The source may change with every request,
look at the session and at the world, and never come to an end. -/

namespace LineShell

/-- Anything that lines can be requested from, one at a time, while a session is running. -/
structure LineSource (σ ι : Type) where
  next : Session → ι → σ → (Reply × ι) × σ

def Feed.pop : Feed → Reply × Feed
  | .line t later => (.line t, later)
  | .finished => (.finished, .finished)
  | .failed e => (.failed e, .failed e)

def Feed.source (σ : Type) : LineSource σ Feed where
  next _ feed w := (feed.pop, w)

structure Served (σ ι : Type) where
  result : Except IoError Int
  machine : Machine σ
  source : ι
  unsaved : Option HistoryError

namespace Shell

open Machine

variable {σ ι : Type}

def obey (host : Host σ) (m : Machine σ) (t : Text) : Flow × Machine σ :=
  (m.update (·.accept t)).runLine host t

/-- Requests lines, at most so many, until one ends the session, there are no more, or a request
fails. Without any of these there is no value yet. -/
def requestUpTo (host : Host σ) (src : LineSource σ ι) :
    Nat → Machine σ → ι → Option (Except IoError Int × Machine σ × ι)
  | 0, _, _ => none
  | i + 1, m, s =>
    match m.ask (src.next m.session s) with
    | ((.finished, s), m) => some (.ok m.session.status, m, s)
    | ((.failed e, s), m) => some (.error e, m, s)
    | ((.line t, s), m) =>
      match obey host m t with
      | (.exit status, m) => some (.ok status, m, s)
      | (.continue, m) => requestUpTo host src i m s

def serveUpTo (host : Host σ) (src : LineSource σ ι) (i : Nat) (m : Machine σ) (s : ι) :
    Option (Served σ ι) :=
  (requestUpTo host src i m s).map fun (result, m, source) =>
    { result, machine := (finish host m).2, source, unsaved := (finish host m).1 }

def Requested (src : LineSource σ ι) (m : Machine σ) (s : ι) (r : Reply) (n : Machine σ)
    (s' : ι) : Prop := m.ask (src.next m.session s) = ((r, s'), n)

section

variable {host : Host σ} {src : LineSource σ ι} {m n k : Machine σ} {s s' : ι} {t : Text}

theorem requestUpTo_finished (i : Nat) (h : Requested src m s .finished n s') :
    requestUpTo host src (i + 1) m s = some (.ok n.session.status, n, s') := by
  rw [requestUpTo, h]

theorem requestUpTo_failed {e : IoError} (i : Nat) (h : Requested src m s (.failed e) n s') :
    requestUpTo host src (i + 1) m s = some (.error e, n, s') := by
  rw [requestUpTo, h]

theorem requestUpTo_exit {status : Int} (i : Nat) (h : Requested src m s (.line t) n s')
    (hobey : obey host n t = (.exit status, k)) :
    requestUpTo host src (i + 1) m s = some (.ok status, k, s') := by
  rw [requestUpTo, h]
  simp only [hobey]

theorem requestUpTo_line (i : Nat) (h : Requested src m s (.line t) n s')
    (hobey : obey host n t = (.continue, k)) :
    requestUpTo host src (i + 1) m s = requestUpTo host src i k s' := by
  rw [requestUpTo, h]
  simp only [hobey]

end

theorem requested_line (m : Machine σ) (t : Text) (later : Feed) :
    Requested (Feed.source σ) m (.line t later) (.line t) m later := rfl

theorem exists_requestUpTo_source (host : Host σ) (m : Machine σ) (feed : Feed) :
    ∃ i, requestUpTo host (Feed.source σ) i m feed = some (loop host m feed) := by
  induction feed generalizing m with
  | finished => exact ⟨1, requestUpTo_finished 0 rfl⟩
  | failed e => exact ⟨1, requestUpTo_failed 0 rfl⟩
  | line t later ih =>
    have hrequest := requested_line m t later
    rw [loop, ← obey]
    rcases hobey : obey host m t with ⟨_ | status, n⟩
    · obtain ⟨i, hi⟩ := ih n
      exact ⟨i + 1, (requestUpTo_line i hrequest hobey).trans hi⟩
    · exact ⟨1, requestUpTo_exit 0 hrequest hobey⟩

theorem exists_serveUpTo_source (host : Host σ) (m : Machine σ) (feed : Feed) :
    ∃ i, serveUpTo host (Feed.source σ) i m feed =
      some { result := (run host m feed).result, machine := (run host m feed).machine,
             source := (run host m feed).unread, unsaved := (run host m feed).unsaved } := by
  obtain ⟨i, hi⟩ := exists_requestUpTo_source host m feed
  refine ⟨i, ?_⟩
  rw [serveUpTo, hi]
  rfl

end Shell

namespace Machine

variable {σ : Type} {m n k : Machine σ}

/-- What lines leave behind of which the shell has taken note: they are counted, the history has
them in order, and it was not written meanwhile. -/
structure Noted (lines : List Text) (m n : Machine σ) : Prop where
  history : n.session.history = lines.foldl History.add m.session.history
  lineCount : n.session.lineCount = m.session.lineCount + lines.length
  journal : ∃ new, n.journal = m.journal ++ new ∧ .persist ∉ new

theorem Noted.nil (hsession : n.session = m.session) (hpast : n.past = m.past) : Noted [] m n := by
  refine ⟨?_, ?_, [], ?_, List.not_mem_nil⟩
  · rw [hsession]
    rfl
  · rw [hsession]
    rfl
  · rw [Machine.journal, Machine.journal, hpast, List.append_nil]

theorem Noted.append {before after : List Text} (h : Noted before m n) (h' : Noted after n k) :
    Noted (before ++ after) m k := by
  obtain ⟨new, hnew, hpersist⟩ := h.journal
  obtain ⟨new', hnew', hpersist'⟩ := h'.journal
  refine ⟨?_, ?_, new ++ new', ?_, ?_⟩
  · rw [h'.history, h.history, List.foldl_append]
  · rw [h'.lineCount, h.lineCount, List.length_append, Nat.add_assoc]
  · rw [hnew', hnew, List.append_assoc]
  · rw [List.mem_append, not_or]
    exact ⟨hpersist, hpersist'⟩

theorem noted_obey (host : Host σ) (m : Machine σ) (t : Text) :
    Noted [t] m (Shell.obey host m t).2 := by
  have hframe := frame_runChain host (m.update (·.accept t)) (Chain.parse t)
  obtain ⟨new, hpast, hnew⟩ := hframe.events
  refine ⟨hframe.history, hframe.lineCount, new.reverse, ?_, ?_⟩
  · rw [Machine.journal, Shell.obey, runLine, hpast, List.reverse_append]
    rfl
  · exact fun he => hnew _ (List.mem_reverse.1 he) rfl

end Machine

namespace Shell

open Machine

variable {σ ι : Type} {host : Host σ} {src : LineSource σ ι} {m n k : Machine σ} {s s' s'' : ι}

inductive Obeyed (host : Host σ) (src : LineSource σ ι) :
    Machine σ → ι → List Text → Machine σ → ι → Prop
  | nil (m : Machine σ) (s : ι) : Obeyed host src m s [] m s
  | line {m m' n k : Machine σ} {s s' s'' : ι} {t : Text} {later : List Text}
      (hrequest : Requested src m s (.line t) m' s') (hobey : obey host m' t = (.continue, n))
      (hlater : Obeyed host src n s' later k s'') : Obeyed host src m s (t :: later) k s''

theorem Requested.noted {r : Reply} (h : Requested src m s r n s') : Noted [] m n := by
  obtain rfl : n = (m.ask (src.next m.session s)).2 := by rw [h]
  exact Noted.nil rfl rfl

theorem noted_of_obey {t : Text} {flow : Flow} (hrequest : Requested src m s (.line t) n s')
    (hobey : obey host n t = (flow, k)) : Noted [t] m k := by
  have h := noted_obey host n t
  rw [hobey] at h
  exact hrequest.noted.append h

theorem Obeyed.noted {lines : List Text} (h : Obeyed host src m s lines n s') :
    Noted lines m n := by
  induction h with
  | nil m s => exact Noted.nil rfl rfl
  | line hrequest hobey _ ih => exact (noted_of_obey hrequest hobey).append ih

theorem requestUpTo_of_obeyed {lines : List Text} (h : Obeyed host src m s lines n s') (i : Nat) :
    requestUpTo host src (lines.length + i) m s = requestUpTo host src i n s' := by
  induction h with
  | nil m s => rw [List.length_nil, Nat.zero_add]
  | line hrequest hobey _ ih =>
    rw [List.length_cons, Nat.add_right_comm]
    exact (requestUpTo_line _ hrequest hobey).trans ih

theorem requestUpTo_eq_none {lines : List Text} (h : Obeyed host src m s lines n s') {i : Nat}
    (hi : i ≤ lines.length) : requestUpTo host src i m s = none := by
  induction h generalizing i with
  | nil m s =>
    obtain rfl : i = 0 := Nat.le_zero.1 hi
    rfl
  | line hrequest hobey _ ih =>
    cases i with
    | zero => rfl
    | succ i => exact (requestUpTo_line i hrequest hobey).trans (ih (Nat.le_of_succ_le_succ hi))

/-- How a session ends at its next request: with a line that has an `exit` carried out, with the
status as it stands if there are no more lines, or with the failure of the request. -/
inductive Ends (host : Host σ) (src : LineSource σ ι) (m : Machine σ) (s : ι) :
    List Text → Except IoError Int → Machine σ → ι → Prop
  | exit {n k : Machine σ} {s' : ι} {t : Text} {status : Int}
      (hrequest : Requested src m s (.line t) n s') (hobey : obey host n t = (.exit status, k)) :
      Ends host src m s [t] (.ok status) k s'
  | finished {n : Machine σ} {s' : ι} (hrequest : Requested src m s .finished n s') :
      Ends host src m s [] (.ok m.session.status) n s'
  | failed {n : Machine σ} {s' : ι} {e : IoError} (hrequest : Requested src m s (.failed e) n s') :
      Ends host src m s [] (.error e) n s'

theorem Requested.session {r : Reply} (h : Requested src m s r n s') :
    n.session = m.session := by
  obtain rfl : n = (m.ask (src.next m.session s)).2 := by rw [h]
  rfl

theorem Ends.noted {lines : List Text} {result : Except IoError Int}
    (h : Ends host src m s lines result n s') : Noted lines m n := by
  cases h with
  | exit hrequest hobey => exact noted_of_obey hrequest hobey
  | finished hrequest => exact hrequest.noted
  | failed hrequest => exact hrequest.noted

theorem requestUpTo_of_ends {lines : List Text} {result : Except IoError Int} (i : Nat)
    (h : Ends host src m s lines result n s') :
    requestUpTo host src (i + 1) m s = some (result, n, s') := by
  cases h with
  | exit hrequest hobey => exact requestUpTo_exit i hrequest hobey
  | finished hrequest => rw [requestUpTo_finished i hrequest, hrequest.session]
  | failed hrequest => exact requestUpTo_failed i hrequest

def Concluded (host : Host σ) (src : LineSource σ ι) (i : Nat) (m : Machine σ) (s : ι)
    (r : Except IoError Int × Machine σ × ι) : Prop :=
  ∃ lines k s' last, lines.length < i ∧ Obeyed host src m s lines k s' ∧
    Ends host src k s' last r.1 r.2.1 r.2.2

theorem Ends.concluded {last : List Text} {result : Except IoError Int} (i : Nat)
    (h : Ends host src m s last result n s') :
    Concluded host src (i + 1) m s (result, n, s') :=
  ⟨[], m, s, last, Nat.succ_pos i, .nil m s, h⟩

theorem Concluded.line {i : Nat} {t : Text} {r : Except IoError Int × Machine σ × ι}
    (hrequest : Requested src m s (.line t) n s') (hobey : obey host n t = (.continue, k))
    (h : Concluded host src i k s' r) : Concluded host src (i + 1) m s r := by
  obtain ⟨lines, k', s'', last, hlt, hlines, hends⟩ := h
  exact ⟨t :: lines, k', s'', last, Nat.succ_lt_succ hlt, .line hrequest hobey hlines, hends⟩

theorem concluded_of_requestUpTo {i : Nat} {r : Except IoError Int × Machine σ × ι}
    (h : requestUpTo host src i m s = some r) : Concluded host src i m s r := by
  induction i generalizing m s with
  | zero => exact nomatch h
  | succ i ih =>
    rcases hrequest : m.ask (src.next m.session s) with ⟨⟨reply, s'⟩, n⟩
    cases reply with
    | finished =>
      obtain rfl := Option.some.inj ((requestUpTo_finished i hrequest).symm.trans h)
      rw [Requested.session hrequest]
      exact (Ends.finished hrequest).concluded i
    | failed e =>
      obtain rfl := Option.some.inj ((requestUpTo_failed i hrequest).symm.trans h)
      exact (Ends.failed hrequest).concluded i
    | line t =>
      rcases hobey : obey host n t with ⟨_ | status, k⟩
      · rw [requestUpTo_line i hrequest hobey] at h
        exact (ih h).line hrequest hobey
      · obtain rfl := Option.some.inj ((requestUpTo_exit i hrequest hobey).symm.trans h)
        exact (Ends.exit hrequest hobey).concluded i

/-- A history that has a file asks the world to save all its lines there, and the answer is what is
told. One without a file asks for nothing. -/
inductive Saves (host : Host σ) (h : History) (w : σ) : Option HistoryError → σ → Prop
  | nothing (hfile : h.file = none) : Saves host h w none w
  | saved {path : Path} {w' : σ} (hfile : h.file = some path)
      (hsave : host.save path (Utf8.encode (Text.unlines h.lines)) w = (.ok (), w')) :
      Saves host h w none w'
  | refused {path : Path} {cause : IoError} {w' : σ} (hfile : h.file = some path)
      (hsave : host.save path (Utf8.encode (Text.unlines h.lines)) w = (.error cause, w')) :
      Saves host h w (some ⟨path, cause⟩) w'

/-- What is left after some lines that have led to a machine: the output was flushed and the history
was saved, each of them once, and the result does not tell whether that went well. -/
structure Closes (host : Host σ) (m : Machine σ) (lines : List Text) (result : Except IoError Int)
    (n : Machine σ) (s : ι) (e : Served σ ι) : Prop where
  noted : Noted lines m n
  result : e.result = result
  source : e.source = s
  session : e.machine.session = n.session
  journal : e.machine.journal = n.journal ++ [.flush, .persist]
  saves : Saves host n.session.history n.world e.unsaved e.machine.world

theorem finish_saved {w : σ} (h : n.session.history.persist host n.world = (.ok (), w)) :
    finish host n = (none, { n with past := .persist :: .flush :: n.past, world := w }) := by
  simp only [finish, flush, record, ask, h]

theorem finish_unsaved {e : HistoryError} {w : σ}
    (h : n.session.history.persist host n.world = (.error e, w)) :
    finish host n = (some e, { n with past := .persist :: .flush :: n.past, world := w }) := by
  simp only [finish, flush, record, ask, h]

theorem saves_finish (host : Host σ) (n : Machine σ) :
    Saves host n.session.history n.world (finish host n).1 (finish host n).2.world := by
  rcases hfile : n.session.history.file with _ | path
  · have hpersist : n.session.history.persist host n.world = (.ok (), n.world) := by
      simp only [History.persist, hfile]
    rw [finish_saved hpersist]
    exact .nothing hfile
  · rcases hsave : host.save path (Utf8.encode (Text.unlines n.session.history.lines)) n.world with
      ⟨cause | _, w⟩
    · have hpersist : n.session.history.persist host n.world = (.error ⟨path, cause⟩, w) := by
        simp only [History.persist, hfile, History.save_lines, hsave]
      rw [finish_unsaved hpersist]
      exact .refused hfile hsave
    · have hpersist : n.session.history.persist host n.world = (.ok (), w) := by
        simp only [History.persist, hfile, History.save_lines, hsave]
      rw [finish_saved hpersist]
      exact .saved hfile hsave

theorem finish_machine (host : Host σ) (n : Machine σ) :
    (finish host n).2.session = n.session ∧
      (finish host n).2.journal = n.journal ++ [.flush, .persist] := by
  have hjournal : (Event.persist :: .flush :: n.past).reverse =
      n.past.reverse ++ [.flush, .persist] := by
    rw [List.reverse_cons, List.reverse_cons, List.append_assoc]
    rfl
  rcases hpersist : n.session.history.persist host n.world with ⟨e | _, w⟩
  · rw [finish_unsaved hpersist]
    exact ⟨rfl, hjournal⟩
  · rw [finish_saved hpersist]
    exact ⟨rfl, hjournal⟩

theorem closes_finish {lines : List Text} (result : Except IoError Int) (s : ι)
    (h : Noted lines m n) :
    Closes host m lines result n s
      { result, machine := (finish host n).2, source := s, unsaved := (finish host n).1 } where
  noted := h
  result := rfl
  source := rfl
  session := (finish_machine host n).1
  journal := (finish_machine host n).2
  saves := saves_finish host n

/-- Lines are requested, noted and run one at a time until one has an `exit` carried out, there are
no more, or a request fails, and then all is put away. No request is made after that one, every run
that ends does so in one of these ways, and to run a feed is to serve it. -/
theorem serveUpTo_ends (host : Host σ) (src : LineSource σ ι) (m : Machine σ) (s : ι) :
    (∀ lines n s', Obeyed host src m s lines n s' →
      (∀ i ≤ lines.length, serveUpTo host src i m s = none) ∧
      ∀ last result k s'', Ends host src n s' last result k s'' →
        ∃ e, Closes host m (lines ++ last) result k s'' e ∧
          ∀ i > lines.length, serveUpTo host src i m s = some e) ∧
    (∀ i e, serveUpTo host src i m s = some e →
      ∃ lines n s', lines.length < i ∧ Obeyed host src m s lines n s' ∧
        ∃ last result k s'', Ends host src n s' last result k s'' ∧
          Closes host m (lines ++ last) result k s'' e) ∧
    ∀ feed, ∃ i, serveUpTo host (Feed.source σ) i m feed =
      some { result := (run host m feed).result, machine := (run host m feed).machine,
             source := (run host m feed).unread, unsaved := (run host m feed).unsaved } := by
  refine ⟨fun lines n s' hlines => ⟨fun i hi => ?_, fun last result k s'' hends => ?_⟩,
    fun i e he => ?_, exists_serveUpTo_source host m⟩
  · rw [serveUpTo, requestUpTo_eq_none hlines hi]
    rfl
  · refine ⟨_, closes_finish result s'' (hlines.noted.append hends.noted), fun i hi => ?_⟩
    obtain ⟨d, rfl⟩ : ∃ d, i = lines.length + (d + 1) := ⟨i - lines.length - 1, by omega⟩
    rw [serveUpTo, requestUpTo_of_obeyed hlines, requestUpTo_of_ends d hends]
    rfl
  · obtain ⟨⟨result, k, s''⟩, hall, rfl⟩ := Option.map_eq_some_iff.1 he
    obtain ⟨lines, n, s', last, hlt, hlines, hends⟩ := concluded_of_requestUpTo hall
    exact ⟨lines, n, s', hlt, hlines, last, result, k, s'', hends,
      closes_finish result s'' (hlines.noted.append hends.noted)⟩

theorem Saves.notebook {path : Path} {h : History} {w w' : Option Bytes}
    {unsaved : Option HistoryError} (hsaves : Saves (Host.notebook path) h w unsaved w')
    (hfile : h.file = some path) :
    unsaved = none ∧ w' = some (Utf8.encode (Text.unlines h.lines)) := by
  cases hsaves with
  | nothing hnone =>
    rw [hfile] at hnone
    cases hnone
  | saved hsome hsave =>
    obtain rfl := Option.some.inj (hfile.symm.trans hsome)
    rw [Host.save_notebook] at hsave
    exact ⟨rfl, (Prod.mk.inj hsave).2.symm⟩
  | refused hsome hsave =>
    obtain rfl := Option.some.inj (hfile.symm.trans hsome)
    rw [Host.save_notebook] at hsave
    cases (Prod.mk.inj hsave).1

def keeper : Machine (Option Bytes) where
  session :=
    { idle.session with history := { bound := 2, newest := ["ls".toList], file := some ⟨[]⟩ } }
  world := none

theorem serveUpTo_ends_keeper :
    let host := Host.notebook ⟨[]⟩
    let feed := Feed.line "setenv A 1".toList (.line "exit 3 # done".toList
      (.line "env".toList .finished))
    ∃ n e, Closes host keeper ["setenv A 1".toList, "exit 3 # done".toList] (.ok 3) n
        (.line "env".toList .finished) e ∧
      e.unsaved = none ∧
      e.machine.world = some (Utf8.encode "setenv A 1\nexit 3 # done\n".toList) ∧
      ∀ i > 1, serveUpTo host (Feed.source (Option Bytes)) i keeper feed = some e := by
  intro host feed
  let k := (obey host keeper "setenv A 1".toList).2
  have hset : obey host keeper "setenv A 1".toList = (.continue, k) := Prod.ext (by decide) rfl
  have hexit : obey host k "exit 3 # done".toList =
      (.exit 3, (obey host k "exit 3 # done".toList).2) := Prod.ext (by decide) rfl
  obtain ⟨e, hcloses, hserve⟩ := ((serveUpTo_ends host (Feed.source (Option Bytes)) keeper feed).1
    _ _ _ (.line (requested_line _ _ _) hset (.nil _ _))).2 _ _ _ _
      (.exit (requested_line _ _ _) hexit)
  have hsaves := hcloses.saves
  rw [hcloses.noted.history] at hsaves
  obtain ⟨hunsaved, hworld⟩ := hsaves.notebook (by decide)
  refine ⟨_, e, hcloses, hunsaved, ?_, hserve⟩
  rw [hworld]
  decide

end Shell

end LineShell
