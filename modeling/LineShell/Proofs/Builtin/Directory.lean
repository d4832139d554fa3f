import LineShell.Proofs.Builtin.Frame
import LineShell.Proofs.Builtin.Holdings
import LineShell.Proofs.Execution.Sequence
import LineShell.Proofs.Table.Without
import LineShell.Proofs.Text.Encoding

/-! Moving from one directory to another and back. What is noted of a move is enough to undo it: the
directory that was left is in `OLDPWD` before the new one is in `PWD`, and `cd -` changes both
round. -/

namespace LineShell

variable {σ : Type} {host : Host σ} {real : Path → Option Path} {enterable : Path → Bool}
  {settled : σ → Prop}

theorem Path.display_ofText (t : Text) : (ofText t).display = t := Utf8.lossy_encode t

structure Host.Charted (host : Host σ) (real : Path → Option Path) (enterable : Path → Bool)
    (settled : σ → Prop) : Prop where
  canonicalize : ∀ p w, settled w →
    (host.canonicalize p w).1 = real p ∧ settled (host.canonicalize p w).2
  isSearchable : ∀ p w, settled w →
    (host.isSearchable p w).1 = enterable p ∧ settled (host.isSearchable p w).2
  absolute : ∀ p q, real p = some q → q.IsAbsolute
  fixed : ∀ p q, real p = some q → real q = some q

def Path.linked (p : Path) : Option Path :=
  if p = .ofText "/a".toList then some (.ofText "/a".toList)
  else if p = .ofText "/b".toList ∨ p = .ofText "/a/link".toList then some (.ofText "/b".toList)
  else none

theorem Path.eq_of_linked {p q : Path} (h : p.linked = some q) :
    q = .ofText "/a".toList ∨ q = .ofText "/b".toList := by
  unfold linked at h
  split at h
  · exact .inl (Option.some.inj h).symm
  · split at h
    · exact .inr (Option.some.inj h).symm
    · exact nomatch h

def Host.linked : Host Unit :=
  { Host.void with
    canonicalize := fun p w => (p.linked, w)
    isSearchable := fun p w => (p.linked.isSome, w) }

theorem Host.charted_linked :
    linked.Charted Path.linked (fun p => p.linked.isSome) fun _ => True where
  canonicalize _ _ _ := ⟨rfl, trivial⟩
  isSearchable _ _ _ := ⟨rfl, trivial⟩
  absolute _ _ h := by
    rcases Path.eq_of_linked h with rfl | rfl <;> decide
  fixed _ _ h := by
    rcases Path.eq_of_linked h with rfl | rfl <;> decide

namespace Builtin

/-- What a call of `cd` comes to that leads from one machine to a directory: the directory, what is
noted of it and of the one before, and what is printed. -/
structure Moved (m : Machine σ) (r : Except CommandError Outcome × Machine σ) (here before : Text)
    (printed : List Text) : Prop where
  outcome : r.1 = .ok (.status 0)
  directory : r.2.session.directory = .ofText here
  current : r.2.session.environment.lookup "PWD".toList = some here
  previous : r.2.session.environment.lookup "OLDPWD".toList = some before
  others : r.2.session.environment.vars.without ["OLDPWD".toList, "PWD".toList] =
    m.session.environment.vars.without ["OLDPWD".toList, "PWD".toList]
  written : r.2.session.sink.written =
    m.session.sink.written ++ Utf8.encode (Text.unlines printed)

structure Ready (settled : σ → Prop) (m : Machine σ) : Prop where
  world : settled m.world
  sink : ∃ pieces, m.session.sink = .working pieces

variable {m n : Machine σ} {args : List Text} {target here before : Text} {echo : Bool}

theorem destination_of_charted (hcharted : host.Charted real enterable settled) {directory : Path}
    {arrived : Path} {w : σ} (hw : settled w)
    (hreal : real (directory.join (.ofText target)) = some arrived)
    (henter : enterable arrived = true) :
    ∃ w', settled w' ∧ destination host directory target w = (some arrived, w') := by
  have hanswer := hcharted.canonicalize (directory.join (.ofText target)) w hw
  rcases h : host.canonicalize (directory.join (.ofText target)) w with ⟨answer, w₁⟩
  rw [h, hreal] at hanswer
  obtain ⟨rfl, hw₁⟩ : answer = some arrived ∧ settled w₁ := hanswer
  have hanswer' := hcharted.isSearchable arrived w₁ hw₁
  rcases h' : host.isSearchable arrived w₁ with ⟨answer', w₂⟩
  rw [h', henter] at hanswer'
  obtain ⟨rfl, hw₂⟩ : answer' = true ∧ settled w₂ := hanswer'
  exact ⟨w₂, hw₂, by simp only [destination, h, h']⟩

def moved (m : Machine σ) (w : σ) (arrived : Path) : Machine σ :=
  { m with world := w }.update fun s =>
    { s with
      environment := s.environment.run
        [.set "OLDPWD".toList s.directory.display, .set "PWD".toList arrived.display]
      directory := arrived }

theorem runCd_of_arrived {arrived : Path} {w : σ}
    (htarget : cdTarget m.session.environment args = .ok (target, echo))
    (hdestination : destination host m.session.directory target m.world = (some arrived, w)) :
    runCd host m args = sayAll (moved m w arrived) (if echo then [arrived.display] else []) := by
  simp only [runCd, htarget, Machine.ask, hdestination, move_eq, moved]

theorem vars_moved (m : Machine σ) (w : σ) (arrived : Path) :
    (moved m w arrived).session.environment.vars =
      (m.session.environment.vars.insert "OLDPWD".toList m.session.directory.display).insert
        "PWD".toList arrived.display :=
  Environment.vars_run _ _

theorem lookup_moved (m : Machine σ) (w : σ) (arrived : Path) :
    (moved m w arrived).session.environment.lookup "PWD".toList = some arrived.display ∧
      (moved m w arrived).session.environment.lookup "OLDPWD".toList =
        some m.session.directory.display := by
  have hother : "OLDPWD".toList ≠ "PWD".toList := by decide
  constructor
  · rw [Environment.lookup, vars_moved, Table.get?_insert, if_pos rfl]
  · rw [Environment.lookup, vars_moved, Table.get?_insert, if_neg hother, Table.get?_insert,
      if_pos rfl]

theorem without_moved (m : Machine σ) (w : σ) (arrived : Path) :
    (moved m w arrived).session.environment.vars.without ["OLDPWD".toList, "PWD".toList] =
      m.session.environment.vars.without ["OLDPWD".toList, "PWD".toList] := by
  let log : List Table.Change :=
    [.put "OLDPWD".toList m.session.directory.display, .put "PWD".toList arrived.display]
  have hnames : ∀ change ∈ log, change.name ∈ ["OLDPWD".toList, "PWD".toList] := by
    simp [log, Table.Change.name]
  rw [vars_moved]
  exact Table.without_foldl_apply hnames m.session.environment.vars

theorem sayAll_of_ready (hready : Ready settled m) (lines : List Text) :
    Ready settled (sayAll m lines).2 ∧
      ∃ sink, (sayAll m lines).2.session = { m.session with sink } := by
  obtain ⟨pieces, hpieces⟩ := hready.sink
  obtain ⟨pieces', hsession, hworld⟩ := Machine.print_rest hpieces (Text.unlines lines)
  rw [sayAll_machine]
  exact ⟨⟨hworld ▸ hready.world, pieces', by rw [hsession]⟩, _, hsession⟩

theorem moved_run (hcharted : host.Charted real enterable settled) (hready : Ready settled m)
    (htarget : cdTarget m.session.environment args = .ok (target, echo))
    (hreal : real (m.session.directory.join (.ofText target)) = some (.ofText here))
    (henter : enterable (.ofText here) = true) :
    let r := Builtin.run host .cd m args
    Moved m r here m.session.directory.display (if echo then [here] else []) ∧
      Ready settled r.2 := by
  intro r
  obtain ⟨w, hw, hdestination⟩ :=
    destination_of_charted (w := m.world) hcharted hready.world hreal henter
  let called := m.record (.call .cd args)
  have hr : r = sayAll (moved called w (.ofText here)) (if echo then [here] else []) := by
    have hran := runCd_of_arrived (m := called) htarget hdestination
    rwa [Path.display_ofText] at hran
  have hmoved : Ready settled (moved called w (.ofText here)) := ⟨hw, hready.sink⟩
  obtain ⟨pieces, hpieces⟩ := hmoved.sink
  obtain ⟨hstatus, hwritten⟩ := sayAll_written hpieces (if echo then [here] else [])
  obtain ⟨hready', sink, hsession⟩ := sayAll_of_ready hmoved (if echo then [here] else [])
  obtain ⟨hcurrent, hprevious⟩ := lookup_moved called w (.ofText here)
  rw [Path.display_ofText] at hcurrent
  rw [← hr] at hstatus hwritten hready' hsession
  refine ⟨⟨hstatus, ?_, ?_, ?_, ?_, hwritten⟩, hready'⟩
  · rw [hsession]
    rfl
  · rw [hsession]
    exact hcurrent
  · rw [hsession]
    exact hprevious
  · rw [hsession]
    exact without_moved called w (.ofText here)

theorem moved_back (hcharted : host.Charted real enterable settled) (hready : Ready settled m)
    (hhere : m.session.directory = .ofText here)
    (hprevious : m.session.environment.lookup "OLDPWD".toList = some before)
    (hreal : real (.ofText before) = some (.ofText before))
    (henter : enterable (.ofText before) = true) :
    let r := Builtin.run host .cd m ["-".toList]
    Moved m r before here [before] ∧ Ready settled r.2 := by
  have htarget : cdTarget m.session.environment ["-".toList] = .ok (before, true) := by
    simp only [cdTarget, if_pos, hprevious]
  -- the path is absolute, so that it does not matter where the session is
  have hjoin : m.session.directory.join (.ofText before) = .ofText before :=
    if_pos (hcharted.absolute _ _ hreal)
  have hmoved := moved_run hcharted hready htarget (by rw [hjoin, hreal]) henter
  rwa [hhere, Path.display_ofText] at hmoved

/-- A call of `cd` leads to the directory that its target names, and notes it and the one that was
left. From then on each `cd -` goes back to the other of both and prints where it went, and after
two of them all is noted as it was. -/
theorem cd_there_and_back (hcharted : host.Charted real enterable settled)
    (hworld : settled m.world) {pieces : List Bytes} (hsink : m.session.sink = .working pieces)
    (htarget : cdTarget m.session.environment args = .ok (target, echo))
    (hreal : real (m.session.directory.join (.ofText target)) = some (.ofText here))
    (henter : enterable (.ofText here) = true) :
    let r := Builtin.run host .cd m args
    Moved m r here m.session.directory.display (if echo then [here] else []) ∧
    ∀ before, m.session.directory = .ofText before →
      real (.ofText before) = some (.ofText before) → enterable (.ofText before) = true →
      let back := Builtin.run host .cd r.2 ["-".toList]
      let again := Builtin.run host .cd back.2 ["-".toList]
      Moved m r here before (if echo then [here] else []) ∧
        Moved r.2 back before here [before] ∧ Moved back.2 again here before [here] := by
  intro r
  obtain ⟨hmoved, hready⟩ := moved_run hcharted ⟨hworld, pieces, hsink⟩ htarget hreal henter
  refine ⟨hmoved, ?_⟩
  intro before hbefore hreal' henter' back again
  rw [hbefore, Path.display_ofText] at hmoved
  obtain ⟨hback, hready'⟩ :=
    moved_back hcharted hready hmoved.directory hmoved.previous hreal' henter'
  have hfixed : real (.ofText here) = some (.ofText here) := hcharted.fixed _ _ hreal
  obtain ⟨hagain, -⟩ := moved_back hcharted hready' hback.directory hback.previous hfixed henter
  exact ⟨hmoved, hback, hagain⟩

theorem cd_there_and_back_link :
    let host := Host.linked
    let start := Machine.idle.update fun s => { s with directory := .ofText "/a".toList }
    let there := Builtin.run host .cd start ["link".toList]
    let back := Builtin.run host .cd there.2 ["-".toList]
    let again := Builtin.run host .cd back.2 ["-".toList]
    Moved start there "/b".toList "/a".toList [] ∧
      Moved there.2 back "/a".toList "/b".toList ["/a".toList] ∧
      Moved back.2 again "/b".toList "/a".toList ["/b".toList] := by
  intro host start there back again
  have htarget : cdTarget start.session.environment ["link".toList] =
      .ok ("link".toList, false) := by decide
  have hreal : (start.session.directory.join (.ofText "link".toList)).linked =
      some (.ofText "/b".toList) := by decide
  obtain ⟨-, h⟩ := cd_there_and_back Host.charted_linked trivial rfl htarget hreal (by decide)
  exact h "/a".toList rfl (by decide) (by decide)

end Builtin

end LineShell
