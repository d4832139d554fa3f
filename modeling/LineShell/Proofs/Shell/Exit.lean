import LineShell.Proofs.Execution.Failure
import LineShell.Proofs.Text.Numeral
import LineShell.Shell

/-! Which numerals end a session. `exit` takes every numeral up to its limit, however many zeros it
begins with, and leaves with one octet of it; any other word is one failed command on a line that
goes on. -/

namespace LineShell

namespace Numeral

def Leaves (t : Text) (status : Int) : Prop :=
  ∃ n, Denotes t n ∧ n ≤ 2 ^ 31 - 1 ∧ status = (n % 256 : Nat)

theorem Leaves.octet {t : Text} {status : Int} (h : Leaves t status) :
    0 ≤ status ∧ status ≤ 255 := by
  obtain ⟨n, -, -, rfl⟩ := h
  omega

theorem leaves_iff {t : Text} {status : Int} :
    Leaves t status ↔ ∃ n, read? statusMax t = some n ∧ status = (n % 256 : Nat) := by
  refine exists_congr fun n => ?_
  rw [read?_eq_some_iff, and_assoc]
  rfl

theorem not_leaves_iff {t : Text} :
    (∀ status, ¬ Leaves t status) ↔ read? statusMax t = none := by
  rw [Option.eq_none_iff_forall_ne_some, ← not_exists, ← not_exists]
  refine not_congr ⟨?_, ?_⟩
  · rintro ⟨status, h⟩
    obtain ⟨n, hn, -⟩ := leaves_iff.1 h
    exact ⟨n, hn⟩
  · rintro ⟨n, hn⟩
    exact ⟨_, leaves_iff.2 ⟨n, hn, rfl⟩⟩

end Numeral

namespace Machine

variable {σ : Type} {host : Host σ} {m : Machine σ} {numeral : Text} {status : Int}

theorem runExit_of_leaves (h : Numeral.Leaves numeral status) (m : Machine σ)
    (later : List Text) : Builtin.runExit m (numeral :: later) = (.ok (.exit status), m) := by
  obtain ⟨n, hread, rfl⟩ := Numeral.leaves_iff.1 h
  simp only [Builtin.runExit, hread]

theorem runExit_of_not_leaves (h : ∀ status, ¬ Numeral.Leaves numeral status) (m : Machine σ)
    (later : List Text) :
    Builtin.runExit m (numeral :: later) = (.error (.illegalNumber numeral), m) := by
  simp only [Builtin.runExit, Numeral.not_leaves_iff.1 h]

theorem runBuiltin_of_not_leaves (h : ∀ status, ¬ Numeral.Leaves numeral status) (m : Machine σ)
    (later : List Text) : runBuiltin host m .exit (numeral :: later) =
      (m.record (.call .exit (numeral :: later))).refuse "exit".toList
        ("Illegal number: ".toList ++ numeral) 2 := by
  rw [runBuiltin, Builtin.run, Builtin.handle, runExit_of_not_leaves h]
  rfl

theorem isExit_numeral_iff {later : List Text} :
    IsExit m (Builtin.exit.name :: numeral :: later) status ↔ Numeral.Leaves numeral status := by
  have hargs : IsExit m (Builtin.exit.name :: numeral :: later) status ↔
      (Builtin.runExit m (numeral :: later)).1 = .ok (.exit status) := by
    constructor
    · rintro ⟨args, hargv, hexit⟩
      rwa [(List.cons.inj hargv).2]
    · exact fun h => ⟨_, rfl, h⟩
  rw [hargs]
  constructor
  · intro h
    by_contra hno
    by_cases hany : ∃ c, Numeral.Leaves numeral c
    · obtain ⟨c, hc⟩ := hany
      rw [runExit_of_leaves hc] at h
      obtain rfl : c = status := Outcome.exit.inj (Except.ok.inj h)
      exact hno hc
    · rw [runExit_of_not_leaves (not_exists.1 hany)] at h
      exact nomatch h
  · intro h
    rw [runExit_of_leaves h]

theorem loop_of_exit {line : Text} {feed : Feed} {n : Machine σ}
    (h : runLine host (m.update (·.accept line)) line = (.exit status, n)) :
    Shell.loop host m (.line line feed) = (.ok status, n, feed) := by
  rw [Shell.loop, h]

/-- With a numeral within its limit `exit` ends the line and the shell, and the numeral modulo 256
is the status. With any other word it fails and tells which word that was, and the line goes on from
there with the status 2. -/
theorem exit_numeral (host : Host σ) (m : Machine σ) (numeral : Text) (later : List Text) :
    let args := numeral :: later
    (∀ status, Numeral.Leaves numeral status →
      Builtin.run host .exit m args = (.ok (.exit status), m.record (.call .exit args))) ∧
    ((∀ status, ¬ Numeral.Leaves numeral status) →
      Builtin.run host .exit m args =
        (.error (.illegalNumber numeral), m.record (.call .exit args))) ∧
    ∀ line, ∀ v ∈ visits host m 0 (Chain.parse line), v.argv = Builtin.exit.name :: args →
      (∀ status, v.flow = .exit status ↔ Numeral.Leaves numeral status) ∧
      (∀ status, v.flow = .exit status → 0 ≤ status ∧ status ≤ 255 ∧
        runLine host m line = (.exit status, v.after) ∧ v.after.session.status = status ∧
        ∀ k feed, k.update (·.accept line) = m →
          Shell.loop host k (.line line feed) = (.ok status, v.after, feed)) ∧
      (v.flow = .continue →
        let s := v.before.session
        let complaint := s.program ++ ": ".toList ++ Text.ofNat s.lineCount ++
          ": exit: Illegal number: ".toList ++ numeral
        v.after.session = { s with status := 2, complaints := complaint :: s.complaints } ∧
        runLine host m line =
          runChain host v.after ((Chain.parse line).drop (v.position + 1))) := by
  intro args
  refine ⟨fun status h => runExit_of_leaves h _ later,
    fun h => runExit_of_not_leaves h _ later, fun line v hv hargv => ?_⟩
  have hflow (status : Int) : v.flow = .exit status ↔ Numeral.Leaves numeral status := by
    rw [exit_iff_of_mem_visits hv, hargv, isExit_numeral_iff]
  refine ⟨hflow, fun status h => ?_, fun h => ?_⟩
  · have hexit := (exit_iff_of_mem_visits hv status).1 h
    obtain ⟨hrun, hstatus, -⟩ := visits_end hv hexit
    obtain ⟨hlow, hhigh⟩ := ((hflow status).1 h).octet
    refine ⟨hlow, hhigh, hrun, hstatus, ?_⟩
    rintro k feed rfl
    exact loop_of_exit hrun
  · intro s complaint
    have hno : ∀ status, ¬ Numeral.Leaves numeral status := by
      intro status hleaves
      rw [(hflow status).2 hleaves] at h
      exact nomatch h
    obtain ⟨-, hafter⟩ := Prod.mk.inj
      ((visit_of_builtin hv hargv).symm.trans (runBuiltin_of_not_leaves hno v.before later))
    refine ⟨?_, runChain_of_visit hv h⟩
    rw [hafter]
    simp [update, record, Session.report, Session.withStatus, s, complaint]

theorem exit_numeral_leading_zeros :
    let line := "exit ++1 || exit +0257 2 ; env".toList
    let m := idle.update (·.accept line)
    Builtin.run Host.void .exit idle ["+0002147483647".toList] =
      (.ok (.exit 255), idle.record (.call .exit ["+0002147483647".toList])) ∧
    Builtin.run Host.void .exit idle ["2147483648".toList] =
      (.error (.illegalNumber "2147483648".toList),
        idle.record (.call .exit ["2147483648".toList])) ∧
    (∃ v ∈ visits Host.void m 0 (Chain.parse line), v.position = 0 ∧
      v.after.session.status = 2 ∧
      v.after.session.diagnostics = ["hsh: 1: exit: Illegal number: ++1".toList]) ∧
    ∃ v ∈ visits Host.void m 0 (Chain.parse line), v.position = 1 ∧ v.flow = .exit 1 ∧
      Shell.loop Host.void idle (.line line (.line "env".toList .finished)) =
        (.ok 1, v.after, .line "env".toList .finished) := by
  intro line m
  have hgreatest : Numeral.Leaves "+0002147483647".toList 255 :=
    Numeral.leaves_iff.2 ⟨2147483647, by decide, by decide⟩
  have hgreater : ∀ status, ¬ Numeral.Leaves "2147483648".toList status :=
    Numeral.not_leaves_iff.2 (by decide)
  have hone : Numeral.Leaves "+0257".toList 1 := Numeral.leaves_iff.2 ⟨257, by decide, by decide⟩
  have hfirst := List.getElem_mem (l := visits Host.void m 0 (Chain.parse line)) (n := 0) (by decide)
  have hsecond := List.getElem_mem (l := visits Host.void m 0 (Chain.parse line)) (n := 1)
    (by decide)
  refine ⟨(exit_numeral Host.void idle "+0002147483647".toList []).1 255 hgreatest,
    (exit_numeral Host.void idle "2147483648".toList []).2.1 hgreater, ⟨_, hfirst, by decide, ?_⟩,
    ⟨_, hsecond, by decide, ?_⟩⟩
  · have hfailed := (((exit_numeral Host.void m "++1".toList []).2.2 line _ hfirst (by decide)).2.2
      (by decide)).1
    rw [hfailed]
    exact ⟨rfl, by decide⟩
  · obtain ⟨hflow, hends, -⟩ :=
      (exit_numeral Host.void m "+0257".toList ["2".toList]).2.2 line _ hsecond (by decide)
    have hexit := (hflow 1).2 hone
    exact ⟨hexit, (hends 1 hexit).2.2.2.2 idle _ rfl⟩

end Machine

end LineShell
