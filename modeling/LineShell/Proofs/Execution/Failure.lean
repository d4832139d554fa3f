import LineShell.Proofs.Builtin.Failure
import LineShell.Proofs.Execution.Reach

/-! What a line makes of a builtin that fails: one complaint and a status that tells the kind of
failure. Then the line goes on. -/

namespace LineShell

theorem CommandError.status_eq_two_iff (e : CommandError) :
    e.status = 2 ↔ (∃ numeral, e = .illegalNumber numeral) ∨ ∃ target, e = .cdFailed target := by
  cases e <;> simp [CommandError.status]

theorem CommandError.status_cases (e : CommandError) : e.status = 1 ∨ e.status = 2 := by
  cases e <;> simp [CommandError.status]

namespace Machine

variable {σ : Type} {host : Host σ} {m : Machine σ} {chain : Chain} {v : Visit σ}

theorem runChain_of_visit (hv : v ∈ visits host m 0 chain) (hflow : v.flow = .continue) :
    runChain host m chain = runChain host v.after (chain.drop (v.position + 1)) := by
  obtain ⟨link, -, hfollows⟩ := follows_of_mem_visits hv
  have hafter := hfollows.after
  rw [hflow] at hafter
  have hsplit := runChain_append host m (chain.take (v.position + 1)) (chain.drop (v.position + 1))
  rw [List.take_append_drop, hafter] at hsplit
  exact hsplit

theorem visit_of_builtin {b : Builtin} {args : List Text} (hv : v ∈ visits host m 0 chain)
    (hargv : v.argv = b.name :: args) :
    runBuiltin host v.before b args = (v.flow, v.after) := by
  rcases visit_cases hv with ⟨b', args', hargv', hrun⟩ | ⟨hnone, -⟩
  · rw [hargv] at hargv'
    obtain ⟨hname, rfl⟩ := List.cons.inj hargv'
    have hb : b = b' := by
      have h : Resolution.resolve host {} ⟨[]⟩ b.name v.before.world =
          (.builtin b, v.before.world) := Resolution.resolve_name {} ⟨[]⟩ b v.before.world
      rw [hname, Resolution.resolve_name] at h
      exact (Resolution.builtin.inj (Prod.mk.inj h).1).symm
    rwa [hb]
  · exact absurd (by rw [hargv, List.head?_cons]) (hnone b)

theorem runBuiltin_failed {b : Builtin} {args : List Text} {e : CommandError}
    (herror : (b.run host m args).1 = .error e) (hio : ¬ e.IsIo) :
    runBuiltin host m b args =
      ({ m.record (.call b args) with world := (b.run host m args).2.world } : Machine σ).refuse
        b.name e.message e.status := by
  have hatomic := Builtin.atomic_handle host (m.record (.call b args)) args b e herror hio
  rcases hrun : b.run host m args with ⟨r, n⟩
  rw [hrun] at herror
  obtain rfl : r = .error e := herror
  rw [runBuiltin, hrun]
  rw [← Builtin.run, hrun] at hatomic
  exact congrArg (fun k : Machine σ => k.refuse b.name e.message e.status) hatomic

/-- A builtin that fails, and not because of the sink, leaves the session as it was. On a line, what
is left then is one complaint and the status 2 if a number or a directory was no good, else 1, and
the links that come next are run from there. -/
theorem failed_leaves (host : Host σ) (m : Machine σ) :
    (∀ (b : Builtin) args e n, b.handle host m args = (.error e, n) → ¬ e.IsIo →
      n.session = m.session ∧ n.past = m.past) ∧
    ∀ line, ∀ v ∈ visits host m 0 (Chain.parse line), ∀ (b : Builtin) args e,
      v.argv = b.name :: args → (b.run host v.before args).1 = .error e → ¬ e.IsIo →
      let s := v.before.session
      let complaint := s.program ++ ": ".toList ++ Text.ofNat s.lineCount ++ ": ".toList ++
        b.name ++ ": ".toList ++ e.message
      v.flow = .continue ∧
      v.after.session = { s with status := e.status, complaints := complaint :: s.complaints } ∧
      v.after.session.diagnostics = s.diagnostics ++ [complaint] ∧
      v.after.past = .call b args :: v.before.past ∧
      (e.status = 2 ↔ (∃ numeral, e = .illegalNumber numeral) ∨ ∃ target, e = .cdFailed target) ∧
      (e.status = 1 ∨ e.status = 2) ∧
      runLine host m line = runChain host v.after ((Chain.parse line).drop (v.position + 1)) := by
  refine ⟨fun b args e n hrun hio => ?_, fun line v hv b args e hargv herror hio => ?_⟩
  · have hatomic := Builtin.atomic_handle host m args b e (by rw [hrun]) hio
    rw [hrun] at hatomic
    have hn : n = { m with world := n.world } := hatomic
    rw [hn]
    exact ⟨rfl, rfl⟩
  · intro s complaint
    have hrun := (visit_of_builtin hv hargv).symm.trans (runBuiltin_failed herror hio)
    obtain ⟨hflow, hafter⟩ := Prod.mk.inj hrun
    have hsession : v.after.session =
        { s with status := e.status, complaints := complaint :: s.complaints } := by
      rw [hafter]
      rfl
    refine ⟨hflow, hsession, ?_, by rw [hafter]; rfl, e.status_eq_two_iff, e.status_cases,
      runChain_of_visit hv hflow⟩
    rw [hsession, Session.diagnostics, List.reverse_cons, Session.diagnostics]

theorem failed_leaves_idle :
    (Builtin.exit.handle Host.void idle ["x".toList]).2.session = idle.session ∧
    ∃ v ∈ visits Host.void idle 0 (Chain.parse "cd / && env || exit 2".toList),
      v.after.session.diagnostics = ["hsh: 0: cd: can't cd to /".toList] ∧
      runLine Host.void idle "cd / && env || exit 2".toList =
        runChain Host.void v.after
          ((Chain.parse "cd / && env || exit 2".toList).drop (v.position + 1)) := by
  obtain ⟨hhandle, hline⟩ := failed_leaves Host.void idle
  have hexit : ¬ (CommandError.illegalNumber "x".toList).IsIo := by
    rintro ⟨cause, h⟩
    exact nomatch h
  have hcd : ¬ (CommandError.cdFailed "/".toList).IsIo := by
    rintro ⟨cause, h⟩
    exact nomatch h
  have hvisit := List.getElem_mem (l := visits Host.void idle 0
    (Chain.parse "cd / && env || exit 2".toList)) (n := 0) (by decide)
  obtain ⟨-, -, hdiagnostics, -, -, -, hrest⟩ :=
    hline _ _ hvisit .cd ["/".toList] _ (by decide) rfl hcd
  exact ⟨(hhandle .exit ["x".toList] _ idle rfl hexit).1, _, hvisit,
    hdiagnostics.trans (by decide), hrest⟩

end Machine

end LineShell
