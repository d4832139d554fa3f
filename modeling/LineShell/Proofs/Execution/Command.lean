import LineShell.Execution
import LineShell.Proofs.Builtin.Frame

/-! What one command can do: it starts itself or nothing, only `exit` ends the session, and the
history and the count of lines stay as they are. -/

namespace LineShell

def Event.command? : Event → Option (List Text)
  | .call b args => some (b.name :: args)
  | .launch request => some request.argv
  | .print _ | .flush | .persist => none

namespace Resolution

variable {σ : Type} {host : Host σ}

theorem ofPath_ne_builtin (directory : Path) (name : Text) (w : σ) (b : Builtin) :
    (ofPath host directory name w).1 ≠ builtin b := by
  simp only [ofPath]
  split
  · exact fun h => nomatch h
  · split <;> exact fun h => nomatch h

theorem firstExecutable_ne_builtin (candidates : List Path) (w : σ) (b : Builtin) :
    (firstExecutable host candidates w).1 ≠ builtin b := by
  induction candidates generalizing w with
  | nil => exact fun h => nomatch h
  | cons p later ih =>
    unfold firstExecutable
    split
    · exact fun h => nomatch h
    · exact ih _

theorem search_ne_builtin (directory : Path) (searchPath : Option Text) (name : Text) (w : σ)
    (b : Builtin) : (search host directory searchPath name w).1 ≠ builtin b := by
  unfold search
  split
  · exact fun h => nomatch h
  · split
    · exact fun h => nomatch h
    · exact firstExecutable_ne_builtin _ _ _

theorem name_of_resolve {environment : Environment} {directory : Path} {name : Text} {w : σ}
    {b : Builtin} (h : (resolve host environment directory name w).1 = builtin b) :
    b.name = name := by
  unfold resolve at h
  split at h
  · rename_i b' hnamed
    obtain rfl : b' = b := by simpa using h
    have hname : (b'.name == name) = true :=
      List.find?_some (p := fun b : Builtin => b.name == name) hnamed
    exact eq_of_beq hname
  · split at h
    · exact absurd h (ofPath_ne_builtin _ _ _ _)
    · exact absurd h (search_ne_builtin _ _ _ _ _)

theorem resolve_name (environment : Environment) (directory : Path) (b : Builtin) (w : σ) :
    resolve host environment directory b.name w = (builtin b, w) := by
  cases b <;> rfl

end Resolution

namespace Machine

variable {σ : Type} {m n : Machine σ}

structure Ran (argv : List Text) (m : Machine σ) (r : Flow × Machine σ) : Prop where
  frame : Frame (· ≠ .persist) m r.2
  started : ∃ new, r.2.past = new ++ m.past ∧
    (new.filterMap Event.command? = [] ∨ new.filterMap Event.command? = [argv])

/-- The command is an `exit`, and one that is carried out. -/
def IsExit (m : Machine σ) (argv : List Text) (status : Int) : Prop :=
  ∃ args, argv = Builtin.exit.name :: args ∧ (Builtin.runExit m args).1 = .ok (.exit status)

theorem filterMap_command?_of_isPrint {new : List Event} (h : ∀ e ∈ new, e.IsPrint) :
    new.filterMap Event.command? = [] := by
  rw [List.filterMap_eq_nil_iff]
  intro e he
  obtain ⟨octets, rfl⟩ := h e he
  rfl

theorem ne_persist_of_isPrint {e : Event} (h : e.IsPrint) : e ≠ .persist := by
  obtain ⟨octets, rfl⟩ := h
  exact fun hc => nomatch hc

theorem ran_refuse (argv : List Text) (m : Machine σ) (command message : Text) (status : Int) :
    Ran argv m (m.refuse command message status) :=
  ⟨frame_of_past rfl rfl rfl rfl rfl, [], rfl, .inl rfl⟩

theorem ran_settle {argv : List Text} (status : Int) (hframe : Frame (· ≠ .persist) m n)
    (hstarted : ∃ new, n.past = new ++ m.past ∧
      (new.filterMap Event.command? = [] ∨ new.filterMap Event.command? = [argv])) :
    Ran argv m (n.settle status) :=
  ⟨hframe.trans (frame_of_past rfl rfl rfl rfl rfl), hstarted⟩

theorem ran_runBuiltin (host : Host σ) (m : Machine σ) (b : Builtin) (args : List Text) :
    Ran (b.name :: args) m (runBuiltin host m b args) := by
  have hcall : Frame (· ≠ .persist) m (m.record (.call b args)) :=
    ⟨rfl, rfl, rfl, rfl, [.call b args], rfl, by simp⟩
  have hhandle := Builtin.frame_handle host (m.record (.call b args)) args b
  obtain ⟨printed, hpast, hprint⟩ := hhandle.events
  have hframe := hcall.trans (hhandle.mono fun _ => ne_persist_of_isPrint)
  have hstarted : ∃ new, (b.run host m args).2.past = new ++ m.past ∧
      (new.filterMap Event.command? = [] ∨ new.filterMap Event.command? = [b.name :: args]) := by
    refine ⟨printed ++ [.call b args], ?_, .inr ?_⟩
    · rw [List.append_assoc]
      exact hpast
    · rw [List.filterMap_append, filterMap_command?_of_isPrint hprint]
      rfl
  rw [← Builtin.run] at hframe
  unfold runBuiltin
  split <;> rename_i hrun <;> rw [hrun] at hframe hstarted
  · exact ran_settle _ hframe hstarted
  · exact ⟨hframe.trans (frame_of_past rfl rfl rfl rfl rfl), hstarted⟩
  · exact ⟨hframe.trans (frame_of_past rfl rfl rfl rfl rfl), hstarted⟩

theorem spawn_machine (host : Host σ) (m : Machine σ) (program : Path) (argv : List Text) :
    ∃ sink, (m.spawn host program argv).2 =
      { session := { m.session with sink }
        world := (host.launch (m.request program argv) m.world).2
        past := .launch (m.request program argv) :: .flush :: m.past } := by
  rcases h : host.launch (m.request program argv) m.world with ⟨_ | ⟨status, output⟩, w⟩
  · refine ⟨m.session.sink, ?_⟩
    simp only [spawn, ask, flush, record, h]
  · refine ⟨(m.session.sink.write output).2, ?_⟩
    simp only [spawn, ask, flush, record, update, h]

theorem ran_runProgram (host : Host σ) (m : Machine σ) (program : Path) (name : Text)
    (args : List Text) : Ran (name :: args) m (runProgram host m program name args) := by
  obtain ⟨sink, hspawn⟩ := spawn_machine host m program (name :: args)
  have hframe : Frame (· ≠ .persist) m (m.spawn host program (name :: args)).2 := by
    rw [hspawn]
    exact ⟨rfl, rfl, rfl, rfl, [_, _], rfl, by simp⟩
  have hstarted : ∃ new, (m.spawn host program (name :: args)).2.past = new ++ m.past ∧
      (new.filterMap Event.command? = [] ∨ new.filterMap Event.command? = [name :: args]) := by
    rw [hspawn]
    exact ⟨[_, _], rfl, .inr rfl⟩
  unfold runProgram
  split <;> rename_i hanswer <;> rw [hanswer] at hframe hstarted
  · exact ran_settle _ hframe hstarted
  · exact ⟨hframe.trans (frame_of_past rfl rfl rfl rfl rfl), hstarted⟩

def resolved (host : Host σ) (m : Machine σ) (name : Text) : Machine σ :=
  (m.ask (Resolution.resolve host m.session.environment m.session.directory name)).2

theorem runCommand_cases (host : Host σ) (m : Machine σ) (name : Text) (args : List Text) :
    (∃ b : Builtin, b.name = name ∧
      runCommand host m name args = runBuiltin host (resolved host m name) b args) ∨
    ((∀ b : Builtin, b.name ≠ name) ∧
      ((∃ program, runCommand host m name args =
        runProgram host (resolved host m name) program name args) ∨
      ∃ message status, runCommand host m name args =
        (resolved host m name).refuse name message status)) := by
  rcases h : m.ask (Resolution.resolve host m.session.environment m.session.directory name)
    with ⟨r, n⟩
  have hfst : (Resolution.resolve host m.session.environment m.session.directory name
      m.world).1 = r := congrArg Prod.fst h
  have hother (hr : ∀ b, r ≠ .builtin b) : ∀ b : Builtin, b.name ≠ name := by
    rintro b rfl
    rw [Resolution.resolve_name] at hfst
    exact hr b hfst.symm
  have hn : resolved host m name = n := by rw [resolved, h]
  rw [runCommand, h, hn]
  cases r with
  | builtin b => exact .inl ⟨b, Resolution.name_of_resolve hfst, rfl⟩
  | external program => exact .inr ⟨hother (by simp), .inl ⟨program, rfl⟩⟩
  | notExecutable path => exact .inr ⟨hother (by simp), .inr ⟨_, _, rfl⟩⟩
  | notFound => exact .inr ⟨hother (by simp), .inr ⟨_, _, rfl⟩⟩

theorem ran_runCommand (host : Host σ) (m : Machine σ) (name : Text) (args : List Text) :
    Ran (name :: args) m (runCommand host m name args) := by
  have hran {r : Flow × Machine σ} (h : Ran (name :: args) (resolved host m name) r) :
      Ran (name :: args) m r := ⟨(frame_ask _).trans h.frame, h.started⟩
  rcases runCommand_cases host m name args with
    ⟨b, rfl, h⟩ | ⟨-, ⟨program, h⟩ | ⟨message, status, h⟩⟩
  · rw [h]
    exact hran (ran_runBuiltin host _ b args)
  · rw [h]
    exact hran (ran_runProgram host _ program name args)
  · rw [h]
    exact hran (ran_refuse _ _ name message status)

theorem runExit_congr (h : n.session.status = m.session.status) (args : List Text) :
    (Builtin.runExit n args).1 = (Builtin.runExit m args).1 := by
  cases args with
  | nil => simp only [Builtin.runExit, h]
  | cons numeral later =>
    simp only [Builtin.runExit]
    split <;> rfl

theorem isExit_congr (h : n.session.status = m.session.status) (argv : List Text) (status : Int) :
    IsExit n argv status ↔ IsExit m argv status := by
  simp only [IsExit, runExit_congr h]

theorem runBuiltin_exit_iff (host : Host σ) (m : Machine σ) (b : Builtin) (args : List Text)
    (status : Int) :
    (runBuiltin host m b args).1 = .exit status ↔ IsExit m (b.name :: args) status := by
  have hresult : (runBuiltin host m b args).1 = .exit status ↔
      (b.run host m args).1 = .ok (.exit status) := by
    unfold runBuiltin
    split <;> rename_i hrun <;> rw [hrun] <;> simp [settle, refuse]
  rw [hresult, IsExit]
  by_cases hb : b = .exit
  · subst hb
    have hcall : (Builtin.runExit (m.record (.call .exit args)) args).1 =
        (Builtin.runExit m args).1 :=
      runExit_congr (m := m) (n := m.record (.call .exit args)) rfl args
    rw [Builtin.run, Builtin.handle, hcall]
    simp
  · have hname : b.name ≠ Builtin.exit.name := by
      cases b <;> first | exact absurd rfl hb | decide
    have hstays := (Builtin.ordinary_handle host (m.record (.call b args)) args hb).stays status
    constructor
    · exact fun h => absurd h hstays
    · rintro ⟨args', h, -⟩
      exact absurd (List.cons.inj h).1 hname

theorem runProgram_flow (host : Host σ) (m : Machine σ) (program : Path) (name : Text)
    (args : List Text) : (runProgram host m program name args).1 = .continue := by
  unfold runProgram
  split <;> rfl

theorem runCommand_exit_iff (host : Host σ) (m : Machine σ) (name : Text) (args : List Text)
    (status : Int) :
    (runCommand host m name args).1 = .exit status ↔ IsExit m (name :: args) status := by
  rcases runCommand_cases host m name args with ⟨b, rfl, h⟩ | ⟨hother, hrefused⟩
  · rw [h, runBuiltin_exit_iff]
    exact isExit_congr (m := m) (n := resolved host m b.name) rfl (b.name :: args) status
  · have hflow : (runCommand host m name args).1 = .continue := by
      rcases hrefused with ⟨program, h⟩ | ⟨message, code, h⟩
      · rw [h, runProgram_flow]
      · rw [h]
        rfl
    constructor
    · intro h
      rw [hflow] at h
      exact nomatch h
    · rintro ⟨args', hname, -⟩
      exact absurd (List.cons.inj hname).1.symm (hother .exit)

theorem status_of_exit (host : Host σ) (m : Machine σ) (name : Text) (args : List Text)
    {status : Int} (h : (runCommand host m name args).1 = .exit status) :
    (runCommand host m name args).2.session.status = status := by
  rcases runCommand_cases host m name args with
    ⟨b, rfl, hrun⟩ | ⟨-, ⟨program, hrun⟩ | ⟨message, code, hrun⟩⟩
  · rw [hrun] at h ⊢
    rcases hb : b.run host (resolved host m b.name) args with ⟨e | code | code, n⟩ <;>
      simp only [runBuiltin, hb] at h ⊢
    · exact nomatch h
    · exact nomatch h
    · exact Flow.exit.inj h
  · rw [hrun, runProgram_flow] at h
    exact nomatch h
  · rw [hrun] at h
    exact nomatch h

end Machine

end LineShell
