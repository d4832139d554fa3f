import LineShell.Proofs.Builtin.Holdings

/-! A builtin that fails has done nothing, unless it is the sink that has failed. All that can have
happened is that the world was asked, as `cd` does before it knows whether it can go there. -/

namespace LineShell

def CommandError.IsIo (e : CommandError) : Prop := ∃ cause, e = .io cause

namespace Builtin

variable {σ α : Type} {m n : Machine σ} {e : CommandError}

def Atomic (m : Machine σ) (r : Except CommandError α × Machine σ) : Prop :=
  ∀ e, r.1 = .error e → ¬ e.IsIo → r.2 = { m with world := r.2.world }

theorem atomic_ok (m n : Machine σ) (a : α) : Atomic m (.ok a, n) :=
  fun _ he _ => nomatch he

theorem atomic_refused (m : Machine σ) (e : CommandError) :
    Atomic (α := α) m (.error e, m) := fun _ _ _ => rfl

theorem atomic_of_isIo {r : Except CommandError α × Machine σ}
    (h : ∀ e, r.1 = .error e → e.IsIo) (m : Machine σ) : Atomic m r :=
  fun e he hio => absurd (h e he) hio

theorem isIo_say {lines : List Text} (h : (say m lines).1 = .error e) : e.IsIo := by
  unfold say at h
  split at h
  · exact nomatch h
  · next cause _ _ => exact ⟨cause, (Except.error.inj h).symm⟩

theorem isIo_sayAll {lines : List Text} (h : (sayAll m lines).1 = .error e) : e.IsIo := by
  unfold sayAll at h
  split at h
  · exact nomatch h
  · next cause _ hsay =>
    have he : (say m lines).1 = .error e := by rw [hsay, Except.error.inj h]
    exact isIo_say he

theorem atomic_sayAll (m n : Machine σ) (lines : List Text) : Atomic m (sayAll n lines) :=
  atomic_of_isIo (fun _ => isIo_sayAll) m

theorem isIo_applyAlias {arg : Text} (h : (applyAlias m arg).1 = .error e) : e.IsIo := by
  unfold applyAlias at h
  split at h
  · split at h <;> exact nomatch h
  · split at h
    · next value _ =>
      split at h
      · exact nomatch h
      · next cause _ hsay =>
        have he : (say m [Alias.format arg value]).1 = .error e := by
          rw [hsay, Except.error.inj h]
        exact isIo_say he
    · exact nomatch h

theorem isIo_applyAliases {status : Int} {args : List Text}
    (h : (applyAliases status m args).1 = .error e) : e.IsIo := by
  induction args generalizing status m with
  | nil => exact nomatch h
  | cons arg later ih =>
    rw [applyAliases] at h
    split at h
    · next cause _ happly =>
      have he : (applyAlias m arg).1 = .error e := by rw [happly, Except.error.inj h]
      exact isIo_applyAlias he
    · exact ih h

theorem atomic_runExit (m : Machine σ) (args : List Text) : Atomic m (runExit m args) := by
  intro e _ _
  rw [runExit_machine]

theorem atomic_runEnv (m : Machine σ) (args : List Text) : Atomic m (runEnv m args) := by
  cases args with
  | nil => exact atomic_sayAll m _ _
  | cons _ _ => exact atomic_refused m _

theorem atomic_runSetenv (m : Machine σ) (args : List Text) : Atomic m (runSetenv m args) := by
  unfold runSetenv
  split
  · next name value =>
    cases hset : m.session.environment.set name value with
    | ok environment =>
      simp only [assign, hset]
      exact atomic_ok m _ _
    | error cause =>
      simp only [assign, hset]
      exact atomic_refused m _
  · exact atomic_refused m _

theorem atomic_runUnsetenv (m : Machine σ) (args : List Text) :
    Atomic m (runUnsetenv m args) := by
  cases args with
  | nil => exact atomic_refused m _
  | cons name later => exact atomic_ok m _ _

theorem atomic_runCd (host : Host σ) (m : Machine σ) (args : List Text) :
    Atomic m (runCd host m args) := by
  rcases htarget : cdTarget m.session.environment args with cause | ⟨target, echo⟩
  · simp only [runCd, htarget]
    exact atomic_refused m cause
  · rcases hdestination : destination host m.session.directory target m.world with ⟨_ | arrived, w⟩
    · simp only [runCd, htarget, Machine.ask, hdestination]
      exact fun _ _ _ => rfl
    · -- both variables are noted or none, so once there is a directory only the echo can fail
      simp only [runCd, htarget, Machine.ask, hdestination, move_eq]
      exact atomic_sayAll m _ _

theorem atomic_runHelp (m : Machine σ) (args : List Text) : Atomic m (runHelp m args) := by
  unfold runHelp
  split
  · exact atomic_sayAll m m _
  · split
    · exact atomic_sayAll m m _
    · exact atomic_refused m _

theorem atomic_runHistory (m : Machine σ) (args : List Text) : Atomic m (runHistory m args) := by
  unfold runHistory
  split
  · exact atomic_sayAll m m _
  · split
    · exact atomic_sayAll m m _
    · exact atomic_refused m _
  · exact atomic_refused m _

theorem atomic_runAlias (m : Machine σ) (args : List Text) : Atomic m (runAlias m args) := by
  cases args with
  | nil => exact atomic_sayAll m m _
  | cons arg later => exact atomic_of_isIo (fun _ => isIo_applyAliases) m

theorem atomic_handle (host : Host σ) (m : Machine σ) (args : List Text) (b : Builtin) :
    Atomic m (b.handle host m args) := by
  cases b with
  | exit => exact atomic_runExit m args
  | env => exact atomic_runEnv m args
  | setenv => exact atomic_runSetenv m args
  | unsetenv => exact atomic_runUnsetenv m args
  | cd => exact atomic_runCd host m args
  | help => exact atomic_runHelp m args
  | history => exact atomic_runHistory m args
  | «alias» => exact atomic_runAlias m args

end Builtin

end LineShell
