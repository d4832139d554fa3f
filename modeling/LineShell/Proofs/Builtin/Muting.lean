import LineShell.Proofs.Builtin.Holdings

/-! A builtin that prints nothing does not meet the sink, so it does the same with a broken one. -/

namespace LineShell

namespace Machine

variable {σ : Type}

/-- The machine with a sink that fails whenever it is given anything, and whenever it is flushed. -/
def muted (m : Machine σ) (cause : IoError) : Machine σ :=
  m.update fun s => { s with sink := .broken cause }

section

variable (m : Machine σ) (cause : IoError)

@[simp]
theorem muted_environment :
    (m.muted cause).session.environment = m.session.environment := rfl

@[simp]
theorem muted_aliases : (m.muted cause).session.aliases = m.session.aliases := rfl

@[simp]
theorem muted_directory : (m.muted cause).session.directory = m.session.directory := rfl

@[simp]
theorem muted_status : (m.muted cause).session.status = m.session.status := rfl

@[simp]
theorem muted_world : (m.muted cause).world = m.world := rfl

end

theorem Frame.suffix {p : Event → Prop} {m n : Machine σ} (h : Frame p m n) :
    m.past <:+ n.past := by
  obtain ⟨new, hnew, -⟩ := h.events
  exact ⟨new, hnew.symm⟩

end Machine

namespace Builtin

open Machine

variable {σ α : Type} {m : Machine σ} {lines : List Text} {cause : IoError}

/-- Where no event is recorded, it makes no difference whether the sink is broken. Builtins record
what they print and nothing else. -/
def Unheard (cause : IoError) (m : Machine σ) (f : Machine σ → α × Machine σ) : Prop :=
  (f m).2.past = m.past → f (m.muted cause) = ((f m).1, (f m).2.muted cause)

theorem say_silent (h : (say m lines).2.past = m.past) (n : Machine σ) :
    say n lines = (.ok (), n) := by
  have hempty : (Text.unlines lines).isEmpty = true := by
    by_contra hne
    rw [say_machine, print, if_neg hne] at h
    exact List.cons_ne_self _ _ h
  rw [say, print, if_pos hempty]

theorem unheard_sayAll (cause : IoError) (m : Machine σ) (lines : List Text) :
    Unheard cause m (sayAll · lines) := by
  intro h
  have hsay : (say m lines).2.past = m.past := by
    rw [say_machine, ← sayAll_machine]
    exact h
  have hsilent (n : Machine σ) : sayAll n lines = (.ok (.status 0), n) := by
    rw [sayAll, say_silent hsay]
  simp only [hsilent]

theorem unheard_runExit (cause : IoError) (m : Machine σ) (args : List Text) :
    Unheard cause m (runExit · args) := by
  intro _
  cases args with
  | nil => rfl
  | cons numeral later =>
    simp only [runExit]
    split <;> rfl

theorem unheard_runEnv (cause : IoError) (m : Machine σ) (args : List Text) :
    Unheard cause m (runEnv · args) := by
  intro h
  cases args with
  | nil =>
    let flattened := m.update fun s =>
      { s with environment := m.session.environment.flatten.2 }
    exact unheard_sayAll cause flattened m.session.environment.flatten.1 h
  | cons _ _ => rfl

theorem unheard_runSetenv (cause : IoError) (m : Machine σ) (args : List Text) :
    Unheard cause m (runSetenv · args) := by
  intro _
  rcases args with _ | ⟨name, _ | ⟨value, _ | ⟨_, _⟩⟩⟩
  · rfl
  · rfl
  · cases hset : m.session.environment.set name value with
    | ok environment =>
      simp only [runSetenv, assign, muted_environment, hset]
      rfl
    | error e => simp only [runSetenv, assign, muted_environment, hset]
  · rfl

theorem unheard_runUnsetenv (cause : IoError) (m : Machine σ) (args : List Text) :
    Unheard cause m (runUnsetenv · args) := by
  intro _
  cases args <;> rfl

theorem unheard_runCd (host : Host σ) (cause : IoError) (m : Machine σ) (args : List Text) :
    Unheard cause m (runCd host · args) := by
  intro h
  rcases htarget : cdTarget m.session.environment args with e | ⟨target, echo⟩
  · simp only [runCd, muted_environment, htarget]
  · rcases hdestination : destination host m.session.directory target m.world with ⟨_ | arrived, w⟩
    · simp only [runCd, muted_environment, htarget, ask, muted_directory, muted_world,
        hdestination]
      rfl
    · simp only [runCd, muted_environment, htarget, ask, muted_directory, muted_world,
        hdestination, move_eq] at h ⊢
      exact unheard_sayAll cause _ _ h

theorem unheard_runHelp (cause : IoError) (m : Machine σ) (args : List Text) :
    Unheard cause m (runHelp · args) := by
  intro h
  cases args with
  | nil => exact unheard_sayAll cause m _ h
  | cons name later =>
    cases hnamed : named? name with
    | none => simp only [runHelp, hnamed]
    | some b =>
      simp only [runHelp, hnamed] at h ⊢
      exact unheard_sayAll cause m _ h

theorem unheard_runHistory (cause : IoError) (m : Machine σ) (args : List Text) :
    Unheard cause m (runHistory · args) := by
  intro h
  rcases args with _ | ⟨numeral, _ | ⟨_, _⟩⟩
  · exact unheard_sayAll cause m _ h
  · cases hread : Numeral.read? Numeral.wordMax numeral with
    | none => simp only [runHistory, hread]
    | some count =>
      simp only [runHistory, hread] at h ⊢
      exact unheard_sayAll cause m _ h
  · rfl

theorem unheard_applyAlias (cause : IoError) (m : Machine σ) (arg : Text) :
    Unheard cause m (applyAlias · arg) := by
  intro h
  rcases hcut : Text.cutAt '=' arg with _ | ⟨name, value⟩
  · cases hvalue : m.session.aliases.get? arg with
    | none =>
      simp only [applyAlias, hcut, muted_aliases, hvalue]
      rfl
    | some value =>
      have hsay : (say m [Alias.format arg value]).2.past = m.past := by
        simp only [applyAlias, hcut, hvalue] at h
        split at h <;> rename_i hsay <;> rw [hsay] <;> exact h
      simp only [applyAlias, hcut, muted_aliases, hvalue, say_silent hsay]
  · simp only [applyAlias, hcut]
    split <;> rfl

theorem unheard_applyAliases (cause : IoError) {status : Int} (hstatus : status = 0 ∨ status = 1)
    (m : Machine σ) (args : List Text) : Unheard cause m (applyAliases status · args) := by
  induction args generalizing status m with
  | nil => exact fun _ => rfl
  | cons arg later ih =>
    intro h
    have hframe := led_applyAlias lasting_frame m arg
    have hfirst := unheard_applyAlias cause m arg
    rcases happly : applyAlias m arg with ⟨e | good, n⟩ <;>
      simp only [Unheard, happly] at hframe hfirst <;> simp only [applyAliases, happly] at h ⊢
    · rw [hfirst h]
    · have hnext : (if good then status else 1) = 0 ∨ (if good then status else 1) = 1 := by
        cases good
        · exact .inr rfl
        · exact hstatus
      -- if nothing is printed in all, nothing is for this argument and nothing for a later one
      have hlater := (settles_applyAliases lasting_frame hnext n later).led
      have hback : n.past <:+ m.past := h ▸ hlater.suffix
      have hn : n.past = m.past := (hframe.suffix.eq_of_length_le hback.length_le).symm
      rw [hfirst hn]
      exact ih hnext n (h.trans hn.symm)

theorem unheard_runAlias (cause : IoError) (m : Machine σ) (args : List Text) :
    Unheard cause m (runAlias · args) := by
  cases args with
  | nil => exact unheard_sayAll cause m _
  | cons arg later => exact unheard_applyAliases cause (.inl rfl) m (arg :: later)

theorem unheard_handle (host : Host σ) (cause : IoError) (m : Machine σ) (args : List Text)
    (b : Builtin) : Unheard cause m (b.handle host · args) := by
  cases b with
  | exit => exact unheard_runExit cause m args
  | env => exact unheard_runEnv cause m args
  | setenv => exact unheard_runSetenv cause m args
  | unsetenv => exact unheard_runUnsetenv cause m args
  | cd => exact unheard_runCd host cause m args
  | help => exact unheard_runHelp cause m args
  | history => exact unheard_runHistory cause m args
  | «alias» => exact unheard_runAlias cause m args

end Builtin

end LineShell
