import LineShell.Builtin.Dispatch

/-! All that builtins do, taken apart into small effects: they print and complain, they give the
session other variables or aliases, and `cd` asks the world and moves. What holds across each of
these holds across a handler, and a handler other than that of `exit` ends with zero, with one or
with an error. -/

namespace LineShell.Builtin

variable {σ : Type} {R : Machine σ → Machine σ → Prop} {m n : Machine σ}

theorem say_machine (m : Machine σ) (lines : List Text) :
    (say m lines).2 = (m.print (Text.unlines lines)).2 := by
  unfold say
  split <;> rename_i hprint <;> rw [hprint]

theorem sayAll_machine (m : Machine σ) (lines : List Text) :
    (sayAll m lines).2 = (m.print (Text.unlines lines)).2 := by
  rw [← say_machine]
  unfold sayAll
  split <;> rename_i hsay <;> rw [hsay]

/-- A relation between earlier and later machines, as far as handlers other than that of `cd` can
lead. -/
structure Lasting (R : Machine σ → Machine σ → Prop) : Prop where
  refl : ∀ m, R m m
  trans : ∀ {m n k}, R m n → R n k → R m k
  print : ∀ m t, R m (m.print t).2
  report : ∀ m command message, R m (m.update (·.report command message))
  environment : ∀ m environment, R m (m.update fun s => { s with environment })
  aliases : ∀ m aliases, R m (m.update fun s => { s with aliases })

structure Lasting.Moving (R : Machine σ → Machine σ → Prop) : Prop where
  ask : ∀ m (question : σ → Option Path × σ), R m (m.ask question).2
  directory : ∀ m directory, R m (m.update fun s => { s with directory })

/-- What the handler of a builtin comes to, as far as it can be told for all of them. -/
structure Settles (R : Machine σ → Machine σ → Prop) (m : Machine σ)
    (r : Except CommandError Outcome × Machine σ) : Prop where
  led : R m r.2
  outcome : ∀ o, r.1 = .ok o → o = .status 0 ∨ o = .status 1

theorem settles_error (h : R m n) (e : CommandError) : Settles R m (.error e, n) :=
  ⟨h, fun _ ho => nomatch ho⟩

theorem settles_zero (h : R m n) : Settles R m (.ok (.status 0), n) :=
  ⟨h, fun _ ho => .inl (Except.ok.inj ho).symm⟩

theorem Settles.after {r : Except CommandError Outcome × Machine σ} (h : Settles R n r)
    (hR : Lasting R) (hm : R m n) : Settles R m r := ⟨hR.trans hm h.led, h.outcome⟩

section

variable (hR : Lasting R)

include hR

theorem led_say (m : Machine σ) (lines : List Text) : R m (say m lines).2 := by
  rw [say_machine]
  exact hR.print m (Text.unlines lines)

theorem settles_sayAll (m : Machine σ) (lines : List Text) : Settles R m (sayAll m lines) := by
  have hsay := led_say hR m lines
  unfold sayAll
  split <;> rename_i h <;> rw [h] at hsay
  · exact settles_zero hsay
  · exact settles_error hsay _

theorem led_assign (m : Machine σ) (name value : Text) : R m (assign m name value).2 := by
  unfold assign
  split
  · exact hR.environment m _
  · exact hR.refl m

theorem settles_runEnv (m : Machine σ) (args : List Text) : Settles R m (runEnv m args) := by
  cases args with
  | nil => exact (settles_sayAll hR _ _).after hR (hR.environment m _)
  | cons _ _ => exact settles_error (hR.refl m) _

theorem settles_runSetenv (m : Machine σ) (args : List Text) :
    Settles R m (runSetenv m args) := by
  unfold runSetenv
  split
  · next name value =>
    have hassign := led_assign hR m name value
    split <;> rename_i h <;> rw [h] at hassign
    · exact settles_zero hassign
    · exact settles_error hassign _
  · exact settles_error (hR.refl m) _

theorem settles_runUnsetenv (m : Machine σ) (args : List Text) :
    Settles R m (runUnsetenv m args) := by
  cases args with
  | nil => exact settles_error (hR.refl m) _
  | cons name later => exact settles_zero (hR.environment m _)

theorem led_move (hmoving : Lasting.Moving R) (m : Machine σ) (arrived : Path) :
    R m (move m arrived).2 := by
  have hold := led_assign hR m "OLDPWD".toList m.session.directory.display
  unfold move
  split <;> rename_i m₁ h <;> rw [h] at hold
  · exact hold
  · have hnew := hR.trans hold (led_assign hR m₁ "PWD".toList arrived.display)
    split <;> rename_i m₂ h' <;> rw [h'] at hnew
    · exact hnew
    · exact hR.trans hnew (hmoving.directory m₂ arrived)

theorem settles_runCd (hmoving : Lasting.Moving R) (host : Host σ) (m : Machine σ)
    (args : List Text) : Settles R m (runCd host m args) := by
  unfold runCd
  split
  · exact settles_error (hR.refl m) _
  · next target echo _ =>
    have hask := hmoving.ask m (destination host m.session.directory target)
    split <;> rename_i hdestination <;> rw [hdestination] at hask
    · exact settles_error hask _
    · next arrived m₁ =>
      have hmove := hR.trans hask (led_move hR hmoving m₁ arrived)
      split <;> rename_i hmoved <;> rw [hmoved] at hmove
      · exact settles_error hmove _
      · exact (settles_sayAll hR _ _).after hR hmove

theorem settles_runHelp (m : Machine σ) (args : List Text) : Settles R m (runHelp m args) := by
  unfold runHelp
  split
  · exact settles_sayAll hR m _
  · split
    · exact settles_sayAll hR m _
    · exact settles_error (hR.refl m) _

theorem settles_runHistory (m : Machine σ) (args : List Text) :
    Settles R m (runHistory m args) := by
  unfold runHistory
  split
  · exact settles_sayAll hR m _
  · split
    · exact settles_sayAll hR m _
    · exact settles_error (hR.refl m) _
  · exact settles_error (hR.refl m) _

theorem led_applyAlias (m : Machine σ) (arg : Text) : R m (applyAlias m arg).2 := by
  unfold applyAlias
  split
  · split
    · exact hR.report m _ _
    · exact hR.aliases m _
  · split
    · next value _ =>
      have hsay := led_say hR m [Alias.format arg value]
      split <;> rename_i h <;> rw [h] at hsay <;> exact hsay
    · exact hR.report m _ _

theorem settles_applyAliases {status : Int} (hstatus : status = 0 ∨ status = 1) (m : Machine σ)
    (args : List Text) : Settles R m (applyAliases status m args) := by
  induction args generalizing status m with
  | nil =>
    refine ⟨hR.refl m, fun o ho => ?_⟩
    obtain rfl := Except.ok.inj ho
    simpa using hstatus
  | cons arg later ih =>
    have harg := led_applyAlias hR m arg
    -- once an argument was bad, the status stays one
    have hnext (good : Bool) : (if good then status else 1) = 0 ∨
        (if good then status else 1) = 1 := by
      cases good
      · exact .inr rfl
      · exact hstatus
    rw [applyAliases]
    split <;> rename_i h <;> rw [h] at harg
    · exact settles_error harg _
    · exact (ih (hnext _) _).after hR harg

theorem settles_runAlias (m : Machine σ) (args : List Text) : Settles R m (runAlias m args) := by
  cases args with
  | nil => exact settles_sayAll hR m _
  | cons arg later => exact settles_applyAliases hR (.inl rfl) m (arg :: later)

theorem settles_handle (host : Host σ) (m : Machine σ) (args : List Text) {b : Builtin}
    (hexit : b ≠ .exit) (hcd : b = .cd → Lasting.Moving R) :
    Settles R m (b.handle host m args) := by
  cases b with
  | exit => exact absurd rfl hexit
  | env => exact settles_runEnv hR m args
  | setenv => exact settles_runSetenv hR m args
  | unsetenv => exact settles_runUnsetenv hR m args
  | cd => exact settles_runCd hR (hcd rfl) host m args
  | help => exact settles_runHelp hR m args
  | history => exact settles_runHistory hR m args
  | «alias» => exact settles_runAlias hR m args

end

theorem runExit_machine (m : Machine σ) (args : List Text) : (runExit m args).2 = m := by
  unfold runExit
  split
  · rfl
  · split <;> rfl

theorem led_handle (hR : Lasting R) (host : Host σ) (m : Machine σ) (args : List Text)
    {b : Builtin} (hcd : b = .cd → Lasting.Moving R) : R m (b.handle host m args).2 := by
  by_cases hexit : b = .exit
  · rw [hexit, handle, runExit_machine]
    exact hR.refl m
  · exact (settles_handle hR host m args hexit hcd).led

end LineShell.Builtin
