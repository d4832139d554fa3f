import LineShell.Proofs.Builtin.Frame
import LineShell.Proofs.Execution.Sequence
import LineShell.Proofs.Text.Lines
import LineShell.Proofs.Text.Quotes

/-! The arguments of `alias`, one after another. Each is judged by the aliases that the ones before
it have left, and a bad one is complained about and does not keep the others from their turn. -/

namespace LineShell

namespace Alias

/-- What one argument makes of the aliases, what is printed for it, and what is complained about. A
name ends at the first equals sign. -/
inductive Step (aliases : Table) : Text → Table → List Text → List Text → Prop
  | sets {name quoted value : Text} (hname : name ≠ []) (hcut : '=' ∉ name)
      (hvalue : Text.Unquotes quoted value) (hsome : value ≠ []) :
      Step aliases (name ++ '=' :: quoted) (aliases.insert name value) [] []
  | drops {name quoted : Text} (hname : name ≠ []) (hcut : '=' ∉ name)
      (hvalue : Text.Unquotes quoted []) :
      Step aliases (name ++ '=' :: quoted) (aliases.erase name) [] []
  | nameless (quoted : Text) :
      Step aliases ('=' :: quoted) aliases [] ['=' :: quoted ++ ": invalid alias name".toList]
  | shows {name value : Text} (hcut : '=' ∉ name) (hvalue : aliases.get? name = some value) :
      Step aliases name aliases [name ++ "='".toList ++ value ++ "'".toList] []
  | unknown {name : Text} (hcut : '=' ∉ name) (hvalue : aliases.get? name = none) :
      Step aliases name aliases [] [name ++ " not found".toList]

inductive Run : Table → List Text → Table → List Text → List Text → Prop
  | nil (aliases : Table) : Run aliases [] aliases [] []
  | cons {aliases next last : Table} {arg : Text} {later printed lines said complaints : List Text}
      (hstep : Step aliases arg next printed said) (hrun : Run next later last lines complaints) :
      Run aliases (arg :: later) last (printed ++ lines) (said ++ complaints)

theorem exists_step (aliases : Table) (arg : Text) :
    ∃ next printed said, Step aliases arg next printed said := by
  rcases hcut : Text.cutAt '=' arg with _ | ⟨name, quoted⟩
  · have hbare := Text.cutAt_eq_none_iff.1 hcut
    rcases hvalue : aliases.get? arg with _ | value
    · exact ⟨_, _, _, .unknown hbare hvalue⟩
    · exact ⟨_, _, _, .shows hbare hvalue⟩
  · obtain ⟨rfl, hname⟩ := Text.eq_of_cutAt hcut
    by_cases hne : name = []
    · subst hne
      exact ⟨_, _, _, .nameless quoted⟩
    · have hvalue := Text.stripQuotes_eq_iff.1 (rfl : Text.stripQuotes quoted = _)
      by_cases hsome : Text.stripQuotes quoted = []
      · exact ⟨_, _, _, .drops hne hname (hsome ▸ hvalue)⟩
      · exact ⟨_, _, _, .sets hne hname hvalue hsome⟩

theorem exists_run (aliases : Table) (args : List Text) :
    ∃ last lines complaints, Run aliases args last lines complaints := by
  induction args generalizing aliases with
  | nil => exact ⟨_, _, _, .nil aliases⟩
  | cons arg later ih =>
    obtain ⟨next, printed, said, hstep⟩ := exists_step aliases arg
    obtain ⟨last, lines, complaints, hrun⟩ := ih next
    exact ⟨_, _, _, .cons hstep hrun⟩

end Alias

namespace Builtin

variable {σ : Type} {m n k : Machine σ} {pieces : List Bytes}

structure Told (m : Machine σ) (aliases : Table) (lines complaints : List Text) (n : Machine σ) :
    Prop where
  aliases : n.session.aliases = aliases
  sink : ∃ pieces, n.session.sink = .working pieces
  written : n.session.sink.written = m.session.sink.written ++ Utf8.encode (Text.unlines lines)
  diagnostics : n.session.diagnostics = m.session.diagnostics ++ complaints.map fun complaint =>
    m.session.program ++ ": ".toList ++ Text.ofNat m.session.lineCount ++ ": alias: ".toList ++
      complaint
  rest : ∃ aliases sink complaints, n.session = { m.session with aliases, sink, complaints }
  world : n.world = m.world

theorem Told.trans {aliases aliases' : Table} {lines lines' said said' : List Text}
    (h : Told m aliases lines said n) (h' : Told n aliases' lines' said' k) :
    Told m aliases' (lines ++ lines') (said ++ said') k where
  aliases := h'.aliases
  sink := h'.sink
  written := by
    rw [h'.written, h.written, Text.unlines, Text.unlines, Text.unlines, List.flatMap_append,
      Utf8.encode, Utf8.encode, Utf8.encode, List.flatMap_append, List.append_assoc]
  diagnostics := by
    obtain ⟨_, _, _, hrest⟩ := h.rest
    have hprogram : n.session.program = m.session.program := by rw [hrest]
    have hcount : n.session.lineCount = m.session.lineCount := by rw [hrest]
    rw [h'.diagnostics, h.diagnostics, hprogram, hcount, List.map_append, List.append_assoc]
  rest := by
    obtain ⟨_, _, _, hrest⟩ := h.rest
    obtain ⟨_, _, _, hrest'⟩ := h'.rest
    exact ⟨_, _, _, by rw [hrest', hrest]⟩
  world := h'.world.trans h.world

theorem told_of_session {aliases : Table} (hsink : m.session.sink = .working pieces)
    (hsession : n.session = { m.session with aliases }) (hworld : n.world = m.world) :
    Told m aliases [] [] n where
  aliases := by rw [hsession]
  sink := ⟨pieces, by rw [hsession, hsink]⟩
  written := by
    rw [hsession]
    exact (List.append_nil _).symm
  diagnostics := by
    rw [hsession]
    exact (List.append_nil _).symm
  rest := ⟨_, _, _, hsession⟩
  world := hworld

theorem told_report (hsink : m.session.sink = .working pieces) (complaint : Text) :
    Told m m.session.aliases [] [complaint] (m.update (·.report "alias".toList complaint)) where
  aliases := rfl
  sink := ⟨pieces, hsink⟩
  written := (List.append_nil _).symm
  diagnostics := by
    simp [Session.diagnostics, Session.report, Machine.update]
  rest := ⟨_, _, _, rfl⟩
  world := rfl

theorem say_told (hsink : m.session.sink = .working pieces) (lines : List Text) :
    ∃ n, say m lines = (.ok (), n) ∧ Told m m.session.aliases lines [] n := by
  have hwritten := (Machine.print_written hsink (Text.unlines lines)).2
  obtain ⟨pieces', hsession, hworld⟩ := Machine.print_rest hsink (Text.unlines lines)
  refine ⟨_, say_of_working hsink lines, ?_⟩
  constructor
  · rw [hsession]
  · exact ⟨pieces', by rw [hsession]⟩
  · exact hwritten
  · rw [hsession]
    exact (List.append_nil _).symm
  · exact ⟨_, _, _, hsession⟩
  · exact hworld

theorem applyAlias_of_step {arg : Text} {next : Table} {printed said : List Text}
    (hsink : m.session.sink = .working pieces)
    (h : Alias.Step m.session.aliases arg next printed said) :
    ∃ n, applyAlias m arg = (.ok said.isEmpty, n) ∧ Told m next printed said n := by
  have hupdate (aliases : Table) : Told m aliases [] [] (m.update fun s => { s with aliases }) :=
    told_of_session hsink rfl rfl
  cases h with
  | @sets name quoted value hname hcut hvalue hsome =>
    have hset : setAlias m.session.aliases name quoted = m.session.aliases.insert name value := by
      rw [setAlias, Text.stripQuotes_eq_iff.2 hvalue, if_neg (mt List.isEmpty_iff.1 hsome)]
    refine ⟨_, ?_, hupdate _⟩
    rw [applyAlias, Text.cutAt_append hcut, ← hset]
    exact if_neg (mt List.isEmpty_iff.1 hname)
  | @drops name quoted hname hcut hvalue =>
    have hset : setAlias m.session.aliases name quoted = m.session.aliases.erase name := by
      rw [setAlias, Text.stripQuotes_eq_iff.2 hvalue]
      rfl
    refine ⟨_, ?_, hupdate _⟩
    rw [applyAlias, Text.cutAt_append hcut, ← hset]
    exact if_neg (mt List.isEmpty_iff.1 hname)
  | nameless quoted =>
    exact ⟨_, rfl, told_report hsink _⟩
  | @shows _ value hcut hvalue =>
    obtain ⟨n, hsay, htold⟩ := say_told hsink [Alias.format arg value]
    refine ⟨n, ?_, htold⟩
    simp only [applyAlias, Text.cutAt_eq_none_iff.2 hcut, hvalue, hsay]
    rfl
  | unknown hcut hvalue =>
    refine ⟨_, ?_, told_report hsink _⟩
    simp only [applyAlias, Text.cutAt_eq_none_iff.2 hcut, hvalue]
    rfl

theorem applyAliases_of_run {aliases last : Table} {args lines complaints : List Text}
    (h : Alias.Run aliases args last lines complaints) {m : Machine σ}
    (haliases : m.session.aliases = aliases) (hsink : ∃ pieces, m.session.sink = .working pieces)
    (status : Int) :
    ∃ n, applyAliases status m args = (.ok (.status (if complaints = [] then status else 1)), n) ∧
      Told m last lines complaints n := by
  induction h generalizing m status with
  | nil aliases =>
    subst haliases
    obtain ⟨pieces, hsink⟩ := hsink
    exact ⟨m, rfl, told_of_session hsink rfl rfl⟩
  | @cons aliases next last arg later printed lines said complaints hstep hrun ih =>
    subst haliases
    obtain ⟨pieces, hsink⟩ := hsink
    obtain ⟨n, happly, htold⟩ := applyAlias_of_step hsink hstep
    obtain ⟨k, hlater, htold'⟩ :=
      ih htold.aliases htold.sink (if said.isEmpty then status else 1)
    refine ⟨k, ?_, htold.trans htold'⟩
    rw [applyAliases, happly]
    dsimp only
    rw [hlater]
    cases said <;> simp

/-- What `alias` does with arguments is what it does with each of them in turn, and it fails just
if one of them was complained about. -/
theorem run_alias_follows (host : Host σ) (hsink : m.session.sink = .working pieces)
    {args : List Text} (hargs : args ≠ []) :
    (∃ last lines complaints, Alias.Run m.session.aliases args last lines complaints) ∧
    ∀ last lines complaints, Alias.Run m.session.aliases args last lines complaints →
      ∃ n, Builtin.run host .alias m args =
          (.ok (.status (if complaints = [] then 0 else 1)), n) ∧
        Told m last lines complaints n := by
  refine ⟨Alias.exists_run _ args, fun last lines complaints hrun => ?_⟩
  have hmany : Builtin.run host .alias m args =
      applyAliases 0 (m.record (.call .alias args)) args := by
    cases args with
    | nil => exact absurd rfl hargs
    | cons arg later => rfl
  have hcalled : Told m m.session.aliases [] [] (m.record (.call .alias args)) :=
    told_of_session hsink rfl rfl
  obtain ⟨n, hall, htold⟩ := applyAliases_of_run hrun hcalled.aliases hcalled.sink 0
  exact ⟨n, hmany.trans hall, hcalled.trans htold⟩

theorem run_alias_follows_bad_and_good :
    let m : Machine Unit :=
      { Machine.idle with session := { Machine.idle.session with
        aliases := ⟨[("a".toList, "0".toList), ("b".toList, "0".toList)]⟩ } }
    let args := ["=v".toList, "a".toList, "a=\"\"".toList, "a".toList, "a='1'".toList]
    ∃ n, Builtin.run Host.void .alias m args = (.ok (.status 1), n) ∧
      n.session.aliases = ⟨[("b".toList, "0".toList), ("a".toList, "1".toList)]⟩ ∧
      n.session.sink.written = Utf8.encode "a='0'\n".toList ∧
      n.session.diagnostics =
        ["hsh: 0: alias: =v: invalid alias name".toList, "hsh: 0: alias: a not found".toList] := by
  intro m args
  let without : Table := ⟨[("b".toList, "0".toList)]⟩
  have hdrop : Alias.Step m.session.aliases "a=\"\"".toList without [] [] :=
    @Alias.Step.drops _ "a".toList "\"\"".toList (by decide) (by decide)
      (Text.stripQuotes_eq_iff.1 (by decide))
  have hset : Alias.Step without "a='1'".toList (without.insert "a".toList "1".toList) [] [] :=
    @Alias.Step.sets _ "a".toList "'1'".toList "1".toList (by decide) (by decide)
      (Text.stripQuotes_eq_iff.1 (by decide)) (by decide)
  obtain ⟨-, hall⟩ := run_alias_follows Host.void (m := m) rfl (show args ≠ [] by decide)
  obtain ⟨n, hran, htold⟩ := hall _ _ _
    (.cons (.nameless "v".toList) (.cons (.shows (by decide) rfl) (.cons hdrop
      (.cons (.unknown (by decide) rfl) (.cons hset (.nil _))))))
  exact ⟨n, hran, htold.aliases.trans (by decide), htold.written.trans (by decide),
    htold.diagnostics.trans (by decide)⟩

end Builtin

end LineShell
