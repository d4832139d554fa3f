import LineShell.Proofs.Alias.Expansion
import LineShell.Proofs.Chain.Arguments
import LineShell.Proofs.Execution.Reach
import LineShell.Proofs.Expansion.Pass

/-! A variable on its way from one command of a line to the program of a later one. It is set, it is
put into the words of the later command, and it is handed over with all the others. -/

namespace LineShell.Machine

open Chain Text

variable {σ : Type} {host : Host σ} {m : Machine σ} {t name value command : Text}
  {program : Path}

def assigned (m : Machine σ) (name value : Text) : Machine σ :=
  ((m.record (.call .setenv [name, value])).update fun s =>
    { s with environment := s.environment.setIfValid name value }).update (·.withStatus 0)

theorem vars_assigned (hname : name ≠ [] ∧ '=' ∉ name) (m : Machine σ) (value : Text) :
    (m.assigned name value).session.environment.vars =
      m.session.environment.vars.insert name value := by
  show (m.session.environment.setIfValid name value).vars = _
  rw [Environment.setIfValid, Environment.set_of_valid hname]

theorem runLine_command (host : Host σ) (m : Machine σ) (h : IsCommand t) :
    runLine host m t = runText host m t := by
  rw [runLine, h.parse_eq, runChain_cons]
  exact proceed_continue (runText host m t)

theorem argv_of_get?_none (h : m.session.aliases.get? (firstWord t) = none) :
    m.argv t = words (m.expander.expandVariables t) := by
  rw [argv, Expander.expand]
  congr 2
  exact Alias.expand_of_none h

theorem runCommand_builtin (host : Host σ) (m : Machine σ) (b : Builtin) (args : List Text) :
    runCommand host m b.name args = runBuiltin host m b args := by
  rw [runCommand, ask, Resolution.resolve_name]

theorem runBuiltin_setenv (hname : name ≠ [] ∧ '=' ∉ name) (host : Host σ) (m : Machine σ)
    (value : Text) :
    runBuiltin host m .setenv [name, value] = (.continue, m.assigned name value) := by
  have hassign (n : Machine σ) : Builtin.assign n name value =
      (.ok (), n.update fun s => { s with environment := s.environment.setIfValid name value }) :=
    Prod.ext (Builtin.assign_of_valid hname n value) (Builtin.assign_machine n name value)
  simp only [runBuiltin, Builtin.run, Builtin.handle, Builtin.runSetenv, hassign]
  rfl

theorem runCommand_external (args : List Text)
    (h : (Resolution.resolve host m.session.environment m.session.directory command m.world).1 =
      .external program) :
    runCommand host m command args =
      runProgram host (resolved host m command) program command args := by
  rcases hanswer : Resolution.resolve host m.session.environment m.session.directory command
    m.world with ⟨answer, w⟩
  rw [hanswer] at h
  obtain rfl : answer = .external program := h
  simp only [runCommand, resolved, ask, hanswer]

theorem past_runProgram (host : Host σ) (m : Machine σ) (program : Path) (name : Text)
    (args : List Text) :
    let request := m.request program (name :: args)
    let n := (runProgram host m program name args).2
    n.past = .launch request :: .flush :: m.past ∧ n.world = (host.launch request m.world).2 := by
  obtain ⟨sink, hspawn⟩ := spawn_machine host m program (name :: args)
  unfold runProgram
  split <;> rename_i hanswer <;> rw [hanswer] at hspawn <;> obtain rfl := hspawn <;>
    exact ⟨rfl, rfl⟩

theorem valid_of_isNameChar (hname : name ≠ [] ∧ ∀ c ∈ name, isNameChar c = true) :
    name ≠ [] ∧ '=' ∉ name :=
  ⟨hname.1, fun hc => absurd (hname.2 '=' hc) (by decide)⟩

theorem isArgument_of_mem_setenv (hname : name ≠ [] ∧ ∀ c ∈ name, isNameChar c = true)
    (hvalue : IsArgument value) : ∀ w ∈ ["setenv".toList, name, value], IsArgument w := by
  obtain ⟨hargument, -⟩ := isArgument_of_isNameChar hname.1 hname.2
  simpa using ⟨by decide, hargument, hvalue⟩

theorem isArgument_of_mem_reference (hname : name ≠ [] ∧ ∀ c ∈ name, isNameChar c = true)
    (hcommand : IsArgument command) : ∀ w ∈ [command, '$' :: name], IsArgument w := by
  obtain ⟨-, hreference⟩ := isArgument_of_isNameChar hname.1 hname.2
  simpa using ⟨hcommand, hreference⟩

theorem runLine_setenv (host : Host σ) (m : Machine σ)
    (hname : name ≠ [] ∧ ∀ c ∈ name, isNameChar c = true)
    (hvalue : IsArgument value ∧ '$' ∉ value)
    (hsetenv : m.session.aliases.get? "setenv".toList = none) :
    runLine host m (unwords ["setenv".toList, name, value]) =
      (.continue, m.assigned name value) := by
  have harguments := isArgument_of_mem_setenv hname hvalue.1
  have hwords : ∀ w ∈ ["setenv".toList, name, value], Word w := fun w hw => (harguments w hw).word
  have hdollar : '$' ∉ unwords ["setenv".toList, name, value] := by
    have hnone : '$' ∉ name := fun hc => absurd (hname.2 '$' hc) (by decide)
    simp [unwords, hnone, hvalue.2]
  have hexpanded : m.expander.expandVariables (unwords ["setenv".toList, name, value]) =
      unwords ["setenv".toList, name, value] := by
    have hpass := Expander.expandVariables_append (x := m.expander) hdollar []
    have hnil : m.expander.expandVariables [] = [] := rfl
    rwa [hnil, List.append_nil] at hpass
  have hargv : m.argv (unwords ["setenv".toList, name, value]) =
      Builtin.setenv.name :: [name, value] := by
    rw [argv_of_get?_none (by rw [firstWord_unwords hwords, hsetenv]), hexpanded,
      words_unwords hwords]
    rfl
  rw [runLine_command host m (isCommand_unwords (List.cons_ne_nil _ _) harguments),
    runText_command hargv, runCommand_builtin, runBuiltin_setenv (valid_of_isNameChar hname)]

theorem runLine_reference (host : Host σ) (m : Machine σ)
    (hname : name ≠ [] ∧ ∀ c ∈ name, isNameChar c = true)
    (hcommand : IsArgument command ∧ '$' ∉ command) (hvalue : Word value)
    (halias : m.session.aliases.get? command = none)
    (hlookup : m.session.environment.lookup name = some value)
    (hfound : (Resolution.resolve host m.session.environment m.session.directory command
      m.world).1 = .external program) :
    runLine host m (unwords [command, '$' :: name]) =
      runProgram host (resolved host m command) program command [value] := by
  have harguments := isArgument_of_mem_reference hname hcommand.1
  have hwords : ∀ w ∈ [command, '$' :: name], Word w := fun w hw => (harguments w hw).word
  have hexpanded : m.expander.expandVariables (unwords [command, '$' :: name]) =
      unwords [command, value] := by
    have hwritten (w : Text) : unwords [command, w] = command ++ [' '] ++ w := by simp [unwords]
    have hdollar : '$' ∉ command ++ [' '] := by simpa using hcommand.2
    have hshown : m.expander.value name = value := by
      show (m.session.environment.lookup name).getD [] = value
      rw [hlookup, Option.getD_some]
    rw [hwritten, hwritten, Expander.expandVariables_append hdollar,
      Expander.expandVariables_named hname.1 hname.2, hshown]
  have hargv : m.argv (unwords [command, '$' :: name]) = [command, value] := by
    rw [argv_of_get?_none (by rw [firstWord_unwords hwords, halias]), hexpanded, words_unwords]
    simpa using ⟨hcommand.1.word, hvalue⟩
  rw [runLine_command host m (isCommand_unwords (List.cons_ne_nil _ _) harguments),
    runText_command hargv, runCommand_external [value] hfound]

/-- A variable that is set in one command of a line is there for the next one: in its words, where
it is referred to, and among the variables of the one program that is started. There it stands once,
and all others are as they were. The names are distinct in every environment that operations have
made (`Environment.follows_run`). -/
theorem runLine_setenv_program (host : Host σ) (m : Machine σ)
    (hdistinct : m.session.environment.vars.names.Nodup)
    (hname : name ≠ [] ∧ ∀ c ∈ name, isNameChar c = true)
    (hvalue : IsArgument value ∧ '$' ∉ value) (hcommand : IsArgument command ∧ '$' ∉ command)
    (hsetenv : m.session.aliases.get? "setenv".toList = none)
    (halias : m.session.aliases.get? command = none)
    (hfound : (Resolution.resolve host (m.session.environment.setIfValid name value)
      m.session.directory command m.world).1 = .external program) :
    let line := "setenv ".toList ++ name ++ " ".toList ++ value ++ " ; ".toList ++ command ++
      " $".toList ++ name
    let n := (runLine host m line).2
    let found := Resolution.resolve host (m.session.environment.setIfValid name value)
      m.session.directory command m.world
    ∃ request,
      n.journal = m.journal ++ [.call .setenv [name, value], .flush, .launch request] ∧
      n.world = (host.launch request found.2).2 ∧
      request.program = program ∧ request.argv = [command, value] ∧
      request.directory = m.session.directory ∧
      (request.environment.filter fun e => e.1 = name) = [(name, value)] ∧
      (request.environment.filter fun e => e.1 ≠ name) =
        m.session.environment.vars.entries.filter fun e => e.1 ≠ name := by
  intro line n found
  have hearlier : IsCommand (unwords ["setenv".toList, name, value]) :=
    isCommand_unwords (List.cons_ne_nil _ _) (isArgument_of_mem_setenv hname hvalue.1)
  have hlater : IsCommand (unwords [command, '$' :: name]) :=
    isCommand_unwords (List.cons_ne_nil _ _) (isArgument_of_mem_reference hname hcommand.1)
  have hline : line = unwords ["setenv".toList, name, value] ++ Operator.seq.joint ++
      unwords [command, '$' :: name] := by
    simp [line, unwords, Operator.joint, Operator.spelling]
  have hvars := vars_assigned (valid_of_isNameChar hname) m value
  have hlookup : (m.assigned name value).session.environment.lookup name = some value := by
    rw [Environment.lookup, hvars, Table.get?_insert, if_pos rfl]
  have hrun : runLine host m line =
      runProgram host (resolved host (m.assigned name value) command) program command [value] := by
    rw [hline, runLine_append_seq host m hearlier.commentFree hlater.joinable,
      runLine_setenv host m hname hvalue hsetenv, proceed]
    exact runLine_reference host _ hname hcommand hvalue.1.word halias hlookup hfound
  obtain ⟨hpast, hworld⟩ := past_runProgram host (resolved host (m.assigned name value) command)
    program command [value]
  rw [← hrun] at hpast hworld
  refine ⟨_, ?_, hworld, rfl, rfl, rfl, ?_, ?_⟩
  · rw [journal, hpast]
    simp [resolved, ask, assigned, update, record, journal]
  · show ((m.assigned name value).session.environment.vars.entries.filter _) = _
    rw [hvars]
    exact Table.filter_put_self hdistinct value
  · show ((m.assigned name value).session.environment.vars.entries.filter _) = _
    rw [hvars]
    simpa [Table.insert] using Table.filter_put (List.mem_singleton_self name) value
      m.session.environment.vars.entries

def oneProgram (program : Path) : Host Unit :=
  { Host.void with
    isExecutable := fun p w => (p == program, w)
    launch := fun _ w => (.ok (⟨0⟩, []), w) }

theorem runLine_setenv_program_searchPath :
    let e := Environment.ofPairs [("A".toList, "1".toList), ("PATH".toList, "/x".toList)]
    let m := idle.update fun s => { s with environment := e }
    let value := "é|&#=:/bin".toList
    let line := "setenv PATH é|&#=:/bin ; say $PATH".toList
    let program : Path := .ofText "/bin/say".toList
    ∃ request,
      (runLine (oneProgram program) m line).2.journal =
        [.call .setenv ["PATH".toList, value], .flush, .launch request] ∧
      request.program = program ∧ request.argv = ["say".toList, value] ∧
      (request.environment.filter fun e => e.1 = "PATH".toList) = [("PATH".toList, value)] ∧
      (request.environment.filter fun e => e.1 ≠ "PATH".toList) =
        [("A".toList, "1".toList)] := by
  intro e m value line program
  have hdistinct : e.vars.names.Nodup := by
    show (Environment.ofPairs _).vars.names.Nodup
    rw [Environment.ofPairs_eq_run]
    exact (Environment.follows_run _).distinct
  have hname : "PATH".toList ≠ [] ∧ ∀ c ∈ "PATH".toList, isNameChar c = true :=
    ⟨by decide, List.all_eq_true.1 (by decide)⟩
  have hvalue : IsArgument value ∧ '$' ∉ value := by decide
  have hcommand : IsArgument "say".toList ∧ '$' ∉ "say".toList := by decide
  have hfound : (Resolution.resolve (oneProgram program)
      (m.session.environment.setIfValid "PATH".toList value) m.session.directory "say".toList
      m.world).1 = .external program := by decide
  obtain ⟨request, hjournal, -, hprogram, hargv, -, hset, hothers⟩ :=
    runLine_setenv_program (oneProgram program) m hdistinct hname hvalue hcommand (by decide)
      (by decide) hfound
  exact ⟨request, hjournal, hprogram, hargv, hset, hothers⟩

end LineShell.Machine
