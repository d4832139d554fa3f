import LineShell.Flags

/-! Arguments that are read without an error, one way after another: flags, the script, and what is
left for it. Where they are cut in two makes no difference, and they are flags with their values up
to the script. -/

namespace LineShell

namespace Flag

def Spells (flag : Flag) (arg : Text) : Prop := arg = flag.short ∨ arg = flag.long

theorem spelled?_eq_some_iff {arg : Text} {flag : Flag} :
    spelled? arg = some flag ↔ flag.Spells arg := by
  constructor
  · intro h
    simpa [Spells] using List.find?_some h
  · rintro (rfl | rfl) <;> cases flag <;> rfl

theorem spelled?_eq_none_iff {arg : Text} :
    spelled? arg = none ↔ ∀ flag : Flag, ¬ flag.Spells arg := by
  rw [Option.eq_none_iff_forall_ne_some]
  exact forall_congr' fun flag => not_congr spelled?_eq_some_iff

inductive Given : List Text → List (Flag × Text) → Prop
  | nil : Given [] []
  | switch {flag : Flag} {arg : Text} {later : List Text} {given : List (Flag × Text)}
      (hflag : flag.Spells arg) (hswitch : flag.takesValue = false) (hlater : Given later given) :
      Given (arg :: later) ((flag, "true".toList) :: given)
  | valued {flag : Flag} {arg value : Text} {later : List Text} {given : List (Flag × Text)}
      (hflag : flag.Spells arg) (hvalued : flag.takesValue = true) (hlater : Given later given) :
      Given (arg :: value :: later) ((flag, value) :: given)

def lastValue (given : List (Flag × Text)) (flag : Flag) : Option Text :=
  given.reverse.lookup flag

end Flag

namespace Flags

inductive Accepts : Flags → List Text → Flags → Prop
  | nil {f : Flags} : Accepts f [] f
  | rest {f : Flags} {args : List Text} (hscript : f.script ≠ none) :
      Accepts f args { f with scriptArgs := f.scriptArgs ++ args }
  | script {f : Flags} {arg : Text} {later : List Text} (hscript : f.script = none)
      (hflag : ∀ flag : Flag, ¬ flag.Spells arg) (hplain : looksLikeFlag arg = false) :
      Accepts f (arg :: later)
        { f with script := some arg, scriptArgs := f.scriptArgs ++ later }
  | switch {f f' : Flags} {flag : Flag} {arg : Text} {later : List Text}
      (hscript : f.script = none) (hflag : flag.Spells arg) (hswitch : flag.takesValue = false)
      (hlater : Accepts (f.set [] flag) later f') : Accepts f (arg :: later) f'
  | valued {f f' : Flags} {flag : Flag} {arg value : Text} {later : List Text}
      (hscript : f.script = none) (hflag : flag.Spells arg) (hvalued : flag.takesValue = true)
      (hlater : Accepts (f.set value flag) later f') : Accepts f (arg :: value :: later) f'

section

variable {f f' : Flags} {flag : Flag} {arg : Text} {args later : List Text}

theorem parse_rest (h : f.script ≠ none) (args : List Text) :
    f.parse args = (.ok (), { f with scriptArgs := f.scriptArgs ++ args }) := by
  cases args with
  | nil => rw [parse, List.append_nil]
  | cons arg later => rw [parse, if_pos (Option.isSome_iff_ne_none.2 h)]

theorem parse_script (h : f.script = none) (hflag : ∀ flag : Flag, ¬ flag.Spells arg)
    (hplain : looksLikeFlag arg = false) (later : List Text) :
    f.parse (arg :: later) =
      (.ok (), { f with script := some arg, scriptArgs := f.scriptArgs ++ later }) := by
  have hnone := Flag.spelled?_eq_none_iff.2 hflag
  simp only [parse, h, hnone, hplain, Option.isSome_none, Bool.false_eq_true, if_false]
  exact parse_rest (Option.some_ne_none arg) later

theorem parse_switch (h : f.script = none) (hflag : flag.Spells arg)
    (hswitch : flag.takesValue = false) (later : List Text) :
    f.parse (arg :: later) = (f.set [] flag).parse later := by
  have hsome := Flag.spelled?_eq_some_iff.2 hflag
  simp only [parse, h, hsome, hswitch, Option.isSome_none, Bool.false_eq_true, if_false]

theorem parse_valued (h : f.script = none) (hflag : flag.Spells arg)
    (hvalued : flag.takesValue = true) (value : Text) (later : List Text) :
    f.parse (arg :: value :: later) = (f.set value flag).parse later := by
  have hsome := Flag.spelled?_eq_some_iff.2 hflag
  simp only [parse, h, hsome, hvalued, Option.isSome_none, Bool.false_eq_true, if_false, if_true]

theorem Accepts.parse_append (h : Accepts f args f') (more : List Text) :
    f.parse (args ++ more) = f'.parse more := by
  induction h with
  | nil => rfl
  | @rest f args hscript =>
    have hkept : { f with scriptArgs := f.scriptArgs ++ args }.script ≠ none := hscript
    rw [parse_rest hscript, parse_rest hkept, List.append_assoc]
  | @script f arg later hscript hflag hplain =>
    have hsome : some arg ≠ none := Option.some_ne_none arg
    rw [List.cons_append, parse_script hscript hflag hplain, parse_rest hsome, List.append_assoc]
  | switch hscript hflag hswitch _ ih =>
    rw [List.cons_append, parse_switch hscript hflag hswitch, ih]
  | valued hscript hflag hvalued _ ih =>
    rw [List.cons_append, List.cons_append, parse_valued hscript hflag hvalued, ih]

theorem parse_eq_ok_iff : f.parse args = (.ok (), f') ↔ Accepts f args f' := by
  constructor
  · intro h
    fun_induction parse f args with
    | case1 f =>
      obtain rfl := (Prod.mk.inj h).2
      exact .nil
    | case2 f arg later hscript =>
      obtain rfl := (Prod.mk.inj h).2
      exact .rest (Option.isSome_iff_ne_none.1 hscript)
    | case3 => cases h
    | case4 f arg hscript flag hspelled hvalued value later ih =>
      exact .valued (by simpa using hscript) (Flag.spelled?_eq_some_iff.1 hspelled) hvalued (ih h)
    | case5 f arg later hscript flag hspelled hswitch ih =>
      exact .switch (by simpa using hscript) (Flag.spelled?_eq_some_iff.1 hspelled)
        (by simpa using hswitch) (ih h)
    | case6 => cases h
    | case7 f arg later hscript hspelled hplain _ =>
      rw [parse_rest (Option.some_ne_none arg)] at h
      obtain rfl := (Prod.mk.inj h).2
      exact .script (by simpa using hscript) (Flag.spelled?_eq_none_iff.1 hspelled)
        (by simpa using hplain)
  · intro h
    have hwhole := h.parse_append []
    rwa [List.append_nil, parse] at hwhole

theorem value?_set (f : Flags) (value : Text) (g flag : Flag) :
    (f.set value g).value? flag =
      if flag = g then some (if g.takesValue then value else "true".toList)
      else f.value? flag := by
  cases g <;> cases flag <;> rfl

theorem script_set (f : Flags) (value : Text) (g : Flag) :
    (f.set value g).script = f.script ∧ (f.set value g).scriptArgs = f.scriptArgs := by
  cases g <;> exact ⟨rfl, rfl⟩

theorem value?_fresh (flag : Flag) : ({} : Flags).value? flag = none := by
  cases flag <;> rfl

/-- Arguments that are read after a flag, and the flags that are left by them. The values that were
there before count only for flags that are not given. -/
def ReadsOn (f : Flags) (args : List Text) (f' : Flags) : Prop :=
  ∃ front rest given, args = front ++ rest ∧ Flag.Given front given ∧
    (∀ flag, f'.value? flag = (Flag.lastValue given flag).or (f.value? flag)) ∧
    (∀ arg, rest.head? = some arg → ∀ flag : Flag, ¬ flag.Spells arg) ∧
    f'.script = rest.head? ∧ f'.scriptArgs = f.scriptArgs ++ rest.tail

theorem lastValue_cons (g : Flag) (value : Text) (given : List (Flag × Text)) (flag : Flag) :
    Flag.lastValue ((g, value) :: given) flag =
      (Flag.lastValue given flag).or (if flag = g then some value else none) := by
  rw [Flag.lastValue, List.reverse_cons, List.lookup_append, Flag.lastValue]
  by_cases h : flag = g
  · simp [h]
  · simp [List.lookup_cons, beq_false_of_ne h, h]

theorem or_value?_set (f : Flags) (value : Text) (g flag : Flag) (given : List (Flag × Text)) :
    (Flag.lastValue given flag).or ((f.set value g).value? flag) =
      (Flag.lastValue ((g, if g.takesValue then value else "true".toList) :: given) flag).or
        (f.value? flag) := by
  rw [value?_set, lastValue_cons, Option.or_assoc]
  split <;> rfl

theorem Accepts.readsOn (h : Accepts f args f') (hscript : f.script = none) :
    ReadsOn f args f' := by
  induction h with
  | nil => exact ⟨[], [], [], rfl, .nil, fun _ => rfl, nofun, hscript, (List.append_nil _).symm⟩
  | rest hset => exact absurd hscript hset
  | @script f arg later _ hflag _ =>
    refine ⟨[], arg :: later, [], rfl, .nil, fun flag => ?_, ?_, rfl, rfl⟩
    · cases flag <;> rfl
    · rintro _ ⟨rfl⟩
      exact hflag
  | @switch f f' g arg later _ hflag hswitch _ ih =>
    obtain ⟨hkept, hargs⟩ := script_set f [] g
    obtain ⟨front, rest, given, rfl, hgiven, hvalues, hhead, hrest, htail⟩ :=
      ih (hkept.trans hscript)
    refine ⟨arg :: front, rest, (g, "true".toList) :: given, rfl, .switch hflag hswitch hgiven,
      fun flag => ?_, hhead, hrest, hargs ▸ htail⟩
    rw [hvalues, or_value?_set, hswitch]
    rfl
  | @valued f f' g arg value later _ hflag hvalued _ ih =>
    obtain ⟨hkept, hargs⟩ := script_set f value g
    obtain ⟨front, rest, given, rfl, hgiven, hvalues, hhead, hrest, htail⟩ :=
      ih (hkept.trans hscript)
    refine ⟨arg :: value :: front, rest, (g, value) :: given, rfl, .valued hflag hvalued hgiven,
      fun flag => ?_, hhead, hrest, hargs ▸ htail⟩
    rw [hvalues, or_value?_set, hvalued]
    rfl

end

/-- Arguments that are read without an error might as well be read in two parts, from any flags.
Read anew, they are a row of flags with their values, up to the first that is neither; this one is
the script, all that follows is left to it, and each flag has the value that it is given last in
the row. -/
theorem parse_composes :
    (∀ (f f' : Flags) (a b : List Text), f.parse a = (.ok (), f') →
      f.parse (a ++ b) = f'.parse b) ∧
    ∀ (args : List Text) (f : Flags), ({} : Flags).parse args = (.ok (), f) →
      ∃ front rest given, args = front ++ rest ∧ Flag.Given front given ∧
        (∀ arg, rest.head? = some arg → ∀ flag : Flag, ¬ flag.Spells arg) ∧
        f.script = rest.head? ∧ f.scriptArgs = rest.tail ∧
        ∀ flag, f.value? flag = Flag.lastValue given flag := by
  refine ⟨fun f f' a b h => (parse_eq_ok_iff.1 h).parse_append b, fun args f h => ?_⟩
  obtain ⟨front, rest, given, hargs, hgiven, hvalues, hhead, hscript, hscriptArgs⟩ :=
    (parse_eq_ok_iff.1 h).readsOn rfl
  refine ⟨front, rest, given, hargs, hgiven, hhead, hscript, hscriptArgs, fun flag => ?_⟩
  rw [hvalues, value?_fresh, Option.or_none]

theorem parse_composes_flags_as_values :
    let a := ["-c".toList, "-V".toList, "--debug".toList]
    let b := ["--command".toList, "-c".toList, "-".toList, "-h".toList, "-c".toList]
    ({} : Flags).parse (a ++ b) =
      ({ command := some "-V".toList, debug := true } : Flags).parse b ∧
    ∃ front rest given, a ++ b = front ++ rest ∧ Flag.Given front given ∧
      rest = ["-".toList, "-h".toList, "-c".toList] ∧
      Flag.lastValue given .command = some "-c".toList ∧ Flag.lastValue given .help = none := by
  intro a b
  have hfirst : ({} : Flags).parse a =
      (.ok (), { command := some "-V".toList, debug := true }) := rfl
  let f : Flags :=
    { command := some "-c".toList, debug := true, script := some "-".toList,
      scriptArgs := ["-h".toList, "-c".toList] }
  have hwhole : ({} : Flags).parse (a ++ b) = (.ok (), f) := rfl
  obtain ⟨front, rest, given, hargs, hgiven, -, hscript, hscriptArgs, hvalues⟩ :=
    parse_composes.2 (a ++ b) f hwhole
  refine ⟨parse_composes.1 _ _ a b hfirst, front, rest, given, hargs, hgiven, ?_,
    (hvalues .command).symm, (hvalues .help).symm⟩
  cases rest with
  | nil => cases hscript
  | cons arg later =>
    obtain rfl := Option.some.inj hscript
    exact congrArg _ hscriptArgs.symm

end Flags

end LineShell
