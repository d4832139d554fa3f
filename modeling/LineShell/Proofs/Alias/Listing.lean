import LineShell.Proofs.Execution.Holdings
import LineShell.Proofs.Startup.Loading
import LineShell.Proofs.Text.Quotes
import LineShell.Startup.Directive

/-! The listing of the aliases, read back as a startup file. Nothing in a listed value is escaped,
and yet the value comes back whole: it is cut off at the first equals sign, and only the quotes that
the listing has put around it are taken away again. -/

namespace LineShell

namespace Alias

structure Listable (e : Text × Text) : Prop where
  trimmed : Text.Trimmed e.1
  name : '=' ∉ e.1 ∧ '\n' ∉ e.1
  value : '\n' ∉ e.2

structure Sound (aliases : Table) : Prop where
  distinct : aliases.names.Nodup
  listable : ∀ e ∈ aliases.entries, Listable e

/-- The tables that startup files and command lines lead to, in any order. -/
inductive Reachable : Table → Prop
  | empty : Reachable {}
  | loaded {s : Session} (t : Text) (h : Reachable s.aliases) :
      Reachable (s.applyDirectives (({} : Config).takeText t).directives).aliases
  | ran {σ : Type} {host : Host σ} {m : Machine σ} (line : Text) (h : Reachable m.session.aliases) :
      Reachable (m.runLine host line).2.session.aliases

section

variable {aliases : Table} {name value : Text}

theorem sound_empty : Sound {} := ⟨List.nodup_nil, by simp⟩

theorem Sound.insert (h : Sound aliases) (he : Listable (name, value)) :
    Sound (aliases.insert name value) := by
  refine ⟨Table.nodup_names_insert h.distinct name value, fun e hmem => ?_⟩
  rcases Table.mem_put hmem with rfl | hold
  · exact he
  · exact h.listable e hold

theorem Sound.erase (h : Sound aliases) (name : Text) : Sound (aliases.erase name) :=
  ⟨Table.nodup_names_erase h.distinct name, fun e hmem => h.listable e (List.mem_filter.1 hmem).1⟩

theorem Sound.define (h : Sound aliases) {arg : Text} (harg : Text.Word arg) :
    Sound (Builtin.define aliases arg) := by
  rcases hcut : Text.cutAt '=' arg with _ | ⟨name, value⟩
  · rwa [Builtin.define, hcut]
  · obtain ⟨rfl, hname⟩ := Text.eq_of_cutAt hcut
    simp only [Builtin.define, hcut, Builtin.setAlias]
    by_cases hne : name = []
    · rwa [if_pos (List.isEmpty_iff.2 hne)]
    · rw [if_neg (mt List.isEmpty_iff.1 hne)]
      by_cases hvalue : (Text.stripQuotes value).isEmpty = true
      · rw [if_pos hvalue]
        exact h.erase name
      · rw [if_neg hvalue]
        have hword : Text.Word name := ⟨hne, fun c hc => harg.2 c (by simp [hc])⟩
        refine h.insert ⟨hword.trimmed, ⟨hname, fun hc => ?_⟩, fun hc => ?_⟩
        · exact absurd (hword.2 '\n' hc) (by decide)
        · exact absurd (harg.2 '\n' (by simp [Text.stripQuotes_subset value hc])) (by decide)

theorem Sound.foldl_define (h : Sound aliases) {args : List Text}
    (hargs : ∀ arg ∈ args, Text.Word arg) : Sound (args.foldl Builtin.define aliases) := by
  induction args generalizing aliases with
  | nil => exact h
  | cons arg later ih =>
    obtain ⟨harg, hlater⟩ := List.forall_mem_cons.1 hargs
    exact ih (h.define harg) hlater

theorem listable_of_asks {line : Text} (hline : '\n' ∉ line)
    (h : Setting.Asks line (.directive (.alias name value))) : Listable (name, value) := by
  cases h with
  | @aliased n v shape first =>
    have hsub : n ++ '=' :: v ⊆ line := fun c hc =>
      (Text.trim_isInfix line).subset (shape ▸ List.mem_append_right _ hc)
    have hfree : '\n' ∉ n ++ '=' :: v := fun hc => hline (hsub hc)
    rw [List.mem_append, List.mem_cons, not_or, not_or] at hfree
    have hname : Text.trim n ⊆ n := (Text.trim_isInfix n).subset
    have hvalue : Text.stripQuotes (Text.trim v) ⊆ v :=
      List.Subset.trans (Text.stripQuotes_subset _) (Text.trim_isInfix v).subset
    constructor
    · exact Text.trimmed_trim n
    · exact ⟨fun hc => first (hname hc), fun hc => hfree.1 (hname hc)⟩
    · exact fun hc => hfree.2.2 (hvalue hc)

theorem listable_of_mem_takeText {t : Text}
    (h : .alias name value ∈ (({} : Config).takeText t).directives) : Listable (name, value) := by
  rw [Config.takeText, Config.takeLines_eq, List.nil_append] at h
  obtain ⟨line, hline, hasked⟩ := List.mem_filterMap.1 h
  have hasks := Setting.directive?_eq_some_iff.1 hasked
  exact listable_of_asks (Text.lineFeed_notMem_of_mem_lines hline) hasks

theorem Sound.applyDirectives {s : Session} (h : Sound s.aliases) {ds : List Directive}
    (hds : ∀ name value, .alias name value ∈ ds → Listable (name, value)) :
    Sound (s.applyDirectives ds).aliases := by
  induction ds generalizing s with
  | nil => exact h
  | cons d later ih =>
    refine ih ?_ fun name value hd => hds name value (List.mem_cons_of_mem d hd)
    cases d with
    | «alias» name value => exact h.insert (hds name value List.mem_cons_self)
    | setenv name value => exact h

theorem Reachable.sound (h : Reachable aliases) : Sound aliases := by
  induction h with
  | empty => exact sound_empty
  | loaded t _ ih => exact ih.applyDirectives fun _ _ hd => listable_of_mem_takeText hd
  | @ran σ host m line _ ih =>
    obtain ⟨ops, given, hgiven, hrun⟩ := Machine.leads_runLine host m line
    have haliases := congrArg Holdings.aliases hrun
    have hsound := ih.foldl_define hgiven
    rwa [show (m.runLine host line).2.session.aliases = _ from haliases]

end

section

variable {name value : Text} {entries : List (Text × Text)}

theorem format_eq (name value : Text) :
    format name value = name ++ '=' :: '\'' :: (value ++ ['\'']) := by
  simp [format]

theorem trimmed_alias_format (name value : Text) :
    Text.Trimmed ("alias ".toList ++ format name value) := by
  have hquote : Text.Word ['\''] := by decide
  rw [format, ← List.append_assoc]
  exact hquote.trimmed_cons_append rfl ("lias ".toList ++ (name ++ "='".toList ++ value))

theorem asks_alias_format (h : Listable (name, value)) :
    Setting.Asks ("alias ".toList ++ format name value) (.directive (.alias name value)) := by
  -- the quotes around the value keep its own blanks from being trimmed
  have hquote : Text.Word ['\''] := by decide
  have hquoted : Text.Trimmed ('\'' :: (value ++ ['\''])) := hquote.trimmed_cons_append rfl value
  have hshape := (trimmed_alias_format name value).trim_eq
  rw [format_eq] at hshape ⊢
  have hasks := Setting.Asks.aliased hshape h.name.1
  rwa [h.trimmed.trim_eq, hquoted.trim_eq, Text.stripQuotes_quoted (.inl rfl)] at hasks

theorem takeLines_listing (h : ∀ e ∈ entries, Listable e) (number : Nat) (c : Config) :
    c.takeLines number (entries.map fun e => "alias ".toList ++ format e.1 e.2) =
      { c with directives := c.directives ++ entries.map fun e => .alias e.1 e.2 } := by
  induction entries generalizing number c with
  | nil => simp [Config.takeLines]
  | cons e later ih =>
    obtain ⟨he, hlater⟩ := List.forall_mem_cons.1 h
    have hparse := (asks_alias_format he).parse_eq
    rw [List.map_cons, Config.takeLines, Config.takeLine, hparse, ih hlater]
    simp

theorem applyDirectives_alias {s : Session}
    (h : ((s.aliases.entries ++ entries).map (·.1)).Nodup) :
    s.applyDirectives (entries.map fun e => .alias e.1 e.2) =
      { s with aliases := ⟨s.aliases.entries ++ entries⟩ } := by
  induction entries generalizing s with
  | nil => simp [Session.applyDirectives]
  | cons e later ih =>
    have hnew : e.1 ∉ s.aliases.entries.map (·.1) := by
      rw [List.map_append, List.map_cons] at h
      exact fun hc => (List.nodup_append.1 h).2.2 e.1 hc e.1 List.mem_cons_self rfl
    have hput : s.aliases.insert e.1 e.2 = ⟨s.aliases.entries ++ [e]⟩ := by
      rw [Table.insert, Table.put_of_notMem _ hnew]
    have hlater := ih (s := { s with aliases := ⟨s.aliases.entries ++ [e]⟩ }) (by simpa using h)
    rw [List.map_cons, Session.applyDirectives, List.foldl_cons, ← Session.applyDirectives,
      Directive.apply, hput, hlater]
    simp

theorem lines_unlines_format (h : ∀ e ∈ entries, Listable e) {u : Text} (hu : '\n' ∉ u) :
    Text.lines (Text.unlines (entries.map fun e => u ++ format e.1 e.2)) =
      entries.map fun e => u ++ format e.1 e.2 := by
  refine Text.lines_unlines_eq_self fun line hline => ?_
  obtain ⟨e, he, rfl⟩ := List.mem_map.1 hline
  have hlisted := h e he
  refine ⟨by simp [format, hu, hlisted.name.2, hlisted.value], ?_⟩
  have hlast : (u ++ format e.1 e.2).getLast? = some '\'' := by
    rw [format, ← List.append_assoc]
    exact List.getLast?_concat
  simp [hlast]

theorem takeText_listing {aliases : Table} (h : Sound aliases) :
    ({} : Config).takeText
        (Text.unlines (aliases.entries.map fun e => "alias ".toList ++ format e.1 e.2)) =
      { directives := aliases.entries.map fun e => .alias e.1 e.2 } := by
  rw [Config.takeText, lines_unlines_format h.listable (by decide)]
  exact takeLines_listing h.listable 1 {}

/-- What `alias` lists on its own is a startup file once the word `alias` stands before each line,
and that file brings back just the aliases that were listed. -/
theorem listing_reloaded {σ : Type} {m : Machine σ} {pieces : List Bytes}
    (hreach : Reachable m.session.aliases) (hsink : m.session.sink = .working pieces)
    (host : Host σ) :
    Sound m.session.aliases ∧
    ∃ printed,
      (Builtin.run host .alias m []).1 = .ok (.status 0) ∧
      (Builtin.run host .alias m []).2.session.sink.written =
        m.session.sink.written ++ Utf8.encode printed ∧
      (Text.lines printed = m.session.aliases.entries.map fun e =>
        e.1 ++ "='".toList ++ e.2 ++ "'".toList) ∧
      ∀ {τ : Type} (reader : Host τ) (path : Path) (w : τ),
        reader.Holds path
          (Utf8.encode (Text.unlines ((Text.lines printed).map ("alias ".toList ++ ·)))) w →
        ∃ c w', Config.loadFile reader path {} w = (.ok (), c, w') ∧ c.skipped = [] ∧
          ∀ s : Session, ({ s with aliases := {} } : Session).applyDirectives c.directives =
            { s with aliases := m.session.aliases } := by
  have hsound := hreach.sound
  have hlines : Text.lines (Text.unlines (Builtin.aliasLines m.session.aliases)) =
      Builtin.aliasLines m.session.aliases :=
    lines_unlines_format hsound.listable (u := []) List.not_mem_nil
  have hcalled : (m.record (.call .alias [])).session.sink = .working pieces := hsink
  obtain ⟨hstatus, hprinted⟩ :=
    Builtin.sayAll_written hcalled (Builtin.aliasLines m.session.aliases)
  refine ⟨hsound, Text.unlines (Builtin.aliasLines m.session.aliases), hstatus, hprinted, hlines,
    fun reader path w hholds => ?_⟩
  have hfile : (Builtin.aliasLines m.session.aliases).map ("alias ".toList ++ ·) =
      m.session.aliases.entries.map fun e => "alias ".toList ++ format e.1 e.2 := List.map_map
  rw [hlines, hfile] at hholds
  obtain ⟨w', hload⟩ := Config.loadFile_of_holds hholds {}
  rw [takeText_listing hsound] at hload
  refine ⟨_, w', hload, rfl, fun s => ?_⟩
  exact applyDirectives_alias (s := { s with aliases := {} }) hsound.distinct

theorem listing_reloaded_idle :
    let aliases : Table :=
      ⟨[("a b".toList, "=#$ \"x".toList), ("e".toList, []), ("q".toList, "'".toList)]⟩
    let m : Machine Unit :=
      { Machine.idle with session := { Machine.idle.session with aliases } }
    ∃ printed,
      (Builtin.run Host.void .alias m []).2.session.sink.written = Utf8.encode printed ∧
      ∃ c w', Config.loadFile (Host.notebook ⟨[]⟩) ⟨[]⟩ {}
          (some (Utf8.encode (Text.unlines ((Text.lines printed).map ("alias ".toList ++ ·))))) =
            (.ok (), c, w') ∧
        c.skipped = [] ∧
        Machine.idle.session.applyDirectives c.directives = m.session := by
  intro aliases m
  let s := Machine.idle.session.applyDirectives
    (({} : Config).takeText "alias a b = '=#$ \"x'\n alias e=".toList).directives
  have hran : (({ Machine.idle with session := s }).runLine Host.void
      "cd / ; alias z='x' q=' z=".toList).2.session.aliases = aliases := by decide
  have hreach : Reachable m.session.aliases := by
    show Reachable aliases
    rw [← hran]
    exact .ran _ (.loaded _ .empty)
  obtain ⟨-, printed, -, hprinted, -, hload⟩ := listing_reloaded (m := m) hreach rfl Host.void
  obtain ⟨c, w', hc, hskipped, hs⟩ := hload _ _ _ (Host.holds_notebook ⟨[]⟩ _)
  exact ⟨printed, hprinted, c, w', hc, hskipped, hs Machine.idle.session⟩

end

end Alias

end LineShell
