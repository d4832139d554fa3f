import LineShell.Proofs.Startup.Loading

/-! The bound of the history after a configuration was loaded. The startup file and the variable can
fail each on its own: the variable counts even if the file cannot be read, and what the file has set
stays even if the variable is no number. -/

namespace LineShell

namespace Environment

def Overrides (environment : Environment) (n : Nat) : Prop :=
  ∃ numeral, environment.lookup "HSH_HISTSIZE".toList = some numeral ∧
    Numeral.Denotes (Text.trim numeral) n ∧ n ≤ Numeral.wordMax

def Spoils (environment : Environment) (numeral : Text) : Prop :=
  environment.lookup "HSH_HISTSIZE".toList = some numeral ∧
    ∀ n, Numeral.Denotes (Text.trim numeral) n → Numeral.wordMax < n

theorem Spoils.not_overrides {environment : Environment} {numeral : Text} {n : Nat}
    (h : environment.Spoils numeral) : ¬ environment.Overrides n := by
  rintro ⟨numeral', hlookup, hdenotes, hfits⟩
  obtain rfl := Option.some.inj (h.1.symm.trans hlookup)
  exact absurd hfits (Nat.not_le.2 (h.2 n hdenotes))

end Environment

namespace Config

variable {σ : Type} {host : Host σ} {path home : Path} {environment : Environment} {w : σ}

theorem override_cases (environment : Environment) (c : Config) :
    ((∀ n, ¬ environment.Overrides n) ∧ (∀ numeral, ¬ environment.Spoils numeral) ∧
      c.override environment = .ok c) ∨
    (∃ n, (∀ m, environment.Overrides m → n = m) ∧ environment.Overrides n ∧
      c.override environment = .ok { c with bound := n }) ∨
    ∃ numeral, environment.Spoils numeral ∧
      c.override environment = .error (.invalidBound numeral) := by
  rcases hlookup : environment.lookup "HSH_HISTSIZE".toList with _ | numeral
  · have hunset (numeral : Text) (h : environment.lookup "HSH_HISTSIZE".toList = some numeral) :
        False := nomatch hlookup.symm.trans h
    refine .inl ⟨?_, fun numeral h => hunset numeral h.1, by simp only [override, hlookup]⟩
    rintro n ⟨numeral, h, -⟩
    exact hunset numeral h
  · rcases hread : Numeral.read? Numeral.wordMax (Text.trim numeral) with _ | n
    · refine .inr (.inr ⟨numeral, ⟨hlookup, Numeral.read?_eq_none_iff.1 hread⟩, ?_⟩)
      simp only [override, hlookup, hread]
    · refine .inr (.inl ⟨n, ?_, ⟨numeral, hlookup, Numeral.read?_eq_some_iff.1 hread⟩, ?_⟩)
      · rintro m ⟨numeral', hlookup', hm⟩
        obtain rfl := Option.some.inj (hlookup.symm.trans hlookup')
        exact Option.some.inj (hread.symm.trans (Numeral.read?_eq_some_iff.2 hm))
      · simp only [override, hlookup, hread]

theorem loadFile_of_absent (h : (host.isPresent path w).1 = false) (c : Config) :
    ∃ w', loadFile host path c w = (.ok (), c, w') := by
  have hanswer : host.isPresent path w = (false, (host.isPresent path w).2) := Prod.ext h rfl
  exact ⟨_, by rw [loadFile, hanswer]⟩

theorem loadFile_of_unread (hpresent : (host.isPresent path w).1 = true)
    (hunread : ∀ t, ¬ host.Reads path t w) (c : Config) :
    ∃ cause w', loadFile host path c w = (.error (.read path cause), c, w') := by
  have hanswer : host.isPresent path w = (true, (host.isPresent path w).2) := Prod.ext hpresent rfl
  rcases hread : host.read path (host.isPresent path w).2 with ⟨e | stream, w'⟩
  · exact ⟨e, w', by rw [loadFile, hanswer]; simp only [hread]⟩
  · rcases htext : stream.text with e | t
    · exact ⟨e, w', by rw [loadFile, hanswer]; simp only [hread, htext]⟩
    · obtain ⟨hfault, hdecode⟩ := Stream.text_eq_ok_iff.1 htext
      obtain ⟨data, fault⟩ := stream
      obtain rfl : fault = none := hfault
      exact absurd ⟨data, ⟨hpresent, by rw [hread]⟩, hdecode⟩ (hunread t)

def Unread (host : Host σ) (path : Path) (w : σ) : Prop :=
  (host.isPresent path w).1 = true ∧ ∀ t, ¬ host.Reads path t w

theorem unread_of_holds {data : Bytes} (h : host.Holds path data w)
    (hdecode : Utf8.decode? data = none) : Unread host path w := by
  refine ⟨h.present, ?_⟩
  rintro t ⟨data', h', hdecode'⟩
  rw [h.unique h', hdecode'] at hdecode
  exact Option.some_ne_none t hdecode

structure Leaves (host : Host σ) (path : Path) (w : σ) (rc : Config) : Prop where
  text : ∀ t, host.Reads path t w → Takes (Text.lines t) { bound := 4096 } rc
  none : (∀ t, ¬ host.Reads path t w) → rc = { bound := 4096 }

theorem loadFile_cases (host : Host σ) (path : Path) (w : σ) :
    ∃ loaded rc w', loadFile host path {} w = (loaded, rc, w') ∧ Leaves host path w rc ∧
      (Unread host path w ∧ (∃ cause, loaded = .error (.read path cause)) ∨
        ¬ Unread host path w ∧ loaded = .ok ()) := by
  by_cases hreads : ∃ t, host.Reads path t w
  · obtain ⟨t, ht⟩ := hreads
    obtain ⟨w', hload⟩ := loadFile_of_reads ht {}
    refine ⟨_, _, w', hload, ⟨fun t' ht' => ?_, fun hnone => absurd ht (hnone t)⟩,
      .inr ⟨fun hunread => hunread.2 t ht, rfl⟩⟩
    obtain rfl := ht.unique ht'
    exact takes_takeText _ t
  · have hnone := not_exists.1 hreads
    cases hpresent : (host.isPresent path w).1 with
    | false =>
      obtain ⟨w', hload⟩ := loadFile_of_absent hpresent {}
      refine ⟨_, _, w', hload, ⟨fun t ht => absurd ht (hnone t), fun _ => rfl⟩,
        .inr ⟨fun hunread => ?_, rfl⟩⟩
      exact Bool.false_ne_true (hpresent.symm.trans hunread.1)
    | true =>
      obtain ⟨cause, w', hload⟩ := loadFile_of_unread hpresent hnone {}
      exact ⟨_, _, w', hload, ⟨fun t ht => absurd ht (hnone t), fun _ => rfl⟩,
        .inl ⟨⟨hpresent, hnone⟩, cause, rfl⟩⟩

/-- How loading ends: the variable is looked at after the file, and complained about first. -/
structure Ends (environment : Environment) (path : Path) (unread : Prop)
    (result : Except ConfigError Unit) : Prop where
  invalid : ∀ numeral, result = .error (.invalidBound numeral) ↔ environment.Spoils numeral
  read : (∃ cause, result = .error (.read path cause)) ↔
    (∀ numeral, ¬ environment.Spoils numeral) ∧ unread
  ok : result = .ok () ↔ (∀ numeral, ¬ environment.Spoils numeral) ∧ ¬ unread

theorem ends_of_file {unread : Prop} {loaded : Except ConfigError Unit}
    (hclean : ∀ numeral, ¬ environment.Spoils numeral)
    (h : unread ∧ (∃ cause, loaded = .error (.read path cause)) ∨ ¬ unread ∧ loaded = .ok ()) :
    Ends environment path unread loaded := by
  rcases h with ⟨hunread, cause, rfl⟩ | ⟨hread, rfl⟩
  · constructor <;> simp [hclean, hunread]
  · constructor <;> simp [hclean, hread]

theorem ends_of_spoils {unread : Prop} {numeral : Text} (h : environment.Spoils numeral) :
    Ends environment path unread (.error (.invalidBound numeral)) := by
  have hspoilt : ¬ ∀ numeral, ¬ environment.Spoils numeral := fun hclean => hclean numeral h
  constructor
  · intro numeral'
    constructor
    · rintro ⟨rfl⟩
      exact h
    · intro h'
      rw [Option.some.inj (h.1.symm.trans h'.1)]
  · simp [hspoilt]
  · simp [hspoilt]

/-- Loading a configuration takes the directives and the skipped lines from the startup file alone,
and the bound from the variable, if that gives one, else from the file, else from the defaults. It
fails by the variable just if that is set to something else, and otherwise by the file just if that
is there and cannot be read as a text. -/
theorem load_decides (host : Host σ) (home : Path) (environment : Environment) (w : σ) :
    ∃ result c w' rc, ({} : Config).load host home environment w = (result, c, w') ∧
      Leaves host (startupFile home) w rc ∧
      c.directives = rc.directives ∧ c.skipped = rc.skipped ∧
      (∀ n, environment.Overrides n → c.bound = n) ∧
      ((∀ n, ¬ environment.Overrides n) → c.bound = rc.bound) ∧
      Ends environment (startupFile home) (Unread host (startupFile home) w) result := by
  obtain ⟨loaded, rc, w', hload, hleaves, hloaded⟩ := loadFile_cases host (startupFile home) w
  rcases override_cases environment rc with
    ⟨hnone, hclean, hoverride⟩ | ⟨n, hunique, hn, hoverride⟩ | ⟨numeral, hspoils, hoverride⟩
  · refine ⟨loaded, rc, w', rc, by simp only [load, hload, hoverride], hleaves, rfl, rfl, ?_⟩
    exact ⟨fun n hn => absurd hn (hnone n), fun _ => rfl, ends_of_file hclean hloaded⟩
  · refine ⟨loaded, { rc with bound := n }, w', rc, by simp only [load, hload, hoverride],
      hleaves, rfl, rfl, ?_⟩
    have hclean (numeral : Text) : ¬ environment.Spoils numeral :=
      fun hspoils => hspoils.not_overrides hn
    exact ⟨hunique, fun hnone => absurd hn (hnone n), ends_of_file hclean hloaded⟩
  · refine ⟨.error (.invalidBound numeral), rc, w', rc, by simp only [load, hload, hoverride],
      hleaves, rfl, rfl, ?_⟩
    exact ⟨fun n hn => absurd hn hspoils.not_overrides, fun _ => rfl, ends_of_spoils hspoils⟩

theorem load_decides_notebook :
    let home : Path := ⟨[]⟩
    let host := Host.notebook (startupFile home)
    let load (numeral : Text) (data : Bytes) := ({} : Config).load host home
      (.ofPairs [("HSH_HISTSIZE".toList, numeral)]) (some data)
    (∃ c w', load "2 5".toList (Utf8.encode "histsize 9\nalias x".toList) =
        (.error (.invalidBound "2 5".toList), c, w') ∧ c.bound = 9) ∧
      ∃ cause c w', load " +025 ".toList [255] =
        (.error (.read (startupFile home) cause), c, w') ∧ c.bound = 25 ∧ c.directives = [] := by
  intro home host load
  constructor
  · obtain ⟨result, c, w', rc, hload, hleaves, -, -, -, hbound, hends⟩ :=
      load_decides host home (.ofPairs [("HSH_HISTSIZE".toList, "2 5".toList)])
        (some (Utf8.encode "histsize 9\nalias x".toList))
    have hspoils : Environment.Spoils (.ofPairs [("HSH_HISTSIZE".toList, "2 5".toList)])
        "2 5".toList := ⟨by decide, Numeral.read?_eq_none_iff.1 (by decide)⟩
    have htakes := hleaves.text _ (Host.holds_notebook _ _).reads
    have hrc : rc.bound = 9 := by
      refine htakes.bound [] "histsize 9".toList ["alias x".toList] 9 (by decide)
        (Setting.bound?_eq_some_iff.1 (by decide)) fun l hl => Setting.bound?_eq_none_iff.1 ?_
      obtain rfl := List.mem_singleton.1 hl
      decide
    obtain rfl := (hends.invalid _).2 hspoils
    exact ⟨c, w', hload, (hbound fun n => hspoils.not_overrides).trans hrc⟩
  · obtain ⟨result, c, w', rc, hload, hleaves, hdirectives, -, hbound, -, hends⟩ :=
      load_decides host home (.ofPairs [("HSH_HISTSIZE".toList, " +025 ".toList)]) (some [255])
    have hn : Environment.Overrides (.ofPairs [("HSH_HISTSIZE".toList, " +025 ".toList)]) 25 :=
      ⟨" +025 ".toList, by decide, Numeral.read?_eq_some_iff.1 (by decide)⟩
    have hunread : Unread host (startupFile home) (some [255]) :=
      unread_of_holds (Host.holds_notebook _ _) (by decide)
    obtain ⟨cause, rfl⟩ := hends.read.2 ⟨fun numeral h => h.not_overrides hn, hunread⟩
    refine ⟨cause, c, w', hload, hbound 25 hn, ?_⟩
    rw [hdirectives, hleaves.none hunread.2]

end Config

end LineShell
