import LineShell.Proofs.Host.Contents
import LineShell.Proofs.Startup.Setting
import LineShell.Startup.Config

/-! What a startup file adds to a configuration, line by line. A file counts for as much as its
parts do one after another, and a malformed line adds nothing but its own number. -/

namespace LineShell

namespace Setting

def directive? (line : Text) : Option Directive :=
  match parse line with
  | .ok (.directive d) => some d
  | _ => none

def bound? (line : Text) : Option Nat :=
  match parse line with
  | .ok (.bound n) => some n
  | _ => none

def fault? (line : Text) : Option SettingError :=
  match parse line with
  | .error e => some e
  | _ => none

theorem directive?_eq_some_iff {line : Text} {d : Directive} :
    directive? line = some d ↔ Asks line (.directive d) := by
  rw [← parse_eq_ok_iff (by simp), directive?]
  split <;> simp_all

theorem bound?_eq_some_iff {line : Text} {n : Nat} :
    bound? line = some n ↔ Asks line (.bound n) := by
  rw [← parse_eq_ok_iff (by simp), bound?]
  split <;> simp_all

theorem bound?_eq_none_iff {line : Text} : bound? line = none ↔ ∀ n, ¬ Asks line (.bound n) := by
  rw [Option.eq_none_iff_forall_ne_some]
  exact forall_congr' fun n => not_congr bound?_eq_some_iff

theorem fault?_eq_some_iff {line : Text} {e : SettingError} :
    fault? line = some e ↔ Malformed line e := by
  rw [← parse_eq_error_iff, fault?]
  split <;> simp_all

theorem Malformed.adds_nothing {line : Text} {e : SettingError} (h : Malformed line e) :
    directive? line = none ∧ bound? line = none := by
  simp only [directive?, bound?, h.parse_eq, and_self]

def faults (number : Nat) (lines : List Text) : List (Nat × SettingError) :=
  (lines.zipIdx number).filterMap fun x => (fault? x.1).map fun e => (x.2, e)

theorem faults_append (number : Nat) (xs ys : List Text) :
    faults number (xs ++ ys) = faults number xs ++ faults (number + xs.length) ys := by
  rw [faults, List.zipIdx_append, List.filterMap_append]
  rfl

theorem faults_add (number k : Nat) (lines : List Text) :
    faults (number + k) lines = (faults number lines).map fun f => (f.1 + k, f.2) := by
  rw [faults, faults, Nat.add_comm, ← List.map_snd_add_zipIdx_eq_zipIdx, List.filterMap_map,
    List.map_filterMap]
  congr 1
  funext x
  simp [Function.comp_def]

theorem mem_faults {number m : Nat} {lines : List Text} {e : SettingError} :
    (m, e) ∈ faults number lines ↔
      ∃ i line, lines[i]? = some line ∧ m = number + i ∧ Malformed line e := by
  simp only [faults, List.mem_filterMap, Option.map_eq_some_iff, fault?_eq_some_iff]
  constructor
  · rintro ⟨⟨line, k⟩, hmem, e, hbad, hpair⟩
    obtain ⟨rfl, rfl⟩ := Prod.mk.inj hpair
    obtain ⟨hle, hline⟩ := List.mk_mem_zipIdx_iff_le_and_getElem?_sub.1 hmem
    exact ⟨k - number, line, hline, (Nat.add_sub_cancel' hle).symm, hbad⟩
  · rintro ⟨i, line, hline, rfl, hbad⟩
    have hmem : (line, number + i) ∈ lines.zipIdx number := by
      rw [List.mk_mem_zipIdx_iff_le_and_getElem?_sub, Nat.add_sub_cancel_left]
      exact ⟨Nat.le_add_right number i, hline⟩
    exact ⟨(line, number + i), hmem, e, hbad, rfl⟩

theorem pairwise_faults (number : Nat) (lines : List Text) :
    ((faults number lines).map (·.1)).Pairwise (· < ·) := by
  have hnumbers : ((lines.zipIdx number).map (·.2)).Pairwise (· < ·) := by
    rw [List.zipIdx_map_snd]
    exact List.pairwise_lt_range' 1
  rw [List.pairwise_map] at hnumbers ⊢
  refine hnumbers.filterMap _ fun x y hlt f hf g hg => ?_
  obtain ⟨e, -, rfl⟩ := Option.map_eq_some_iff.1 hf
  obtain ⟨e', -, rfl⟩ := Option.map_eq_some_iff.1 hg
  exact hlt

def lastBound (bound : Nat) (lines : List Text) : Nat :=
  (lines.filterMap bound?).getLast?.getD bound

theorem lastBound_append (bound : Nat) (xs ys : List Text) :
    lastBound bound (xs ++ ys) = lastBound (lastBound bound xs) ys := by
  rw [lastBound, List.filterMap_append, List.getLast?_append, Option.getD_or]
  rfl

theorem lastBound_of_unbound (bound : Nat) {lines : List Text} (h : ∀ l ∈ lines, bound? l = none) :
    lastBound bound lines = bound := by
  rw [lastBound, List.filterMap_eq_nil_iff.2 h]
  rfl

theorem lastBound_cons (bound : Nat) (line : Text) (later : List Text) :
    lastBound bound (line :: later) = lastBound ((bound? line).getD bound) later := by
  rw [← List.singleton_append, lastBound_append]
  congr 1
  rw [lastBound]
  cases h : bound? line <;> simp [h]

end Setting

namespace Config

open Setting

theorem takeLine_eq (c : Config) (number : Nat) (line : Text) :
    c.takeLine number line =
      { bound := (bound? line).getD c.bound
        directives := c.directives ++ (directive? line).toList
        skipped := c.skipped ++ ((fault? line).map fun e => (number, e)).toList } := by
  rcases h : parse line with e | (_ | d | n) <;>
    simp [takeLine, bound?, directive?, fault?, h]

theorem takeLines_eq (number : Nat) (c : Config) (lines : List Text) :
    takeLines number c lines =
      { bound := lastBound c.bound lines
        directives := c.directives ++ lines.filterMap directive?
        skipped := c.skipped ++ faults number lines } := by
  induction lines generalizing number c with
  | nil => simp [takeLines, lastBound, faults]
  | cons line later ih =>
    have hdirectives : (line :: later).filterMap directive? =
        (directive? line).toList ++ later.filterMap directive? := by
      cases h : directive? line <;> simp [h]
    have hfaults : faults number (line :: later) =
        ((fault? line).map fun e => (number, e)).toList ++ faults (number + 1) later := by
      cases h : fault? line <;> simp [faults, h]
    -- the rest of the lines is taken into what the first line has left, under the next number
    rw [takeLines, ih, takeLine_eq, lastBound_cons, hdirectives, hfaults]
    simp only [List.append_assoc]

theorem takeText_append (c : Config) {t : Text} (ht : t = [] ∨ t.getLast? = some '\n') (u : Text) :
    c.takeText (t ++ u) =
      { (c.takeText t).takeText u with
        skipped := (c.takeText t).skipped ++
          (faults 1 (Text.lines u)).map fun f => (f.1 + (Text.lines t).length, f.2) } := by
  rw [takeText, Text.lines_append ht, ← faults_add]
  simp only [takeText, takeLines_eq, lastBound_append, faults_append, List.filterMap_append,
    List.append_assoc]

structure Takes (lines : List Text) (c c' : Config) : Prop where
  directives : ∃ asked : Text → Option Directive,
    (∀ line d, asked line = some d ↔ Asks line (.directive d)) ∧
      c'.directives = c.directives ++ lines.filterMap asked
  bound : ∀ before line after n, lines = before ++ line :: after → Asks line (.bound n) →
    (∀ l ∈ after, ∀ m, ¬ Asks l (.bound m)) → c'.bound = n
  unbound : (∀ l ∈ lines, ∀ n, ¬ Asks l (.bound n)) → c'.bound = c.bound
  skipped : ∃ faults, c'.skipped = c.skipped ++ faults ∧ (faults.map (·.1)).Pairwise (· < ·) ∧
    ∀ number e, (number, e) ∈ faults ↔
      ∃ i line, lines[i]? = some line ∧ number = 1 + i ∧ Malformed line e

theorem takes_takeText (c : Config) (t : Text) : Takes (Text.lines t) c (c.takeText t) := by
  rw [takeText, takeLines_eq]
  constructor
  · exact ⟨directive?, fun line d => directive?_eq_some_iff, rfl⟩
  · intro before line after n hlines hasks hafter
    have hbound : bound? line = some n := bound?_eq_some_iff.2 hasks
    have hunbound : ∀ l ∈ after, bound? l = none :=
      fun l hl => bound?_eq_none_iff.2 (hafter l hl)
    simp only [hlines, lastBound_append, lastBound_cons, hbound, Option.getD_some]
    exact lastBound_of_unbound n hunbound
  · intro hlines
    exact lastBound_of_unbound c.bound fun l hl => bound?_eq_none_iff.2 (hlines l hl)
  · exact ⟨faults 1 (Text.lines t), rfl, pairwise_faults 1 _, fun number e => mem_faults⟩

theorem takeText_without {t t' : Text} {before after : List Text} {line : Text} {e : SettingError}
    (ht : Text.lines t = before ++ line :: after) (ht' : Text.lines t' = before ++ after)
    (h : Malformed line e) (c : Config) :
    c.takeText t = { c.takeText t' with skipped := (c.takeText t).skipped } := by
  obtain ⟨hdirective, hbound⟩ := h.adds_nothing
  simp only [takeText, takeLines_eq, ht, ht', lastBound_append, lastBound_cons, hbound,
    Option.getD_none, List.filterMap_append, List.filterMap_cons, hdirective]

theorem loadFile_of_reads {σ : Type} {host : Host σ} {path : Path} {t : Text} {w : σ}
    (h : host.Reads path t w) (c : Config) :
    ∃ w', loadFile host path c w = (.ok (), c.takeText t, w') := by
  obtain ⟨data, hholds, hdecode⟩ := h
  obtain ⟨w₁, w₂, hpresent, hread⟩ := hholds.answers
  have htext : ({ data } : Stream).text = .ok t := Stream.text_eq_ok_iff.2 ⟨rfl, hdecode⟩
  exact ⟨w₂, by simp only [loadFile, hpresent, hread, htext]⟩

theorem loadFile_of_holds {σ : Type} {host : Host σ} {path : Path} {t : Text} {w : σ}
    (h : host.Holds path (Utf8.encode t) w) (c : Config) :
    ∃ w', loadFile host path c w = (.ok (), c.takeText t, w') := loadFile_of_reads h.reads c

/-- A startup file is taken in line by line. Cut after any of its lines it comes to the same as its
two parts, with the numbers of the second part raised; each well-formed line counts in its place;
and a malformed one does nothing but to be noted under its number. -/
theorem startup_lines (c : Config) :
    (∀ t u : Text, t = [] ∨ t.getLast? = some '\n' →
      ∃ faults, ((c.takeText t).takeText u).skipped = (c.takeText t).skipped ++ faults ∧
        c.takeText (t ++ u) =
          { (c.takeText t).takeText u with
            skipped := (c.takeText t).skipped ++
              faults.map fun f => (f.1 + (Text.lines t).length, f.2) }) ∧
    (∀ t, Takes (Text.lines t) c (c.takeText t)) ∧
    (∀ t t' before line after e, Text.lines t = before ++ line :: after →
      Text.lines t' = before ++ after → Malformed line e →
      c.takeText t = { c.takeText t' with skipped := (c.takeText t).skipped }) ∧
    ∀ {σ : Type} (host : Host σ) (path : Path) (w : σ) (t : Text),
      host.Holds path (Utf8.encode t) w →
      ∃ w', loadFile host path c w = (.ok (), c.takeText t, w') := by
  refine ⟨fun t u ht => ?_, takes_takeText c, fun t t' before line after e ht ht' h => ?_,
    fun host path w t h => loadFile_of_holds h c⟩
  · refine ⟨faults 1 (Text.lines u), ?_, takeText_append c ht u⟩
    rw [takeText, takeLines_eq]
  · exact takeText_without ht ht' h c

theorem startup_lines_notebook :
    let c : Config := {}
    let t := "alias a=echo\r\nalias broken\n".toList
    let u := "histsize many\n\tsetenv E v\nhistsize +08".toList
    (∃ faults, ((c.takeText t).takeText u).skipped = (c.takeText t).skipped ++ faults ∧
      c.takeText (t ++ u) =
        { (c.takeText t).takeText u with
          skipped := (c.takeText t).skipped ++
            faults.map fun f => (f.1 + (Text.lines t).length, f.2) }) ∧
    (c.takeText t =
      { c.takeText "alias a=echo".toList with skipped := (c.takeText t).skipped }) ∧
    (c.takeText (t ++ u) =
      { bound := 8
        directives := [.alias "a".toList "echo".toList, .setenv "E".toList "v".toList]
        skipped := [(2, .aliasShape "broken".toList), (3, .bound "many".toList)] }) ∧
    ∃ w', loadFile (Host.notebook ⟨[]⟩) ⟨[]⟩ c (some (Utf8.encode (t ++ u))) =
      (.ok (), c.takeText (t ++ u), w') := by
  intro c t u
  obtain ⟨happend, -, hwithout, hload⟩ := startup_lines c
  have hbad : Malformed "alias broken".toList (.aliasShape "broken".toList) :=
    parse_eq_error_iff.1 (by decide)
  refine ⟨happend t u (by decide), ?_, by decide, ?_⟩
  · have hwhole : Text.lines t = ["alias a=echo".toList, "alias broken".toList] := by decide
    exact hwithout t "alias a=echo".toList ["alias a=echo".toList] _ [] _ hwhole (by decide) hbad
  · exact hload (Host.notebook ⟨[]⟩) ⟨[]⟩ _ (t ++ u) (Host.holds_notebook ⟨[]⟩ _)

end Config

end LineShell
