import LineShell.Completion.Completer
import LineShell.Proofs.Execution.Sequence
import LineShell.Proofs.Path.Agreement
import Mathlib.Data.List.DropRight

/-! How far a completer keeps up with the sessions it is synchronised with. Aliases and the
directory are those of the last session. The commands were looked for when the search path last
changed, and from the directory of that time: they are out of date if the search path leads
through the working directory and that has changed since. -/

namespace LineShell

variable {σ : Type}

/-- In these states of the world directories hold just this, and a directory is the same by
whatever path with the same steps. -/
structure Host.Steady (host : Host σ) (contents : Path → Option (List Entry))
    (settled : σ → Prop) : Prop where
  answer : ∀ p w, settled w → (host.list p w).1 = contents p
  stays : ∀ p w, settled w → settled (host.list p w).2
  same : ∀ p q : Path, p.agrees q = true → contents p = contents q

namespace Completer

def searchPath (s : Session) : Option Text := s.environment.lookup "PATH".toList

/-- The first of the sessions that lead to the last one without a change of the search path. -/
def opening (earlier : List Session) (last : Session) : Session :=
  (earlier.rtakeWhile fun s => searchPath s = searchPath last).head?.getD last

def syncAll (host : Host σ) (c : Completer) (calls : List (Session × σ)) : Completer :=
  calls.foldl (fun c p => (c.sync host p.1 p.2).1) c

def found (contents : Path → Option (List Entry)) (s : Session) : List Text :=
  sortedSet (Builtin.all.map Builtin.name ++
    (places s.directory (searchPath s)).flatMap fun p =>
      ((contents p).getD []).filterMap commandName?)

structure Shows (contents : Path → Option (List Entry)) (c : Completer) (opened last : Session) :
    Prop where
  commands : c.commands = found contents opened
  aliases : c.aliases = sortedSet last.aliases.names
  scanned : c.scanned = searchPath last
  path : searchPath opened = searchPath last
  base : c.base.agrees last.directory = true

theorem searchPath_opening (earlier : List Session) (last : Session) :
    searchPath (opening earlier last) = searchPath last := by
  rw [opening]
  rcases h : (earlier.rtakeWhile fun s => searchPath s = searchPath last).head? with _ | s
  · rfl
  · have hs := List.mem_rtakeWhile_imp (List.mem_of_mem_head? h)
    exact of_decide_eq_true hs

theorem opening_concat (earlier : List Session) (s last : Session) :
    opening (earlier ++ [s]) last =
      if searchPath s = searchPath last then opening earlier s else last := by
  rw [opening]
  split
  · next h =>
    have hlonger := List.rtakeWhile_concat_pos (fun t => searchPath t = searchPath last) earlier s
      (decide_eq_true h)
    rw [hlonger, opening, List.head?_append, ← h]
    rcases (earlier.rtakeWhile fun t => searchPath t = searchPath s).head? with _ | t <;> rfl
  · next h =>
    have hnone := List.rtakeWhile_concat_neg (fun t => searchPath t = searchPath last) earlier s
      (by simpa using h)
    rw [hnone]
    rfl

theorem insertSorted_ne_nil (t : Text) (ts : List Text) : insertSorted t ts ≠ [] := by
  cases ts with
  | nil => exact List.cons_ne_nil _ _
  | cons u later =>
    rw [insertSorted]
    split
    · exact List.cons_ne_nil _ _
    · split <;> exact List.cons_ne_nil _ _

theorem sortedSet_ne_nil {ts : List Text} (h : ts ≠ []) : sortedSet ts ≠ [] := by
  rcases List.eq_nil_or_concat' ts with rfl | ⟨us, t, rfl⟩
  · exact absurd rfl h
  · rw [sortedSet, List.foldl_concat]
    exact insertSorted_ne_nil t _

theorem found_ne_nil (contents : Path → Option (List Entry)) (s : Session) :
    found contents s ≠ [] :=
  sortedSet_ne_nil (List.append_ne_nil_of_left_ne_nil (by decide) _)

variable {host : Host σ} {contents : Path → Option (List Entry)} {settled : σ → Prop}
  {c d : Completer} {opened s t : Session} {w w' : σ}

theorem scan_steady (hsteady : host.Steady contents settled) (ps : List Path) (hw : settled w) :
    (scan host ps w).1 = ps.flatMap fun p => ((contents p).getD []).filterMap commandName? := by
  induction ps generalizing w with
  | nil => rfl
  | cons p later ih =>
    have hanswer := hsteady.answer p w hw
    have hrest := ih (hsteady.stays p w hw)
    rw [scan]
    dsimp only
    rw [hanswer, hrest, List.flatMap_cons]

theorem refresh_kept (h : c.scanned = searchPath s) (hc : c.commands ≠ []) :
    (c.refresh host s.directory (searchPath s) w).1 = c := by
  rw [refresh, if_pos ⟨h, hc⟩]

theorem refresh_anew (hsteady : host.Steady contents settled) (hw : settled w)
    (h : ¬ (c.scanned = searchPath s ∧ c.commands ≠ [])) :
    (c.refresh host s.directory (searchPath s) w).1 =
      { c with commands := found contents s, scanned := searchPath s } := by
  rw [refresh, if_neg h]
  dsimp only
  rw [scan_steady hsteady _ hw, found]

theorem sync_eq (host : Host σ) (c : Completer) (s : Session) (w : σ) :
    (c.sync host s w).1 =
      { (c.refresh host s.directory (searchPath s) w).1 with
        aliases := sortedSet s.aliases.names
        base := if (c.refresh host s.directory (searchPath s) w).1.base.agrees s.directory
          then (c.refresh host s.directory (searchPath s) w).1.base else s.directory } := rfl

theorem agrees_base (b directory : Path) :
    (if b.agrees directory then b else directory).agrees directory = true := by
  split
  · next h => exact h
  · exact Path.agrees_refl directory

theorem shows_new (hsteady : host.Steady contents settled) (base : Path) (hw : settled w) :
    Shows contents (({ base } : Completer).sync host s w).1 s s := by
  rw [sync_eq, refresh_anew hsteady hw (fun h => h.2 rfl)]
  exact ⟨rfl, rfl, rfl, rfl, agrees_base _ _⟩

theorem Shows.sync (hsteady : host.Steady contents settled) (h : Shows contents c opened s)
    (hw : settled w) (t : Session) : Shows contents (c.sync host t w).1
      (if searchPath s = searchPath t then opened else t) t := by
  have hne : c.commands ≠ [] := h.commands ▸ found_ne_nil contents opened
  rw [sync_eq]
  by_cases hsame : searchPath s = searchPath t
  · rw [if_pos hsame, refresh_kept (h.scanned.trans hsame) hne]
    exact ⟨h.commands, rfl, h.scanned.trans hsame, h.path.trans hsame, agrees_base _ _⟩
  · rw [if_neg hsame,
      refresh_anew hsteady hw fun hkept => hsame (h.scanned.symm.trans hkept.1)]
    exact ⟨rfl, rfl, rfl, rfl, agrees_base _ _⟩

theorem shows_syncAll (hsteady : host.Steady contents settled) (base : Path)
    (earlier : List (Session × σ)) (last : Session × σ)
    (hsettled : ∀ p ∈ earlier ++ [last], settled p.2) :
    Shows contents (syncAll host { base } (earlier ++ [last]))
      (opening (earlier.map (·.1)) last.1) last.1 := by
  induction earlier using List.reverseRecOn generalizing last with
  | nil => exact shows_new hsteady base (hsettled last List.mem_cons_self)
  | append_singleton earlier s ih =>
    have hbefore := ih s fun p hp => hsettled p (List.mem_append_left _ hp)
    have hlast : settled last.2 := hsettled last List.mem_concat_self
    rw [syncAll, List.foldl_concat, ← syncAll, List.map_append, List.map_singleton, opening_concat]
    exact hbefore.sync hsteady hlast last.1

theorem ofPath_congr (hsteady : host.Steady contents settled) {p q : Path}
    (h : p.agrees q = true) (word : Text) (hw : settled w) (hw' : settled w') :
    (Candidate.ofPath host p word w).1 = (Candidate.ofPath host q word w').1 := by
  have hlist (a : Path) {u : σ} (hu : settled u) : host.list a u = (contents a, (host.list a u).2) :=
    Prod.ext (hsteady.answer a u hu) rfl
  have hplace (directory : Text) :
      contents (if directory.isEmpty then p else p.join (.ofText directory)) =
        contents (if directory.isEmpty then q else q.join (.ofText directory)) := by
    split
    · exact hsteady.same p q h
    · exact hsteady.same _ _ (Path.agrees_join h _)
  rw [Candidate.ofPath, Candidate.ofPath]
  dsimp only
  rw [hlist _ hw, hlist _ hw', hplace]
  rcases contents _ with _ | entries <;> rfl

theorem complete_congr (hsteady : host.Steady contents settled) (hcommands : c.commands = d.commands)
    (haliases : c.aliases = d.aliases) (hbase : c.base.agrees d.base = true) (line : Text)
    (place : Nat) (hw : settled w) (hw' : settled w') :
    (c.complete host line place w).1 = (d.complete host line place w').1 := by
  rw [complete, complete]
  rcases wordAt? line place with _ | ⟨before, word⟩
  · rfl
  · dsimp only
    split
    · rw [ofCommand, ofCommand, hcommands, haliases]
    · rw [ofPath_congr hsteady hbase word hw hw']

theorem Shows.complete_eq (hsteady : host.Steady contents settled) {opened' : Session}
    (h : Shows contents c opened s) (h' : Shows contents d opened' s)
    (hfound : found contents opened = found contents opened') (line : Text) (place : Nat)
    (hw : settled w) (hw' : settled w') :
    (c.complete host line place w).1 = (d.complete host line place w').1 := by
  have hcommands : c.commands = d.commands := by rw [h.commands, h'.commands, hfound]
  have haliases : c.aliases = d.aliases := by rw [h.aliases, h'.aliases]
  have hbase : c.base.agrees d.base = true :=
    Path.agrees_trans h.base (Path.agrees_symm h'.base)
  exact complete_congr hsteady hcommands haliases hbase line place hw hw'

/-- No entry of the search path is seen from the working directory. -/
def Anchored (path : Option Text) : Prop :=
  ∀ t, path = some t → ∀ e ∈ List.splitOn ':' t, (Path.ofText e).IsAbsolute

theorem found_congr (hsteady : host.Steady contents settled)
    (hpath : searchPath opened = searchPath s)
    (h : opened.directory.agrees s.directory = true ∨ Anchored (searchPath s)) :
    found contents opened = found contents s := by
  rw [found, found, hpath]
  rcases hs : searchPath s with _ | t
  · rfl
  · rw [places, places, List.flatMap_map, List.flatMap_map]
    congr 2
    apply List.flatMap_congr
    intro e he
    have hentry : contents (opened.directory.join (.ofText e)) =
        contents (s.directory.join (.ofText e)) := by
      rcases h with hsame | hanchored
      · exact hsteady.same _ _ (Path.agrees_join hsame _)
      · have hentry : (Path.ofText e).IsAbsolute := hanchored t hs e he
        rw [Path.join, if_pos hentry, Path.join, if_pos hentry]
    rw [hentry]

/-- After any synchronisations a completer offers what a new one does that is synchronised with the
session with which the present stretch of one search path began, and then with the last one. The
last one alone will do if the search path does not lead through the working directory, or if that
has the same steps in both sessions. -/
theorem complete_syncAll (hsteady : host.Steady contents settled) (base base' : Path)
    (earlier : List (Session × σ)) (last : Session × σ)
    (hsettled : ∀ p ∈ earlier ++ [last], settled p.2) {u v w w' : σ}
    (hworlds : ∀ x ∈ [u, v, w, w'], settled x) (line : Text) (place : Nat) :
    let opened := opening (earlier.map (·.1)) last.1
    let offered := ((syncAll host { base } (earlier ++ [last])).complete host line place w).1
    offered = ((syncAll host { base := base' } [(opened, u), (last.1, v)]).complete
        host line place w').1 ∧
      (opened.directory.agrees last.1.directory = true ∨ Anchored (searchPath last.1) →
        offered =
          ((syncAll host { base := base' } [(last.1, v)]).complete host line place w').1) := by
  intro opened offered
  obtain ⟨hu, hv, hw, hw', -⟩ : settled u ∧ settled v ∧ settled w ∧ settled w' ∧ True := by
    simpa using hworlds
  have hpath : searchPath opened = searchPath last.1 := searchPath_opening _ _
  have hshows : Shows contents (syncAll host { base } (earlier ++ [last])) opened last.1 :=
    shows_syncAll hsteady base earlier last hsettled
  refine ⟨?_, fun hsame => ?_⟩
  · have htwice : Shows contents (syncAll host { base := base' } [(opened, u), (last.1, v)])
        opened last.1 := by
      have hsecond := (shows_new (s := opened) hsteady base' hu).sync hsteady hv last.1
      rwa [if_pos hpath] at hsecond
    exact hshows.complete_eq hsteady htwice rfl line place hw hw'
  · have honce : Shows contents (syncAll host { base := base' } [(last.1, v)]) last.1 last.1 :=
      shows_new hsteady base' hv
    exact hshows.complete_eq hsteady honce (found_congr hsteady hpath hsame) line place hw hw'

end Completer

def Host.shelf (contents : Path → Option (List Entry)) : Host Unit :=
  { Host.void with list := fun p w => (contents p, w) }

def twoBins (p : Path) : Option (List Entry) :=
  if p.agrees (.ofText "/a/bin".toList) then
    some [{ name := Utf8.encode "foo".toList, kind := .file, leadsToDirectory := false }]
  else if p.agrees (.ofText "/b/bin".toList) then
    some [{ name := Utf8.encode "fox".toList, kind := .file, leadsToDirectory := false }]
  else none

theorem steady_twoBins : (Host.shelf twoBins).Steady twoBins fun _ => True where
  answer _ _ _ := rfl
  stays _ _ _ := trivial
  same p q h := by
    have hsame (r : Path) : p.agrees r = q.agrees r := by
      apply Bool.eq_iff_iff.2
      exact ⟨Path.agrees_trans (Path.agrees_symm h), Path.agrees_trans h⟩
    rw [twoBins, twoBins, hsame, hsame]

def visitor (directory path : String) : Session where
  program := "hsh".toList
  pid := 1
  environment := .ofPairs [("PATH".toList, path.toList)]
  history := .inMemory 10
  directory := .ofText directory.toList

namespace Completer

theorem complete_syncAll_twoBins :
    let calls := [(visitor "/a" "bin", ()), (visitor "/b" "/b/bin", ())]
    let last := (visitor "/a/." "/b/bin", ())
    let offered :=
      ((syncAll (Host.shelf twoBins) { base := ⟨[]⟩ } (calls ++ [last])).complete
        (Host.shelf twoBins) "fo".toList 2 ()).1
    Anchored (searchPath last.1) ∧
      offered = ((syncAll (Host.shelf twoBins) { base := .ofText "/".toList }
        [(opening (calls.map (·.1)) last.1, ()), last]).complete
          (Host.shelf twoBins) "fo".toList 2 ()).1 ∧
      offered = ((syncAll (Host.shelf twoBins) { base := .ofText "/".toList } [last]).complete
        (Host.shelf twoBins) "fo".toList 2 ()).1 := by
  intro calls last offered
  have hanchored : Anchored (searchPath last.1) := by
    intro t ht
    obtain rfl : "/b/bin".toList = t := Option.some.inj ht
    decide
  have hboth := @complete_syncAll Unit (Host.shelf twoBins) twoBins (fun _ => True) steady_twoBins
    ⟨[]⟩ (.ofText "/".toList) calls last (fun _ _ => trivial) () () () () (fun _ _ => trivial)
    "fo".toList 2
  exact ⟨hanchored, hboth.1, hboth.2 (.inr hanchored)⟩

/-- A search path with a relative entry is not looked through again in another directory. -/
theorem commands_left_behind :
    (Host.shelf twoBins).Steady twoBins (fun _ => True) ∧
    ((syncAll (Host.shelf twoBins) { base := ⟨[]⟩ }
        [(visitor "/a" "bin", ()), (visitor "/b" "bin", ())]).complete
      (Host.shelf twoBins) "fo".toList 2 ()).1 =
        some (0, [{ display := "foo".toList, replacement := "foo ".toList }]) ∧
    ((syncAll (Host.shelf twoBins) { base := ⟨[]⟩ } [(visitor "/b" "bin", ())]).complete
      (Host.shelf twoBins) "fo".toList 2 ()).1 =
        some (0, [{ display := "fox".toList, replacement := "fox ".toList }]) :=
  ⟨steady_twoBins, by decide, by decide⟩

end Completer

end LineShell
