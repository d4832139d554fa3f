import LineShell.FileTree.World
import LineShell.Proofs.Completion.Extension
import LineShell.Proofs.Completion.Freshness
import LineShell.Proofs.Completion.Order
import LineShell.Proofs.Text.Decoding
import Mathlib.Data.List.Nodup

/-! The candidates are all that there are to offer and no others. Among the files they are the
entries of one directory whose names go on from what was typed; among the commands, the names that
were found when the search path was looked through, and then the aliases. -/

namespace LineShell

variable {σ : Type}

/-- What a system warrants of a directory: its entries have different names, and a slash is in none
of them. -/
structure Orderly (entries : List Entry) : Prop where
  distinct : (entries.map Entry.name).Nodup
  whole : ∀ e ∈ entries, Path.slash ∉ e.name

namespace FileTree

variable {t : FileTree} {p : Path} {k l : Location} {name : Bytes} {entries : List Entry}

theorem child_iff :
    (if k.dropLast = l then k.getLast? else none) = some name ↔ k = l ++ [name] := by
  constructor
  · intro h
    split at h
    · next hfront => rw [← hfront, List.dropLast_append_getLast? name h]
    · cases h
  · rintro rfl
    rw [List.dropLast_concat, List.getLast?_concat, if_pos rfl]

theorem childNames_eq (t : FileTree) (l : Location) : t.childNames l =
    (t.nodes.map (·.1)).filterMap fun k => if k.dropLast = l then k.getLast? else none := by
  rw [childNames, List.filterMap_map]
  refine List.filterMap_congr fun e _ => ?_
  rw [Function.comp_apply]
  rcases e.1.getLast? with _ | name
  · exact (ite_self none).symm
  · rfl

theorem nodup_childNames (hplaces : (t.nodes.map (·.1)).Nodup) (l : Location) :
    (t.childNames l).Nodup := by
  rw [childNames_eq]
  refine hplaces.filterMap fun k k' name hk hk' => ?_
  rw [child_iff.1 hk, child_iff.1 hk']

theorem orderly_list (hplaces : (t.nodes.map (·.1)).Nodup)
    (hwhole : ∀ e ∈ t.nodes, ∀ step ∈ e.1, Path.slash ∉ step) (h : t.list p = some entries) :
    Orderly entries := by
  obtain ⟨l, rfl⟩ : ∃ l, entries = (t.childNames l).filterMap (t.listed? p l) := by
    unfold list at h
    split at h
    · next l _ => exact ⟨l, (Option.some.inj h).symm⟩
    · cases h
  have hname {name : Bytes} {e : Entry} (he : t.listed? p l name = some e) : e.name = name := by
    obtain ⟨node, -, rfl⟩ := Option.map_eq_some_iff.1 he
    rfl
  constructor
  · apply List.pairwise_map.2
    apply List.pairwise_filterMap.2
    apply (nodup_childNames hplaces l).imp
    intro m n hne d hd e he
    rwa [hname hd, hname he]
  · intro e he
    obtain ⟨name, hchild, hlisted⟩ := List.mem_filterMap.1 he
    rw [childNames_eq, List.mem_filterMap] at hchild
    obtain ⟨k, hk, hlast⟩ := hchild
    obtain ⟨node, hnode, rfl⟩ := List.mem_map.1 hk
    rw [hname hlisted]
    apply hwhole node hnode
    rw [child_iff.1 hlast]
    exact List.mem_concat_self

end FileTree

/-- One of the directories has the entry, when they are listed one after another. Those that cannot
be read have none. -/
inductive Host.Reveals (host : Host σ) : List Path → σ → Entry → Prop
  | here {p : Path} {later : List Path} {w : σ} {entries : List Entry} {e : Entry}
      (hlist : (host.list p w).1 = some entries) (he : e ∈ entries) :
      Reveals host (p :: later) w e
  | later {p : Path} {later : List Path} {w : σ} {e : Entry}
      (hlater : Reveals host later (host.list p w).2 e) : Reveals host (p :: later) w e

theorem Host.not_reveals_nil {host : Host σ} {w : σ} {e : Entry} : ¬ host.Reveals [] w e := by
  rintro ⟨⟩

theorem Host.reveals_cons {host : Host σ} {p : Path} {later : List Path} {w : σ} {e : Entry} :
    host.Reveals (p :: later) w e ↔
      e ∈ (host.list p w).1.getD [] ∨ host.Reveals later (host.list p w).2 e := by
  constructor
  · rintro (⟨hlist, he⟩ | hlater)
    · exact .inl (by rwa [hlist])
    · exact .inr hlater
  · rintro (he | hlater)
    · rcases hlist : (host.list p w).1 with _ | entries <;> rw [hlist] at he
      · exact absurd he List.not_mem_nil
      · exact .here hlist he
    · exact .later hlater

namespace Candidate

structure CutsAtSlash (word directory typed : Text) : Prop where
  whole : directory ++ typed = word
  typed : '/' ∉ typed
  directory : directory = [] ∨ directory.getLast? = some '/'

section

variable {word directory typed name : Text} {d e : Entry} {j k : Candidate} {entries : List Entry}

theorem cutAtSlash_of_notMem (h : '/' ∉ typed) : cutAtSlash typed = ([], typed) := by
  induction typed with
  | nil => rfl
  | cons c r ih =>
    rw [List.mem_cons, not_or] at h
    rw [cutAtSlash, ih h.2]
    exact if_pos (by simpa using Ne.symm h.1)

theorem CutsAtSlash.cutAtSlash_eq (h : CutsAtSlash word directory typed) :
    cutAtSlash word = (directory, typed) := by
  obtain ⟨rfl, htyped, hdirectory⟩ := h
  induction directory with
  | nil => exact cutAtSlash_of_notMem htyped
  | cons c r ih =>
    rw [List.cons_append, cutAtSlash]
    cases r with
    | nil =>
      obtain rfl : c = '/' := by simpa using hdirectory
      rw [List.nil_append, cutAtSlash_of_notMem htyped]
      rfl
    | cons b r =>
      rw [ih (.inr (by simpa using hdirectory))]
      rfl

theorem cutsAtSlash_cutAtSlash (word : Text) :
    CutsAtSlash word (cutAtSlash word).1 (cutAtSlash word).2 := by
  suffices h : '/' ∉ (cutAtSlash word).2 ∧
      ((cutAtSlash word).1 = [] ∨ (cutAtSlash word).1.getLast? = some '/') from
    ⟨cutAtSlash_append word, h.1, h.2⟩
  induction word with
  | nil => exact ⟨List.not_mem_nil, .inl rfl⟩
  | cons c r ih =>
    rw [cutAtSlash]
    rcases hcut : cutAtSlash r with ⟨directory, typed⟩
    rw [hcut] at ih
    obtain ⟨htyped, hdirectory⟩ := ih
    dsimp only at htyped hdirectory ⊢
    by_cases hlater : (directory.isEmpty && c != '/') = true
    · rw [if_pos hlater]
      have hc : '/' ≠ c := by simpa using Ne.symm (bne_iff_ne.1 (Bool.and_eq_true_iff.1 hlater).2)
      exact ⟨List.not_mem_cons_of_ne_of_not_mem hc htyped, .inl rfl⟩
    · rw [if_neg hlater]
      refine ⟨htyped, .inr ?_⟩
      rcases hdirectory with rfl | hlast
      · simpa using hlater
      · rw [List.getLast?_cons, hlast, Option.getD_some]

/-- The entry is offered under this name: it goes on from what was typed, and if nothing was typed
it is not hidden. -/
structure Fits (typed : Text) (e : Entry) (name : Text) : Prop where
  encoded : e.name = Utf8.encode name
  goesOn : typed <+: name
  shown : typed = [] → name.head? ≠ some '.'

inductive Offers (directory typed : Text) (e : Entry) : Candidate → Prop
  | directory {name : Text} (hfits : Fits typed e name) (hleads : e.leadsToDirectory = true) :
      Offers directory typed e
        { display := name ++ ['/'], replacement := directory ++ name ++ ['/'] }
  | other {name : Text} (hfits : Fits typed e name) (hleads : e.leadsToDirectory = false) :
      Offers directory typed e { display := name, replacement := directory ++ name ++ [' '] }

theorem fits_iff : Fits typed e name ↔ Utf8.decode? e.name = some name ∧
    ¬ (!typed.isPrefixOf name || (typed.isEmpty && name.head? == some '.')) = true := by
  have hshown : (¬ (!typed.isPrefixOf name || (typed.isEmpty && name.head? == some '.')) = true) ↔
      typed <+: name ∧ (typed = [] → name.head? ≠ some '.') := by
    simp only [Bool.or_eq_true, Bool.not_eq_true', Bool.and_eq_true, List.isEmpty_iff, beq_iff_eq,
      not_or, Bool.not_eq_false, List.isPrefixOf_iff_prefix, not_and, ne_eq]
  rw [Utf8.decode?_eq_some_iff, hshown]
  exact ⟨fun h => ⟨h.encoded, h.goesOn, h.shown⟩, fun h => ⟨h.1, h.2.1, h.2.2⟩⟩

theorem ofListed?_eq_some_iff :
    ofListed? directory typed e = some k ↔ Offers directory typed e k := by
  constructor
  · intro h
    unfold ofListed? at h
    split at h
    · cases h
    · next name hname =>
      split at h
      · cases h
      · next hshown =>
        have hfits : Fits typed e name := fits_iff.2 ⟨hname, hshown⟩
        split at h <;> obtain rfl := Option.some.inj h
        · next hleads => exact .directory hfits hleads
        · next hleads => exact .other hfits (eq_false_of_ne_true hleads)
  · rintro (⟨hfits, hleads⟩ | ⟨hfits, hleads⟩)
    · obtain ⟨hname, hshown⟩ := fits_iff.1 hfits
      simp only [ofListed?, hname, if_neg hshown, hleads, if_true]
    · obtain ⟨hname, hshown⟩ := fits_iff.1 hfits
      simp only [ofListed?, hname, if_neg hshown, hleads, Bool.false_eq_true, if_false]

theorem Fits.slash_notMem (h : Fits typed e name) (he : Path.slash ∉ e.name) : '/' ∉ name := by
  intro hslash
  apply he
  rw [h.encoded, Utf8.encode, List.mem_flatMap]
  exact ⟨'/', hslash, List.mem_singleton_self _⟩

theorem Offers.name_eq (hj : Offers directory typed d j) (hk : Offers directory typed e k)
    (hd : Path.slash ∉ d.name) (he : Path.slash ∉ e.name) (h : j.display = k.display) :
    d.name = e.name := by
  have hmarked {n m : Text} (hn : '/' ∉ n) : n ≠ m ++ ['/'] := by
    rintro rfl
    exact hn (List.mem_append_right m List.mem_cons_self)
  rcases hj with ⟨hfits, -⟩ | ⟨hfits, -⟩ <;> rcases hk with ⟨hfits', -⟩ | ⟨hfits', -⟩
  · rw [hfits.encoded, hfits'.encoded, List.append_cancel_right h]
  · exact absurd h.symm (hmarked (hfits'.slash_notMem he))
  · exact absurd h (hmarked (hfits.slash_notMem hd))
  · rw [hfits.encoded, hfits'.encoded]
    exact congrArg Utf8.encode h

theorem Offers.unique (hj : Offers directory typed e j) (hk : Offers directory typed e k) :
    j = k := by
  rw [← ofListed?_eq_some_iff] at hj hk
  exact Option.some.inj (hj.symm.trans hk)

/-- Candidates are exact for the entries of a directory: each entry that fits has one, each
candidate stands for one entry, and all look different and are in the order of their looks. -/
structure Exact (directory typed : Text) (entries : List Entry) (ks : List Candidate) : Prop where
  found : ∀ e ∈ entries, ∀ name, Fits typed e name → ∃! k, k ∈ ks ∧ Offers directory typed e k
  sound : ∀ k ∈ ks, ∃! e, e ∈ entries ∧ Offers directory typed e k
  ordered : ks.Pairwise fun j k => j.display < k.display

theorem Fits.exists_offers (h : Fits typed e name) (directory : Text) :
    ∃ k, Offers directory typed e k := by
  cases hleads : e.leadsToDirectory
  · exact ⟨_, .other h hleads⟩
  · exact ⟨_, .directory h hleads⟩

theorem exact_sorted (directory typed : Text) (h : Orderly entries) :
    Exact directory typed entries (sorted (entries.filterMap (ofListed? directory typed))) := by
  have hmem {k : Candidate} : k ∈ sorted (entries.filterMap (ofListed? directory typed)) ↔
      ∃ e ∈ entries, Offers directory typed e k := by
    simp only [mem_sorted, List.mem_filterMap, ofListed?_eq_some_iff]
  refine ⟨fun e he name hfits => ?_, fun k hk => ?_, ?_⟩
  · obtain ⟨k, hk⟩ := hfits.exists_offers directory
    exact ⟨k, ⟨hmem.2 ⟨e, he, hk⟩, hk⟩, fun j hj => hj.2.unique hk⟩
  · obtain ⟨e, he, hoffers⟩ := hmem.1 hk
    refine ⟨e, ⟨he, hoffers⟩, fun d hd => ?_⟩
    have hname := hd.2.name_eq hoffers (h.whole d hd.1) (h.whole e he) rfl
    exact List.inj_on_of_nodup_map h.distinct hd.1 he hname
  · apply pairwise_sorted
    apply List.pairwise_filterMap.2
    apply (List.pairwise_map.1 h.distinct).imp_of_mem
    intro d e hd he hne j hj k hk hlooks
    apply hne
    rw [ofListed?_eq_some_iff] at hj hk
    exact hj.name_eq hk (h.whole d hd) (h.whole e he) hlooks

theorem exact_ofPath (host : Host σ) (base : Path) (w : σ)
    (hcut : CutsAtSlash word directory typed) :
    let listed :=
      (host.list (if directory = [] then base else base.join (.ofText directory)) w).1
    let ks := (ofPath host base word w).1
    (listed = none → ks = []) ∧
      ∀ entries, listed = some entries → Orderly entries → Exact directory typed entries ks := by
  intro listed ks
  have hks : ks = match listed with
      | none => []
      | some entries => sorted (entries.filterMap (ofListed? directory typed)) := by
    simp only [ks, listed, ofPath, hcut.cutAtSlash_eq, List.isEmpty_iff]
    rcases host.list _ w with ⟨_ | entries, w'⟩ <;> rfl
  rw [hks]
  refine ⟨fun hnone => ?_, fun entries hsome horderly => ?_⟩
  · rw [hnone]
  · rw [hsome]
    exact exact_sorted directory typed horderly

end

end Candidate

structure Enumerates (ts : List Text) (holds : Text → Prop) : Prop where
  ordered : ts.Pairwise (· < ·)
  mem_iff : ∀ t, t ∈ ts ↔ holds t

theorem enumerates_sortedSet (ts : List Text) : Enumerates (sortedSet ts) (· ∈ ts) :=
  ⟨pairwise_sortedSet ts, fun _ => mem_sortedSet⟩

theorem Enumerates.filter_isPrefixOf {ts : List Text} {holds : Text → Prop}
    (h : Enumerates ts holds) (typed : Text) :
    Enumerates (ts.filter typed.isPrefixOf) fun t => typed <+: t ∧ holds t where
  ordered := h.ordered.filter _
  mem_iff t := by rw [List.mem_filter, h.mem_iff, List.isPrefixOf_iff_prefix, and_comm]

theorem Builtin.mem_names {name : Text} :
    name ∈ Builtin.all.map Builtin.name ↔ ∃ b : Builtin, b.name = name := by
  simp only [List.mem_map, Builtin.mem_all, true_and]

namespace Completer

def NamesCommand (e : Entry) (name : Text) : Prop :=
  (e.kind = .file ∨ e.kind = .link) ∧ e.name = Utf8.encode name

theorem commandName?_eq_some_iff {e : Entry} {name : Text} :
    commandName? e = some name ↔ NamesCommand e name := by
  rcases hkind : e.kind <;> simp [commandName?, NamesCommand, hkind, Utf8.decode?_eq_some_iff]

theorem mem_scan {host : Host σ} {ps : List Path} {w : σ} {name : Text} :
    name ∈ (scan host ps w).1 ↔ ∃ e, host.Reveals ps w e ∧ NamesCommand e name := by
  induction ps generalizing w with
  | nil => simp [scan, Host.not_reveals_nil]
  | cons p later ih =>
    simp only [scan, List.mem_append, List.mem_filterMap, commandName?_eq_some_iff, ih,
      Host.reveals_cons, or_and_right, exists_or]

def Findable (host : Host σ) (place : Path) (path : Option Text) (w : σ) (name : Text) : Prop :=
  (∃ b : Builtin, b.name = name) ∨
    ∃ e, host.Reveals (places place path) w e ∧ NamesCommand e name

theorem enumerates_refresh (host : Host σ) {c : Completer} (place : Path) {path : Option Text}
    (w : σ) (hanew : ¬ (c.scanned = path ∧ c.commands ≠ [])) :
    Enumerates (c.refresh host place path w).1.commands (Findable host place path w) := by
  rw [refresh, if_neg hanew]
  refine ⟨pairwise_sortedSet _, fun name => ?_⟩
  rw [mem_sortedSet, List.mem_append, Builtin.mem_names, mem_scan, Findable]

/-- What is offered for a word is exact. Of files there is one candidate for each entry that fits,
among those of the directory that the word leads to. Of commands there are, after the search path
has been looked through, the names that were found, and then the aliases. -/
theorem candidates_exact (host : Host σ) :
    (∀ (base : Path) (word : Text) (w : σ),
      (∃ directory typed, Candidate.CutsAtSlash word directory typed) ∧
      ∀ directory typed, Candidate.CutsAtSlash word directory typed →
        let listed :=
          (host.list (if directory = [] then base else base.join (.ofText directory)) w).1
        let ks := (Candidate.ofPath host base word w).1
        (listed = none → ks = []) ∧
          ∀ entries, listed = some entries → Orderly entries →
            Candidate.Exact directory typed entries ks) ∧
    ∀ (c : Completer) (place : Path) (path : Option Text) (w : σ),
      ¬ (c.scanned = path ∧ c.commands ≠ []) →
      ∀ (aliases : Table) (typed : Text), ∃ commands others : List Text,
        Enumerates commands (fun name => typed <+: name ∧ Findable host place path w name) ∧
        Enumerates others (fun name => typed <+: name ∧ name ∈ aliases.names) ∧
        ((c.refresh host place path w).1.updateAliases aliases).ofCommand typed =
          commands.map (fun name => { display := name, replacement := name ++ [' '] }) ++
            others.map fun name =>
              { display := name ++ " (alias)".toList, replacement := name ++ [' '] } := by
  refine ⟨fun base word w => ⟨?_, fun directory typed hcut => ?_⟩,
    fun c place path w hanew aliases typed => ?_⟩
  · exact ⟨_, _, Candidate.cutsAtSlash_cutAtSlash word⟩
  · exact Candidate.exact_ofPath host base w hcut
  · have hcommands := (enumerates_refresh host place w hanew).filter_isPrefixOf typed
    have hothers := (enumerates_sortedSet aliases.names).filter_isPrefixOf typed
    exact ⟨_, _, hcommands, hothers, rfl⟩

end Completer

def motley : List Entry :=
  let file (name : String) : Entry :=
    { name := Utf8.encode name.toList, kind := .file, leadsToDirectory := false }
  [{ file "a" with kind := .directory, leadsToDirectory := true }, file "a!", file ".a",
    { file "l" with kind := .link, leadsToDirectory := true }, { file "" with name := [0xFF] }]

def crowd (p : Path) : Option (List Entry) :=
  let file (name : String) : Entry :=
    { name := Utf8.encode name.toList, kind := .file, leadsToDirectory := false }
  if p.agrees (.ofText "/x".toList) then some motley
  else if p.agrees (.ofText "/bin".toList) then
    some [file "ls", { file "lib" with kind := .directory, leadsToDirectory := true },
      { file "lp" with kind := .other }]
  else if p.agrees (.ofText "/usr/bin".toList) then
    some [{ file "ln" with kind := .link }, file "ls"]
  else none

theorem orderly_motley : Orderly motley := ⟨by decide, by decide⟩

namespace Completer

theorem candidates_exact_crowd :
    let host := Host.shelf crowd
    let ks := (Candidate.ofPath host (.ofText "/".toList) "x/".toList ()).1
    let path := some "bin:/none:/usr/bin".toList
    let c : Completer := { base := ⟨[]⟩ }
    let offered := ((c.refresh host (.ofText "/".toList) path ()).1.updateAliases
      (.ofPairs [("ls".toList, "ls -l".toList), ("l".toList, "ls".toList)])).ofCommand "l".toList
    Candidate.Exact "x/".toList [] motley ks ∧
    ks.map (·.replacement) = ["x/a! ".toList, "x/a/".toList, "x/l/".toList] ∧
    (∃ commands others : List Text,
      Enumerates commands (fun name => "l".toList <+: name ∧
        Findable host (.ofText "/".toList) path () name) ∧
      Enumerates others (fun name => "l".toList <+: name ∧ name ∈ ["ls".toList, "l".toList]) ∧
      offered = commands.map (fun name => { display := name, replacement := name ++ [' '] }) ++
        others.map fun name =>
          { display := name ++ " (alias)".toList, replacement := name ++ [' '] }) ∧
    offered.map (·.display) =
      ["ln".toList, "ls".toList, "l (alias)".toList, "ls (alias)".toList] := by
  intro host ks path c offered
  have hcut : Candidate.CutsAtSlash "x/".toList "x/".toList [] := ⟨rfl, by decide, by decide⟩
  have hfiles := (candidates_exact host).1 (.ofText "/".toList) "x/".toList ()
  have hcommands := (candidates_exact host).2 c (.ofText "/".toList) path () (by decide)
    (.ofPairs [("ls".toList, "ls -l".toList), ("l".toList, "ls".toList)]) "l".toList
  have hks : ks.map (·.replacement) = ["x/a! ".toList, "x/a/".toList, "x/l/".toList] := by
    have hlisted : motley.filterMap (Candidate.ofListed? "x/".toList []) =
        [⟨"a/".toList, "x/a/".toList⟩, ⟨"a!".toList, "x/a! ".toList⟩,
          ⟨"l/".toList, "x/l/".toList⟩] := by decide
    have hsorted : ks = Candidate.sorted (motley.filterMap (Candidate.ofListed? "x/".toList [])) :=
      rfl
    rw [hsorted, hlisted]
    simp +decide [Candidate.sorted, List.mergeSort, List.MergeSort.Internal.splitInTwo]
  refine ⟨(hfiles.2 _ _ hcut).2 motley (by decide) orderly_motley, ?_, hcommands, ?_⟩
  · exact hks
  · decide

end Completer

end LineShell
