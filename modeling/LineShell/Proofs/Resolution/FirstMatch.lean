import LineShell.FileTree.World
import LineShell.Proofs.Execution.Command
import LineShell.Proofs.Execution.Sequence
import LineShell.Proofs.Text.Lines

/-! Where the name of a command leads as long as the files stay as they are. A search goes through
the entries of the search path from the left and takes the first that has the program, so two search
paths in a row are searched one after the other. -/

namespace LineShell

variable {σ : Type}

/-- In these states of the world a path leads where it always does: to a program that may be
executed, to something else, or to nothing. -/
structure Host.Mapped (host : Host σ) (executable present : Path → Bool) (settled : σ → Prop) :
    Prop where
  isExecutable : ∀ p w, settled w →
    (host.isExecutable p w).1 = executable p ∧ settled (host.isExecutable p w).2
  isPresent : ∀ p w, settled w →
    (host.isPresent p w).1 = present p ∧ settled (host.isPresent p w).2

theorem FileTree.mapped_host (t : FileTree) :
    FileTree.host.Mapped t.isExecutable (fun p => (t.target? p).isSome) fun u => u = t where
  isExecutable := by
    rintro p _ rfl
    exact ⟨rfl, rfl⟩
  isPresent := by
    rintro p _ rfl
    exact ⟨rfl, rfl⟩

def Host.cupboard (programs others : List Path) : Host Unit :=
  { Host.void with
    isExecutable := fun p w => (decide (p ∈ programs), w)
    isPresent := fun p w => (decide (p ∈ programs ++ others), w) }

theorem Host.mapped_cupboard (programs others : List Path) :
    (cupboard programs others).Mapped (fun p => decide (p ∈ programs))
      (fun p => decide (p ∈ programs ++ others)) fun _ => True where
  isExecutable _ _ _ := ⟨rfl, trivial⟩
  isPresent _ _ _ := ⟨rfl, trivial⟩

namespace Builtin

theorem slash_notMem_name (b : Builtin) : '/' ∉ b.name := by
  cases b <;> decide

end Builtin

namespace Resolution

structure Lists (searchPath : Text) (entries : List Text) : Prop where
  nonempty : entries ≠ []
  whole : ∀ e ∈ entries, ':' ∉ e
  joined : [':'].intercalate entries = searchPath

theorem lists_iff {searchPath : Text} {entries : List Text} :
    Lists searchPath entries ↔ entries = List.splitOn ':' searchPath := by
  constructor
  · rintro ⟨hne, hwhole, rfl⟩
    exact (List.splitOn_intercalate ':' hwhole hne).symm
  · rintro rfl
    exact ⟨List.splitOn_ne_nil _ _, fun e he => Text.notMem_of_mem_splitOn he,
      List.intercalate_splitOn ':'⟩

def fileIn (directory : Path) (name entry : Text) : Path :=
  if entry = [] then directory.join (.ofText name)
  else (directory.join (.ofText entry)).join (.ofText name)

theorem candidate_eq_fileIn (directory : Path) (name entry : Text) :
    candidate directory name entry = fileIn directory name entry := by
  cases entry <;> rfl

def FirstMatch (executable : Path → Bool) (file : Text → Path) (entries : List Text) (p : Path) :
    Prop :=
  ∃ earlier entry later, entries = earlier ++ entry :: later ∧ file entry = p ∧
    executable p = true ∧ ∀ e ∈ earlier, executable (file e) = false

structure Searched (name : Text) : Prop where
  notBuiltin : ∀ b : Builtin, b.name ≠ name
  slashFree : '/' ∉ name

variable {host : Host σ} {executable present : Path → Bool} {settled : σ → Prop}
  {environment : Environment} {directory p : Path} {name : Text} {w : σ}

theorem resolve_slash (h : '/' ∈ name) (environment : Environment) (directory : Path) (w : σ) :
    resolve host environment directory name w = ofPath host directory name w := by
  have hnone : Builtin.named? name = none := by
    refine Builtin.named?_eq_none_iff.2 fun b hb => ?_
    exact b.slash_notMem_name (hb ▸ h)
  rw [resolve, hnone]
  exact if_pos (List.contains_iff_mem.2 h)

theorem Searched.resolve_eq (h : Searched name) (environment : Environment) (directory : Path)
    (w : σ) : resolve host environment directory name w =
      search host directory (environment.lookup "PATH".toList) name w := by
  rw [resolve, Builtin.named?_eq_none_iff.2 h.notBuiltin]
  exact if_neg (mt List.contains_iff_mem.1 h.slashFree)

theorem name_cases (name : Text) :
    (∃ b : Builtin, b.name = name) ∨ '/' ∈ name ∨ Searched name := by
  by_cases hbuiltin : ∃ b : Builtin, b.name = name
  · exact .inl hbuiltin
  · by_cases hslash : '/' ∈ name
    · exact .inr (.inl hslash)
    · exact .inr (.inr ⟨not_exists.1 hbuiltin, hslash⟩)

theorem ofPath_mapped (hmapped : host.Mapped executable present settled) (hw : settled w) :
    (ofPath host directory name w).1 =
      if executable (directory.join (.ofText name)) then external (directory.join (.ofText name))
      else if present (directory.join (.ofText name)) then
        notExecutable (directory.join (.ofText name))
      else notFound := by
  obtain ⟨hexecutable, hw₁⟩ := hmapped.isExecutable (directory.join (.ofText name)) w hw
  simp only [ofPath]
  split <;> rename_i w₁ h <;> rw [h] at hexecutable hw₁ <;> rw [← hexecutable]
  · rfl
  · obtain ⟨hpresent, -⟩ := hmapped.isPresent (directory.join (.ofText name)) w₁ hw₁
    split <;> rename_i h' <;> rw [h'] at hpresent <;> rw [← hpresent] <;> rfl

def ofFirst (found : Option Path) : Resolution := found.elim notFound external

theorem firstExecutable_mapped (hmapped : host.Mapped executable present settled)
    (candidates : List Path) (hw : settled w) :
    (firstExecutable host candidates w).1 = ofFirst (candidates.find? executable) := by
  induction candidates generalizing w with
  | nil => rfl
  | cons p later ih =>
    obtain ⟨hexecutable, hw₁⟩ := hmapped.isExecutable p w hw
    unfold firstExecutable
    split <;> rename_i h <;> rw [h] at hexecutable hw₁
    · rw [List.find?_cons_of_pos hexecutable.symm]
      rfl
    · rw [List.find?_cons_of_neg (by simp [← hexecutable]), ih hw₁]

def firstAlong (executable : Path → Bool) (directory : Path) (name searchPath : Text) :
    Option Path :=
  ((List.splitOn ':' searchPath).find? fun e => executable (fileIn directory name e)).map
    (fileIn directory name)

theorem search_mapped (hmapped : host.Mapped executable present settled) (hname : name ≠ [])
    (searchPath : Text) (hw : settled w) :
    (search host directory (some searchPath) name w).1 =
      ofFirst (firstAlong executable directory name searchPath) := by
  have hcandidates : candidate directory name = fileIn directory name :=
    funext (candidate_eq_fileIn directory name)
  rw [search, if_neg (mt List.isEmpty_iff.1 hname), firstExecutable_mapped hmapped _ hw,
    hcandidates, List.find?_map]
  rfl

theorem firstAlong_eq_some_iff {searchPath : Text} :
    firstAlong executable directory name searchPath = some p ↔
      FirstMatch executable (fileIn directory name) (List.splitOn ':' searchPath) p := by
  simp only [firstAlong, Option.map_eq_some_iff, List.find?_eq_some_iff_append, FirstMatch]
  constructor
  · rintro ⟨entry, ⟨hexecutable, earlier, later, hentries, hearlier⟩, rfl⟩
    exact ⟨earlier, entry, later, hentries, rfl, hexecutable, fun e he => by
      simpa using hearlier e he⟩
  · rintro ⟨earlier, entry, later, hentries, rfl, hexecutable, hearlier⟩
    exact ⟨entry, ⟨hexecutable, earlier, later, hentries, fun e he => by simp [hearlier e he]⟩, rfl⟩

theorem firstAlong_append (first later : Text) :
    firstAlong executable directory name (first ++ ':' :: later) =
      (firstAlong executable directory name first).or
        (firstAlong executable directory name later) := by
  rw [firstAlong, List.splitOn_append_cons_self, List.find?_append, Option.map_or]
  rfl

theorem ofFirst_eq_external {found : Option Path} :
    ofFirst found = external p ↔ found = some p := by
  cases found <;> simp [ofFirst]

def orElse (r later : Resolution) : Resolution :=
  match r with
  | external p => external p
  | _ => later

theorem orElse_self (r : Resolution) : r.orElse r = r := by
  cases r <;> rfl

theorem ofFirst_or (found later : Option Path) :
    ofFirst (found.or later) = (ofFirst found).orElse (ofFirst later) := by
  cases found <;> rfl

theorem Searched.resolve_some (h : Searched name)
    (hmapped : host.Mapped executable present settled) (hname : name ≠ []) {searchPath : Text}
    (hpath : environment.lookup "PATH".toList = some searchPath) (hw : settled w) :
    (resolve host environment directory name w).1 =
      ofFirst (firstAlong executable directory name searchPath) := by
  rw [h.resolve_eq, hpath, search_mapped hmapped hname searchPath hw]

theorem Searched.resolve_none (h : Searched name)
    (hnone : environment.lookup "PATH".toList = none ∨ name = []) (w : σ) :
    (resolve host environment directory name w).1 = notFound := by
  rw [h.resolve_eq]
  rcases hnone with hpath | rfl
  · rw [hpath]
    rfl
  · unfold search
    split <;> rfl

theorem resolve_append (hmapped : host.Mapped executable present settled) (directory : Path)
    (name : Text) {first later : Text} {e e₁ e₂ : Environment}
    (hboth : e.lookup "PATH".toList = some (first ++ ':' :: later))
    (hfirst : e₁.lookup "PATH".toList = some first)
    (hlater : e₂.lookup "PATH".toList = some later)
    {w₁ w₂ : σ} (hw : settled w) (hw₁ : settled w₁) (hw₂ : settled w₂) :
    (resolve host e directory name w).1 =
      (resolve host e₁ directory name w₁).1.orElse (resolve host e₂ directory name w₂).1 := by
  rcases name_cases name with ⟨b, rfl⟩ | hslash | hsearched
  · simp only [resolve_name, orElse_self]
  · simp only [resolve_slash hslash, ofPath_mapped hmapped hw, ofPath_mapped hmapped hw₁,
      ofPath_mapped hmapped hw₂, orElse_self]
  · by_cases hname : name = []
    · simp only [hsearched.resolve_none (.inr hname), orElse_self]
    · rw [hsearched.resolve_some hmapped hname hboth hw,
        hsearched.resolve_some hmapped hname hfirst hw₁,
        hsearched.resolve_some hmapped hname hlater hw₂, firstAlong_append, ofFirst_or]

/-- As long as the files stay as they are, a builtin is found by its name, a path is followed from
the working directory, and any other name leads to the first program along the search path, if
there is one. So a search path is searched part by part; without any, nothing is found, but an empty
one is the working directory. -/
theorem resolve_mapped (hmapped : host.Mapped executable present settled) (directory : Path)
    (name : Text) :
    (∀ b : Builtin, b.name = name → ∀ environment w,
      (resolve host environment directory name w).1 = builtin b) ∧
    ('/' ∈ name → ∀ environment w, settled w →
      (resolve host environment directory name w).1 =
        if executable (directory.join (.ofText name)) then external (directory.join (.ofText name))
        else if present (directory.join (.ofText name)) then
          notExecutable (directory.join (.ofText name))
        else notFound) ∧
    (Searched name → name ≠ [] → ∀ (environment : Environment) searchPath,
      environment.lookup "PATH".toList = some searchPath →
      ∃ entries, Lists searchPath entries ∧ (∀ es, Lists searchPath es → es = entries) ∧
        ∀ w, settled w →
          (∀ p, (resolve host environment directory name w).1 = external p ↔
            FirstMatch executable (fileIn directory name) entries p) ∧
          ((∀ p, ¬ FirstMatch executable (fileIn directory name) entries p) →
            (resolve host environment directory name w).1 = notFound)) ∧
    (∀ (first later : Text) (e e₁ e₂ : Environment),
      e.lookup "PATH".toList = some (first ++ ':' :: later) →
      e₁.lookup "PATH".toList = some first → e₂.lookup "PATH".toList = some later →
      ∀ w w₁ w₂, settled w → settled w₁ → settled w₂ →
        (resolve host e directory name w).1 =
          (resolve host e₁ directory name w₁).1.orElse (resolve host e₂ directory name w₂).1) ∧
    (Searched name → ∀ environment : Environment,
      (environment.lookup "PATH".toList = none → ∀ w,
        (resolve host environment directory name w).1 = notFound) ∧
      (environment.lookup "PATH".toList = some [] → name ≠ [] → ∀ w, settled w →
        (resolve host environment directory name w).1 =
          if executable (directory.join (.ofText name)) then
            external (directory.join (.ofText name))
          else notFound)) := by
  refine ⟨?_, fun hslash e w hw => ?_, fun hsearched hname e searchPath hpath => ?_,
    fun first later e e₁ e₂ hboth hfirst hlater w w₁ w₂ hw hw₁ hw₂ => ?_,
    fun hsearched e => ⟨fun hpath w => ?_, fun hpath hname w hw => ?_⟩⟩
  · rintro b rfl e w
    rw [resolve_name]
  · rw [resolve_slash hslash, ofPath_mapped hmapped hw]
  · refine ⟨List.splitOn ':' searchPath, lists_iff.2 rfl, fun es hes => lists_iff.1 hes,
      fun w hw => ?_⟩
    rw [hsearched.resolve_some hmapped hname hpath hw]
    refine ⟨fun p => ofFirst_eq_external.trans firstAlong_eq_some_iff, fun hnone => ?_⟩
    have hfound : firstAlong executable directory name searchPath = none :=
      Option.eq_none_iff_forall_ne_some.2 fun p hp => hnone p (firstAlong_eq_some_iff.1 hp)
    rw [hfound, ofFirst, Option.elim_none]
  · exact resolve_append hmapped directory name hboth hfirst hlater hw hw₁ hw₂
  · exact hsearched.resolve_none (.inl hpath) w
  · rw [hsearched.resolve_some hmapped hname hpath hw, firstAlong, List.splitOn_nil,
      List.find?_singleton, fileIn, if_pos rfl]
    split <;> rfl

theorem resolve_mapped_shadowed :
    let tool : Path := .ofText "/w/tool".toList
    let shadow : Path := .ofText "/bin/tool".toList
    let host := Host.cupboard [tool, .ofText "/usr/bin/tool".toList] [shadow]
    let result (path name : String) : Resolution :=
      (resolve host (.ofPairs [("PATH".toList, path.toList)]) (.ofText "/w".toList)
        name.toList ()).1
    result "/bin::/usr/bin" "tool" = external tool ∧
      result "/bin::/usr/bin" "tool" = (result "/bin" "tool").orElse (result ":/usr/bin" "tool") ∧
      result "/usr/bin" "/bin/tool" = notExecutable shadow ∧
      (resolve host {} (.ofText "/w".toList) "tool".toList ()).1 = notFound := by
  intro tool shadow host result
  have hsearched : Searched "tool".toList := ⟨fun b => by cases b <;> decide, by decide⟩
  have hmapped := Host.mapped_cupboard [tool, .ofText "/usr/bin/tool".toList] [shadow]
  obtain ⟨-, -, hfirst, happend, hunset⟩ :=
    resolve_mapped hmapped (.ofText "/w".toList) "tool".toList
  obtain ⟨-, hslash, -⟩ := resolve_mapped hmapped (.ofText "/w".toList) "/bin/tool".toList
  obtain ⟨entries, -, hentries, hfound⟩ := hfirst hsearched (by decide)
    (.ofPairs [("PATH".toList, "/bin::/usr/bin".toList)]) "/bin::/usr/bin".toList rfl
  obtain rfl := hentries ["/bin".toList, [], "/usr/bin".toList] (lists_iff.2 (by decide))
  refine ⟨((hfound () trivial).1 tool).2 ?_, ?_, ?_, ?_⟩
  · exact ⟨["/bin".toList], [], ["/usr/bin".toList], rfl, by decide, by decide, by decide⟩
  · exact happend "/bin".toList ":/usr/bin".toList _ _ _ rfl rfl rfl () () () trivial trivial
      trivial
  · exact (hslash (by decide) _ () trivial).trans (by decide)
  · exact (hunset hsearched {}).1 rfl ()

end Resolution

end LineShell
