import LineShell.Completion.Completer
import LineShell.Proofs.Text.Encoding
import Mathlib.Data.List.Basic

/-! What completion puts in goes on from what was typed: the word it starts from is the one before
the cursor, and every candidate, of either kind, begins with that word as it stands. -/

namespace LineShell.Text

theorem cutAtOffset_append (a b : Text) :
    cutAtOffset (octetLength a) (a ++ b) = some (a, b) := by
  induction a with
  | nil =>
    show cutAtOffset 0 b = some ([], b)
    rw [cutAtOffset]
  | cons c a ih =>
    obtain ⟨n, hn⟩ : ∃ n, octetLength (c :: a) = n + 1 :=
      Nat.exists_eq_add_one.2 (Nat.add_pos_left c.utf8Size_pos _)
    have hsize : c.utf8Size + octetLength a = n + 1 := hn
    have hrest : n + 1 - c.utf8Size = octetLength a := by omega
    rw [hn, List.cons_append, cutAtOffset, if_pos (by omega), hrest, ih]
    rfl

theorem eq_of_cutAtOffset {n : Nat} {t a b : Text} (h : cutAtOffset n t = some (a, b)) :
    t = a ++ b ∧ octetLength a = n := by
  fun_induction cutAtOffset n t generalizing a with
  | case1 t =>
    obtain ⟨rfl, rfl⟩ := Prod.mk.inj (Option.some.inj h)
    exact ⟨rfl, rfl⟩
  | case2 n => exact nomatch h
  | case3 n c r hfits ih =>
    obtain ⟨⟨a', b'⟩, hcut, ha⟩ := Option.map_eq_some_iff.1 h
    obtain ⟨rfl, rfl⟩ := Prod.mk.inj ha
    obtain ⟨rfl, hlength⟩ := ih hcut
    refine ⟨rfl, ?_⟩
    show c.utf8Size + octetLength a' = n + 1
    omega
  | case4 n c r hfits => exact nomatch h

end LineShell.Text

namespace LineShell

open Text

namespace Completer

structure EndsInWord (t before word : Text) : Prop where
  whole : before ++ word = t
  word : ∀ c ∈ word, isBlank c = false
  before : ∀ c, before.getLast? = some c → isBlank c = true

theorem endsInWord_cutAtWord (t : Text) : EndsInWord t (cutAtWord t).1 (cutAtWord t).2 := by
  induction t with
  | nil => exact ⟨rfl, fun _ hc => absurd hc List.not_mem_nil, fun _ hc => nomatch hc⟩
  | cons c r ih =>
    rw [cutAtWord]
    rcases hcut : cutAtWord r with ⟨before, word⟩
    rw [hcut] at ih
    obtain ⟨hwhole, hword, hbefore⟩ := ih
    dsimp only at hwhole hword hbefore ⊢
    by_cases hlonger : (before.isEmpty && !isBlank c) = true
    · rw [if_pos hlonger]
      obtain ⟨hempty, hc⟩ := Bool.and_eq_true_iff.1 hlonger
      obtain rfl := List.isEmpty_iff.1 hempty
      refine ⟨by rw [← hwhole]; rfl, ?_, fun _ hd => nomatch hd⟩
      exact List.forall_mem_cons.2 ⟨Bool.not_eq_true' _ ▸ hc, hword⟩
    · rw [if_neg hlonger]
      refine ⟨by rw [← hwhole]; rfl, hword, fun d hd => ?_⟩
      cases before with
      | nil =>
        obtain rfl : c = d := Option.some.inj hd
        simpa using hlonger
      | cons e u => exact hbefore d (by rwa [List.getLast?_cons_cons] at hd)

theorem EndsInWord.getLast?_eq {t before word : Text} (h : EndsInWord t before word) :
    (t.filter isBlank).getLast? = before.getLast? := by
  have hnone : word.filter isBlank = [] := by
    rw [List.filter_eq_nil_iff]
    exact fun c hc => by simp [h.word c hc]
  rw [← h.whole, List.filter_append, hnone, List.append_nil]
  rcases List.eq_nil_or_concat' before with rfl | ⟨u, c, rfl⟩
  · rfl
  · have hc : isBlank c = true := h.before c List.getLast?_concat
    rw [List.filter_append, List.filter_cons_of_pos hc, List.filter_nil, List.getLast?_concat,
      List.getLast?_concat]

variable {line before word : Text} {place : Nat}

theorem of_wordAt? (h : wordAt? line place = some (before, word)) :
    ∃ rest, line = before ++ word ++ rest ∧ (Utf8.encode (before ++ word)).length = place ∧
      (∀ c ∈ word, isBlank c = false) ∧ ∀ c, before.getLast? = some c → isBlank c = true := by
  rcases hcut : cutAtOffset place line with _ | ⟨t, rest⟩ <;> rw [wordAt?, hcut] at h
  · exact nomatch h
  obtain ⟨hwhole, hword, hbefore⟩ := endsInWord_cutAtWord t
  obtain ⟨hline, hplace⟩ := eq_of_cutAtOffset hcut
  have hparts : cutAtWord t = (before, word) := by
    dsimp only at h
    split at h
    · split at h
      · exact Option.some.inj h
      · exact nomatch h
    · exact Option.some.inj h
  rw [hparts] at hwhole hword hbefore
  refine ⟨rest, by rw [hwhole, hline], ?_, hword, hbefore⟩
  rw [hwhole, Utf8.length_encode, hplace]

theorem isSome_wordAt?_iff : (wordAt? line place).isSome = true ↔
    ∃ typed rest, line = typed ++ rest ∧ (Utf8.encode typed).length = place ∧
      ∀ blank, (typed.filter isBlank).getLast? = some blank →
        (Utf8.encodeChar blank).length = 1 := by
  have hsome {t rest : Text} (hcut : cutAtOffset place line = some (t, rest)) :
      (wordAt? line place).isSome = true ↔ ∀ blank, (t.filter isBlank).getLast? = some blank →
        (Utf8.encodeChar blank).length = 1 := by
    rw [(endsInWord_cutAtWord t).getLast?_eq, wordAt?, hcut]
    dsimp only
    rcases hlast : (cutAtWord t).1.getLast? with _ | blank
    · simp
    · by_cases hsize : blank.utf8Size = 1 <;> simp [Utf8.length_encodeChar, hsize]
  constructor
  · intro h
    rcases hcut : cutAtOffset place line with _ | ⟨t, rest⟩
    · rw [wordAt?, hcut] at h
      exact nomatch h
    · obtain ⟨hline, hplace⟩ := eq_of_cutAtOffset hcut
      exact ⟨t, rest, hline, by rw [Utf8.length_encode, hplace], (hsome hcut).1 h⟩
  · rintro ⟨typed, rest, rfl, rfl, hblank⟩
    have hcut := cutAtOffset_append typed rest
    rw [← Utf8.length_encode] at hcut
    exact (hsome hcut).2 hblank

variable {σ : Type}

theorem prefix_replacement_ofCommand (c : Completer) {k : Candidate}
    (hk : k ∈ c.ofCommand word) : word <+: k.replacement := by
  rcases List.mem_append.1 hk with hk | hk <;>
    obtain ⟨name, hlisted, rfl⟩ := List.mem_map.1 hk
  all_goals
    have hname : word <+: name := List.isPrefixOf_iff_prefix.1 (List.mem_filter.1 hlisted).2
    exact hname.trans (List.prefix_append name [' '])

end Completer

namespace Candidate

theorem cutAtSlash_append (t : Text) : (cutAtSlash t).1 ++ (cutAtSlash t).2 = t := by
  induction t with
  | nil => rfl
  | cons c r ih =>
    rw [cutAtSlash]
    rcases hcut : cutAtSlash r with ⟨directory, rest⟩
    rw [hcut] at ih
    dsimp only at ih ⊢
    split
    · next hlater =>
      obtain rfl := List.isEmpty_iff.1 (Bool.and_eq_true_iff.1 hlater).1
      rw [← ih]
      rfl
    · rw [← ih]
      rfl

theorem prefix_replacement_ofListed? {directory typed : Text} {e : Entry} {k : Candidate}
    (hk : ofListed? directory typed e = some k) : directory ++ typed <+: k.replacement := by
  have hgoes {name : Text} (hname : typed <+: name) (last : Text) :
      directory ++ typed <+: directory ++ name ++ last := by
    rw [List.append_assoc, List.prefix_append_right_inj]
    exact hname.trans (List.prefix_append name last)
  unfold ofListed? at hk
  split at hk
  · exact nomatch hk
  · next name _ =>
    split at hk
    · exact nomatch hk
    · next hshown =>
      have hname : typed <+: name := by
        rw [Bool.or_eq_true, not_or] at hshown
        exact List.isPrefixOf_iff_prefix.1 (by simpa using hshown.1)
      split at hk <;> obtain rfl := Option.some.inj hk
      · exact hgoes hname ['/']
      · exact hgoes hname [' ']

theorem prefix_replacement_ofPath {σ : Type} (host : Host σ) (base : Path) (word : Text) (w : σ)
    {k : Candidate} (hk : k ∈ (ofPath host base word w).1) : word <+: k.replacement := by
  unfold ofPath at hk
  dsimp only at hk
  split at hk
  · exact absurd hk List.not_mem_nil
  · have hlisted := List.mem_mergeSort.1 hk
    obtain ⟨e, -, he⟩ := List.mem_filterMap.1 hlisted
    have hgoes := prefix_replacement_ofListed? he
    rwa [cutAtSlash_append] at hgoes

end Candidate

namespace Completer

variable {σ : Type}

theorem complete_of_wordAt? (host : Host σ) (c : Completer) (line : Text) (place : Nat) (w : σ) :
    (wordAt? line place = none ∧ (c.complete host line place w).1 = none) ∨
    ∃ before word ks, wordAt? line place = some (before, word) ∧
      (c.complete host line place w).1 = some (octetLength before, ks) ∧
      ∀ k ∈ ks, word <+: k.replacement := by
  unfold complete
  rcases hword : wordAt? line place with _ | ⟨before, word⟩
  · exact .inl ⟨rfl, rfl⟩
  · refine .inr ⟨before, word, ?_⟩
    dsimp only
    split
    · exact ⟨_, rfl, rfl, fun k hk => prefix_replacement_ofCommand c hk⟩
    · exact ⟨_, rfl, rfl, fun k hk => Candidate.prefix_replacement_ofPath host c.base word w hk⟩

/-- Completion fails only inside a character and beyond the end of a line, and where the last blank
before the cursor is longer than one octet. Otherwise it starts from the word before the cursor,
and what it puts in for that word begins with the word. -/
theorem complete_extends (host : Host σ) (c : Completer) (line : Text) (place : Nat) (w : σ) :
    ((c.complete host line place w).1.isSome = true ↔
      ∃ typed rest, line = typed ++ rest ∧ (Utf8.encode typed).length = place ∧
        ∀ blank, (typed.filter isBlank).getLast? = some blank →
          (Utf8.encodeChar blank).length = 1) ∧
    ∀ start ks, (c.complete host line place w).1 = some (start, ks) →
      start ≤ place ∧
      ∃ before word rest, line = before ++ word ++ rest ∧
        (Utf8.encode before).length = start ∧ (Utf8.encode (before ++ word)).length = place ∧
        (∀ ch ∈ word, isBlank ch = false) ∧
        (before = [] ∨ ∃ ch, before.getLast? = some ch ∧ isBlank ch = true) ∧
        ∀ k ∈ ks, before ++ word <+: before ++ k.replacement := by
  rw [← isSome_wordAt?_iff]
  rcases complete_of_wordAt? host c line place w with
    ⟨hnone, hfails⟩ | ⟨before, word, found, hword, hfinds, hgoes⟩
  · rw [hnone, hfails]
    exact ⟨Iff.rfl, fun _ _ h => nomatch h⟩
  · rw [hword, hfinds]
    refine ⟨Iff.rfl, fun start ks h => ?_⟩
    obtain ⟨rfl, rfl⟩ := Prod.mk.inj (Option.some.inj h)
    obtain ⟨rest, hline, hplace, hnotBlank, hbefore⟩ := of_wordAt? hword
    have hle : octetLength before ≤ place := by
      rw [← hplace, ← Utf8.length_encode, Utf8.encode, Utf8.encode, List.flatMap_append,
        List.length_append]
      exact Nat.le_add_right _ _
    refine ⟨hle, before, word, rest, hline, Utf8.length_encode before, hplace, hnotBlank, ?_, ?_⟩
    · rcases hlast : before.getLast? with _ | ch
      · exact .inl (List.getLast?_eq_none_iff.1 hlast)
      · exact .inr ⟨ch, rfl, hbefore ch hlast⟩
    · exact fun k hk => (List.prefix_append_right_inj before).2 (hgoes k hk)

-- the blank before the cursor takes three octets, and with it there is no completion
example : wordAt? ['a', '\u3000', 'b'] 5 = none := by decide

end Completer

end LineShell
