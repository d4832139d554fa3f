import LineShell.Environment
import LineShell.Proofs.Text.Replacement
import LineShell.Proofs.Text.Words
import Mathlib.Data.List.Infix

/-! The values put into a setting, against one pass from the left. In the pass a name is as long as
it can be and a value is not read again. Two replacements of the whole text, one after the other,
do the same where each reference ends with its name and the first value brings in nothing that the
second replacement finds. -/

namespace LineShell.Environment

open Text

def home : Text := "HOME".toList

def path : Text := "PATH".toList

def known : List Text := [home, path]

def value (e : Environment) (name : Text) : Text := (e.lookup name).getD []

/-- One pass from the left. A dollar sign before anything but a known name stands for itself. -/
def pass (e : Environment) : Text → Text
  | [] => []
  | c :: r =>
    if c = '$' ∧ known.contains (r.takeWhile isNameChar) then
      e.value (r.takeWhile isNameChar) ++ e.pass (r.dropWhile isNameChar)
    else c :: e.pass r
termination_by t => t.length
decreasing_by
  all_goals
    have hname : (r.dropWhile isNameChar).length ≤ r.length := (List.dropWhile_suffix _).length_le
    simp only [List.length_cons]
    omega

def EndsName (t : Text) : Prop := ∀ c, t.head? = some c → isNameChar c = false

/-- Nowhere is a known name the beginning of a longer one. -/
def Whole (t : Text) : Prop :=
  ∀ name ∈ known, ∀ r, '$' :: (name ++ r) <:+ t → EndsName r

/-- The text refers to the search path nowhere, and does not complete a reference to it that breaks
off before the text. -/
def Harmless (t : Text) : Prop :=
  ¬ '$' :: path <:+: t ∧ ∀ s ∈ path.tails, s ≠ [] → ¬ s <+: t

def Refers (t : Text) : Prop := ∃ name ∈ known, '$' :: name <+: t

variable {e : Environment} {name r s t v p : Text} {c : Char}

theorem expandValue_eq (e : Environment) (t : Text) :
    e.expandValue t =
      replace ('$' :: path) (e.value path) (replace ('$' :: home) (e.value home) t) :=
  rfl

section Names

theorem isNameChar_of_known (hname : name ∈ known) : ∀ c ∈ name, isNameChar c = true := by
  have hall : ∀ name ∈ known, name.all isNameChar = true := by decide
  exact List.all_eq_true.1 (hall name hname)

theorem notMem_of_known : ∀ name ∈ known, '$' ∉ name := by decide

theorem length_of_known : ∀ name ∈ known, name.length = 4 := by decide

theorem eq_of_known {other : Text} (hname : name ∈ known) (hother : other ∈ known)
    (h : other <+: name ++ r) : other = name := by
  have hlength : other.length = name.length :=
    (length_of_known other hother).trans (length_of_known name hname).symm
  have hprefix : other <+: name :=
    List.prefix_of_prefix_length_le h (List.prefix_append name r) hlength.le
  exact hprefix.eq_of_length hlength

theorem endsName_of_takeWhile (h : r.takeWhile isNameChar = []) : EndsName r := by
  intro c hc
  obtain ⟨u, rfl⟩ := List.head?_eq_some_iff.1 hc
  by_contra hshown
  rw [Bool.not_eq_false] at hshown
  rw [List.takeWhile_cons_of_pos hshown] at h
  exact List.cons_ne_nil _ _ h

theorem EndsName.eq_nil (hr : EndsName r) (hs : s <:+ path) (h : s <+: r) : s = [] := by
  cases s with
  | nil => rfl
  | cons c s =>
    have hpath : ∀ c ∈ path, isNameChar c = true := isNameChar_of_known (by decide)
    obtain ⟨u, rfl⟩ := h
    have hc : isNameChar c = false := hr c rfl
    rw [hpath c (hs.subset List.mem_cons_self)] at hc
    cases hc

end Names

section Whole

theorem endsName_nil : EndsName [] := by
  intro c hc
  cases hc

theorem whole_nil : Whole [] :=
  fun _ _ _ h => absurd (List.suffix_nil.1 h) (List.cons_ne_nil _ _)

theorem Whole.of_suffix (ht : Whole t) (h : s <:+ t) : Whole s :=
  fun name hname r hr => ht name hname r (hr.trans h)

theorem whole_cons (hc : ¬ Refers (c :: r)) (hr : Whole r) : Whole (c :: r) := by
  intro name hname u hu
  rcases List.suffix_cons_iff.1 hu with hhere | hlater
  · exact absurd ⟨name, hname, u, hhere⟩ hc
  · exact hr name hname u hlater

theorem whole_append (hs : '$' ∉ s) (hr : Whole r) : Whole (s ++ r) := by
  induction s with
  | nil => exact hr
  | cons c s ih =>
    rw [List.mem_cons, not_or] at hs
    apply whole_cons _ (ih hs.2)
    rintro ⟨name, -, hprefix⟩
    exact hs.1 (List.cons_prefix_cons.1 hprefix).1

theorem whole_reference (hname : name ∈ known) (hends : EndsName r) (hr : Whole r) :
    Whole ('$' :: (name ++ r)) := by
  intro other hother u hu
  rcases List.suffix_cons_iff.1 hu with hhere | hlater
  · have hu : other ++ u = name ++ r := (List.cons.inj hhere).2
    obtain rfl : other = name := eq_of_known hname hother ⟨u, hu⟩
    rwa [List.append_cancel_left hu]
  · exact whole_append (notMem_of_known name hname) hr other hother u hlater

@[elab_as_elim]
theorem reference_induction {motive : Text → Prop} (nil : motive [])
    (reference : ∀ name ∈ known, ∀ r, motive r → motive ('$' :: (name ++ r)))
    (cons : ∀ c r, ¬ Refers (c :: r) → motive r → motive (c :: r)) (t : Text) : motive t := by
  refine occurrence_induction (P := fun p => ∃ name ∈ known, p = '$' :: name) ?_ nil ?_ ?_ t
  · rintro _ ⟨name, -, rfl⟩
    exact List.cons_ne_nil '$' name
  · rintro _ ⟨name, hname, rfl⟩
    exact reference name hname
  · intro c r h
    apply cons
    rintro ⟨name, hname, hprefix⟩
    exact h _ ⟨name, hname, rfl⟩ hprefix

end Whole

section Pass

theorem pass_reference (hname : name ∈ known) (hends : EndsName r) :
    e.pass ('$' :: (name ++ r)) = e.value name ++ e.pass r := by
  obtain ⟨htake, hdrop⟩ := takeWhile_append_of_head? (isNameChar_of_known hname) hends
  rw [pass, htake, hdrop, if_pos ⟨rfl, List.contains_iff_mem.2 hname⟩]

theorem pass_cons (hc : ¬ Refers (c :: r)) : e.pass (c :: r) = c :: e.pass r := by
  rw [pass, if_neg]
  rintro ⟨rfl, hname⟩
  have hprefix := List.takeWhile_prefix (l := r) isNameChar
  exact hc ⟨_, List.contains_iff_mem.1 hname, List.cons_prefix_cons.2 ⟨rfl, hprefix⟩⟩

theorem pass_append (hs : '$' ∉ s) : e.pass (s ++ r) = s ++ e.pass r := by
  induction s with
  | nil => rfl
  | cons c s ih =>
    rw [List.mem_cons, not_or] at hs
    rw [List.cons_append, pass, if_neg fun h => hs.1 h.1.symm, ih hs.2, List.cons_append]

theorem pass_eq_self (ht : '$' ∉ t) : e.pass t = t := by
  have happend := pass_append (e := e) (r := []) ht
  rwa [pass, List.append_nil] at happend

theorem pass_longer (hname : name ∈ known) (hlonger : ¬ EndsName r) :
    e.pass ('$' :: (name ++ r)) = '$' :: (name ++ e.pass r) := by
  rw [pass, if_neg, pass_append (notMem_of_known name hname)]
  rintro ⟨-, hknown⟩
  rw [List.takeWhile_append_of_pos (isNameChar_of_known hname)] at hknown
  have hlength := length_of_known _ (List.contains_iff_mem.1 hknown)
  rw [List.length_append, length_of_known name hname, Nat.add_eq_left, List.length_eq_zero_iff]
    at hlength
  exact hlonger (endsName_of_takeWhile hlength)

end Pass

section Agreement

theorem prefix_of_prefix_replace (hv : Harmless v) (hr : Whole r) (hs : s <:+ path)
    (h : s <+: replace ('$' :: home) v r) : s <+: r := by
  induction r using replace_induction (List.cons_ne_nil '$' home) generalizing s with
  | nil => exact h
  | occurrence r ih =>
    have hends : EndsName r := hr home List.mem_cons_self r List.suffix_rfl
    rw [List.cons_append, replace_cons_append] at h
    rcases prefix_append_cases h with hfirst | ⟨q, hq, rfl, hlater⟩
    · obtain rfl : s = [] := by
        by_contra hne
        exact hv.2 s ((List.mem_tails s path).2 hs) hne hfirst
      exact List.nil_prefix
    · -- what goes on beyond the value would go on right after a name
      have hqs : q <:+ path := (List.suffix_append v q).trans hs
      have hqr : q <+: r := ih (hr.of_suffix (List.suffix_append _ r)) hqs hlater
      exact absurd (hends.eq_nil hqs hqr) hq
  | cons c r hc ih =>
    rw [replace_cons hc] at h
    cases s with
    | nil => exact List.nil_prefix
    | cons d s =>
      obtain ⟨rfl, hlater⟩ := List.cons_prefix_cons.1 h
      have hsr : s <+: r :=
        ih (hr.of_suffix (List.suffix_cons d r)) ((List.suffix_cons d s).trans hs) hlater
      exact List.cons_prefix_cons.2 ⟨rfl, hsr⟩

theorem replace_value_append (hv : p = '$' :: path ∨ Harmless v) (hends : EndsName r)
    (hr : Whole r) :
    replace ('$' :: path) p (v ++ replace ('$' :: home) v r) =
      v ++ replace ('$' :: path) p (replace ('$' :: home) v r) := by
  rcases hv with rfl | hv
  · have hpath : '$' :: path ≠ [] := List.cons_ne_nil '$' path
    rw [replace_self hpath, replace_self hpath]
  · apply Clear.replace_append
    intro s hs hsuffix hprefix
    rcases prefix_append_cases hprefix with hinside | ⟨q, hq, hcut, hlater⟩
    · exact hv.1 (hinside.isInfix.trans hsuffix.isInfix)
    · obtain ⟨c, s, rfl⟩ := List.exists_cons_of_ne_nil hs
      have hpath : path = s ++ q := (List.cons.inj hcut).2
      have hqs : q <:+ path := hpath ▸ List.suffix_append s q
      exact hq (hends.eq_nil hqs (prefix_of_prefix_replace hv hr hqs hlater))

theorem replace_value_cons (hv : p = '$' :: path ∨ Harmless v) (hc : ¬ Refers (c :: r))
    (hr : Whole r) :
    replace ('$' :: path) p (c :: replace ('$' :: home) v r) =
      c :: replace ('$' :: path) p (replace ('$' :: home) v r) := by
  rcases hv with rfl | hv
  · have hpath : '$' :: path ≠ [] := List.cons_ne_nil '$' path
    rw [replace_self hpath, replace_self hpath]
  · apply replace_cons
    intro hprefix
    obtain ⟨hdollar, hlater⟩ := List.cons_prefix_cons.1 hprefix
    have hpath : path <+: r := prefix_of_prefix_replace hv hr List.suffix_rfl hlater
    exact hc ⟨path, by decide, List.cons_prefix_cons.2 ⟨hdollar, hpath⟩⟩

theorem replace_home_cons (hc : ¬ Refers (c :: r)) :
    replace ('$' :: home) v (c :: r) = c :: replace ('$' :: home) v r :=
  replace_cons fun h => hc ⟨home, List.mem_cons_self, h⟩

theorem replace_home_path (v r : Text) :
    replace ('$' :: home) v ('$' :: (path ++ r)) = '$' :: (path ++ replace ('$' :: home) v r) := by
  have hother : ¬ '$' :: home <+: '$' :: (path ++ r) := by
    intro h
    exact absurd (eq_of_known (by decide) (by decide) (List.cons_prefix_cons.1 h).2) (by decide)
  have hclear : Clear ('$' :: home) path r := clear_of_notMem (by decide) r
  rw [replace_cons hother, hclear.replace_append]

theorem expandValue_eq_pass_of_whole (hv : e.value path = '$' :: path ∨ Harmless (e.value home))
    (ht : Whole t) : e.expandValue t = e.pass t := by
  rw [expandValue_eq]
  induction t using reference_induction with
  | nil => rw [pass]; rfl
  | reference name hname r ih =>
    have hends : EndsName r := ht name hname r List.suffix_rfl
    have hr : Whole r := ht.of_suffix (List.suffix_append ('$' :: name) r)
    rw [pass_reference hname hends, ← ih hr]
    rcases List.mem_pair.1 hname with rfl | rfl
    · rw [replace_cons_append, replace_value_append hv hends hr]
    · rw [replace_home_path, replace_cons_append]
  | cons c r hc ih =>
    have hr : Whole r := ht.of_suffix (List.suffix_cons c r)
    rw [pass_cons hc, ← ih hr, replace_home_cons hc, replace_value_cons hv hc hr]

end Agreement

section Dollars

theorem count_replace_append_le (hname : '$' ∉ name) (hv : '$' ∉ v) (s t : Text) :
    (replace ('$' :: name) v (s ++ t)).count '$' ≤
      s.count '$' + (replace ('$' :: name) v t).count '$' := by
  induction s with
  | nil => rw [List.nil_append, List.count_nil, Nat.zero_add]
  | cons c s ih =>
    by_cases h : '$' :: name <+: c :: (s ++ t)
    · -- an occurrence from `s` into `t` takes the dollar sign of `s`; what it has of `t` holds none
      obtain ⟨rfl, u, hu⟩ := List.cons_prefix_cons.1 h
      have hlater : replace ('$' :: name) v (s ++ t) = name ++ replace ('$' :: name) v u := by
        rw [← hu, (clear_of_notMem hname u).replace_append]
      rw [hlater, List.count_append, List.count_eq_zero.2 hname] at ih
      rw [List.cons_append, ← hu, replace_cons_append, List.count_append, List.count_eq_zero.2 hv,
        List.count_cons]
      omega
    · rw [List.cons_append, replace_cons h, List.count_cons, List.count_cons]
      omega

theorem count_expandValue_reference_le (hhome : '$' ∉ e.value home) (hpath : '$' ∉ e.value path)
    (hname : name ∈ known) (r : Text) :
    (e.expandValue ('$' :: (name ++ r))).count '$' ≤ (e.expandValue r).count '$' := by
  rw [expandValue_eq, expandValue_eq]
  rcases List.mem_pair.1 hname with rfl | rfl
  · have hle := count_replace_append_le (notMem_of_known path (by decide)) hpath (e.value home)
      (replace ('$' :: home) (e.value home) r)
    rw [List.count_eq_zero.2 hhome, Nat.zero_add] at hle
    rwa [replace_cons_append]
  · rw [replace_home_path, replace_cons_append, List.count_append, List.count_eq_zero.2 hpath,
      Nat.zero_add]

theorem count_expandValue_le (hhome : '$' ∉ e.value home) (hpath : '$' ∉ e.value path) (t : Text) :
    (e.expandValue t).count '$' ≤ (e.pass t).count '$' ∧
      ((e.expandValue t).count '$' = (e.pass t).count '$' → Whole t) := by
  induction t using reference_induction with
  | nil => exact ⟨Nat.zero_le _, fun _ => whole_nil⟩
  | reference name hname r ih =>
    have hle := count_expandValue_reference_le hhome hpath hname r
    by_cases hends : EndsName r
    · have hvalue : '$' ∉ e.value name := by
        rcases List.mem_pair.1 hname with rfl | rfl
        · exact hhome
        · exact hpath
      rw [pass_reference hname hends, List.count_append, List.count_eq_zero.2 hvalue, Nat.zero_add]
      refine ⟨hle.trans ih.1, fun hsame => whole_reference hname hends (ih.2 ?_)⟩
      omega
    · rw [pass_longer hname hends, List.count_cons_self, List.count_append]
      omega
  | cons c r hc ih =>
    have hle := count_replace_append_le (notMem_of_known path (by decide)) hpath [c]
      (replace ('$' :: home) (e.value home) r)
    rw [List.singleton_append, ← replace_home_cons hc, ← expandValue_eq, ← expandValue_eq] at hle
    have hpass : (e.pass (c :: r)).count '$' = [c].count '$' + (e.pass r).count '$' := by
      rw [pass_cons hc, ← List.singleton_append, List.count_append]
    refine ⟨by omega, fun hsame => whole_cons hc (ih.2 ?_)⟩
    omega

end Dollars

section Necessity

theorem replace_path_home (h : ∀ t, Whole t → e.expandValue t = e.pass t) :
    replace ('$' :: path) (e.value path) (e.value home) = e.value home := by
  have hagree := h _ (whole_reference List.mem_cons_self endsName_nil whole_nil)
  rwa [pass_reference List.mem_cons_self endsName_nil, pass, expandValue_eq, replace_cons_append,
    replace_nil, List.append_nil] at hagree

theorem not_refers_cut (hs : s ≠ []) (h : path = v ++ s) (t : Text) :
    ¬ Refers ('$' :: (v ++ '$' :: t)) := by
  rintro ⟨name, hname, hprefix⟩
  have hlength : v.length + s.length = 4 := by rw [← List.length_append, ← h]; rfl
  have hpos := List.length_pos_iff.2 hs
  rcases prefix_append_cases (List.cons_prefix_cons.1 hprefix).2 with hshort | ⟨q, hq, rfl, hlater⟩
  · have hle := hshort.length_le
    rw [length_of_known name hname] at hle
    omega
  · obtain ⟨c, q, rfl⟩ := List.exists_cons_of_ne_nil hq
    obtain rfl : c = '$' := (List.cons_prefix_cons.1 hlater).1
    exact notMem_of_known _ hname (List.mem_append_right v List.mem_cons_self)

theorem replace_path_cut (h : ∀ t, Whole t → e.expandValue t = e.pass t) (hs : s ≠ [])
    (hpath : path = v ++ s) :
    replace ('$' :: path) (e.value path) ('$' :: (v ++ e.value home)) =
      '$' :: (v ++ e.value home) := by
  have hv : '$' ∉ v := fun hmem =>
    notMem_of_known path (by decide) (hpath ▸ List.mem_append_left s hmem)
  have hcut := not_refers_cut hs hpath (home ++ [])
  have hclear : Clear ('$' :: home) v ('$' :: (home ++ [])) := clear_of_notMem hv _
  have hagree := h _ (whole_cons hcut
    (whole_append hv (whole_reference List.mem_cons_self endsName_nil whole_nil)))
  rwa [pass_cons hcut, pass_append hv, pass_reference List.mem_cons_self endsName_nil, pass,
    expandValue_eq, replace_home_cons hcut, hclear.replace_append, replace_cons_append, replace_nil,
    List.append_nil] at hagree

theorem harmless_of_forall (h : ∀ t, Whole t → e.expandValue t = e.pass t)
    (hpath : e.value path ≠ '$' :: path) : Harmless (e.value home) := by
  have hunchanged {t : Text} (ht : replace ('$' :: path) (e.value path) t = t) :
      ¬ '$' :: path <:+: t :=
    ((replace_eq_self_iff (List.cons_ne_nil '$' path)).1 ht).resolve_left hpath
  refine ⟨hunchanged (replace_path_home h), fun s hs hne hprefix => ?_⟩
  obtain ⟨v, hv⟩ := (List.mem_tails s path).1 hs
  obtain ⟨u, hu⟩ := hprefix
  apply hunchanged (replace_path_cut h hne hv.symm)
  rw [← hu, ← List.append_assoc, hv]
  exact (List.prefix_append ('$' :: path) u).isInfix

end Necessity

/-- On all texts where every reference ends with its name the replacements do what the pass does,
exactly if the home directory's value is harmless or the second replacement changes nothing. Where a
known name begins a longer one they part, unless a value brings in a dollar sign. -/
theorem expandValue_pass (e : Environment) :
    ((∀ t, Whole t → e.expandValue t = e.pass t) ↔
      e.value path = '$' :: path ∨ Harmless (e.value home)) ∧
    ('$' ∉ e.value home → '$' ∉ e.value path →
      ∀ t, e.expandValue t = e.pass t → Whole t) := by
  refine ⟨⟨fun h => ?_, fun hv t ht => expandValue_eq_pass_of_whole hv ht⟩, ?_⟩
  · exact or_iff_not_imp_left.2 (harmless_of_forall h)
  · intro hhome hpath t h
    exact (count_expandValue_le hhome hpath t).2 (congrArg (List.count '$') h)

def usual : Environment :=
  ofPairs [("HOME".toList, "/home/me".toList), ("PATH".toList, "/bin".toList)]

theorem expandValue_pass_usual :
    (Harmless (usual.value home) ∧ ∀ t, Whole t → usual.expandValue t = usual.pass t) ∧
      '$' ∉ usual.value home ∧ '$' ∉ usual.value path ∧
      usual.expandValue "$HOME/.old".toList = usual.pass "$HOME/.old".toList ∧
      Whole "$HOME/.old".toList := by
  have hharmless : Harmless (usual.value home) := ⟨by decide, by decide⟩
  have hhome : '$' ∉ usual.value home := by decide
  have hpath : '$' ∉ usual.value path := by decide
  have hends : EndsName "/.old".toList := by
    intro c hc
    obtain rfl : '/' = c := Option.some.inj hc
    decide
  have hagree : usual.expandValue "$HOME/.old".toList = usual.pass "$HOME/.old".toList := by
    show _ = usual.pass ('$' :: (home ++ "/.old".toList))
    rw [pass_reference List.mem_cons_self hends, pass_eq_self (by decide)]
    decide
  obtain ⟨hiff, hwhole⟩ := expandValue_pass usual
  exact ⟨⟨hharmless, hiff.2 (.inr hharmless)⟩, hhome, hpath, hagree, hwhole hhome hpath _ hagree⟩

def nested : Environment :=
  ofPairs [("HOME".toList, "/srv/$PATH".toList), ("PATH".toList, "/bin".toList)]

/-- A longer name is cut, and the first value is read again. -/
theorem expandValue_ne_pass :
    (usual.expandValue "$HOMEDIR".toList = "/home/meDIR".toList ∧
      usual.pass "$HOMEDIR".toList = "$HOMEDIR".toList) ∧
    nested.expandValue "$HOME".toList = "/srv//bin".toList ∧
      nested.pass "$HOME".toList = "/srv/$PATH".toList := by
  have hlonger : ¬ EndsName "DIR".toList := fun h => absurd (h 'D' rfl) (by decide)
  refine ⟨⟨by decide, ?_⟩, by decide, ?_⟩
  · show usual.pass ('$' :: (home ++ "DIR".toList)) = _
    rw [pass_longer List.mem_cons_self hlonger, pass_eq_self (by decide)]
    decide
  · show nested.pass ('$' :: (home ++ [])) = _
    rw [pass_reference List.mem_cons_self endsName_nil, pass]
    decide

end LineShell.Environment
