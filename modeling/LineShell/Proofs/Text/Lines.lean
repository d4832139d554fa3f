import LineShell.Text.Basic

/-! Cutting a list at a separator, and the lines of a text. What is written as lines reads back as
the pieces of those lines, each without a carriage return at its end. -/

namespace LineShell.Text

section

variable {α : Type} [BEq α] [LawfulBEq α]

@[elab_as_elim]
theorem splitOn_induction (x : α) {motive : List α → Prop}
    (last : ∀ l, x ∉ l → motive l) (cut : ∀ a r, x ∉ a → motive r → motive (a ++ x :: r))
    (l : List α) : motive l := by
  induction hn : l.length using Nat.strongRecOn generalizing l with
  | ind n ih =>
    subst hn
    by_cases hx : x ∈ l
    · obtain ⟨a, r, rfl, ha⟩ := List.eq_append_cons_of_mem hx
      exact cut a r ha (ih r.length (by simp; omega) r rfl)
    · exact last l hx

theorem notMem_of_mem_splitOn {x : α} {p l : List α} (h : p ∈ List.splitOn x l) : x ∉ p := by
  induction l using splitOn_induction x with
  | last l hl =>
    rw [List.splitOn_eq_singleton hl] at h
    rwa [List.mem_singleton.1 h]
  | cut a r ha ih =>
    rw [List.splitOn_append_cons_self_of_not_mem ha] at h
    rcases List.mem_cons.1 h with rfl | hr
    · exact ha
    · exact ih hr

end

theorem cutAt_append {x : Char} {a : Text} (ha : x ∉ a) (r : Text) :
    cutAt x (a ++ x :: r) = some (a, r) := by
  induction a with
  | nil => simp [cutAt]
  | cons c a ih =>
    rw [List.mem_cons, not_or] at ha
    rw [List.cons_append, cutAt, if_neg (Ne.symm ha.1), ih ha.2]
    rfl

theorem eq_of_cutAt {x : Char} {t a r : Text} (h : cutAt x t = some (a, r)) :
    t = a ++ x :: r ∧ x ∉ a := by
  induction t generalizing a with
  | nil => exact nomatch h
  | cons c t ih =>
    rw [cutAt] at h
    split at h
    · next hc =>
      obtain ⟨rfl, rfl⟩ := Prod.mk.inj (Option.some.inj h)
      exact ⟨by rw [hc, List.nil_append], List.not_mem_nil⟩
    · next hc =>
      obtain ⟨⟨b, u⟩, hcut, hb⟩ := Option.map_eq_some_iff.1 h
      obtain ⟨rfl, rfl⟩ := Prod.mk.inj hb
      obtain ⟨rfl, hx⟩ := ih hcut
      refine ⟨rfl, ?_⟩
      rw [List.mem_cons, not_or]
      exact ⟨Ne.symm hc, hx⟩

theorem cutAt_eq_none_iff {x : Char} {t : Text} : cutAt x t = none ↔ x ∉ t := by
  constructor
  · intro hcut hx
    obtain ⟨a, r, rfl, ha⟩ := List.eq_append_cons_of_mem hx
    rw [cutAt_append ha] at hcut
    cases hcut
  · intro hx
    rcases hcut : cutAt x t with _ | ⟨a, r⟩
    · rfl
    · obtain ⟨rfl, -⟩ := eq_of_cutAt hcut
      exact absurd (List.mem_append_right a List.mem_cons_self) hx

theorem dropCarriageReturn_subset (t : Text) : dropCarriageReturn t ⊆ t := by
  unfold dropCarriageReturn
  split
  · exact t.dropLast_subset
  · exact List.Subset.refl t

theorem dropCarriageReturn_eq_self {t : Text} :
    dropCarriageReturn t = t ↔ t.getLast? ≠ some '\r' := by
  unfold dropCarriageReturn
  split
  · next h =>
    obtain ⟨u, rfl⟩ := List.getLast?_eq_some_iff.1 h
    simp
  · next h => exact ⟨fun _ => h, fun _ => rfl⟩

theorem all_isBlank_dropCarriageReturn (t : Text) :
    (dropCarriageReturn t).all isBlank = t.all isBlank := by
  unfold dropCarriageReturn
  split
  · next h =>
    obtain ⟨u, rfl⟩ := List.getLast?_eq_some_iff.1 h
    rw [List.dropLast_concat, List.all_append]
    simp [isBlank]
  · rfl

theorem linesOfPieces_append (ps : List Text) {qs : List Text} (hq : qs ≠ []) :
    linesOfPieces (ps ++ qs) = ps.map dropCarriageReturn ++ linesOfPieces qs := by
  induction ps with
  | nil => rfl
  | cons p ps ih =>
    obtain ⟨q, rest, h⟩ := List.exists_cons_of_ne_nil (List.append_ne_nil_of_right_ne_nil ps hq)
    rw [List.cons_append, h, linesOfPieces, ← h, ih]
    rfl

theorem lines_append_lineFeed (t u : Text) :
    lines (t ++ '\n' :: u) = (List.splitOn '\n' t).map dropCarriageReturn ++ lines u := by
  rw [lines, List.splitOn_append_cons_self, linesOfPieces_append _ (List.splitOn_ne_nil _ _), lines]

theorem lines_append {t : Text} (ht : t = [] ∨ t.getLast? = some '\n') (u : Text) :
    lines (t ++ u) = lines t ++ lines u := by
  rcases ht with rfl | hlast
  · rfl
  · obtain ⟨r, rfl⟩ := List.getLast?_eq_some_iff.1 hlast
    have hr := lines_append_lineFeed r []
    have hru := lines_append_lineFeed r u
    have hnil : lines [] = [] := rfl
    rw [hr, hnil, List.append_nil, List.append_assoc, List.singleton_append, hru]

theorem unlines_cons (l : Text) (ls : List Text) : unlines (l :: ls) = l ++ '\n' :: unlines ls := by
  simp [unlines]

theorem lines_unlines (ls : List Text) :
    lines (unlines ls) = ls.flatMap fun l => (List.splitOn '\n' l).map dropCarriageReturn := by
  induction ls with
  | nil => rfl
  | cons l ls ih => rw [unlines_cons, lines_append_lineFeed, ih, List.flatMap_cons]

theorem lines_unlines_of_lineFeed_notMem {ls : List Text} (h : ∀ l ∈ ls, '\n' ∉ l) :
    lines (unlines ls) = ls.map dropCarriageReturn := by
  rw [lines_unlines]
  induction ls with
  | nil => rfl
  | cons l ls ih =>
    obtain ⟨hl, hls⟩ := List.forall_mem_cons.1 h
    rw [List.flatMap_cons, ih hls, List.splitOn_eq_singleton hl]
    rfl

theorem map_dropCarriageReturn_eq_self {ls : List Text} :
    ls.map dropCarriageReturn = ls ↔ ∀ l ∈ ls, l.getLast? ≠ some '\r' := by
  induction ls with
  | nil => simp
  | cons l ls ih =>
    rw [List.map_cons, List.cons.injEq, dropCarriageReturn_eq_self, ih, List.forall_mem_cons]

theorem lines_unlines_eq_self {ls : List Text}
    (h : ∀ l ∈ ls, '\n' ∉ l ∧ l.getLast? ≠ some '\r') : lines (unlines ls) = ls := by
  rw [lines_unlines_of_lineFeed_notMem fun l hl => (h l hl).1, map_dropCarriageReturn_eq_self]
  exact fun l hl => (h l hl).2

theorem exists_piece_of_mem_linesOfPieces {l : Text} {ps : List Text} (h : l ∈ linesOfPieces ps) :
    ∃ p ∈ ps, l ⊆ p := by
  fun_induction linesOfPieces ps with
  | case1 => exact absurd h List.not_mem_nil
  | case2 last hlast => exact absurd h List.not_mem_nil
  | case3 last hlast => exact ⟨l, h, List.Subset.refl l⟩
  | case4 piece next later ih =>
    rcases List.mem_cons.1 h with rfl | h
    · exact ⟨piece, List.mem_cons_self, dropCarriageReturn_subset piece⟩
    · obtain ⟨p, hp, hsub⟩ := ih h
      exact ⟨p, List.mem_cons_of_mem _ hp, hsub⟩

theorem lineFeed_notMem_of_mem_lines {l t : Text} (h : l ∈ lines t) : '\n' ∉ l := by
  obtain ⟨p, hp, hsub⟩ := exists_piece_of_mem_linesOfPieces h
  exact fun hc => notMem_of_mem_splitOn hp (hsub hc)

end LineShell.Text
