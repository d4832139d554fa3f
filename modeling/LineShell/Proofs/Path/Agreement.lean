import LineShell.Path
import Mathlib.Data.List.TakeWhile

/-! Paths with the same steps. They may be written in different ways, and going the same way on
from them leads to paths with the same steps again. -/

namespace LineShell.Path

def names (octets : Bytes) : List Bytes := (List.splitOn slash octets).filter (!isIdle ·)

variable {p q r : Path}

theorem filter_trimSteps (steps : List Bytes) :
    (trimSteps steps).filter (!isIdle ·) = steps.filter (!isIdle ·) := by
  have hidle : (steps.reverse.takeWhile isIdle).filter (!isIdle ·) = [] := by
    rw [List.filter_eq_nil_iff]
    intro s hs
    have : isIdle s = true := List.mem_takeWhile_imp hs
    simp [this]
  have hsplit : steps = trimSteps steps ++ (steps.reverse.takeWhile isIdle).reverse := by
    rw [trimSteps, ← List.reverse_append, List.takeWhile_append_dropWhile, List.reverse_reverse]
  conv => rhs; rw [hsplit]
  rw [List.filter_append, List.filter_reverse, hidle, List.reverse_nil, List.append_nil]

theorem names_append_slash (a b : Bytes) : names (a ++ slash :: b) = names a ++ names b := by
  rw [names, List.splitOn_append_cons_self, List.filter_append, names, names]

theorem names_dot : names dot = [] := by decide

theorem dot_eq : dot = [46] := by decide

theorem isAbsolute_iff : p.IsAbsolute ↔ ∃ a, p.octets = slash :: a := List.head?_eq_some_iff

theorem start_absolute (h : p.IsAbsolute) : p.start = [slash] := if_pos h

theorem start_dot (h : p.octets = dot ∨ ∃ a, p.octets = dot ++ slash :: a) : p.start = dot := by
  have habsolute : ¬ p.IsAbsolute := by
    rw [IsAbsolute]
    rcases h with h | ⟨a, h⟩ <;> rw [h, dot_eq]
    · decide
    · exact fun hc => absurd (Option.some.inj hc) (by decide)
  rw [start, if_neg habsolute, if_pos]
  rcases h with h | ⟨a, h⟩ <;> rw [h]
  · exact .inl (by decide)
  · exact .inr rfl

theorem start_cases (p : Path) :
    (p.start = [slash] ∧ ∃ a, p.octets = slash :: a) ∨
    (p.start = dot ∧ (p.octets = dot ∨ ∃ a, p.octets = dot ++ slash :: a)) ∨
    p.start = [] := by
  by_cases habsolute : p.IsAbsolute
  · exact .inl ⟨start_absolute habsolute, isAbsolute_iff.1 habsolute⟩
  by_cases hdot : p.octets.take 2 = dot ∨ p.octets.take 2 = dot ++ [slash]
  · refine .inr (.inl ⟨by rw [start, if_neg habsolute, if_pos hdot], ?_⟩)
    have hwhole : p.octets = p.octets.take 2 ++ p.octets.drop 2 := (List.take_append_drop 2 _).symm
    rcases hdot with hdot | hdot <;> rw [hdot] at hwhole
    · left
      have hlength := congrArg List.length hdot
      rw [List.length_take, dot_eq, List.length_singleton] at hlength
      rw [hwhole, List.drop_eq_nil_of_le (by omega), List.append_nil]
    · rw [List.append_assoc, List.singleton_append] at hwhole
      exact .inr ⟨p.octets.drop 2, hwhole⟩
  · exact .inr (.inr (by rw [start, if_neg habsolute, if_neg hdot]))

theorem names_drop_start (p : Path) : names (p.octets.drop p.start.length) = names p.octets := by
  have hslash (a : Bytes) : names (slash :: a) = names a := names_append_slash [] a
  rcases start_cases p with ⟨hstart, a, h⟩ | ⟨hstart, h | ⟨a, h⟩⟩ | hstart <;> rw [hstart]
  · rw [h, hslash]
    rfl
  · rw [h]
    decide
  · rw [h, names_append_slash, names_dot, List.nil_append, List.drop_left, hslash]
  · rfl

theorem agrees_iff : p.agrees q = true ↔ p.start = q.start ∧ names p.octets = names q.octets := by
  have hnames (p : Path) : p.steps.filter (!isIdle ·) = names p.octets := by
    rw [steps, filter_trimSteps, ← names_drop_start, names]
  rw [agrees, hnames, hnames, Bool.and_eq_true, beq_iff_eq, beq_iff_eq]

theorem agrees_refl (p : Path) : p.agrees p = true := agrees_iff.2 ⟨rfl, rfl⟩

theorem agrees_symm (h : p.agrees q = true) : q.agrees p = true := by
  obtain ⟨hstart, hnames⟩ := agrees_iff.1 h
  exact agrees_iff.2 ⟨hstart.symm, hnames.symm⟩

theorem agrees_trans (h : p.agrees q = true) (h' : q.agrees r = true) : p.agrees r = true := by
  obtain ⟨hstart, hnames⟩ := agrees_iff.1 h
  obtain ⟨hstart', hnames'⟩ := agrees_iff.1 h'
  exact agrees_iff.2 ⟨hstart.trans hstart', hnames.trans hnames'⟩

theorem octets_eq_nil (hstart : p.start = []) (hnames : names p.octets = []) : p.octets = [] := by
  by_contra hne
  have hidle {a : Bytes} (ha : slash ∉ a) (h : names a = []) : a = [] ∨ a = dot := by
    rw [names, List.splitOn_eq_singleton ha, List.filter_eq_nil_iff] at h
    have hidle : isIdle a = true := by simpa using h a List.mem_cons_self
    simpa [isIdle] using hidle
  by_cases hslash : slash ∈ p.octets
  · obtain ⟨a, b, h, ha⟩ := List.eq_append_cons_of_mem hslash
    rw [h, names_append_slash, List.append_eq_nil_iff] at hnames
    rcases hidle ha hnames.1 with rfl | rfl
    · rw [start_absolute (isAbsolute_iff.2 ⟨b, h⟩)] at hstart
      exact List.cons_ne_nil _ _ hstart
    · rw [start_dot (.inr ⟨b, h⟩)] at hstart
      exact absurd hstart (by decide)
  · rcases hidle hslash hnames with h | h
    · exact hne h
    · rw [start_dot (.inl h)] at hstart
      exact absurd hstart (by decide)

theorem octets_eq_nil_of_agrees (h : p.agrees q = true) (hp : p.octets = []) : q.octets = [] := by
  obtain ⟨hstart, hnames⟩ := agrees_iff.1 h
  have hempty : p = ⟨[]⟩ := by
    rw [← hp]
  rw [hempty] at hstart hnames
  exact octets_eq_nil hstart.symm hnames.symm

theorem start_append_slash {a : Bytes} (ha : a ≠ []) (b : Bytes) :
    (Path.mk (a ++ slash :: b)).start = (Path.mk a).start := by
  rcases a with _ | ⟨c, _ | ⟨d, a⟩⟩
  · exact absurd rfl ha
  · have hdot : [c, slash] = dot ++ [slash] ↔ [c] = dot := by
      rw [dot_eq]
      simp
    have hlong : [c, slash] ≠ dot := by simp [dot_eq]
    have hshort : [c] ≠ dot ++ [slash] := by simp [dot_eq]
    simp [start, IsAbsolute, hdot, hlong, hshort]
  · rfl

theorem join_eq (hp : p.octets ≠ []) {name : Path} (hname : ¬ name.IsAbsolute) :
    ∃ a, (p.join name).octets = a ++ slash :: name.octets ∧ names p.octets = names a ∧
      (p.join name).start = p.start := by
  by_cases hends : p.octets.getLast? = some slash
  · obtain ⟨a, h⟩ := List.getLast?_eq_some_iff.1 hends
    have hjoin : p.join name = ⟨a ++ slash :: name.octets⟩ := by
      rw [join, if_neg hname, if_pos (.inr hends), h, List.append_assoc, List.singleton_append]
    have hnames : names p.octets = names a := by
      rw [h, names_append_slash]
      exact List.append_nil _
    refine ⟨a, by rw [hjoin], hnames, ?_⟩
    have hp' : p = ⟨a ++ [slash]⟩ := by rw [← h]
    rw [hjoin, hp']
    by_cases ha : a = []
    · rw [ha]
      rfl
    · rw [start_append_slash ha, start_append_slash ha]
  · have hjoin : p.join name = ⟨p.octets ++ slash :: name.octets⟩ := by
      rw [join, if_neg hname, if_neg (not_or.2 ⟨hp, hends⟩)]
    refine ⟨p.octets, by rw [hjoin], rfl, ?_⟩
    rw [hjoin, start_append_slash hp]

theorem agrees_join (h : p.agrees q = true) (name : Path) :
    (p.join name).agrees (q.join name) = true := by
  by_cases hname : name.IsAbsolute
  · rw [join, if_pos hname, join, if_pos hname]
    exact agrees_refl name
  by_cases hp : p.octets = []
  · have hq := octets_eq_nil_of_agrees h hp
    rw [join, if_neg hname, if_pos (.inl hp), hp, join, if_neg hname, if_pos (.inl hq), hq]
    exact agrees_refl _
  · have hq : q.octets ≠ [] := fun hq => hp (octets_eq_nil_of_agrees (agrees_symm h) hq)
    obtain ⟨a, hjoin, hnames, hstart⟩ := join_eq hp hname
    obtain ⟨b, hjoin', hnames', hstart'⟩ := join_eq hq hname
    obtain ⟨hsame, hsteps⟩ := agrees_iff.1 h
    apply agrees_iff.2
    refine ⟨by rw [hstart, hstart', hsame], ?_⟩
    rw [hjoin, hjoin', names_append_slash, names_append_slash, ← hnames, ← hnames', hsteps]

end LineShell.Path
