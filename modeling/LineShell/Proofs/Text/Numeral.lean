import LineShell.Text.Numeral
import Mathlib.Data.Nat.Digits.Defs
import Mathlib.Tactic.IntervalCases

/-! Numerals by their place values. Reading finds the number that a text denotes if that is within
the limit, and nothing else. -/

namespace LineShell.Numeral

/-- The text writes the number in decimal, perhaps with zeros and a plus sign before it. -/
def Denotes (t : Text) (n : Nat) : Prop :=
  ∃ (sign : Text) (digits : List Nat),
    (sign = [] ∨ sign = ['+']) ∧ digits ≠ [] ∧ (∀ d ∈ digits, d < 10) ∧
    t = sign ++ digits.map Nat.digitChar ∧ Nat.ofDigits 10 digits.reverse = n

theorem digit?_eq_some_iff {c : Char} {d : Nat} :
    digit? c = some d ↔ d < 10 ∧ c = Nat.digitChar d := by
  constructor
  · intro h
    rw [digit?] at h
    split at h
    · next hc =>
      have hlow : 48 ≤ c.toNat := hc.1
      have hhigh : c.toNat ≤ 57 := hc.2
      have hd : c.toNat - 48 = d := Option.some.inj h
      have hlt : d < 10 := by omega
      have hvalue : c.toNat = 48 + d := by omega
      have hchar : c = Char.ofNat (48 + d) := by rw [← hvalue, Char.ofNat_toNat]
      refine ⟨hlt, hchar.trans ?_⟩
      clear * - hlt
      interval_cases d <;> rfl
    · cases h
  · rintro ⟨hd, rfl⟩
    interval_cases d <;> rfl

theorem ofDigits_reverse (digits : List Nat) :
    Nat.ofDigits 10 digits.reverse = digits.foldl (fun value d => 10 * value + d) 0 := by
  rw [Nat.ofDigits_eq_foldr, List.foldr_reverse]
  congr 1
  funext value d
  exact Nat.add_comm _ _

theorem extend_eq_some_iff {value n : Nat} {t : Text} :
    extend value t = some n ↔ ∃ digits : List Nat, (∀ d ∈ digits, d < 10) ∧
      t = digits.map Nat.digitChar ∧ digits.foldl (fun value d => 10 * value + d) value = n := by
  constructor
  · intro h
    -- the value of the digits read so far changes from digit to digit
    induction t generalizing value with
    | nil => exact ⟨[], by simp, by simp, Option.some.inj h⟩
    | cons c r ih =>
      rw [extend] at h
      split at h
      · next d hd =>
        obtain ⟨hlt, rfl⟩ := digit?_eq_some_iff.1 hd
        obtain ⟨digits, hdigits, rfl, hn⟩ := ih h
        exact ⟨d :: digits, List.forall_mem_cons.2 ⟨hlt, hdigits⟩, by simp, hn⟩
      · cases h
  · rintro ⟨digits, hdigits, rfl, hn⟩
    induction digits generalizing value with
    | nil => exact congrArg some hn
    | cons d digits ih =>
      obtain ⟨hlt, hlater⟩ := List.forall_mem_cons.1 hdigits
      have hd : digit? d.digitChar = some d := digit?_eq_some_iff.2 ⟨hlt, rfl⟩
      rw [List.map_cons, extend, hd]
      exact ih hlater hn

theorem dropPlus_cases (t : Text) : t = dropPlus t ∨ t = '+' :: dropPlus t := by
  unfold dropPlus
  split
  · exact .inr rfl
  · exact .inl rfl

theorem denotes_iff {t : Text} {n : Nat} :
    Denotes t n ↔ dropPlus t ≠ [] ∧ extend 0 (dropPlus t) = some n := by
  rw [extend_eq_some_iff]
  constructor
  · rintro ⟨sign, digits, hsign, hne, hlt, rfl, hn⟩
    have hdrop : dropPlus (sign ++ digits.map Nat.digitChar) = digits.map Nat.digitChar := by
      rcases hsign with rfl | rfl
      · obtain ⟨d, later, rfl⟩ := List.exists_cons_of_ne_nil hne
        have hd : d < 10 := hlt d List.mem_cons_self
        rw [List.nil_append, List.map_cons]
        clear * - hd
        interval_cases d <;> rfl
      · rfl
    rw [hdrop]
    exact ⟨by simpa using hne, digits, hlt, rfl, by rw [← ofDigits_reverse, hn]⟩
  · rintro ⟨hne, digits, hlt, ht, hn⟩
    have hdigits : digits ≠ [] := by
      rintro rfl
      exact hne ht
    have hvalue : Nat.ofDigits 10 digits.reverse = n := (ofDigits_reverse digits).trans hn
    rcases dropPlus_cases t with h | h
    · exact ⟨[], digits, .inl rfl, hdigits, hlt, h.trans ht, hvalue⟩
    · exact ⟨['+'], digits, .inr rfl, hdigits, hlt, h.trans (by rw [ht]; rfl), hvalue⟩

theorem read?_eq_some_iff {limit n : Nat} {t : Text} :
    read? limit t = some n ↔ Denotes t n ∧ n ≤ limit := by
  rw [denotes_iff]
  rcases hvalue : extend 0 (dropPlus t) with _ | value
  · simp [read?, hvalue]
  · by_cases hempty : dropPlus t = []
    · simp [read?, hempty]
    · have hread : read? limit t = if value ≤ limit then some value else none := by
        simp [read?, hvalue, hempty]
      rw [hread]
      split
      · simp only [Option.some.injEq]
        constructor
        · rintro rfl
          exact ⟨⟨hempty, rfl⟩, ‹_›⟩
        · exact fun h => h.1.2
      · next hlimit =>
        simp only [reduceCtorEq, Option.some.injEq, false_iff]
        rintro ⟨⟨-, rfl⟩, hle⟩
        exact hlimit hle

theorem read?_eq_none_iff {limit : Nat} {t : Text} :
    read? limit t = none ↔ ∀ n, Denotes t n → limit < n := by
  rw [Option.eq_none_iff_forall_ne_some]
  refine forall_congr' fun n => ?_
  rw [Ne, read?_eq_some_iff, not_and, Nat.not_le]

end LineShell.Numeral
