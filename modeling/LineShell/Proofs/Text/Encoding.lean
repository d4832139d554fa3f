import LineShell.Text.Utf8

/-! What is written in UTF-8 reads back: the octets of a character are put together again six bits
at a time. How many they are is known from the character. -/

namespace LineShell.Utf8

theorem toNat_ofNat {n : Nat} (h : n < 256) : (UInt8.ofNat n).toNat = n :=
  UInt8.toNat_ofNat'.trans (Nat.mod_eq_of_lt h)

theorem lead_ascii {n : Nat} (h : n < 0x80) :
    lead (UInt8.ofNat n) = some ([Char.ofNat n], .between) := by
  have hn : (UInt8.ofNat n).toNat = n := toNat_ofNat (by omega)
  rw [lead, if_pos, hn]
  rw [UInt8.lt_iff_toNat_lt, hn]
  exact h

theorem lead_two : ∀ v < 32, 2 ≤ v →
    lead (UInt8.ofNat (0xC0 + v)) = some ([], .inside 0 0x80 0xBF v) := by decide

theorem lead_three : ∀ v < 16, lead (UInt8.ofNat (0xE0 + v)) =
    some ([], .inside 1 (if v = 0 then 0xA0 else 0x80) (if v = 13 then 0x9F else 0xBF) v) := by
  decide

theorem lead_four : ∀ v < 5, lead (UInt8.ofNat (0xF0 + v)) =
    some ([], .inside 2 (if v = 0 then 0x90 else 0x80) (if v = 4 then 0x8F else 0xBF) v) := by
  decide

structure Carries (low high : UInt8) (d : Nat) : Prop where
  bits : d < 64
  low : low.toNat ≤ 0x80 + d
  high : 0x80 + d ≤ high.toNat

theorem carries_mod (n : Nat) : Carries 0x80 0xBF (n % 64) where
  bits := Nat.mod_lt n (by decide)
  low := Nat.le_add_right _ _
  high := Nat.add_le_add_left (Nat.le_of_lt_succ (Nat.mod_lt n (by decide))) 0x80

section

variable {k d value : Nat} {low high : UInt8}

theorem Carries.within (h : Carries low high d) :
    low ≤ UInt8.ofNat (0x80 + d) ∧ UInt8.ofNat (0x80 + d) ≤ high := by
  have hd := h.bits
  rw [UInt8.le_iff_toNat_le, UInt8.le_iff_toNat_le, toNat_ofNat (by omega)]
  exact ⟨h.low, h.high⟩

theorem Carries.bits_eq (h : Carries low high d) : (UInt8.ofNat (0x80 + d)).toNat - 0x80 = d := by
  have hd := h.bits
  rw [toNat_ofNat (by omega), Nat.add_sub_cancel_left]

theorem decodeFrom_lead {b : UInt8} {s : State} (h : lead b = some ([], s)) (r : Bytes) :
    decodeFrom .between (b :: r) = decodeFrom s r := by
  rw [decodeFrom, step, h]
  simp

theorem decodeFrom_further (h : Carries low high d) (r : Bytes) :
    decodeFrom (.inside (k + 1) low high value) (UInt8.ofNat (0x80 + d) :: r) =
      decodeFrom (.inside k 0x80 0xBF (value * 64 + d)) r := by
  rw [decodeFrom, step, if_pos h.within, h.bits_eq]
  simp

theorem decodeFrom_last (h : Carries low high d) (r : Bytes) :
    decodeFrom (.inside 0 low high value) (UInt8.ofNat (0x80 + d) :: r) =
      (decodeFrom .between r).map (Char.ofNat (value * 64 + d) :: ·) := by
  rw [decodeFrom, step, if_pos h.within, h.bits_eq]
  rfl

end

theorem decodeFrom_encodeChar (c : Char) (r : Bytes) :
    decodeFrom .between (encodeChar c ++ r) = (decodeFrom .between r).map (c :: ·) := by
  have hc : Char.ofNat c.toNat = c := Char.ofNat_toNat c
  have hvalid : c.toNat < 0xD800 ∨ 0xDFFF < c.toNat ∧ c.toNat < 0x110000 := c.valid
  simp only [encodeChar]
  generalize c.toNat = n at *
  have hlast : n / 64 * 64 + n % 64 = n := Nat.div_add_mod' _ _
  have hmiddle : n / 4096 * 64 + n / 64 % 64 = n / 64 := by omega
  have hupper : n / 262144 * 64 + n / 4096 % 64 = n / 4096 := by omega
  split
  · next hn =>
    rw [List.singleton_append, decodeFrom, step, lead_ascii hn, hc]
    rfl
  · split
    · next hn =>
      simp only [List.cons_append, List.nil_append]
      rw [decodeFrom_lead (lead_two _ (by omega) (by omega)), decodeFrom_last (carries_mod n),
        hlast, hc]
    · split
      · next hn =>
        have hsecond : Carries (if n / 4096 = 0 then 0xA0 else 0x80)
            (if n / 4096 = 13 then 0x9F else 0xBF) (n / 64 % 64) :=
          ⟨by omega, by split <;> simp; omega, by split <;> simp <;> omega⟩
        simp only [List.cons_append, List.nil_append]
        rw [decodeFrom_lead (lead_three _ (by omega)), decodeFrom_further hsecond, hmiddle,
          decodeFrom_last (carries_mod n), hlast, hc]
      · have hsecond : Carries (if n / 262144 = 0 then 0x90 else 0x80)
            (if n / 262144 = 4 then 0x8F else 0xBF) (n / 4096 % 64) :=
          ⟨by omega, by split <;> simp; omega, by split <;> simp <;> omega⟩
        simp only [List.cons_append, List.nil_append]
        rw [decodeFrom_lead (lead_four _ (by omega)), decodeFrom_further hsecond, hupper,
          decodeFrom_further (carries_mod (n / 64)), hmiddle, decodeFrom_last (carries_mod n),
          hlast, hc]

theorem decode?_encode (t : Text) : decode? (encode t) = some t := by
  rw [decode?]
  induction t with
  | nil => rfl
  | cons c r ih =>
    rw [encode, List.flatMap_cons, decodeFrom_encodeChar, ← encode, ih]
    rfl

theorem lossyFrom_of_decodeFrom {s : State} {b : Bytes} {t : Text} (h : decodeFrom s b = some t) :
    lossyFrom s b = t := by
  induction b generalizing s t with
  | nil =>
    cases s with
    | between => exact Option.some.inj h
    | inside further low high value => exact nomatch h
  | cons b r ih =>
    rw [decodeFrom] at h
    split at h
    · next u s' hstep =>
      obtain ⟨later, hlater, rfl⟩ := Option.map_eq_some_iff.1 h
      have hmend : mend s b = (u, s') := by simp only [mend, hstep]
      rw [lossyFrom, hmend, ih hlater]
    · exact nomatch h

theorem lossy_encode (t : Text) : lossy (encode t) = t := lossyFrom_of_decodeFrom (decode?_encode t)

theorem length_encodeChar (c : Char) : (encodeChar c).length = c.utf8Size := by
  have hc : c.val.toNat = c.toNat := rfl
  simp only [encodeChar, Char.utf8Size, UInt32.le_iff_toNat_le, UInt32.toNat_ofNatLT, hc]
  generalize c.toNat = n
  by_cases hone : n < 0x80
  · rw [if_pos hone, if_pos (by omega)]
    rfl
  by_cases htwo : n < 0x800
  · rw [if_neg hone, if_pos htwo, if_neg (by omega), if_pos (by omega)]
    rfl
  by_cases hthree : n < 0x10000
  · rw [if_neg hone, if_neg htwo, if_pos hthree, if_neg (by omega), if_neg (by omega),
      if_pos (by omega)]
    rfl
  · rw [if_neg hone, if_neg htwo, if_neg hthree, if_neg (by omega), if_neg (by omega),
      if_neg (by omega)]
    rfl

theorem length_encode (t : Text) : (encode t).length = Text.octetLength t := by
  induction t with
  | nil => rfl
  | cons c r ih =>
    rw [encode, List.flatMap_cons, List.length_append, length_encodeChar, ← encode, ih]
    rfl

end LineShell.Utf8
