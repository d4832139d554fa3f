import LineShell.Proofs.Text.Encoding

/-! Strict decoding accepts nothing but what encoding writes. The octet that begins a character tells
how many come after it and bounds the one that comes next, and so no second spelling of a character
gets through. -/

namespace LineShell.Utf8

section

variable {k d e f v value : Nat} {low high b : UInt8} {bs : Bytes} {t u : Text} {s : State}

theorem carries_of_within (hlow : 0x80 ≤ low.toNat) (hhigh : high.toNat ≤ 0xBF)
    (hb : low ≤ b ∧ b ≤ high) :
    ∃ d, Carries low high d ∧ b = UInt8.ofNat (0x80 + d) := by
  obtain ⟨hlb, hbh⟩ := hb
  rw [UInt8.le_iff_toNat_le] at hlb hbh
  refine ⟨b.toNat - 0x80, ⟨by omega, by omega, by omega⟩, ?_⟩
  apply UInt8.toNat_inj.1
  rw [toNat_ofNat (by omega)]
  omega

theorem exists_of_decodeFrom_inside (hlow : 0x80 ≤ low.toNat) (hhigh : high.toNat ≤ 0xBF)
    (h : decodeFrom (.inside k low high value) bs = some t) :
    ∃ d r, Carries low high d ∧ bs = UInt8.ofNat (0x80 + d) :: r := by
  cases bs with
  | nil => cases h
  | cons b r =>
    by_cases hb : low ≤ b ∧ b ≤ high
    · obtain ⟨d, hd, rfl⟩ := carries_of_within hlow hhigh hb
      exact ⟨d, r, hd, rfl⟩
    · rw [decodeFrom, step, if_neg hb] at h
      cases h

theorem exists_of_decodeFrom_further (hlow : 0x80 ≤ low.toNat) (hhigh : high.toNat ≤ 0xBF)
    (h : decodeFrom (.inside (k + 1) low high value) bs = some t) :
    ∃ d r, Carries low high d ∧ bs = UInt8.ofNat (0x80 + d) :: r ∧
      decodeFrom (.inside k 0x80 0xBF (value * 64 + d)) r = some t := by
  obtain ⟨d, r, hd, rfl⟩ := exists_of_decodeFrom_inside hlow hhigh h
  rw [decodeFrom_further hd] at h
  exact ⟨d, r, hd, rfl, h⟩

theorem exists_of_decodeFrom_last (hlow : 0x80 ≤ low.toNat) (hhigh : high.toNat ≤ 0xBF)
    (h : decodeFrom (.inside 0 low high value) bs = some t) :
    ∃ d r u, Carries low high d ∧ bs = UInt8.ofNat (0x80 + d) :: r ∧
      t = Char.ofNat (value * 64 + d) :: u ∧ decodeFrom .between r = some u := by
  obtain ⟨d, r, hd, rfl⟩ := exists_of_decodeFrom_inside hlow hhigh h
  rw [decodeFrom_last hd] at h
  obtain ⟨u, hu, rfl⟩ := Option.map_eq_some_iff.1 h
  exact ⟨d, r, u, hd, rfl, rfl, hu⟩

theorem lead_ranges (h : lead b = some (u, s)) :
    b.toNat < 0x80 ∨ (∃ v, 2 ≤ v ∧ v < 32 ∧ b = UInt8.ofNat (0xC0 + v)) ∨
      (∃ v < 16, b = UInt8.ofNat (0xE0 + v)) ∨ ∃ v < 5, b = UInt8.ofNat (0xF0 + v) := by
  have hfrom {n : Nat} (hle : n ≤ b.toNat) : b = UInt8.ofNat (n + (b.toNat - n)) := by
    rw [Nat.add_sub_cancel' hle, UInt8.ofNat_toNat]
  simp only [lead, UInt8.lt_iff_toNat_lt, UInt8.reduceToNat] at h
  by_cases hascii : b.toNat < 0x80
  · exact .inl hascii
  by_cases hlow : b.toNat < 0xC2
  · rw [if_neg hascii, if_pos hlow] at h
    cases h
  by_cases htwo : b.toNat < 0xE0
  · exact .inr (.inl ⟨b.toNat - 0xC0, by omega, by omega, hfrom (by omega)⟩)
  by_cases hthree : b.toNat < 0xF0
  · exact .inr (.inr (.inl ⟨b.toNat - 0xE0, by omega, hfrom (by omega)⟩))
  by_cases hfour : b.toNat < 0xF5
  · exact .inr (.inr (.inr ⟨b.toNat - 0xF0, by omega, hfrom (by omega)⟩))
  · rw [if_neg hascii, if_neg hlow, if_neg htwo, if_neg hthree, if_neg hfour] at h
    cases h

theorem toNat_charOfNat {n : Nat} (h : n < 0xD800 ∨ 0xDFFF < n ∧ n < 0x110000) :
    (Char.ofNat n).toNat = n := by
  rw [Char.ofNat, dif_pos h]
  rfl

theorem encodeChar_ascii {n : Nat} (h : n < 0x80) : encodeChar (Char.ofNat n) = [UInt8.ofNat n] := by
  rw [encodeChar, toNat_charOfNat (.inl (by omega))]
  exact if_pos h

theorem encodeChar_two (hv : 2 ≤ v) (hv' : v < 32) (hd : d < 64) :
    encodeChar (Char.ofNat (v * 64 + d)) = [UInt8.ofNat (0xC0 + v), UInt8.ofNat (0x80 + d)] := by
  have hdiv : (v * 64 + d) / 64 = v := by omega
  have hmod : (v * 64 + d) % 64 = d := by omega
  simp only [encodeChar, toNat_charOfNat (n := v * 64 + d) (.inl (by omega)), hdiv, hmod]
  rw [if_neg (by omega), if_pos (by omega)]

theorem encodeChar_three (hv : v < 16)
    (hd : Carries (if v = 0 then 0xA0 else 0x80) (if v = 13 then 0x9F else 0xBF) d)
    (he : e < 64) : encodeChar (Char.ofNat ((v * 64 + d) * 64 + e)) =
      [UInt8.ofNat (0xE0 + v), UInt8.ofNat (0x80 + d), UInt8.ofNat (0x80 + e)] := by
  obtain ⟨hbits, hlow, hhigh⟩ := hd
  have hleast : v = 0 → 0x20 ≤ d := by
    rintro rfl
    have : 0xA0 ≤ 0x80 + d := hlow
    omega
  have hsurrogate : v = 13 → d < 0x20 := by
    rintro rfl
    have : 0x80 + d ≤ 0x9F := hhigh
    omega
  have hfirst : ((v * 64 + d) * 64 + e) / 4096 = v := by omega
  have hsecond : ((v * 64 + d) * 64 + e) / 64 % 64 = d := by omega
  have hthird : ((v * 64 + d) * 64 + e) % 64 = e := by omega
  simp only [encodeChar, toNat_charOfNat (n := (v * 64 + d) * 64 + e) (by omega), hfirst, hsecond,
    hthird]
  rw [if_neg (by omega), if_neg (by omega), if_pos (by omega)]

theorem encodeChar_four (hv : v < 5)
    (hd : Carries (if v = 0 then 0x90 else 0x80) (if v = 4 then 0x8F else 0xBF) d)
    (he : e < 64) (hf : f < 64) : encodeChar (Char.ofNat (((v * 64 + d) * 64 + e) * 64 + f)) =
      [UInt8.ofNat (0xF0 + v), UInt8.ofNat (0x80 + d), UInt8.ofNat (0x80 + e),
        UInt8.ofNat (0x80 + f)] := by
  obtain ⟨hbits, hlow, hhigh⟩ := hd
  have hleast : v = 0 → 0x10 ≤ d := by
    rintro rfl
    have : 0x90 ≤ 0x80 + d := hlow
    omega
  have hgreatest : v = 4 → d < 0x10 := by
    rintro rfl
    have : 0x80 + d ≤ 0x8F := hhigh
    omega
  have hfirst : (((v * 64 + d) * 64 + e) * 64 + f) / 262144 = v := by omega
  have hsecond : (((v * 64 + d) * 64 + e) * 64 + f) / 4096 % 64 = d := by omega
  have hthird : (((v * 64 + d) * 64 + e) * 64 + f) / 64 % 64 = e := by omega
  have hfourth : (((v * 64 + d) * 64 + e) * 64 + f) % 64 = f := by omega
  simp only [encodeChar, toNat_charOfNat (n := ((v * 64 + d) * 64 + e) * 64 + f) (by omega), hfirst,
    hsecond, hthird, hfourth]
  rw [if_neg (by omega), if_neg (by omega), if_neg (by omega)]

theorem exists_of_decodeFrom_between (h : decodeFrom .between (b :: bs) = some t) :
    ∃ c r u, b :: bs = encodeChar c ++ r ∧ t = c :: u ∧ decodeFrom .between r = some u := by
  have hlead : ∃ u s, lead b = some (u, s) := by
    rcases hb : lead b with _ | ⟨u, s⟩
    · rw [decodeFrom, step, hb] at h
      cases h
    · exact ⟨u, s, rfl⟩
  obtain ⟨w, s, hb⟩ := hlead
  rcases lead_ranges hb with hb | ⟨v, hv, hv', rfl⟩ | ⟨v, hv, rfl⟩ | ⟨v, hv, rfl⟩
  · have hone : lead b = some ([Char.ofNat b.toNat], .between) := by
      rw [← lead_ascii hb, UInt8.ofNat_toNat]
    rw [decodeFrom, step, hone] at h
    obtain ⟨u, hu, rfl⟩ := Option.map_eq_some_iff.1 h
    refine ⟨Char.ofNat b.toNat, bs, u, ?_, rfl, hu⟩
    rw [encodeChar_ascii hb, UInt8.ofNat_toNat, List.singleton_append]
  · rw [decodeFrom_lead (lead_two v hv' hv)] at h
    obtain ⟨d, r, u, hd, rfl, rfl, hu⟩ := exists_of_decodeFrom_last (by decide) (by decide) h
    exact ⟨_, r, u, by rw [encodeChar_two hv hv' hd.bits]; rfl, rfl, hu⟩
  · rw [decodeFrom_lead (lead_three v hv)] at h
    obtain ⟨d, r, hd, rfl, hthird⟩ :=
      exists_of_decodeFrom_further (by split <;> decide) (by split <;> decide) h
    obtain ⟨e, r, u, he, rfl, rfl, hu⟩ := exists_of_decodeFrom_last (by decide) (by decide) hthird
    exact ⟨_, r, u, by rw [encodeChar_three hv hd he.bits]; rfl, rfl, hu⟩
  · rw [decodeFrom_lead (lead_four v hv)] at h
    obtain ⟨d, r, hd, rfl, hthird⟩ :=
      exists_of_decodeFrom_further (by split <;> decide) (by split <;> decide) h
    obtain ⟨e, r, he, rfl, hfourth⟩ := exists_of_decodeFrom_further (by decide) (by decide) hthird
    obtain ⟨f, r, u, hf, rfl, rfl, hu⟩ :=
      exists_of_decodeFrom_last (by decide) (by decide) hfourth
    exact ⟨_, r, u, by rw [encodeChar_four hv hd he.bits hf.bits]; rfl, rfl, hu⟩

theorem eq_encode_of_decodeFrom (h : decodeFrom .between bs = some t) : bs = encode t := by
  induction hn : bs.length using Nat.strongRecOn generalizing bs t with
  | ind n ih =>
    cases bs with
    | nil =>
      obtain rfl := Option.some.inj h
      rfl
    | cons b bs =>
      obtain ⟨c, r, u, hbs, rfl, hu⟩ := exists_of_decodeFrom_between h
      have hlt : r.length < n := by
        have hlength := congrArg List.length hbs
        rw [List.length_append, length_encodeChar, hn] at hlength
        have hpos := c.utf8Size_pos
        omega
      rw [hbs, ih _ hlt hu rfl, encode, encode, List.flatMap_cons]

theorem decode?_eq_some_iff : decode? bs = some t ↔ bs = encode t :=
  ⟨eq_encode_of_decodeFrom, fun h => h ▸ decode?_encode t⟩

end

end LineShell.Utf8
