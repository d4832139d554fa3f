import LineShell.Proofs.Text.Lines
import LineShell.Source

/-! Mending octets that are not UTF-8 never reaches across a line feed. A line feed stands for
itself even where it breaks off a character, so cutting and decoding can be done in either order. -/

namespace LineShell.Utf8

open Reader (lineFeed)

/-- Inside a character no octet of ASCII can come next, and what has been read of the value keeps
the character from being a control character. -/
def State.Wide : State → Prop
  | .between => True
  | .inside _ low _ value => 0x80 ≤ low ∧ 16 ≤ value * 64 + (low.toNat - 0x80)

theorem wide_between : State.between.Wide := trivial

def State.unfinished : State → Text
  | .between => []
  | .inside .. => [replacement]

theorem ofNat_ne_lineFeed {n : Nat} (h : n ≠ 10) : Char.ofNat n ≠ '\n' := by
  by_cases hvalid : n.isValidChar
  · rw [Char.ofNat, dif_pos hvalid]
    exact fun hc => h (congrArg Char.toNat hc)
  · rw [Char.ofNat, dif_neg hvalid]
    decide

theorem lead_cases {b : UInt8} {t : Text} {s : State} (h : lead b = some (t, s)) :
    (t = [Char.ofNat b.toNat] ∧ s = .between) ∨ (t = [] ∧ s.Wide ∧ s ≠ .between) := by
  have hinside {k : Nat} {low high : UInt8} {value : Nat}
      (h : (([], .inside k low high value) : Text × State) = (t, s)) (hlow : 0x80 ≤ low)
      (hvalue : 16 ≤ value * 64 + (low.toNat - 0x80)) : t = [] ∧ s.Wide ∧ s ≠ .between := by
    obtain ⟨rfl, rfl⟩ := Prod.mk.inj h
    exact ⟨rfl, ⟨hlow, hvalue⟩, nofun⟩
  unfold lead at h
  simp only [UInt8.lt_iff_toNat_lt, UInt8.reduceToNat] at h
  split at h
  · obtain ⟨rfl, rfl⟩ := Prod.mk.inj (Option.some.inj h)
    exact .inl ⟨rfl, rfl⟩
  · right
    split at h
    · exact nomatch h
    · split at h
      · exact hinside (Option.some.inj h) (by decide) (by simp; omega)
      · split at h
        · by_cases hb : b = 0xE0
          · subst hb
            exact hinside (Option.some.inj h) (by decide) (by decide)
          · have hb' : b.toNat ≠ 0xE0 := fun hc => hb (UInt8.toNat_inj.1 hc)
            rw [if_neg hb] at h
            exact hinside (Option.some.inj h) (by decide) (by simp; omega)
        · split at h
          · by_cases hb : b = 0xF0
            · subst hb
              exact hinside (Option.some.inj h) (by decide) (by decide)
            · have hb' : b.toNat ≠ 0xF0 := fun hc => hb (UInt8.toNat_inj.1 hc)
              rw [if_neg hb] at h
              exact hinside (Option.some.inj h) (by decide) (by simp; omega)
          · exact nomatch h

theorem step_inside {k : Nat} {low high b : UInt8} {value : Nat} {t : Text} {s : State}
    (hwide : (State.inside k low high value).Wide)
    (h : step (.inside k low high value) b = some (t, s)) : 0x80 ≤ b ∧ '\n' ∉ t ∧ s.Wide := by
  obtain ⟨hlow, hvalue⟩ := hwide
  rw [step] at h
  split at h
  · next hb =>
    have hreach : 16 ≤ value * 64 + (b.toNat - 0x80) := by
      have := UInt8.le_iff_toNat_le.1 hb.1
      omega
    refine ⟨UInt8.le_trans hlow hb.1, ?_⟩
    cases k with
    | zero =>
      obtain ⟨rfl, rfl⟩ := Prod.mk.inj (Option.some.inj h)
      exact ⟨by simpa using (ofNat_ne_lineFeed (by omega)).symm, trivial⟩
    | succ k =>
      obtain ⟨rfl, rfl⟩ := Prod.mk.inj (Option.some.inj h)
      exact ⟨List.not_mem_nil, by decide, by simp; omega⟩
  · exact nomatch h

theorem mend_lineFeed {s : State} (hs : s.Wide) :
    mend s lineFeed = (s.unfinished ++ ['\n'], .between) := by
  cases s with
  | between => rfl
  | inside k low high value =>
    have hstep : step (.inside k low high value) lineFeed = none := by
      rw [step, if_neg]
      rintro ⟨hlow, -⟩
      exact absurd (UInt8.le_trans hs.1 hlow) (by decide)
    rw [mend, hstep]
    rfl

theorem lineFeed_notMem_replacement : '\n' ∉ [replacement] := by decide

theorem mend_other {s : State} (hs : s.Wide) {b : UInt8} (hb : b ≠ lineFeed) :
    '\n' ∉ (mend s b).1 ∧ (mend s b).2.Wide := by
  have hlead {t : Text} {s : State} (h : lead b = some (t, s)) : '\n' ∉ t ∧ s.Wide := by
    rcases lead_cases h with ⟨rfl, rfl⟩ | ⟨rfl, hwide, -⟩
    · have hb' : b.toNat ≠ 10 := fun hc => hb (UInt8.toNat_inj.1 hc)
      exact ⟨by simpa using (ofNat_ne_lineFeed hb').symm, trivial⟩
    · exact ⟨List.not_mem_nil, hwide⟩
  unfold mend
  split
  · next r hstep =>
    cases s with
    | between => exact hlead hstep
    | inside k low high value => exact (step_inside hs hstep).2
  · cases s with
    | between => exact ⟨lineFeed_notMem_replacement, trivial⟩
    | inside k low high value =>
      simp only
      split
      · next hstep =>
        obtain ⟨hmem, hwide⟩ := hlead hstep
        exact ⟨List.not_mem_append lineFeed_notMem_replacement hmem, hwide⟩
      · exact ⟨by decide, trivial⟩

theorem lossyFrom_nil (s : State) : lossyFrom s [] = s.unfinished := by
  cases s <;> rfl

theorem lossyFrom_cons (s : State) (b : UInt8) (r : Bytes) :
    lossyFrom s (b :: r) = (mend s b).1 ++ lossyFrom (mend s b).2 r := by
  cases s <;> rfl

theorem lossyFrom_append_lineFeed {s : State} (hs : s.Wide) {a : Bytes} (ha : lineFeed ∉ a)
    (r : Bytes) :
    lossyFrom s (a ++ lineFeed :: r) = lossyFrom s a ++ '\n' :: lossy r := by
  induction a generalizing s with
  | nil => simp [lossyFrom_cons, mend_lineFeed hs, lossyFrom_nil, lossy]
  | cons b a ih =>
    rw [List.mem_cons, not_or] at ha
    obtain ⟨hb, ha⟩ := ha
    rw [List.cons_append, lossyFrom_cons, lossyFrom_cons, ih (mend_other hs (Ne.symm hb)).2 ha,
      List.append_assoc]

theorem lineFeed_notMem_lossyFrom {s : State} (hs : s.Wide) {a : Bytes} (ha : lineFeed ∉ a) :
    '\n' ∉ lossyFrom s a := by
  induction a generalizing s with
  | nil =>
    rw [lossyFrom_nil]
    cases s with
    | between => exact List.not_mem_nil
    | inside k low high value => exact lineFeed_notMem_replacement
  | cons b a ih =>
    rw [List.mem_cons, not_or] at ha
    obtain ⟨hb, ha⟩ := ha
    obtain ⟨hmem, hwide⟩ := mend_other hs (Ne.symm hb)
    rw [lossyFrom_cons, List.mem_append, not_or]
    exact ⟨hmem, ih hwide ha⟩

theorem splitOn_lossy (b : Bytes) :
    List.splitOn '\n' (lossy b) = (List.splitOn lineFeed b).map lossy := by
  induction b using Text.splitOn_induction lineFeed with
  | last b hb =>
    rw [List.splitOn_eq_singleton hb]
    exact List.splitOn_eq_singleton (lineFeed_notMem_lossyFrom wide_between hb)
  | cut a r ha ih =>
    rw [List.splitOn_append_cons_self_of_not_mem ha, List.map_cons, ← ih, lossy,
      lossyFrom_append_lineFeed wide_between ha]
    exact List.splitOn_append_cons_self_of_not_mem (lineFeed_notMem_lossyFrom wide_between ha) _

end LineShell.Utf8
