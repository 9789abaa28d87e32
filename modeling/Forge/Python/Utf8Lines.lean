import Forge.Python.Utf8

/-! # Lines of decoded bytes

Which bytes end a line once they are decoded, and what becomes of the lines of bytes that are decoded in chunks.
-/
namespace Forge.Python
set_option autoImplicit false

/-! ## How sequences begin -/

theorem leadByte?_cases {b : UInt8} {p : Pending} (h : leadByte? b = some p) :
    (p.missing = 1 ∧ 2 ≤ p.bits ∧ p.bits < 32 ∧ b.toNat = 0xC0 + p.bits) ∨
      (p.missing = 2 ∧ b.toNat = 0xE0 + p.bits ∧ (p.bits = 0 → p.low = 0xA0)) ∨
      p.missing = 3 ∧ (p.bits = 0 → p.low = 0x90) := by
  unfold leadByte? at h
  split at h
  · rename_i hTwo
    cases h
    simp only [UInt8.le_iff_toNat_le, UInt8.reduceToNat] at hTwo
    left
    dsimp only
    omega
  · split at h
    · rename_i hLead
      cases h
      subst hLead
      exact .inr (.inl ⟨rfl, rfl, fun _ => rfl⟩)
    · split at h
      · rename_i hLead
        cases h
        subst hLead
        exact .inr (.inl ⟨rfl, rfl, fun hNone => by cases hNone⟩)
      · split at h
        · rename_i hNone _ hThree
          cases h
          simp only [UInt8.le_iff_toNat_le, UInt8.reduceToNat] at hThree
          have hNe : b.toNat ≠ 0xE0 := fun hSame => hNone (UInt8.toNat_inj.mp hSame)
          refine .inr (.inl ⟨rfl, ?_, fun hBits => ?_⟩)
          · dsimp only
            omega
          · dsimp only at hBits
            omega
        · split at h
          · cases h
            exact .inr (.inr ⟨rfl, fun _ => rfl⟩)
          · split at h
            · rename_i hFour
              cases h
              simp only [UInt8.le_iff_toNat_le, UInt8.reduceToNat] at hFour
              refine .inr (.inr ⟨rfl, fun hBits => ?_⟩)
              dsimp only at hBits
              omega
            · split at h
              · cases h
                exact .inr (.inr ⟨rfl, fun hNone => by cases hNone⟩)
              · cases h

/-- A sequence that these bytes end in. -/
inductive Begun : List UInt8 → Pending → Prop where
  | lead {bytes : List UInt8} {b : UInt8} {p : Pending} (h : leadByte? b = some p) : Begun (bytes ++ [b]) p
  | next {bytes : List UInt8} {b : UInt8} {p q : Pending} (before : Begun bytes p) (low : p.low ≤ b) (high : b ≤ p.high)
      (more : 1 < p.missing) (missing : q.missing = p.missing - 1)
      (bits : q.bits = p.bits * 64 + (b.toNat - 0x80)) : Begun (bytes ++ [b]) q

theorem leadByte?_of_decodeFirst {b : UInt8} {p : Pending} (h : (decodeFirst b).2 = some p) : leadByte? b = some p := by
  unfold decodeFirst at h
  split at h
  · cases h
  · split at h
    · cases h
    · rename_i q hLead
      cases h
      exact hLead

theorem decodeRun_concat (state : Option Pending) (bytes : List UInt8) (b : UInt8) :
    decodeRun state (bytes ++ [b]) = ((decodeRun state bytes).1 ++ (decodeByte (decodeRun state bytes).2 b).1,
      (decodeByte (decodeRun state bytes).2 b).2) := by
  induction bytes generalizing state with
  | nil => simp only [List.nil_append, decodeRun, List.append_nil]
  | cons c bytes ih => simp only [List.cons_append, decodeRun, ih, List.append_assoc]

theorem begun_of_decodeRun {bytes : List UInt8} {p : Pending} (h : (decodeRun none bytes).2 = some p) :
    Begun bytes p := by
  induction bytes using List.reverseRecOn generalizing p with
  | nil => cases h
  | append_singleton bytes b ih =>
    rw [decodeRun_concat] at h
    dsimp only at h
    cases hState : (decodeRun none bytes).2 with
    | none =>
      rw [hState] at h
      exact .lead (leadByte?_of_decodeFirst h)
    | some q =>
      rw [hState] at h
      unfold decodeByte at h
      dsimp only at h
      split at h
      · rename_i hNext
        split at h
        · cases h
        · rename_i hMore
          cases h
          exact .next (ih hState) hNext.1 hNext.2 (Nat.lt_of_not_le hMore) rfl rfl
      · exact .lead (leadByte?_of_decodeFirst h)

theorem Begun.missing_bounds {bytes : List UInt8} {p : Pending} (h : Begun bytes p) :
    1 ≤ p.missing ∧ p.missing ≤ 3 := by
  induction h with
  | lead hLead =>
    have hCases := leadByte?_cases hLead
    omega
  | next before low high more missing bits ih => omega

theorem Begun.low_of_three {bytes : List UInt8} {p : Pending} (h : Begun bytes p) (hMissing : p.missing = 3)
    (hBits : p.bits = 0) : p.low = 0x90 := by
  cases h with
  | lead hLead =>
    rcases leadByte?_cases hLead with hTwo | hThree | hFour
    · omega
    · omega
    · exact hFour.2 hBits
  | next before low high more missing bits =>
    have hBounds := before.missing_bounds
    omega

/-- The bits of a sequence of three bytes, after its first. -/
theorem Begun.lead_of_two {bytes : List UInt8} {p : Pending} (h : Begun bytes p) (hMissing : p.missing = 2)
    (hBits : p.bits < 16) : (∃ before b, bytes = before ++ [b] ∧ b.toNat = 0xE0 + p.bits) ∧
      (p.bits = 0 → p.low = 0xA0) := by
  cases h with
  | @lead before b p hLead =>
    rcases leadByte?_cases hLead with hTwo | hThree | hFour
    · omega
    · exact ⟨⟨before, b, rfl, hThree.2.1⟩, hThree.2.2⟩
    · omega
  | @next before b p q hBefore low high more missing bits =>
    have hLow := hBefore.low_of_three (by omega) (by omega)
    rw [hLow, UInt8.le_iff_toNat_le] at low
    simp only [UInt8.reduceToNat] at low
    omega

/-- The bits of a character but for the last six, which are those of U+0085 or of U+2028. -/
theorem Begun.suffix_of_one {bytes : List UInt8} {p : Pending} (h : Begun bytes p) (hMissing : p.missing = 1) :
    2 ≤ p.bits ∧ (p.bits = 2 → [0xC2] <:+ bytes) ∧ (p.bits = 0x80 → [0xE2, 0x80] <:+ bytes) := by
  cases h with
  | @lead before b p hLead =>
    rcases leadByte?_cases hLead with hTwo | hThree | hFour
    · refine ⟨hTwo.2.1, fun hBits => ?_, fun hBits => by omega⟩
      have hLead : b = 0xC2 := UInt8.toNat_inj.mp (by rw [hTwo.2.2.2, hBits]; rfl)
      exact ⟨before, by rw [hLead]⟩
    · omega
    · omega
  | @next before b p q hBefore low high more missing bits =>
    have hTwo : p.missing = 2 := by omega
    have hHigh : b.toNat ≤ 0xBF := UInt8.le_iff_toNat_le.mp (UInt8.le_trans high p.high_le)
    have hAbove : 0x80 ≤ b.toNat := UInt8.le_iff_toNat_le.mp (UInt8.le_trans p.low_le low)
    have hZero : p.bits = 0 → 0xA0 ≤ b.toNat := by
      intro hNone
      rw [(hBefore.lead_of_two hTwo (by omega)).2 hNone, UInt8.le_iff_toNat_le] at low
      exact low
    refine ⟨by omega, fun hBits => by omega, fun hBits => ?_⟩
    obtain ⟨front, c, rfl, hLead⟩ := (hBefore.lead_of_two hTwo (by omega)).1
    have hc : c = 0xE2 := UInt8.toNat_inj.mp (show c.toNat = 0xE2 by omega)
    have hb : b = 0x80 := UInt8.toNat_inj.mp (show b.toNat = 0x80 by omega)
    exact ⟨front, by rw [hc, hb, List.append_assoc]; rfl⟩

/-! ## The last character -/

theorem isLineBreak_replacement : isLineBreak replacement = false := by decide

/-- The last character of decoded bytes, from the state before their last byte. -/
def lastChar (state : Option Pending) (b : UInt8) : Char :=
  if b < 0x80 then Char.ofNat b.toNat
  else
    match state with
    | none => replacement
    | some p =>
      if (p.low ≤ b ∧ b ≤ p.high) ∧ p.missing ≤ 1 then Char.ofNat (p.bits * 64 + (b.toNat - 0x80)) else replacement

theorem getLast?_decodeFirst (b : UInt8) :
    ((decodeFirst b).1 ++ decodeFrom (decodeFirst b).2 []).getLast? = some (lastChar none b) := by
  rw [decodeFirst, lastChar]
  split
  · rfl
  · cases leadByte? b with
    | none => rfl
    | some p => rfl

theorem getLast?_decodeFrom (state : Option Pending) (b : UInt8) :
    (decodeFrom state [b]).getLast? = some (lastChar state b) := by
  rw [decodeFrom]
  cases state with
  | none => exact getLast?_decodeFirst b
  | some p =>
    by_cases hNext : p.low ≤ b ∧ b ≤ p.high
    · have hHigh : ¬ b < 0x80 := UInt8.not_lt.mpr (UInt8.le_trans p.low_le hNext.1)
      by_cases hLast : p.missing ≤ 1
      · simp only [decodeByte, lastChar, if_neg hHigh, hNext, hLast, and_self, if_true]
        rfl
      · simp only [decodeByte, lastChar, if_pos hNext, if_neg hHigh, hLast, and_false, if_false]
        rfl
    · have hAlone : lastChar (some p) b = lastChar none b := by
        simp only [lastChar, hNext, false_and, if_false]
      have hTail : (decodeFirst b).1 ++ decodeFrom (decodeFirst b).2 [] ≠ [] := by
        intro hNone
        have hLast := getLast?_decodeFirst b
        rw [hNone] at hLast
        cases hLast
      rw [hAlone, ← getLast?_decodeFirst b]
      simp only [decodeByte, if_neg hNext, List.cons_append]
      exact List.getLast?_cons_of_ne_nil hTail

theorem getLast?_decodeReplace (bytes : List UInt8) (b : UInt8) :
    (decodeReplace (bytes ++ [b])).getLast? = some (lastChar (decodeRun none bytes).2 b) := by
  rw [decodeReplace, decodeFrom_append, List.getLast?_append, getLast?_decodeFrom]
  rfl

/-! ## Line breaks in bytes -/

/-- The bytes of the characters at which `splitlines` ends a line. -/
def lineBreakBytes : List (List UInt8) :=
  [[0x0A], [0x0B], [0x0C], [0x0D], [0x1C], [0x1D], [0x1E], [0xC2, 0x85], [0xE2, 0x80, 0xA8], [0xE2, 0x80, 0xA9]]

theorem concat_suffix_concat {α : Type} {front bytes : List α} {x b : α} :
    front ++ [x] <:+ bytes ++ [b] ↔ front <:+ bytes ∧ x = b := by
  constructor
  · rintro ⟨before, hSame⟩
    rw [← List.append_assoc] at hSame
    obtain ⟨hFront, hLast⟩ := List.append_inj' hSame rfl
    exact ⟨⟨before, hFront⟩, (List.cons.inj hLast).1⟩
  · rintro ⟨⟨before, rfl⟩, rfl⟩
    exact ⟨before, (List.append_assoc _ _ _).symm⟩

theorem isLineBreak_iff {c : Char} : isLineBreak c = true ↔ (10 ≤ c.toNat ∧ c.toNat ≤ 13) ∨
    (28 ≤ c.toNat ∧ c.toNat ≤ 30) ∨ c.toNat = 133 ∨ c.toNat = 8232 ∨ c.toNat = 8233 := by
  simp only [isLineBreak, Bool.or_eq_true, Bool.and_eq_true, decide_eq_true_eq, beq_iff_eq, or_assoc]

theorem toNat_ofNat_or (n : Nat) : (Char.ofNat n).toNat = n ∨ (Char.ofNat n).toNat = 0 := by
  by_cases h : n.isValidChar
  · left
    rw [Char.ofNat, dif_pos h]
    rfl
  · right
    rw [Char.ofNat, dif_neg h]
    rfl

theorem decodeByte_of_high (state : Option Pending) {b : UInt8} (h : 0xBF < b) :
    (decodeByte state b).2 = (decodeFirst b).2 := by
  cases state with
  | none => rfl
  | some p =>
    have hOut : ¬(p.low ≤ b ∧ b ≤ p.high) := fun hNext =>
      UInt8.not_lt.mpr (UInt8.le_trans hNext.2 p.high_le) h
    simp only [decodeByte, if_neg hOut]

theorem lastChar_ascii {b : UInt8} (h : b < 0x80) (state : Option Pending) :
    lastChar state b = Char.ofNat b.toNat := if_pos h

theorem decodeRun_two (bytes : List UInt8) :
    (decodeRun none (bytes ++ [0xC2])).2 = some ⟨1, 0x80, 0xBF, 2, by decide, by decide⟩ := by
  rw [decodeRun_concat]
  exact decodeByte_of_high _ (by decide)

theorem decodeRun_three (bytes : List UInt8) :
    (decodeRun none (bytes ++ [0xE2, 0x80])).2 = some ⟨1, 0x80, 0xBF, 0x80, by decide, by decide⟩ := by
  have hLead : (decodeRun none (bytes ++ [0xE2])).2 = some ⟨2, 0x80, 0xBF, 2, by decide, by decide⟩ := by
    rw [decodeRun_concat]
    exact decodeByte_of_high _ (by decide)
  have hSplit : bytes ++ [0xE2, 0x80] = (bytes ++ [0xE2]) ++ [0x80] := (List.append_assoc bytes [0xE2] [0x80]).symm
  rw [hSplit, decodeRun_concat, hLead]
  rfl

theorem lastChar_of_suffix {bytes : List UInt8} {b : UInt8} {ending : List UInt8}
    (hEnding : ending ∈ lineBreakBytes) (h : ending <:+ bytes ++ [b]) :
    isLineBreak (lastChar (decodeRun none bytes).2 b) = true := by
  have hAscii : ∀ x : UInt8, [] ++ [x] <:+ bytes ++ [b] → x < 0x80 → isLineBreak (Char.ofNat x.toNat) = true →
      isLineBreak (lastChar (decodeRun none bytes).2 b) = true := by
    intro x hSuffix hLow hBreak
    obtain ⟨-, rfl⟩ := concat_suffix_concat.mp hSuffix
    rwa [lastChar_ascii hLow]
  have hThree : ∀ x : UInt8, [0xE2, 0x80] ++ [x] <:+ bytes ++ [b] →
      isLineBreak (lastChar (some ⟨1, 0x80, 0xBF, 0x80, by decide, by decide⟩) x) = true →
      isLineBreak (lastChar (decodeRun none bytes).2 b) = true := by
    intro x hSuffix hBreak
    obtain ⟨⟨front, rfl⟩, rfl⟩ := concat_suffix_concat.mp hSuffix
    rwa [decodeRun_three]
  simp only [lineBreakBytes, List.mem_cons, List.not_mem_nil, or_false] at hEnding
  rcases hEnding with rfl | rfl | rfl | rfl | rfl | rfl | rfl | rfl | rfl | rfl
  · exact hAscii 0x0A h (by decide) (by decide)
  · exact hAscii 0x0B h (by decide) (by decide)
  · exact hAscii 0x0C h (by decide) (by decide)
  · exact hAscii 0x0D h (by decide) (by decide)
  · exact hAscii 0x1C h (by decide) (by decide)
  · exact hAscii 0x1D h (by decide) (by decide)
  · exact hAscii 0x1E h (by decide) (by decide)
  · obtain ⟨⟨front, rfl⟩, rfl⟩ := concat_suffix_concat.mp (show [0xC2] ++ [0x85] <:+ bytes ++ [b] from h)
    rw [decodeRun_two]
    decide
  · exact hThree 0xA8 h (by decide)
  · exact hThree 0xA9 h (by decide)

/-- The last byte is ASCII, or what it completes is not, or it completes nothing. -/
theorem lastChar_high {bytes : List UInt8} {b : UInt8} (hAscii : ¬ b < 0x80) :
    lastChar (decodeRun none bytes).2 b = replacement ∨ ∃ p, Begun bytes p ∧ p.missing = 1 ∧ b.toNat ≤ 0xBF ∧
      lastChar (decodeRun none bytes).2 b = Char.ofNat (p.bits * 64 + (b.toNat - 0x80)) := by
  cases hState : (decodeRun none bytes).2 with
  | none => exact .inl (if_neg hAscii)
  | some p =>
    simp only [lastChar, if_neg hAscii]
    split
    · rename_i hLast
      have hBegun := begun_of_decodeRun hState
      exact .inr ⟨p, hBegun, Nat.le_antisymm hLast.2 hBegun.missing_bounds.1,
        UInt8.le_iff_toNat_le.mp (UInt8.le_trans hLast.1.2 p.high_le), rfl⟩
    · exact .inl rfl

theorem suffix_of_lastChar {bytes : List UInt8} {b : UInt8}
    (h : isLineBreak (lastChar (decodeRun none bytes).2 b) = true) :
    ∃ ending ∈ lineBreakBytes, ending <:+ bytes ++ [b] := by
  by_cases hAscii : b < 0x80
  · rw [lastChar_ascii hAscii, isLineBreak_iff] at h
    have hValue : b.toNat < 0x80 := hAscii
    have hSame : (Char.ofNat b.toNat).toNat = b.toNat ∨ (Char.ofNat b.toNat).toNat = 0 := toNat_ofNat_or _
    have hEnding : [b] ∈ lineBreakBytes := by
      simp only [lineBreakBytes, List.mem_cons, List.cons.injEq, ← UInt8.toNat_inj, UInt8.reduceToNat, and_true]
      omega
    exact ⟨[b], hEnding, List.suffix_append bytes [b]⟩
  · have hHigh : 0x80 ≤ b.toNat := UInt8.le_iff_toNat_le.mp (UInt8.not_lt.mp hAscii)
    rcases lastChar_high hAscii with hNone | ⟨p, hBegun, hMissing, hAbove, hSome⟩
    · rw [hNone, isLineBreak_replacement] at h
      cases h
    · rw [hSome, isLineBreak_iff] at h
      obtain ⟨hBits, hTwo, hThree⟩ := hBegun.suffix_of_one hMissing
      have hSame := toNat_ofNat_or (p.bits * 64 + (b.toNat - 0x80))
      rcases (by omega : p.bits = 2 ∧ b.toNat = 0x85 ∨ p.bits = 0x80 ∧ b.toNat = 0xA8 ∨
        p.bits = 0x80 ∧ b.toNat = 0xA9) with ⟨hLead, hLast⟩ | ⟨hLead, hLast⟩ | ⟨hLead, hLast⟩
      · have hb : b = 0x85 := UInt8.toNat_inj.mp hLast
        exact ⟨[0xC2] ++ [0x85], by decide, concat_suffix_concat.mpr ⟨hTwo hLead, hb.symm⟩⟩
      · have hb : b = 0xA8 := UInt8.toNat_inj.mp hLast
        exact ⟨[0xE2, 0x80] ++ [0xA8], by decide, concat_suffix_concat.mpr ⟨hThree hLead, hb.symm⟩⟩
      · have hb : b = 0xA9 := UInt8.toNat_inj.mp hLast
        exact ⟨[0xE2, 0x80] ++ [0xA9], by decide, concat_suffix_concat.mpr ⟨hThree hLead, hb.symm⟩⟩

theorem lastChar_eq_cr_iff {bytes : List UInt8} {b : UInt8} :
    lastChar (decodeRun none bytes).2 b = '\r' ↔ b = 0x0D := by
  constructor
  · intro h
    have hCr : (lastChar (decodeRun none bytes).2 b).toNat = 13 := by
      rw [h]
      rfl
    by_cases hAscii : b < 0x80
    · rw [lastChar_ascii hAscii] at hCr
      have hSame := toNat_ofNat_or b.toNat
      exact UInt8.toNat_inj.mp (show b.toNat = 13 by omega)
    · rcases lastChar_high hAscii with hNone | ⟨p, hBegun, hMissing, -, hSome⟩
      · rw [h] at hNone
        cases hNone
      · have hBits := (hBegun.suffix_of_one hMissing).1
        have hSame := toNat_ofNat_or (p.bits * 64 + (b.toNat - 0x80))
        rw [hSome] at hCr
        omega
  · rintro rfl
    exact lastChar_ascii (by decide) _

/-- A sequence that is completed or given up is no newline. -/
theorem Begun.head?_ne {before bytes : List UInt8} {p : Pending} (h : Begun before p) :
    (decodeFrom (some p) bytes).head? ≠ some '\n' := by
  induction bytes generalizing before p with
  | nil =>
    intro hHead
    cases Option.some.inj hHead
  | cons b bytes ih =>
    rw [decodeFrom, decodeByte]
    split
    · rename_i hNext
      dsimp only
      split
      · rename_i hLast
        intro hHead
        have hChar : Char.ofNat (p.bits * 64 + (b.toNat - 0x80)) = '\n' := Option.some.inj hHead
        have hBits := (h.suffix_of_one (Nat.le_antisymm hLast h.missing_bounds.1)).1
        have hSame := toNat_ofNat_or (p.bits * 64 + (b.toNat - 0x80))
        rw [hChar] at hSame
        have hNewline : '\n'.toNat = 10 := rfl
        omega
      · rename_i hMore
        exact ih (.next h hNext.1 hNext.2 (Nat.lt_of_not_le hMore) rfl rfl)
    · intro hHead
      cases Option.some.inj hHead

theorem head?_decodeReplace {bytes : List UInt8} :
    (decodeReplace bytes).head? = some '\n' ↔ bytes.head? = some 0x0A := by
  cases bytes with
  | nil => exact iff_of_false nofun nofun
  | cons b bytes =>
    rw [decodeReplace, decodeFrom, decodeByte, List.head?_cons, Option.some.injEq, decodeFirst]
    split
    · have hSame := toNat_ofNat_or b.toNat
      constructor
      · intro hHead
        have hChar : Char.ofNat b.toNat = '\n' := Option.some.inj hHead
        rw [hChar] at hSame
        have hNewline : '\n'.toNat = 10 := rfl
        exact UInt8.toNat_inj.mp (show b.toNat = 10 by omega)
      · rintro rfl
        rfl
    · rename_i hAscii
      have hNot : b ≠ 0x0A := by
        rintro rfl
        exact hAscii (by decide)
      refine iff_of_false (fun hHead => ?_) hNot
      cases hLead : leadByte? b with
      | none =>
        rw [hLead] at hHead
        cases Option.some.inj hHead
      | some p =>
        rw [hLead] at hHead
        have hBegun : Begun ([] ++ [b]) p := .lead hLead
        exact hBegun.head?_ne hHead

/-- The bytes `a` end with a line break, which the bytes `b` do not go on with. -/
def EndsLine (a b : List UInt8) : Prop :=
  a = [] ∨ b = [] ∨ (∃ ending ∈ lineBreakBytes, ending <:+ a) ∧ ¬(a.getLast? = some 0x0D ∧ b.head? = some 0x0A)

theorem decodeReplace_eq_nil {bytes : List UInt8} : decodeReplace bytes = [] ↔ bytes = [] := by
  rcases List.eq_nil_or_concat bytes with rfl | ⟨front, b, rfl⟩
  · exact iff_of_true rfl rfl
  · refine iff_of_false (fun hNone => ?_) (by simp)
    have hLast := getLast?_decodeReplace front b
    rw [← List.concat_eq_append, hNone] at hLast
    cases hLast

theorem lineEnd_decode_iff (a b : List UInt8) : LineEnd (decodeReplace a) (decodeReplace b) ↔ EndsLine a b := by
  rw [LineEnd, EndsLine, decodeReplace_eq_nil, decodeReplace_eq_nil, head?_decodeReplace]
  rcases List.eq_nil_or_concat a with rfl | ⟨front, c, rfl⟩
  · exact iff_of_true (.inl rfl) (.inl rfl)
  · rw [List.concat_eq_append, getLast?_decodeReplace, List.getLast?_concat, Option.some.injEq, Option.some.injEq,
      lastChar_eq_cr_iff]
    have hBreak : (∃ d ∈ some (lastChar (decodeRun none front).2 c), isLineBreak d = true) ↔
        ∃ ending ∈ lineBreakBytes, ending <:+ front ++ [c] := by
      constructor
      · rintro ⟨d, hd, hBreak⟩
        cases hd
        exact suffix_of_lastChar hBreak
      · rintro ⟨ending, hEnding, hSuffix⟩
        exact ⟨_, rfl, lastChar_of_suffix hEnding hSuffix⟩
    rw [hBreak]

/-! ## Lines of chunks -/

theorem lineWeight_replacement : lineWeight (lineBodies [replacement]) = 2 := by
  rw [lineBodies_single isLineBreak_replacement]
  rfl

theorem lineWeight_single_le (c : Char) : lineWeight (lineBodies [c]) ≤ 2 := by
  cases hBreak : isLineBreak c with
  | false =>
    rw [lineBodies_single hBreak]
    rfl
  | true =>
    rw [lineWeight_break hBreak (by simp)]
    decide

theorem lineWeight_replicate (n : Nat) (cs : List Char) :
    lineWeight (lineBodies cs) + n ≤ lineWeight (lineBodies (List.replicate n replacement ++ cs)) := by
  induction n with
  | zero => exact le_rfl
  | succ n ih =>
    rw [List.replicate_succ, List.cons_append]
    by_cases hRest : List.replicate n replacement ++ cs = []
    · rw [hRest] at ih ⊢
      have hNone : lineWeight (lineBodies []) = 0 := rfl
      rw [hNone] at ih
      rw [lineWeight_replacement]
      omega
    · rw [lineWeight_char isLineBreak_replacement hRest]
      omega

/-- At the end of a text, no character weighs more than one that ends no line. -/
theorem lineWeight_concat_le (before : List Char) (c : Char) :
    lineWeight (lineBodies (before ++ [c])) ≤ lineWeight (lineBodies (before ++ [replacement])) := by
  have hAppend := lineWeight_append_le before [c]
  have hSingle := lineWeight_single_le c
  by_cases hEnd : LineEnd before [replacement]
  · rw [lineBodies_append hEnd, lineWeight_append, lineWeight_replacement]
    omega
  · have hMore := lineWeight_of_not_lineEnd hEnd
    have hAlso : ¬LineEnd before [c] := by
      rintro (rfl | hNone | ⟨hBreak, -⟩)
      · exact hEnd (.inl rfl)
      · cases hNone
      · exact hEnd (.inr (.inr ⟨hBreak, fun hCr => absurd hCr.2 (by decide)⟩))
    have hLess := lineWeight_of_not_lineEnd hAlso
    rw [lineWeight_replacement] at hMore
    omega

theorem lineBodies_decode_append {a b : List UInt8} (h : LineEnd (decodeReplace a) (decodeReplace b)) :
    lineBodies (decodeReplace (a ++ b)) = lineBodies (decodeReplace a) ++ lineBodies (decodeReplace b) := by
  rcases decodeReplace_append a b with hWhole | ⟨before, c, n, rest, ha, hb, -⟩
  · rw [hWhole, lineBodies_append h]
  · rw [ha, hb] at h
    rcases h with hEmpty | hEmpty | ⟨hBreak, -⟩
    · simp at hEmpty
    · simp at hEmpty
    · simp [isLineBreak_replacement] at hBreak

theorem lineWeight_decode_append {a b : List UInt8} (h : ¬LineEnd (decodeReplace a) (decodeReplace b)) :
    lineWeight (lineBodies (decodeReplace (a ++ b))) <
      lineWeight (lineBodies (decodeReplace a)) + lineWeight (lineBodies (decodeReplace b)) := by
  rcases decodeReplace_append a b with hWhole | ⟨before, c, n, rest, ha, hb, hWhole⟩
  · have hMore := lineWeight_of_not_lineEnd h
    rw [hWhole]
    omega
  · have hSplit := lineWeight_append_le (before ++ [c]) rest
    have hConcat := lineWeight_concat_le before c
    have hReplaced := lineWeight_replicate (n + 1) rest
    rw [List.append_assoc, List.singleton_append] at hSplit
    rw [hWhole, ha, hb]
    omega

/-- The lines of chunks that are decoded one by one. -/
def chunkLines (chunks : List (List UInt8)) : List (List Char) :=
  chunks.flatMap fun chunk => lineBodies (decodeReplace chunk)

/-- Every chunk ends where a line of the whole ends. -/
def CutsAtLineEnds : List (List UInt8) → Prop
  | [] => True
  | chunk :: rest => EndsLine chunk rest.flatten ∧ CutsAtLineEnds rest

theorem chunkLines_cons (chunk : List UInt8) (rest : List (List UInt8)) :
    chunkLines (chunk :: rest) = lineBodies (decodeReplace chunk) ++ chunkLines rest := List.flatMap_cons

theorem lineWeight_chunkLines (chunks : List (List UInt8)) :
    lineWeight (lineBodies (decodeReplace chunks.flatten)) ≤ lineWeight (chunkLines chunks) := by
  induction chunks with
  | nil => exact le_rfl
  | cons chunk rest ih =>
    rw [chunkLines_cons, lineWeight_append, List.flatten_cons]
    by_cases hEnd : LineEnd (decodeReplace chunk) (decodeReplace rest.flatten)
    · rw [lineBodies_decode_append hEnd, lineWeight_append]
      omega
    · have hLess := lineWeight_decode_append hEnd
      omega

/-- Chunks that are decoded one by one give the lines of the whole if and only if they end where its lines end. -/
theorem chunkLines_eq_iff (chunks : List (List UInt8)) :
    chunkLines chunks = lineBodies (decodeReplace chunks.flatten) ↔ CutsAtLineEnds chunks := by
  induction chunks with
  | nil => exact iff_of_true rfl trivial
  | cons chunk rest ih =>
    have hRest := lineWeight_chunkLines rest
    rw [chunkLines_cons, List.flatten_cons, CutsAtLineEnds, ← lineEnd_decode_iff]
    constructor
    · intro hSame
      have hWeight := congrArg lineWeight hSame
      rw [lineWeight_append] at hWeight
      have hEnd : LineEnd (decodeReplace chunk) (decodeReplace rest.flatten) := by
        by_contra hNot
        have hLess := lineWeight_decode_append hNot
        omega
      rw [lineBodies_decode_append hEnd] at hSame
      exact ⟨hEnd, ih.mp (List.append_cancel_left hSame)⟩
    · rintro ⟨hEnd, hCuts⟩
      rw [lineBodies_decode_append hEnd, ih.mpr hCuts]

end Forge.Python
