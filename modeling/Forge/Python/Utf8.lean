import Forge.Python.Lines

/-! # UTF-8 with replacement

`bytes.decode("utf-8", errors="replace")`, one byte at a time. A maximal part of a sequence that cannot be
completed is replaced by one U+FFFD, as is a byte that can begin none.
-/
namespace Forge.Python
set_option autoImplicit false

/-- A sequence that has begun: how many bytes it lacks, the bounds of the next one, and the bits read. -/
structure Pending where
  missing : Nat
  low : UInt8
  high : UInt8
  bits : Nat
  low_le : 0x80 ≤ low
  high_le : high ≤ 0xBF

def leadByte? (b : UInt8) : Option Pending :=
  if 0xC2 ≤ b ∧ b ≤ 0xDF then some ⟨1, 0x80, 0xBF, b.toNat - 0xC0, by decide, by decide⟩
  else if b = 0xE0 then some ⟨2, 0xA0, 0xBF, 0, by decide, by decide⟩
  else if b = 0xED then some ⟨2, 0x80, 0x9F, 13, by decide, by decide⟩
  else if 0xE1 ≤ b ∧ b ≤ 0xEF then some ⟨2, 0x80, 0xBF, b.toNat - 0xE0, by decide, by decide⟩
  else if b = 0xF0 then some ⟨3, 0x90, 0xBF, 0, by decide, by decide⟩
  else if 0xF1 ≤ b ∧ b ≤ 0xF3 then some ⟨3, 0x80, 0xBF, b.toNat - 0xF0, by decide, by decide⟩
  else if b = 0xF4 then some ⟨3, 0x80, 0x8F, 4, by decide, by decide⟩
  else none

def replacement : Char := Char.ofNat 0xFFFD

/-- A byte outside of sequences. -/
def decodeFirst (b : UInt8) : List Char × Option Pending :=
  if b < 0x80 then ([Char.ofNat b.toNat], none)
  else
    match leadByte? b with
    | none => ([replacement], none)
    | some pending => ([], some pending)

def decodeByte (state : Option Pending) (b : UInt8) : List Char × Option Pending :=
  match state with
  | none => decodeFirst b
  | some pending =>
    if pending.low ≤ b ∧ b ≤ pending.high then
      let bits := pending.bits * 64 + (b.toNat - 0x80)
      if pending.missing ≤ 1 then ([Char.ofNat bits], none)
      else ([], some ⟨pending.missing - 1, 0x80, 0xBF, bits, by decide, by decide⟩)
    else (replacement :: (decodeFirst b).1, (decodeFirst b).2)

/-- The characters of the bytes that follow a state, to the end of the input. -/
def decodeFrom : Option Pending → List UInt8 → List Char
  | none, [] => []
  | some _, [] => [replacement]
  | state, b :: bs => (decodeByte state b).1 ++ decodeFrom (decodeByte state b).2 bs

def decodeReplace (bytes : List UInt8) : List Char := decodeFrom none bytes

/-- U+2028 in three bytes, cut short, a surrogate, and a character of four bytes. -/
example : decodeReplace [0x61, 0xE2, 0x80, 0xA8, 0xE2, 0x80, 0x62, 0xED, 0xA0, 0x80, 0xF0, 0x9F, 0x98, 0x80] =
    ['a', Char.ofNat 0x2028, replacement, 'b', replacement, replacement, replacement, Char.ofNat 0x1F600] := by
  decide

/-! ## Bytes in two parts -/

def decodeRun : Option Pending → List UInt8 → List Char × Option Pending
  | state, [] => ([], state)
  | state, b :: bs =>
    ((decodeByte state b).1 ++ (decodeRun (decodeByte state b).2 bs).1, (decodeRun (decodeByte state b).2 bs).2)

theorem decodeFrom_append (state : Option Pending) (a b : List UInt8) :
    decodeFrom state (a ++ b) = (decodeRun state a).1 ++ decodeFrom (decodeRun state a).2 b := by
  induction a generalizing state with
  | nil => rfl
  | cons c a ih =>
    rw [List.cons_append, decodeFrom, ih, decodeRun, List.append_assoc]

theorem decodeFirst_continuation {b : UInt8} (hLow : 0x80 ≤ b) (hHigh : b ≤ 0xBF) :
    decodeFirst b = ([replacement], none) := by
  have hBelow : ∀ lead : UInt8, 0xBF < lead → ¬ lead ≤ b := fun lead hLead hLe =>
    UInt8.not_lt.mpr (UInt8.le_trans hLe hHigh) hLead
  have hNe : ∀ lead : UInt8, 0xBF < lead → ¬ b = lead := fun lead hLead hEq => hBelow lead hLead (hEq ▸ UInt8.le_refl b)
  have hNone : leadByte? b = none := by
    rw [leadByte?, if_neg fun h => hBelow 0xC2 (by decide) h.1, if_neg (hNe 0xE0 (by decide)),
      if_neg (hNe 0xED (by decide)), if_neg fun h => hBelow 0xE1 (by decide) h.1, if_neg (hNe 0xF0 (by decide)),
      if_neg fun h => hBelow 0xF1 (by decide) h.1, if_neg (hNe 0xF4 (by decide))]
  rw [decodeFirst, if_neg (UInt8.not_lt.mpr hLow), hNone]

/-- What the bytes after the beginning of a sequence are, with that beginning and without it. -/
theorem decodeFrom_pending (pending : Pending) (bs : List UInt8) : ∃ c n rest,
    decodeFrom (some pending) bs = c :: rest ∧ decodeFrom none bs = List.replicate n replacement ++ rest ∧
      (n = 0 → c = replacement) := by
  induction bs generalizing pending with
  | nil => exact ⟨replacement, 0, [], rfl, rfl, fun _ => rfl⟩
  | cons b bs ih =>
    by_cases hNext : pending.low ≤ b ∧ b ≤ pending.high
    · have hAlone : decodeByte none b = ([replacement], none) :=
        decodeFirst_continuation (UInt8.le_trans pending.low_le hNext.1) (UInt8.le_trans hNext.2 pending.high_le)
      have hRest : decodeFrom none (b :: bs) = replacement :: decodeFrom none bs := by
        rw [decodeFrom, hAlone]
        rfl
      by_cases hLast : pending.missing ≤ 1
      · have hDone : decodeByte (some pending) b = ([Char.ofNat (pending.bits * 64 + (b.toNat - 0x80))], none) := by
          simp only [decodeByte, if_pos hNext, if_pos hLast]
        have hGoes : decodeFrom (some pending) (b :: bs) =
            Char.ofNat (pending.bits * 64 + (b.toNat - 0x80)) :: decodeFrom none bs := by
          rw [decodeFrom, hDone]
          rfl
        exact ⟨_, 1, decodeFrom none bs, hGoes, hRest, nofun⟩
      · obtain ⟨c, n, rest, hGoes, hAfter, -⟩ := ih ⟨pending.missing - 1, 0x80, 0xBF,
          pending.bits * 64 + (b.toNat - 0x80), by decide, by decide⟩
        refine ⟨c, n + 1, rest, ?_, ?_, nofun⟩
        · rw [decodeFrom, decodeByte, if_pos hNext, ← hGoes]
          simp only [if_neg hLast]
          rfl
        · rw [hRest, hAfter]
          rfl
    · refine ⟨replacement, 0, decodeFrom none (b :: bs), ?_, rfl, fun _ => rfl⟩
      rw [decodeFrom, decodeByte, if_neg hNext]
      rfl

/-- Two parts are decoded as the whole is, unless the cut lies in a sequence: then the beginning of the sequence
is replaced, and so is each of its bytes after the cut. -/
theorem decodeReplace_append (a b : List UInt8) :
    decodeReplace (a ++ b) = decodeReplace a ++ decodeReplace b ∨
      ∃ before c n rest, decodeReplace a = before ++ [replacement] ∧
        decodeReplace b = List.replicate (n + 1) replacement ++ rest ∧
        decodeReplace (a ++ b) = before ++ c :: rest := by
  have hWhole := decodeFrom_append none a b
  have hFirst := decodeFrom_append none a []
  rw [List.append_nil] at hFirst
  cases hState : (decodeRun none a).2 with
  | none =>
    rw [hState] at hWhole hFirst
    rw [decodeFrom, List.append_nil] at hFirst
    exact .inl (hWhole.trans (by rw [← hFirst]; rfl))
  | some pending =>
    rw [hState] at hWhole hFirst
    rw [decodeFrom] at hFirst
    obtain ⟨c, n, rest, hGoes, hAlone, hNone⟩ := decodeFrom_pending pending b
    rw [hGoes] at hWhole
    cases n with
    | zero =>
      have hSame : decodeReplace b = rest := hAlone
      left
      rw [decodeReplace, hWhole, decodeReplace, hFirst, hSame, hNone rfl, List.append_assoc]
      rfl
    | succ n => exact .inr ⟨_, c, n, rest, hFirst, hAlone, hWhole⟩

/-! ## Encoding -/

/-- `text.encode()`. -/
def encodeUtf8 (text : String) : List UInt8 := text.toList.flatMap String.utf8EncodeChar

example : encodeUtf8 "é→" = [0xC3, 0xA9, 0xE2, 0x86, 0x92] := by decide

end Forge.Python
