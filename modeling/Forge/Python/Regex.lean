import Mathlib.Data.String.Basic

/-! # Regular expressions

Patterns of `re` without groups or look-around, decided by derivatives. A pattern that is
anchored at both ends matches a string exactly when the string is in its language, up to the one
newline that `$` leaves unread.
-/
namespace Forge.Python
set_option autoImplicit false

inductive Regex
  | eps
  | chars (p : Char → Bool)
  | seq (a b : Regex)
  | alt (a b : Regex)
  | star (a : Regex)

namespace Regex

def never : Regex := .chars fun _ => false

def char (c : Char) : Regex := .chars (· == c)

def opt (a : Regex) : Regex := .alt .eps a

def nullable : Regex → Bool
  | .eps => true
  | .chars _ => false
  | .seq a b => nullable a && nullable b
  | .alt a b => nullable a || nullable b
  | .star _ => true

def deriv (c : Char) : Regex → Regex
  | .eps => never
  | .chars p => if p c then .eps else never
  | .seq a b => if nullable a then .alt (.seq (deriv c a) b) (deriv c b) else .seq (deriv c a) b
  | .alt a b => .alt (deriv c a) (deriv c b)
  | .star a => .seq (deriv c a) (.star a)

def accepts (r : Regex) : List Char → Bool
  | [] => nullable r
  | c :: cs => accepts (deriv c r) cs

/-- `re.match("^r$", s)`: the anchor `$` also matches before a final newline. -/
def matchAnchored (r : Regex) (s : String) : Bool :=
  accepts r s.toList || (s.toList.getLast? == some '\n' && accepts r s.toList.dropLast)

/-! ## The language of a pattern -/

theorem accepts_never (cs : List Char) : accepts never cs = false := by
  induction cs with
  | nil => rfl
  | cons c cs ih => exact ih

theorem accepts_eps {cs : List Char} : accepts .eps cs = true ↔ cs = [] := by
  cases cs with
  | nil => simp [accepts, nullable]
  | cons c cs =>
    rw [accepts, deriv, accepts_never]
    simp

theorem accepts_chars {p : Char → Bool} {cs : List Char} :
    accepts (.chars p) cs = true ↔ ∃ c, cs = [c] ∧ p c = true := by
  cases cs with
  | nil => simp [accepts, nullable]
  | cons c cs =>
    rw [accepts, deriv]
    split
    · rename_i hp
      rw [accepts_eps]
      simp [hp]
    · rename_i hp
      rw [accepts_never]
      simp [hp]

theorem accepts_alt {a b : Regex} {cs : List Char} :
    accepts (.alt a b) cs = true ↔ accepts a cs = true ∨ accepts b cs = true := by
  induction cs generalizing a b with
  | nil => simp [accepts, nullable]
  | cons c cs ih => exact ih

theorem accepts_seq {a b : Regex} {cs : List Char} : accepts (.seq a b) cs = true ↔
    ∃ pre post, cs = pre ++ post ∧ accepts a pre = true ∧ accepts b post = true := by
  induction cs generalizing a with
  | nil => simp [accepts, nullable]
  | cons c cs ih =>
    have hStep : accepts (.seq (deriv c a) b) cs = true ↔
        ∃ pre post, c :: cs = c :: pre ++ post ∧ accepts a (c :: pre) = true ∧ accepts b post = true := by
      rw [ih]
      simp [accepts]
    have hSplit : (∃ pre post, c :: cs = pre ++ post ∧ accepts a pre = true ∧ accepts b post = true) ↔
        (∃ pre post, c :: cs = c :: pre ++ post ∧ accepts a (c :: pre) = true ∧ accepts b post = true) ∨
          nullable a = true ∧ accepts b (c :: cs) = true := by
      constructor
      · rintro ⟨pre, post, hEq, ha, hb⟩
        cases pre with
        | nil => exact .inr ⟨ha, by rw [hEq]; exact hb⟩
        | cons d pre =>
          cases hEq
          exact .inl ⟨pre, post, rfl, ha, hb⟩
      · rintro (⟨pre, post, hEq, ha, hb⟩ | ⟨ha, hb⟩)
        · exact ⟨c :: pre, post, hEq, ha, hb⟩
        · exact ⟨[], c :: cs, rfl, ha, hb⟩
    rw [hSplit, ← hStep, accepts, deriv]
    split
    · rename_i hNullable
      rw [accepts_alt]
      simp [hNullable, accepts]
    · rename_i hNullable
      simp [hNullable]

theorem accepts_star_cons {a : Regex} {c : Char} {cs : List Char} :
    accepts (.star a) (c :: cs) = true ↔
      ∃ pre post, cs = pre ++ post ∧ accepts a (c :: pre) = true ∧ accepts (.star a) post = true := by
  rw [accepts, deriv, accepts_seq]
  rfl

theorem accepts_char {c : Char} {cs : List Char} : accepts (.char c) cs = true ↔ cs = [c] := by
  rw [char, accepts_chars]
  simp

theorem accepts_opt {a : Regex} {cs : List Char} :
    accepts (.opt a) cs = true ↔ cs = [] ∨ accepts a cs = true := by
  rw [opt, accepts_alt, accepts_eps]

theorem accepts_star {a : Regex} {cs : List Char} (h : accepts (.star a) cs = true) :
    ∃ parts : List (List Char), (∀ part ∈ parts, accepts a part = true) ∧ cs = parts.flatten := by
  induction hLength : cs.length using Nat.strong_induction_on generalizing cs with
  | _ n ih =>
    cases cs with
    | nil => exact ⟨[], by simp, rfl⟩
    | cons c cs =>
      obtain ⟨pre, post, rfl, hPart, hStar⟩ := accepts_star_cons.mp h
      have hShorter : post.length < n := by
        rw [← hLength]
        simp only [List.length_cons, List.length_append]
        omega
      obtain ⟨parts, hParts, rfl⟩ := ih post.length hShorter hStar rfl
      exact ⟨(c :: pre) :: parts, List.forall_mem_cons.mpr ⟨hPart, hParts⟩, rfl⟩

theorem matchAnchored_iff {r : Regex} {s : String} : r.matchAnchored s = true ↔
    ∃ body tail, s.toList = body ++ tail ∧ accepts r body = true ∧ (tail = [] ∨ tail = ['\n']) := by
  rw [matchAnchored, Bool.or_eq_true, Bool.and_eq_true, beq_iff_eq]
  constructor
  · rintro (h | ⟨hLast, h⟩)
    · exact ⟨s.toList, [], (List.append_nil _).symm, h, .inl rfl⟩
    · obtain ⟨init, hInit⟩ := List.getLast?_eq_some_iff.mp hLast
      rw [hInit, List.dropLast_concat] at h
      exact ⟨init, ['\n'], hInit, h, .inr rfl⟩
  · rintro ⟨body, tail, hText, h, rfl | rfl⟩
    · rw [hText, List.append_nil]
      exact .inl h
    · rw [hText, List.getLast?_concat, List.dropLast_concat]
      exact .inr ⟨rfl, h⟩

/-- Every character that the pattern can read satisfies `p`. -/
def Over (p : Char → Prop) : Regex → Prop
  | .eps => True
  | .chars q => ∀ c, q c = true → p c
  | .seq a b => a.Over p ∧ b.Over p
  | .alt a b => a.Over p ∧ b.Over p
  | .star a => a.Over p

theorem Over.mono {p q : Char → Prop} {r : Regex} (h : ∀ c, p c → q c) (hOver : r.Over p) : r.Over q := by
  induction r with
  | eps => trivial
  | chars accept => exact fun c hc => h c (hOver c hc)
  | seq a b iha ihb => exact ⟨iha hOver.1, ihb hOver.2⟩
  | alt a b iha ihb => exact ⟨iha hOver.1, ihb hOver.2⟩
  | star a iha => exact iha hOver

theorem Over.of_accepts {p : Char → Prop} {r : Regex} (hOver : r.Over p) {cs : List Char}
    (h : accepts r cs = true) : ∀ c ∈ cs, p c := by
  induction r generalizing cs with
  | eps =>
    cases accepts_eps.mp h
    simp
  | chars q =>
    obtain ⟨c, rfl, hc⟩ := accepts_chars.mp h
    simpa using hOver c hc
  | seq a b iha ihb =>
    obtain ⟨pre, post, rfl, ha, hb⟩ := accepts_seq.mp h
    intro c hc
    cases List.mem_append.mp hc with
    | inl hPre => exact iha hOver.1 ha c hPre
    | inr hPost => exact ihb hOver.2 hb c hPost
  | alt a b iha ihb =>
    cases accepts_alt.mp h with
    | inl ha => exact iha hOver.1 ha
    | inr hb => exact ihb hOver.2 hb
  | star a iha =>
    obtain ⟨parts, hParts, rfl⟩ := accepts_star h
    intro c hc
    obtain ⟨part, hPart, hc⟩ := List.mem_flatten.mp hc
    exact iha hOver (hParts part hPart) c hc

theorem Over.of_matchAnchored {p : Char → Prop} {r : Regex} (hOver : r.Over p) {s : String}
    (h : r.matchAnchored s = true) : ∀ c ∈ s.toList, p c ∨ c = '\n' := by
  obtain ⟨body, tail, hText, hBody, hTail⟩ := matchAnchored_iff.mp h
  intro c hc
  rw [hText] at hc
  cases List.mem_append.mp hc with
  | inl hMem => exact .inl (hOver.of_accepts hBody c hMem)
  | inr hMem =>
    rcases hTail with rfl | rfl
    · exact absurd hMem List.not_mem_nil
    · exact .inr (List.mem_singleton.mp hMem)

end Regex
end Forge.Python
