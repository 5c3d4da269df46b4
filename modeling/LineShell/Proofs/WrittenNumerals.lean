import LineShell.Text.Numeral
import Mathlib.Tactic.MkIffOfInductiveProp

/-!
# Numerals and the numbers that they write

A numeral is read digit by digit, and reading stops as soon as the value leaves the range. A value
never comes back towards zero, so a numeral is refused for its size exactly if the number that it
writes is out of the range. What it writes is said here without a range and without an order of
reading: at least one digit, and perhaps a sign before the digits.
-/

namespace LineShell.Numeral

variable {range : Range} {negative : Bool} {n : Nat} {text : List Char} {value : Int}

/-- A natural number on one side of zero. -/
def onSide (negative : Bool) (n : Nat) : Int := if negative then -n else n

/-- Whether a minus sign is at the front, and what is behind the sign if there is one. -/
def peelSign : List Char → Bool × List Char
  | '+' :: rest => (false, rest)
  | '-' :: rest => (true, rest)
  | text => (false, text)

/-- The integer that a numeral writes: digits, and at least one, behind the sign. -/
@[mk_iff]
structure Writes (numeral : String) (value : Int) : Prop where
  not_empty : (peelSign numeral.toList).2 ≠ []
  isDigit : ∀ c ∈ (peelSign numeral.toList).2, c.isDigit = true
  eq_onSide : value = onSide (peelSign numeral.toList).1
    (Nat.ofDigitChars 10 (peelSign numeral.toList).2 0)

/-- The integers of a range. -/
def Range.Has (range : Range) (value : Int) : Prop := range.least ≤ value ∧ value ≤ range.greatest

/-- More digits lead away from zero. -/
theorem le_ofDigitChars (text : List Char) (n : Nat) : n ≤ Nat.ofDigitChars 10 text n := by
  rw [Nat.ofDigitChars_eq_ofDigitChars_zero]
  have hpower : 1 ≤ 10 ^ text.length := Nat.one_le_pow _ _ (by decide)
  calc n = 1 * n := (Nat.one_mul n).symm
    _ ≤ 10 ^ text.length * n := Nat.mul_le_mul_right n hpower
    _ ≤ 10 ^ text.length * n + Nat.ofDigitChars 10 text 0 := Nat.le_add_right _ _

/-- What is nearer to zero is in a range around zero too. -/
theorem Range.Has.of_le {near far : Nat} (hzero : range.Has 0) (hle : near ≤ far)
    (hfar : range.Has (onSide negative far)) : range.Has (onSide negative near) := by
  obtain ⟨hleast, hgreatest⟩ := hzero
  obtain ⟨hlow, hhigh⟩ := hfar
  cases negative with
  | false =>
      simp only [onSide, Bool.false_eq_true, if_false] at hlow hhigh ⊢
      constructor <;> omega
  | true =>
      simp only [onSide, if_true] at hlow hhigh ⊢
      constructor <;> omega

/-- A digit moves the value one place to the left, on its side of zero. -/
theorem digits_cons {c : Char} (hdigit : c.isDigit = true) :
    digits range negative (onSide negative n) (c :: text) =
      if onSide negative (10 * n + (c.toNat - '0'.toNat)) > range.greatest then .error .tooLarge
      else if onSide negative (10 * n + (c.toNat - '0'.toNat)) < range.least then .error .tooSmall
      else digits range negative (onSide negative (10 * n + (c.toNat - '0'.toNat))) text := by
  have hnext : (if negative = true then onSide negative n * 10 - ((c.toNat - '0'.toNat : Nat) : Int)
      else onSide negative n * 10 + ((c.toNat - '0'.toNat : Nat) : Int)) =
        onSide negative (10 * n + (c.toNat - '0'.toNat)) := by
    cases negative <;> simp only [onSide, if_true, Bool.false_eq_true, if_false] <;> omega
  simp only [digits, digit?, hdigit, if_true, hnext]

/-- Digits are read exactly if their number is in the range. -/
theorem digits_eq_ok_iff (hzero : range.Has 0) (hvalue : range.Has (onSide negative n)) :
    digits range negative (onSide negative n) text = .ok value ↔
      (∀ c ∈ text, c.isDigit = true) ∧ value = onSide negative (Nat.ofDigitChars 10 text n) ∧
        range.Has value := by
  induction text generalizing n with
  | nil =>
      simp only [digits, Except.ok.injEq, Nat.ofDigitChars_nil]
      constructor
      · rintro rfl
        exact ⟨by simp, rfl, hvalue⟩
      · rintro ⟨-, rfl, -⟩
        rfl
  | cons c rest ih =>
      by_cases hdigit : c.isDigit = true
      · rw [digits_cons hdigit, Nat.ofDigitChars_cons]
        by_cases hnext : range.Has (onSide negative (10 * n + (c.toNat - '0'.toNat)))
        · rw [if_neg (Int.not_lt.mpr hnext.2), if_neg (Int.not_lt.mpr hnext.1), ih hnext]
          simp [hdigit]
        · -- Whatever stands behind these digits, their number is out of the range as well.
          have hout : ¬range.Has (onSide negative
              (Nat.ofDigitChars 10 rest (10 * n + (c.toNat - '0'.toNat)))) :=
            fun hfar => hnext (hzero.of_le (le_ofDigitChars _ _) hfar)
          constructor
          · intro hread
            split at hread
            case isTrue => simp at hread
            case isFalse hgreatest =>
              split at hread
              case isTrue => simp at hread
              case isFalse hleast =>
                exact absurd ⟨Int.not_lt.mp hleast, Int.not_lt.mp hgreatest⟩ hnext
          · rintro ⟨-, rfl, hhas⟩
            exact absurd hhas hout
      · simp [digits, digit?, hdigit]

/-- Where numbers below zero can be read, digits are read behind the sign, if there are any. -/
theorem read_of_peelSign {numeral : String} (hleast : range.least < 0)
    (hpeel : peelSign numeral.toList = (negative, text)) :
    (text = [] → ∃ fault, read range numeral = .error fault) ∧
      (text ≠ [] → read range numeral = digits range negative 0 text) := by
  unfold read
  split
  case h_1 htext | h_2 htext | h_3 htext =>
    rw [htext] at hpeel
    obtain ⟨rfl, rfl⟩ := Prod.mk.inj hpeel
    exact ⟨fun _ => ⟨_, rfl⟩, fun hne => absurd rfl hne⟩
  case h_4 rest hsome htext =>
    rw [htext] at hpeel
    obtain ⟨rfl, rfl⟩ := Prod.mk.inj hpeel
    exact ⟨fun hnil => absurd hnil hsome, fun _ => rfl⟩
  case h_5 rest hsome htext =>
    rw [htext] at hpeel
    obtain ⟨rfl, rfl⟩ := Prod.mk.inj hpeel
    exact ⟨fun hnil => absurd hnil hsome, fun _ => if_pos hleast⟩
  case h_6 hsome _ _ hplus hminus =>
    have hbare : peelSign numeral.toList = (false, numeral.toList) := by
      unfold peelSign
      split
      case h_1 rest htext => exact absurd htext (hplus rest)
      case h_2 rest htext => exact absurd htext (hminus rest)
      case h_3 => rfl
    obtain ⟨rfl, rfl⟩ := Prod.mk.inj (hbare.symm.trans hpeel)
    exact ⟨fun hnil => absurd hnil hsome, fun _ => rfl⟩

/-- A range with numbers on both sides of zero takes the numerals of its numbers, and no others. -/
theorem read_eq_ok_iff {numeral : String} (hleast : range.least < 0)
    (hgreatest : 0 ≤ range.greatest) :
    read range numeral = .ok value ↔ Writes numeral value ∧ range.Has value := by
  have hzero : range.Has 0 := ⟨Int.le_of_lt hleast, hgreatest⟩
  obtain ⟨negative, text, hpeel⟩ : ∃ negative text, peelSign numeral.toList = (negative, text) :=
    ⟨_, _, rfl⟩
  obtain ⟨hnothing, hsome⟩ := read_of_peelSign hleast hpeel
  have hwrites : Writes numeral value ↔ text ≠ [] ∧ (∀ c ∈ text, c.isDigit = true) ∧
      value = onSide negative (Nat.ofDigitChars 10 text 0) := by
    simp only [writes_iff, hpeel]
  by_cases hempty : text = []
  · obtain ⟨fault, hfault⟩ := hnothing hempty
    simp [hfault, hwrites, hempty]
  · have hside : onSide negative 0 = 0 := by cases negative <;> rfl
    have hdigits := @digits_eq_ok_iff range negative 0 text value hzero (hside.symm ▸ hzero)
    rw [hside] at hdigits
    rw [hsome hempty, hdigits, hwrites]
    constructor
    · rintro ⟨hall, hvalue, hhas⟩
      exact ⟨⟨hempty, hall, hvalue⟩, hhas⟩
    · rintro ⟨⟨-, hall, hvalue⟩, hhas⟩
      exact ⟨hall, hvalue, hhas⟩

end LineShell.Numeral
