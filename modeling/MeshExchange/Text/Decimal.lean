/-!
# Decimal numerals

Numbers as rows of decimal digits, most significant first.

**Results.**
* `ofNat`, `ofInt`: the digits of a number without a leading zero, an integer below zero behind a
  minus sign;
* `value?`: the number that a non-empty row of digits denotes, leading zeros allowed;
* `signed?`: the same behind at most one sign;
* `value?_ofNat`, `signed?_ofInt`: what is written is read back;
* `point`: a count of small units written in the unit of a power of ten, without trailing zeros.
-/

namespace MeshExchange
namespace Decimal

section Digits

/-- The character of a digit below ten. -/
def digit (d : Nat) : Char := Char.ofNat ('0'.toNat + d)

/-- The value of a decimal digit. -/
def digitValue? (c : Char) : Option Nat :=
  if '0' ≤ c ∧ c ≤ '9' then some (c.toNat - '0'.toNat) else none

/-- The digits of a number, most significant first. -/
def ofNat (n : Nat) : List Char :=
  if n < 10 then [digit n] else ofNat (n / 10) ++ [digit (n % 10)]
termination_by n
decreasing_by omega

/-- The digits of an integer, behind a minus sign if it is negative. -/
def ofInt : Int → List Char
  | .ofNat n => ofNat n
  | .negSucc n => '-' :: ofNat (n + 1)

end Digits

section Values

/-- The number denoted by the digits read so far followed by more digits. -/
def extend (n : Nat) : List Char → Option Nat
  | [] => some n
  | c :: cs => (digitValue? c).bind fun d => extend (10 * n + d) cs

/-- The number a non-empty row of digits denotes. -/
def value? : List Char → Option Nat
  | [] => none
  | c :: cs => extend 0 (c :: cs)

/-- The integer denoted by digits behind at most one sign. -/
def signed? : List Char → Option Int
  | '-' :: cs => (value? cs).map fun n => -(n : Int)
  | '+' :: cs => (value? cs).map fun n => (n : Int)
  | cs => (value? cs).map fun n => (n : Int)

end Values

section Laws

theorem digitValue?_digit {d : Nat} (h : d < 10) : digitValue? (digit d) = some d := by
  have all : ∀ d : Fin 10, digitValue? (digit d.val) = some d.val := by decide
  exact all ⟨d, h⟩

theorem ofNat_ne_nil (n : Nat) : ofNat n ≠ [] := by
  rw [ofNat]
  split <;> simp

theorem extend_append (n : Nat) (cs ds : List Char) :
    extend n (cs ++ ds) = (extend n cs).bind fun m => extend m ds := by
  induction cs generalizing n with
  | nil => rfl
  | cons c cs ih =>
      simp only [List.cons_append, extend]
      cases digitValue? c with
      | none => rfl
      | some d => exact ih (10 * n + d)

theorem extend_zero_ofNat (n : Nat) : extend 0 (ofNat n) = some n := by
  rw [ofNat]
  split
  · simp [extend, digitValue?_digit (by assumption)]
  · have high := extend_zero_ofNat (n / 10)
    have low := digitValue?_digit (Nat.mod_lt n (by decide : 0 < 10))
    rw [extend_append, high]
    simp only [Option.bind_some, extend, low]
    congr 1
    omega
termination_by n
decreasing_by omega

/-- The digits of a number denote it. -/
theorem value?_ofNat (n : Nat) : value? (ofNat n) = some n := by
  have digits := extend_zero_ofNat n
  cases h : ofNat n with
  | nil => exact absurd h (ofNat_ne_nil n)
  | cons c cs => rwa [h] at digits

theorem digit_ne_sign {d : Nat} (h : d < 10) : digit d ≠ '-' ∧ digit d ≠ '+' := by
  have all : ∀ d : Fin 10, digit d.val ≠ '-' ∧ digit d.val ≠ '+' := by decide
  exact all ⟨d, h⟩

theorem head?_ofNat (n : Nat) : ∃ d < 10, (ofNat n).head? = some (digit d) := by
  rw [ofNat]
  split
  · exact ⟨n, by assumption, rfl⟩
  · obtain ⟨d, bound, first⟩ := head?_ofNat (n / 10)
    refine ⟨d, bound, ?_⟩
    rw [List.head?_append, first, Option.some_or]
termination_by n
decreasing_by omega

theorem signed?_ofNat (n : Nat) : signed? (ofNat n) = some (n : Int) := by
  obtain ⟨d, bound, first⟩ := head?_ofNat n
  obtain ⟨noMinus, noPlus⟩ := digit_ne_sign bound
  have value := value?_ofNat n
  cases h : ofNat n with
  | nil => exact absurd h (ofNat_ne_nil n)
  | cons c cs =>
      rw [h] at first value
      obtain rfl : c = digit d := by simpa using first
      unfold signed?
      split <;> simp_all

/-- The digits of an integer, with its sign, denote it. -/
theorem signed?_ofInt (n : Int) : signed? (ofInt n) = some n := by
  cases n with
  | ofNat n => exact signed?_ofNat n
  | negSucc n =>
      have value := value?_ofNat (n + 1)
      simp only [ofInt, signed?, value]
      rfl

end Laws

section Fractions

/-- The lowest `places` digits of a number, zeros in front included. -/
def lowDigits : Nat → Nat → List Char
  | 0, _ => []
  | places + 1, n => lowDigits places (n / 10) ++ [digit (n % 10)]

/-- A row of characters without the zeros at its end. -/
def dropTrailingZeros (cs : List Char) : List Char :=
  (cs.reverse.dropWhile (· == '0')).reverse

/-- A number without its lowest `places` digits. -/
def highPart : Nat → Nat → Nat
  | 0, n => n
  | places + 1, n => highPart places (n / 10)

/-- The number `n` divided by ten to the `places`, exactly, without trailing zeros behind the point. -/
def point (places n : Nat) : List Char :=
  let whole := ofNat (highPart places n)
  match dropTrailingZeros (lowDigits places n) with
  | [] => whole
  | fraction => whole ++ '.' :: fraction

end Fractions

end Decimal
end MeshExchange
