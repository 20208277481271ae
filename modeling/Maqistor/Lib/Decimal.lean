import Mathlib.Data.Nat.Notation
import Std.Data.String.ToNat

/-! Decimal text of 64-bit integers: what `to_string` writes, `parse` reads back. -/

namespace Decimal

/-- At least one digit and nothing else. -/
def parseDigits (digits : List Char) : Option Nat :=
  if digits ≠ [] ∧ digits.all Char.isDigit then some (Nat.ofDigitChars 10 digits 0) else none

/-- The sign and the digits of a text. -/
def parseSigned : List Char → Option Int
  | '-' :: digits => (parseDigits digits).map fun n : Nat => -(n : Int)
  | '+' :: digits => (parseDigits digits).map Int.ofNat
  | digits => (parseDigits digits).map Int.ofNat

def InI64 (n : Int) : Prop := -9223372036854775808 ≤ n ∧ n ≤ 9223372036854775807

instance (n : Int) : Decidable (InI64 n) := inferInstanceAs (Decidable (_ ∧ _))

/-- `str::parse::<i64>`. -/
def parseI64 (text : String) : Option Int := (parseSigned text.toList).filter fun n => InI64 n

theorem parseDigits_toDigits (n : Nat) : parseDigits (Nat.toDigits 10 n) = some n := by
  have hdigits : (Nat.toDigits 10 n).all Char.isDigit = true :=
    List.all_eq_true.mpr fun c hc => Nat.isDigit_of_mem_toDigits (by decide) (by decide) hc
  rw [parseDigits, if_pos ⟨Nat.toDigits_ne_nil, hdigits⟩, Nat.ofDigitChars_ten_toDigits]

/-- The digits of a number do not start with a sign. -/
theorem parseSigned_toDigits (n : Nat) : parseSigned (Nat.toDigits 10 n) = some (n : Int) := by
  have hsign : ∀ c digits, Nat.toDigits 10 n = c :: digits → c.isDigit = true := fun c digits h =>
    Nat.isDigit_of_mem_toDigits (b := 10) (n := n) (by decide) (by decide)
      (by rw [h]; exact List.mem_cons_self)
  have hparse := parseDigits_toDigits n
  unfold parseSigned
  split
  · next digits h => exact absurd (hsign _ _ h) (by decide)
  · next digits h => exact absurd (hsign _ _ h) (by decide)
  · rw [hparse]
    rfl

theorem parseI64_repr {n : Int} (h : InI64 n) : parseI64 n.repr = some n := by
  have hsigned : parseSigned n.repr.toList = some n := by
    rw [Int.repr_eq_if]
    split
    · next hnonneg =>
      rw [Nat.toList_repr, parseSigned_toDigits, Int.toNat_of_nonneg hnonneg]
    · next hneg =>
      have hpos : ((-n).toNat : Int) = -n := Int.toNat_of_nonneg (by omega)
      rw [String.toList_append, Nat.toList_repr]
      show (parseDigits (Nat.toDigits 10 (-n).toNat)).map (fun n : Nat => -(n : Int)) = some n
      rw [parseDigits_toDigits, Option.map_some, hpos, Int.neg_neg]
  rw [parseI64, hsigned, Option.filter_some, if_pos (decide_eq_true h)]

end Decimal
