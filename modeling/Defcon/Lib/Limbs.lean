import Mathlib.Data.Nat.Digits.Defs
import Mathlib.Data.Nat.ModEq

/-!
# Numbers of a fixed number of limbs

Little-endian lists of digits to a base, with the row-by-row multiplication that drops what does not
fit. Its value is the product modulo the size of the result.
-/

namespace Lib.Limbs

open Nat List

variable {β : Nat}

def limbs (β : Nat) : Nat → Nat → List Nat
  | 0, _ => []
  | w + 1, x => x % β :: limbs β w (x / β)

def addRow (β d : Nat) : Nat → List Nat → List Nat → List Nat
  | _, [], _ => []
  | carry, a :: acc, b =>
    let n := carry + a + d * b.headD 0
    n % β :: addRow β d (n / β) acc b.tail

/-- A row for each limb of the first factor, each one limb further up. -/
def mulRows (β : Nat) (b : List Nat) : List Nat → List Nat → List Nat
  | [], acc => acc
  | d :: ds, acc =>
    match addRow β d 0 acc b with
    | [] => []
    | r :: rs => r :: mulRows β b ds rs

theorem ofDigits_limbs (w x : Nat) : Nat.ofDigits β (limbs β w x) = x % β ^ w := by
  induction w generalizing x with
  | zero => rw [limbs, ofDigits_nil, pow_zero, mod_one]
  | succ w ih =>
    rw [limbs, ofDigits_cons, ih, pow_succ', mod_mul]

theorem length_limbs (w x : Nat) : (limbs β w x).length = w := by
  induction w generalizing x with
  | zero => rfl
  | succ w ih => rw [limbs, length_cons, ih]

theorem length_addRow (d carry : Nat) (acc b : List Nat) :
    (addRow β d carry acc b).length = acc.length := by
  induction acc generalizing carry b with
  | nil => rfl
  | cons a acc ih => rw [addRow, length_cons, ih, length_cons]

theorem ofDigits_eq_headD_add (b : List Nat) :
    Nat.ofDigits β b = b.headD 0 + β * Nat.ofDigits β b.tail := by
  cases b with
  | nil => rw [tail_nil, Nat.ofDigits_nil, Nat.mul_zero, headD_nil]
  | cons d ds => exact Nat.ofDigits_cons

theorem ofDigits_addRow (hβ : 0 < β) (d carry : Nat) (acc b : List Nat) :
    Nat.ofDigits β (addRow β d carry acc b) =
      (carry + Nat.ofDigits β acc + d * Nat.ofDigits β b) % β ^ acc.length := by
  induction acc generalizing carry b with
  | nil => rw [addRow, ofDigits_nil, length_nil, pow_zero, mod_one]
  | cons a acc ih =>
    have hsum : carry + ofDigits β (a :: acc) + d * ofDigits β b =
        (carry + a + d * b.headD 0) +
          β * (ofDigits β acc + d * ofDigits β b.tail) := by
      rw [ofDigits_eq_headD_add b, ofDigits_cons]
      ring
    rw [addRow, ofDigits_cons, ih, hsum, length_cons, pow_succ', mod_mul,
      add_mul_mod_self_left, add_mul_div_left _ _ hβ, ← add_assoc]

theorem ofDigits_mulRows (hβ : 0 < β) (b ds acc : List Nat) :
    Nat.ofDigits β (mulRows β b ds acc) ≡
      Nat.ofDigits β acc + Nat.ofDigits β ds * Nat.ofDigits β b [MOD β ^ acc.length] := by
  induction ds generalizing acc with
  | nil =>
    rw [mulRows, ofDigits_nil, zero_mul, add_zero]
  | cons d ds ih =>
    have hvalue := ofDigits_addRow hβ d 0 acc b
    have hlength := @length_addRow β d 0 acc b
    rw [mulRows]
    cases hrow : addRow β d 0 acc b with
    | nil =>
      rw [hrow, length_nil] at hlength
      rw [← hlength, pow_zero]
      exact modEq_one
    | cons r rs =>
      rw [hrow] at hvalue hlength
      rw [length_cons] at hlength
      -- the limb below is final, and the rows above it are those of the rest
      have hrest : r + β * ofDigits β (mulRows β b ds rs) ≡
          r + β * (ofDigits β rs + ofDigits β ds * ofDigits β b)
            [MOD β ^ acc.length] := by
        rw [← hlength, pow_succ']
        exact ((ih rs).mul_left' β).add_left r
      have hfirst : r + β * ofDigits β rs ≡
          ofDigits β acc + d * ofDigits β b [MOD β ^ acc.length] := by
        rw [ofDigits_cons, zero_add] at hvalue
        rw [hvalue]
        exact mod_modEq _ _
      calc
        r + β * ofDigits β (mulRows β b ds rs)
          ≡ r + β * (ofDigits β rs + ofDigits β ds * ofDigits β b)
            [MOD β ^ acc.length] := hrest
        _ = (r + β * ofDigits β rs) + β * (ofDigits β ds * ofDigits β b) := by ring
        _ ≡ (ofDigits β acc + d * ofDigits β b) +
            β * (ofDigits β ds * ofDigits β b) [MOD β ^ acc.length] :=
          hfirst.add_right _
        _ = ofDigits β acc + (d + β * ofDigits β ds) * ofDigits β b := by ring

end Lib.Limbs
