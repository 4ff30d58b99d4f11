import Mathlib.Data.Nat.Bitwise
import Mathlib.Data.Nat.Size
import Mathlib.Tactic.IntervalCases
import Defcon.Lib.Limbs
import Defcon.Primitives

/-!
# 256-bit integers

`arith_uint256` has eight limbs of 32 bits. Addition and multiplication go over the limbs and drop
the last carry, division is by shifted subtraction, and the compact form keeps the three highest
bytes. The limb operations are those of the integers modulo `2 ^ 256`.
-/

namespace Defcon

open Lib.Limbs Nat BitVec

/-- `arith_uint256`, by its value. -/
abbrev Arith256 := BitVec 256

namespace Arith256

def pn (x : Arith256) : List Nat := limbs (2 ^ 32) 8 x.toNat

def ofPn (pn : List Nat) : Arith256 := BitVec.ofNat 256 (Nat.ofDigits (2 ^ 32) pn)

variable (a b : Arith256)

def add : Arith256 := ofPn (addRow (2 ^ 32) 1 0 a.pn b.pn)

/-- `operator*=`. A sum of a row is below `2 ^ 64`, so it fits its `uint64_t`. -/
def mul : Arith256 :=
  ofPn (mulRows (2 ^ 32) b.pn a.pn (List.replicate 8 0))

def bits (x : Arith256) : Nat := x.toNat.size

def divLoop : Nat → Arith256 → Arith256 → Arith256 → Arith256
  | 0, _, _, quotient => quotient
  | shift + 1, num, div, quotient =>
    if div ≤ num then divLoop shift (num - div) (div >>> 1) (quotient ||| 1#256 <<< shift)
    else divLoop shift num (div >>> 1) quotient

def div : Option Arith256 :=
  if bits b = 0 then none
  else if bits a < bits b then some 0
  else
    let shift := bits a - bits b
    some (divLoop (shift + 1) a (b <<< shift) 0)

variable (nCompact : UInt32)

def setCompact : Arith256 :=
  let nSize := nCompact.toNat >>> 24
  let nWord := nCompact.toNat &&& 0x007fffff
  if nSize ≤ 3 then BitVec.ofNat 256 (nWord >>> (8 * (3 - nSize)))
  else BitVec.ofNat 256 nWord <<< (8 * (nSize - 3))

/-- `nWord` when `SetCompact` sets its flags. -/
def compactWord : Nat :=
  let nSize := nCompact.toNat >>> 24
  let nWord := nCompact.toNat &&& 0x007fffff
  if nSize ≤ 3 then nWord >>> (8 * (3 - nSize)) else nWord

def compactNegative : Bool :=
  compactWord nCompact ≠ 0 ∧ nCompact.toNat &&& 0x00800000 ≠ 0

def compactOverflow : Bool :=
  let nSize := nCompact.toNat >>> 24
  let nWord := compactWord nCompact
  nWord ≠ 0 ∧ (34 < nSize ∨ (0xff < nWord ∧ 33 < nSize) ∨ (0xffff < nWord ∧ 32 < nSize))

/-- What the compact form stands for, without the sign. -/
def compactValue : Nat :=
  compactWord nCompact * 2 ^ (8 * (nCompact.toNat >>> 24 - 3))

def mantissa (x : Arith256) (nSize : Nat) : Nat :=
  if nSize ≤ 3 then (x.toNat % 2 ^ 64) <<< (8 * (3 - nSize)) % 2 ^ 32
  else (x >>> (8 * (nSize - 3))).toNat % 2 ^ 64 % 2 ^ 32

def getCompact (x : Arith256) : UInt32 :=
  let nSize := (bits x + 7) / 8
  let nCompact := mantissa x nSize
  if nCompact &&& 0x00800000 ≠ 0 then UInt32.ofNat (nCompact >>> 8 ||| (nSize + 1) <<< 24)
  else UInt32.ofNat (nCompact ||| nSize <<< 24)

/-! ### Sums and products -/

theorem ofDigits_pn (x : Arith256) : Nat.ofDigits (2 ^ 32) x.pn = x.toNat := by
  rw [pn, ofDigits_limbs, ← pow_mul]
  exact mod_eq_of_lt x.isLt

theorem toNat_ofPn (digits : List Nat) :
    (ofPn digits).toNat = Nat.ofDigits (2 ^ 32) digits % 2 ^ 256 :=
  toNat_ofNat _ _

theorem toNat_add : (add a b).toNat = (a.toNat + b.toNat) % 2 ^ 256 := by
  have hlength : a.pn.length = 8 := length_limbs 8 a.toNat
  rw [add, toNat_ofPn, ofDigits_addRow (by decide), hlength, ofDigits_pn, ofDigits_pn,
    zero_add, one_mul, ← pow_mul, mod_mod]

theorem toNat_mul : (mul a b).toNat = a.toNat * b.toNat % 2 ^ 256 := by
  have hrows := @ofDigits_mulRows (2 ^ 32) (by decide) b.pn a.pn (List.replicate 8 0)
  rw [List.length_replicate, ofDigits_pn, ofDigits_pn, ofDigits_replicate_zero, zero_add,
    ← pow_mul] at hrows
  exact hrows

/-! ### Quotients -/

variable {x : Arith256} {n : Nat}

theorem bits_eq_zero_iff : bits x = 0 ↔ x.toNat = 0 :=
  size_eq_zero

theorem toNat_or_shift {quotient : Arith256} (hn : n < 256) (hclear : 2 ^ (n + 1) ∣ quotient.toNat) :
    (quotient ||| 1#256 <<< n).toNat = quotient.toNat + 2 ^ n := by
  have hpow : 2 ^ n < 2 ^ 256 := Nat.pow_lt_pow_right (by decide) hn
  have hone : (1#256 <<< n).toNat = 2 ^ n := by
    rw [toNat_shiftLeft, toNat_ofNat, Nat.shiftLeft_eq, Nat.one_mod_two_pow_eq_one.mpr
      (by decide), Nat.one_mul, Nat.mod_eq_of_lt hpow]
  obtain ⟨k, hk⟩ := hclear
  have hlt : 2 ^ n < 2 ^ (n + 1) := Nat.pow_lt_pow_right (by decide) (Nat.lt_succ_self n)
  rw [toNat_or, hone, hk, Nat.two_pow_add_eq_or_of_lt hlt]

theorem divLoop_step {num div quotient : Arith256} {b : Nat} (hb : 0 < b)
    (hdiv : div.toNat = b * 2 ^ n) (hnum : num.toNat < b * 2 ^ (n + 1))
    (hclear : 2 ^ (n + 1) ∣ quotient.toNat) :
    ∃ num' quotient' : Arith256,
      divLoop (n + 1) num div quotient = divLoop n num' (div >>> 1) quotient' ∧
      num'.toNat < b * 2 ^ n ∧ 2 ^ n ∣ quotient'.toNat ∧
      quotient'.toNat + num'.toNat / b = quotient.toNat + num.toNat / b := by
  have hn : n < 256 := by
    have hle : 2 ^ n ≤ b * 2 ^ n := Nat.le_mul_of_pos_left _ hb
    have hlt : 2 ^ n < 2 ^ 256 := by
      omega
    exact (Nat.pow_lt_pow_iff_right (by decide)).mp hlt
  have hdouble : b * 2 ^ (n + 1) = 2 * (b * 2 ^ n) := by
    ring
  have hhalf : 2 ^ n ∣ quotient.toNat := (pow_dvd_pow 2 (Nat.le_succ n)).trans hclear
  by_cases hle : div ≤ num
  · have hge : b * 2 ^ n ≤ num.toNat := hdiv ▸ hle
    have hsub : (num - div).toNat = num.toNat - b * 2 ^ n := by
      rw [toNat_sub_of_le hle, hdiv]
    refine ⟨num - div, quotient ||| 1#256 <<< n, ?_, ?_, ?_, ?_⟩
    · rw [divLoop, if_pos hle]
    · omega
    · rw [toNat_or_shift hn hclear]
      exact Nat.dvd_add hhalf (Nat.dvd_refl _)
    · have hquot : num.toNat / b = 2 ^ n + (num.toNat - b * 2 ^ n) / b := by
        conv_lhs => rw [← Nat.sub_add_cancel hge, Nat.add_mul_div_left _ _ hb]
        exact Nat.add_comm _ _
      rw [toNat_or_shift hn hclear, hsub, hquot, Nat.add_assoc]
  · refine ⟨num, quotient, ?_, ?_, hhalf, rfl⟩
    · rw [divLoop, if_neg hle]
    · have hlt : num.toNat < div.toNat := not_le.mp hle
      omega

theorem toNat_divLoop {num div quotient : Arith256} {b : Nat} (hb : 0 < b)
    (hdiv : div.toNat = b * 2 ^ n) (hnum : num.toNat < b * 2 ^ (n + 1))
    (hclear : 2 ^ (n + 1) ∣ quotient.toNat) :
    (divLoop (n + 1) num div quotient).toNat = quotient.toNat + num.toNat / b := by
  induction n generalizing num div quotient with
  | zero =>
    obtain ⟨num', quotient', hloop, hless, -, hsum⟩ := divLoop_step hb hdiv hnum hclear
    rw [pow_zero, Nat.mul_one] at hless
    rw [hloop, ← hsum, divLoop, Nat.div_eq_of_lt hless, Nat.add_zero]
  | succ n ih =>
    obtain ⟨num', quotient', hloop, hless, hclear', hsum⟩ := divLoop_step hb hdiv hnum hclear
    have hshift : (div >>> 1).toNat = b * 2 ^ n := by
      rw [toNat_ushiftRight, Nat.shiftRight_eq_div_pow, hdiv, pow_succ, ← Nat.mul_assoc,
        pow_one, Nat.mul_div_cancel _ (by decide)]
    rw [hloop, ← hsum]
    exact ih hshift hless hclear'

theorem lt_two_pow_bits (x : Arith256) : x.toNat < 2 ^ bits x :=
  lt_size_self _

theorem two_pow_le_of_bits (hbits : bits x = n + 1) : 2 ^ n ≤ x.toNat := by
  apply lt_size.mp
  rw [show x.toNat.size = n + 1 from hbits]
  exact lt_succ_self n

theorem div_eq_some {a b : Arith256} (hb : b.toNat ≠ 0) :
    ∃ q, div a b = some q ∧ q.toNat = a.toNat / b.toNat := by
  have hbits : bits b ≠ 0 := fun h => hb (bits_eq_zero_iff.mp h)
  obtain ⟨n, hn⟩ := Nat.exists_eq_succ_of_ne_zero hbits
  have hbn := two_pow_le_of_bits hn
  have ha := lt_two_pow_bits a
  unfold div
  rw [if_neg hbits]
  by_cases hsmall : bits a < bits b
  · refine ⟨0, if_pos hsmall, ?_⟩
    have hlt : a.toNat < b.toNat := by
      calc
        a.toNat < 2 ^ bits a := ha
        _ ≤ 2 ^ n := Nat.pow_le_pow_right (by decide) (by omega)
        _ ≤ b.toNat := hbn
    rw [Nat.div_eq_of_lt hlt]
    rfl
  rw [if_neg hsmall]
  refine ⟨_, rfl, ?_⟩
  have hshift : (b <<< (bits a - bits b)).toNat = b.toNat * 2 ^ (bits a - bits b) := by
    rw [toNat_shiftLeft, Nat.shiftLeft_eq, Nat.mod_eq_of_lt]
    have hwidth : bits a ≤ 256 := Nat.size_le.mpr a.isLt
    calc
      b.toNat * 2 ^ (bits a - bits b) < 2 ^ bits b * 2 ^ (bits a - bits b) :=
        Nat.mul_lt_mul_of_pos_right (lt_two_pow_bits b) (Nat.two_pow_pos _)
      _ = 2 ^ bits a := by rw [← pow_add, Nat.add_sub_cancel' (Nat.not_lt.mp hsmall)]
      _ ≤ 2 ^ 256 := Nat.pow_le_pow_right (by decide) hwidth
  have hnum : a.toNat < b.toNat * 2 ^ (bits a - bits b + 1) := by
    calc
      a.toNat < 2 ^ bits a := ha
      _ = 2 ^ n * 2 ^ (bits a - bits b + 1) := by
        rw [← pow_add]
        congr 1
        omega
      _ ≤ b.toNat * 2 ^ (bits a - bits b + 1) := Nat.mul_le_mul_right _ hbn
  rw [toNat_divLoop (Nat.pos_of_ne_zero hb) hshift hnum (Nat.dvd_zero _)]
  exact Nat.zero_add _

/-! ### The compact form -/

theorem two_pow_eight_mul (n : Nat) : 2 ^ (8 * n) = 256 ^ n :=
  pow_mul 2 8 n

theorem mantissa_spec (hx : x.toNat ≠ 0) :
    ∃ nSize, (bits x + 7) / 8 = nSize ∧ 1 ≤ nSize ∧ nSize ≤ 32 ∧
      2 ^ 16 ≤ mantissa x nSize ∧ mantissa x nSize < 2 ^ 24 ∧
      mantissa x nSize * 256 ^ nSize ≤ x.toNat * 256 ^ 3 ∧
      x.toNat * 256 ^ 3 < (mantissa x nSize + 1) * 256 ^ nSize ∧
      (nSize ≤ 3 → mantissa x nSize = x.toNat * 256 ^ (3 - nSize)) := by
  obtain ⟨n, hn⟩ := Nat.exists_eq_succ_of_ne_zero fun h => hx (bits_eq_zero_iff.mp h)
  have hlow := two_pow_le_of_bits hn
  have hhigh := lt_two_pow_bits x
  have hwidth : bits x ≤ 256 := Nat.size_le.mpr x.isLt
  generalize hsize : (bits x + 7) / 8 = nSize
  have hone : 1 ≤ nSize := by omega
  have hlower : 2 ^ (8 * (nSize - 1)) ≤ x.toNat :=
    (Nat.pow_le_pow_right (by decide) (by omega)).trans hlow
  have hupper : x.toNat < 2 ^ (8 * nSize) :=
    hhigh.trans_le (Nat.pow_le_pow_right (by decide) (by omega))
  refine ⟨nSize, rfl, hone, by omega, ?_⟩
  unfold mantissa
  split
  · interval_cases nSize
    all_goals
      simp only [Nat.shiftLeft_eq]
      omega
  · have hvalue : (x >>> (8 * (nSize - 3))).toNat = x.toNat / 256 ^ (nSize - 3) := by
      rw [toNat_ushiftRight, Nat.shiftRight_eq_div_pow, two_pow_eight_mul]
    have hpos : 0 < 256 ^ (nSize - 3) := Nat.pow_pos (by decide)
    have hge : 2 ^ 16 ≤ x.toNat / 256 ^ (nSize - 3) := by
      rw [Nat.le_div_iff_mul_le hpos, ← two_pow_eight_mul, ← pow_add]
      exact (Nat.pow_le_pow_right (by decide) (by omega)).trans hlower
    have hlt : x.toNat / 256 ^ (nSize - 3) < 2 ^ 24 := by
      rw [Nat.div_lt_iff_lt_mul hpos, ← two_pow_eight_mul, ← pow_add]
      exact hupper.trans_le (Nat.pow_le_pow_right (by decide) (by omega))
    have hpow : 256 ^ nSize = 256 ^ (nSize - 3) * 256 ^ 3 := by
      rw [← pow_add, Nat.sub_add_cancel (by omega)]
    rw [hvalue, Nat.mod_eq_of_lt (by omega), Nat.mod_eq_of_lt (by omega), hpow, ← Nat.mul_assoc,
      ← Nat.mul_assoc]
    refine ⟨hge, hlt, Nat.mul_le_mul_right _ (Nat.div_mul_le_self _ _),
      Nat.mul_lt_mul_of_pos_right (Nat.lt_mul_of_div_lt (Nat.lt_succ_self _) hpos) (by decide),
      fun hfew => by omega⟩

theorem toNat_setCompact {nCompact : UInt32} (hfits : compactOverflow nCompact = false) :
    (setCompact nCompact).toNat = compactValue nCompact := by
  unfold compactOverflow at hfits
  unfold setCompact compactValue
  unfold compactWord at *
  have hword : nCompact.toNat &&& 0x007fffff < 2 ^ 23 :=
    Nat.lt_of_le_of_lt Nat.and_le_right (by decide)
  generalize nCompact.toNat &&& 0x007fffff = nWord at *
  generalize nCompact.toNat >>> 24 = nSize at *
  by_cases hfew : nSize ≤ 3
  · have hle : nWord >>> (8 * (3 - nSize)) ≤ nWord := Nat.shiftRight_le _ _
    rw [if_pos hfew, if_pos hfew, Nat.sub_eq_zero_of_le hfew, Nat.mul_zero, pow_zero,
      Nat.mul_one, toNat_ofNat, Nat.mod_eq_of_lt (by omega)]
  · simp only [if_neg hfew] at *
    rw [toNat_shiftLeft, toNat_ofNat, Nat.shiftLeft_eq,
      Nat.mod_eq_of_lt (show nWord < 2 ^ 256 by omega)]
    refine Nat.mod_eq_of_lt ?_
    have hbound {n : Nat} (hlt : nWord < 2 ^ n) (hn : n + 8 * (nSize - 3) ≤ 256) :
        nWord * 2 ^ (8 * (nSize - 3)) < 2 ^ 256 := by
      calc
        nWord * 2 ^ (8 * (nSize - 3)) < 2 ^ n * 2 ^ (8 * (nSize - 3)) :=
          Nat.mul_lt_mul_of_pos_right hlt (Nat.two_pow_pos _)
        _ = 2 ^ (n + 8 * (nSize - 3)) := (pow_add _ _ _).symm
        _ ≤ 2 ^ 256 := Nat.pow_le_pow_right (by decide) hn
    rcases Nat.eq_zero_or_pos nWord with rfl | hpos
    · rw [Nat.zero_mul]
      exact Nat.two_pow_pos 256
    have hflags : ¬(34 < nSize ∨ (0xff < nWord ∧ 33 < nSize) ∨ (0xffff < nWord ∧ 32 < nSize)) :=
      fun h => of_decide_eq_false hfits ⟨hpos.ne', h⟩
    by_cases h32 : nSize ≤ 32
    · exact hbound (n := 24) (by omega) (by omega)
    by_cases h33 : nSize ≤ 33
    · exact hbound (n := 16) (by omega) (by omega)
    · exact hbound (n := 8) (by omega) (by omega)

def encode (word size : Nat) : UInt32 := UInt32.ofNat (word ||| size <<< 24)

theorem getCompact_eq (hx : x.toNat ≠ 0) :
    ∃ word size, getCompact x = encode word size ∧ 2 ^ 15 ≤ word ∧ word < 2 ^ 23 ∧
      1 ≤ size ∧ size ≤ 33 ∧ word * 256 ^ size ≤ x.toNat * 256 ^ 3 ∧
      x.toNat * 256 ^ 3 < (word + 1) * 256 ^ size ∧
      (size ≤ 3 → word = x.toNat * 256 ^ (3 - size)) := by
  obtain ⟨nSize, hsize, hone, hmany, hge, hlt, hle, hnext, hexact⟩ := mantissa_spec hx
  unfold getCompact
  dsimp only
  rw [hsize]
  generalize mantissa x nSize = word at *
  have hsign : word &&& 0x00800000 ≠ 0 ↔ 2 ^ 23 ≤ word := by
    rw [show 0x00800000 = 2 ^ 23 by decide, Nat.and_two_pow, Nat.testBit_eq_decide_div_mod_eq]
    by_cases hdigit : word / 2 ^ 23 % 2 = 1
    · rw [decide_eq_true hdigit]
      exact ⟨fun _ => by omega, fun _ => by decide⟩
    · rw [decide_eq_false hdigit]
      exact ⟨fun h => absurd rfl h, fun h => by omega⟩
  split
  next hbit =>
    rw [hsign] at hbit
    rw [Nat.shiftRight_eq_div_pow]
    refine ⟨word / 2 ^ 8, nSize + 1, rfl, by omega, by omega, by omega, by omega, ?_, ?_, ?_⟩
    · refine le_trans ?_ hle
      rw [Nat.pow_succ' (n := nSize), ← Nat.mul_assoc]
      exact Nat.mul_le_mul_right _ (Nat.div_mul_le_self _ _)
    · refine hnext.trans_le ?_
      rw [Nat.pow_succ' (n := nSize), ← Nat.mul_assoc]
      exact Nat.mul_le_mul_right _ (by omega)
    · intro hfew
      rw [hexact (by omega), show 3 - nSize = 3 - (nSize + 1) + 1 by omega, pow_succ,
        ← Nat.mul_assoc]
      exact Nat.mul_div_cancel _ (by decide)
  next hbit =>
    rw [hsign] at hbit
    exact ⟨word, nSize, rfl, by omega, by omega, hone, by omega, hle, hnext, hexact⟩

section Encode

variable {word size : Nat}

theorem toNat_encode (hword : word < 2 ^ 23) (hsize : size ≤ 33) :
    (encode word size).toNat = size * 2 ^ 24 + word := by
  have hor : word ||| size <<< 24 = size * 2 ^ 24 + word := by
    rw [Nat.or_comm, ← Nat.shiftLeft_add_eq_or_of_lt (by omega), Nat.shiftLeft_eq]
  rw [encode, UInt32.toNat_ofNat', hor]
  omega

theorem encode_inj {word' size' : Nat} (hword : 2 ^ 15 ≤ word ∧ word < 2 ^ 23)
    (hword' : 2 ^ 15 ≤ word' ∧ word' < 2 ^ 23) (heq : word * 256 ^ size = word' * 256 ^ size') :
    encode word size = encode word' size' := by
  have hnot {w s w' s' : Nat} (hw : w < 2 ^ 23) (hw' : 2 ^ 15 ≤ w') (hlt : s < s') :
      w * 256 ^ s < w' * 256 ^ s' := by
    calc
      w * 256 ^ s < 2 ^ 23 * 256 ^ s := Nat.mul_lt_mul_of_pos_right hw (Nat.pow_pos (by decide))
      _ = 2 ^ 15 * 256 ^ (s + 1) := by ring
      _ ≤ w' * 256 ^ s' := Nat.mul_le_mul hw' (Nat.pow_le_pow_right (by decide) hlt)
  rcases Nat.lt_trichotomy size size' with hlt | rfl | hgt
  · exact absurd heq (hnot hword.2 hword'.1 hlt).ne
  · rw [Nat.eq_of_mul_eq_mul_right (Nat.pow_pos (by decide)) heq]
  · exact absurd heq (hnot hword'.2 hword.1 hgt).ne'

theorem setCompact_encode (hword : word < 2 ^ 23) (hsize : size ≤ 33)
    (hle : word * 256 ^ size ≤ x.toNat * 256 ^ 3)
    (hexact : size ≤ 3 → word = x.toNat * 256 ^ (3 - size)) :
    compactNegative (encode word size) = false ∧ compactOverflow (encode word size) = false ∧
      (setCompact (encode word size)).toNat * 256 ^ 3 = word * 256 ^ size := by
  have hnSize : (encode word size).toNat >>> 24 = size := by
    rw [toNat_encode hword hsize]
    omega
  have hnWord : (encode word size).toNat &&& 0x007fffff = word := by
    rw [toNat_encode hword hsize, show 0x007fffff = 2 ^ 23 - 1 by decide,
      Nat.and_two_pow_sub_one_eq_mod]
    omega
  have hsign : (encode word size).toNat &&& 0x00800000 = 0 := by
    rw [toNat_encode hword hsize, show 0x00800000 = 2 ^ 23 by decide, Nat.and_two_pow,
      Nat.testBit_eq_decide_div_mod_eq, decide_eq_false (by omega)]
    rfl
  have hoverflow : compactOverflow (encode word size) = false := by
    unfold compactOverflow compactWord
    rw [hnSize, hnWord]
    refine decide_eq_false ?_
    rintro ⟨-, h | ⟨h, hbig⟩ | ⟨h, hbig⟩⟩
    · omega
    · omega
    · obtain rfl : size = 33 := by omega
      have := x.isLt
      rw [if_neg (by decide)] at h
      omega
  refine ⟨decide_eq_false fun h => h.2 hsign, hoverflow, ?_⟩
  rw [toNat_setCompact hoverflow, compactValue, compactWord, hnSize, hnWord]
  split
  next hfew =>
    have hpow : 256 ^ 3 = 256 ^ (3 - size) * 256 ^ size := by
      rw [← pow_add, Nat.sub_add_cancel hfew]
    rw [Nat.sub_eq_zero_of_le hfew, Nat.mul_zero, pow_zero, Nat.mul_one, Nat.shiftRight_eq_div_pow,
      two_pow_eight_mul, hpow, ← Nat.mul_assoc, hexact hfew,
      Nat.mul_div_cancel _ (Nat.pow_pos (by decide))]
  next hmany =>
    rw [two_pow_eight_mul, Nat.mul_assoc, ← pow_add, Nat.sub_add_cancel (by omega)]

end Encode

/-- The numbers that have a compact form. -/
def Compact (n : Nat) : Prop := ∃ m < 2 ^ 23, ∃ e, n = m * 256 ^ e

theorem setCompact_getCompact (x : Arith256) :
    compactNegative (getCompact x) = false ∧ compactOverflow (getCompact x) = false ∧
      Compact (setCompact (getCompact x)).toNat ∧ (setCompact (getCompact x)).toNat ≤ x.toNat ∧
      ∀ n, Compact n → n ≤ x.toNat → n ≤ (setCompact (getCompact x)).toNat := by
  by_cases hx : x.toNat = 0
  · obtain rfl : x = 0 := eq_of_toNat_eq hx
    exact ⟨by decide, by decide, ⟨0, by decide, 0, by decide⟩, by decide, fun n _ hle => hle⟩
  obtain ⟨word, size, hcode, hmin, hword, hone, hsize, hle, hnext, hexact⟩ := getCompact_eq hx
  obtain ⟨hnegative, hoverflow, hvalue⟩ := setCompact_encode hword hsize hle hexact
  rw [hcode]
  refine ⟨hnegative, hoverflow, ?_, by omega, ?_⟩
  · by_cases hfew : size ≤ 3
    · have hpow : 256 ^ size ≤ 256 ^ 3 := Nat.pow_le_pow_right (by decide) hfew
      refine ⟨_, lt_of_le_of_lt (Nat.le_of_mul_le_mul_right ?_ (by decide : 0 < 256 ^ 3)) hword, 0,
        (Nat.mul_one _).symm⟩
      rw [hvalue]
      exact Nat.mul_le_mul_left _ hpow
    · refine ⟨word, hword, size - 3, Nat.eq_of_mul_eq_mul_right (by decide : 0 < 256 ^ 3) ?_⟩
      rw [hvalue, Nat.mul_assoc, ← pow_add, Nat.sub_add_cancel (by omega)]
  · rintro n ⟨m, hm, e, rfl⟩ hbelow
    refine Nat.le_of_mul_le_mul_right ?_ (by decide : 0 < 256 ^ 3)
    rw [hvalue, Nat.mul_assoc, ← pow_add]
    have hscaled : m * 256 ^ (e + 3) ≤ x.toNat * 256 ^ 3 := by
      rw [pow_add, ← Nat.mul_assoc]
      exact Nat.mul_le_mul_right _ hbelow
    rcases Nat.lt_or_ge (e + 3) size with hlow | hhigh
    · -- the mantissa would not reach up to that of `x`
      calc
        m * 256 ^ (e + 3) ≤ 2 ^ 23 * 256 ^ (size - 1) :=
          Nat.mul_le_mul hm.le (Nat.pow_le_pow_right (by decide) (by omega))
        _ = 2 ^ 15 * 256 ^ (size - 1 + 1) := by ring
        _ ≤ word * 256 ^ size := by
          rw [Nat.sub_add_cancel hone]
          exact Nat.mul_le_mul_right _ hmin
    · have hpow : 256 ^ (e + 3) = 256 ^ (e + 3 - size) * 256 ^ size := by
        rw [← pow_add, Nat.sub_add_cancel hhigh]
      rw [hpow, ← Nat.mul_assoc] at hscaled ⊢
      refine Nat.mul_le_mul_right _ (Nat.lt_succ_iff.mp ?_)
      exact Nat.lt_of_mul_lt_mul_right (hscaled.trans_lt hnext)

theorem setCompact_getCompact_ne_zero (hx : x.toNat ≠ 0) :
    (setCompact (getCompact x)).toNat ≠ 0 := by
  obtain ⟨-, -, -, -, hlargest⟩ := setCompact_getCompact x
  have := hlargest 1 ⟨1, by decide, 0, rfl⟩ (Nat.pos_of_ne_zero hx)
  omega

theorem getCompact_setCompact (x : Arith256) :
    getCompact (setCompact (getCompact x)) = getCompact x := by
  by_cases hx : x.toNat = 0
  · obtain rfl : x = 0 := eq_of_toNat_eq hx
    decide
  obtain ⟨-, -, hcompact, -, -⟩ := setCompact_getCompact x
  have hne := setCompact_getCompact_ne_zero hx
  obtain ⟨word, size, hcode, hmin, hword, -, hsize, hle, -, hexact⟩ := getCompact_eq hx
  have hvalue := (setCompact_encode hword hsize hle hexact).2.2
  rw [hcode] at hcompact hne ⊢
  generalize setCompact (encode word size) = v at *
  obtain ⟨-, -, -, hbelow, hlargest⟩ := setCompact_getCompact v
  have hsame := hbelow.antisymm (hlargest _ hcompact le_rfl)
  obtain ⟨word', size', hcode', hmin', hword', -, hsize', hle', -, hexact'⟩ := getCompact_eq hne
  have hvalue' := (setCompact_encode hword' hsize' hle' hexact').2.2
  rw [hcode'] at hsame ⊢
  rw [hsame] at hvalue'
  exact encode_inj ⟨hmin', hword'⟩ ⟨hmin, hword⟩ (hvalue'.symm.trans hvalue)

/-- Division is exact, and the compact form of a number stands for the largest number up to it that
has one. -/
theorem division_and_compact_exact :
    (∀ a b : Arith256, b.toNat ≠ 0 → ∃ q, div a b = some q ∧ q.toNat = a.toNat / b.toNat) ∧
      ∀ x : Arith256,
        Compact (setCompact (getCompact x)).toNat ∧ (setCompact (getCompact x)).toNat ≤ x.toNat ∧
        (∀ n, Compact n → n ≤ x.toNat → n ≤ (setCompact (getCompact x)).toNat) ∧
        compactNegative (getCompact x) = false ∧ compactOverflow (getCompact x) = false ∧
        (∀ y : Arith256, x.toNat ≤ y.toNat →
          (setCompact (getCompact x)).toNat ≤ (setCompact (getCompact y)).toNat) ∧
        getCompact (setCompact (getCompact x)) = getCompact x := by
  refine ⟨fun a b hb => div_eq_some hb, fun x => ?_⟩
  obtain ⟨hnegative, hoverflow, hcompact, hle, hlargest⟩ := setCompact_getCompact x
  refine ⟨hcompact, hle, hlargest, hnegative, hoverflow, fun y hxy => ?_, getCompact_setCompact x⟩
  exact (setCompact_getCompact y).2.2.2.2 _ hcompact (hle.trans hxy)

end Arith256

end Defcon
