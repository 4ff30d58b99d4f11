import Mathlib.Data.List.Basic
import Mathlib.Tactic.Ring

/-!
# Serialization

A format writes a value as bytes and reads it back from the front of a stream. A `Codec` carries
the proof that it reads what it wrote, whatever follows in the stream; formats are put together
from the formats of their parts, and the proof with them. `Fits` says which values a format is for.
-/

namespace Lib

universe u v

abbrev Bytes := List UInt8

structure Codec (α : Type u) where
  put : α → Bytes
  get : Bytes → Option (α × Bytes)
  Fits : α → Prop
  get_put : ∀ {a}, Fits a → ∀ rest, get (put a ++ rest) = some (a, rest)

namespace Codec

variable {α : Type u} {β : Type v}

/-! ### Putting formats together -/

def pair (c : Codec α) (d : Codec β) : Codec (α × β) where
  put p := c.put p.1 ++ d.put p.2
  get bytes := (c.get bytes).bind fun p => (d.get p.2).map fun q => ((p.1, q.1), q.2)
  Fits p := c.Fits p.1 ∧ d.Fits p.2
  get_put := by
    rintro ⟨a, b⟩ ⟨ha, hb⟩ rest
    rw [List.append_assoc, c.get_put ha]
    simp [d.get_put hb]

/-- A value whose format depends on what has been read before it. -/
def dependent {β : α → Type v} (c : Codec α) (d : (a : α) → Codec (β a)) : Codec ((a : α) × β a) where
  put p := c.put p.1 ++ (d p.1).put p.2
  get bytes := (c.get bytes).bind fun p => ((d p.1).get p.2).map fun q => (⟨p.1, q.1⟩, q.2)
  Fits p := c.Fits p.1 ∧ (d p.1).Fits p.2
  get_put := by
    rintro ⟨a, b⟩ ⟨ha, hb⟩ rest
    rw [List.append_assoc, c.get_put ha]
    simp [(d a).get_put hb]

def via (c : Codec α) (f : β → α) (g : α → β) (P : β → Prop) (hgf : ∀ {b}, P b → g (f b) = b) :
    Codec β where
  put b := c.put (f b)
  get bytes := (c.get bytes).map fun p => (g p.1, p.2)
  Fits b := P b ∧ c.Fits (f b)
  get_put := by
    rintro b ⟨hb, hfits⟩ rest
    rw [c.get_put hfits, Option.map_some, hgf hb]

def guarded (c : Codec α) (P : α → Prop) [DecidablePred P] : Codec α where
  put := c.put
  get bytes := (c.get bytes).filter fun p => P p.1
  Fits a := P a ∧ c.Fits a
  get_put := by
    rintro a ⟨ha, hfits⟩ rest
    rw [c.get_put hfits]
    exact Option.filter_some_pos (decide_eq_true ha)

def flagged (flag : Bool) (c : Codec α) : Codec (Option α) where
  put o := (o.map c.put).getD []
  get bytes := if flag then (c.get bytes).map fun p => (some p.1, p.2) else some (none, bytes)
  Fits o := if flag then ∃ a, o = some a ∧ c.Fits a else o = none
  get_put := by
    intro o hfits rest
    cases flag with
    | true =>
      obtain ⟨a, rfl, ha⟩ := hfits
      simp [c.get_put ha]
    | false =>
      obtain rfl : o = none := hfits
      rfl

theorem fits_flagged {flag : Bool} {c : Codec α} {a : α} (ha : c.Fits a) :
    (c.flagged flag).Fits (if flag then some a else none) := by
  cases flag with
  | true => exact ⟨a, rfl, ha⟩
  | false => exact rfl

def getMany (c : Codec α) : Nat → Bytes → Option (List α × Bytes)
  | 0, bytes => some ([], bytes)
  | n + 1, bytes =>
    (c.get bytes).bind fun p => (getMany c n p.2).map fun q => (p.1 :: q.1, q.2)

theorem getMany_put {c : Codec α} {as : List α} (hall : ∀ a ∈ as, c.Fits a) (rest : Bytes) :
    c.getMany as.length (as.flatMap c.put ++ rest) = some (as, rest) := by
  induction as with
  | nil => rfl
  | cons a as ih =>
    rw [List.flatMap_cons, List.append_assoc, List.length_cons, getMany,
      c.get_put (hall a List.mem_cons_self)]
    simp [ih fun a ha => hall a (List.mem_cons_of_mem _ ha)]

def counted (size : Codec Nat) (c : Codec α) : Codec (List α) where
  put as := size.put as.length ++ as.flatMap c.put
  get bytes := (size.get bytes).bind fun p => c.getMany p.1 p.2
  Fits as := size.Fits as.length ∧ ∀ a ∈ as, c.Fits a
  get_put := by
    rintro as ⟨hsize, hall⟩ rest
    rw [List.append_assoc, size.get_put hsize]
    exact getMany_put hall rest

/-! ### Integers of fixed width -/

def byte : Codec UInt8 where
  put b := [b]
  get
    | [] => none
    | b :: bytes => some (b, bytes)
  Fits _ := True
  get_put _ _ := rfl

def raw (n : Nat) : Codec Bytes where
  put bytes := bytes
  get bytes := if n ≤ bytes.length then some (bytes.take n, bytes.drop n) else none
  Fits bytes := bytes.length = n
  get_put := by
    rintro bytes rfl rest
    rw [if_pos (by rw [List.length_append]; exact Nat.le_add_right _ _), List.take_left,
      List.drop_left]

/-- The `n` lowest bytes of a number, the lowest first. -/
def leBytes : Nat → Nat → Bytes
  | 0, _ => []
  | n + 1, x => UInt8.ofNat (x % 256) :: leBytes n (x / 256)

def readLE : Nat → Bytes → Option (Nat × Bytes)
  | 0, bytes => some (0, bytes)
  | _ + 1, [] => none
  | n + 1, b :: bytes => (readLE n bytes).map fun p => (b.toNat + 256 * p.1, p.2)

def le (n : Nat) : Codec Nat where
  put := leBytes n
  get := readLE n
  Fits x := x < 256 ^ n
  get_put := by
    induction n with
    | zero =>
      intro x hx rest
      obtain rfl : x = 0 := by simpa using hx
      rfl
    | succ n ih =>
      intro x hx rest
      have hdiv : x / 256 < 256 ^ n := by
        rw [Nat.pow_succ] at hx
        exact Nat.div_lt_of_lt_mul (by rwa [Nat.mul_comm])
      have hbyte : (UInt8.ofNat (x % 256)).toNat = x % 256 := by
        rw [UInt8.toNat_ofNat']
        omega
      rw [leBytes, List.cons_append, readLE, ih hdiv, Option.map_some, hbyte,
        Nat.mod_add_div]

def bitVec (n : Nat) : Codec (BitVec (8 * n)) :=
  (le n).via BitVec.toNat (BitVec.ofNat (8 * n)) (fun _ => True) fun {b} _ =>
    (BitVec.ofNat_toNat _ b).trans b.setWidth_eq

theorem fits_bitVec {n : Nat} (b : BitVec (8 * n)) : (bitVec n).Fits b := by
  refine ⟨trivial, ?_⟩
  have hlt := b.isLt
  rwa [Nat.pow_mul] at hlt

def uint16 : Codec UInt16 :=
  (le 2).via UInt16.toNat UInt16.ofNat (fun _ => True) fun _ => UInt16.ofNat_toNat

theorem fits_uint16 (n : UInt16) : uint16.Fits n :=
  ⟨trivial, n.toNat_lt⟩

def uint32 : Codec UInt32 :=
  (le 4).via UInt32.toNat UInt32.ofNat (fun _ => True) fun _ => UInt32.ofNat_toNat

theorem fits_uint32 (n : UInt32) : uint32.Fits n :=
  ⟨trivial, n.toNat_lt⟩

def InInt32 (i : Int) : Prop :=
  -2 ^ 31 ≤ i ∧ i < 2 ^ 31

instance (i : Int) : Decidable (InInt32 i) :=
  inferInstanceAs (Decidable (_ ∧ _))

/-- Signed integers of 32 bits, in two's complement. -/
def int32 : Codec Int :=
  (le 4).via (fun i => (i % 2 ^ 32).toNat) (fun n => if n < 2 ^ 31 then n else n - 2 ^ 32) InInt32 <| by
    rintro i ⟨hlow, hhigh⟩
    have hmod : (((i % 2 ^ 32).toNat : Nat) : Int) = i % 2 ^ 32 :=
      Int.toNat_of_nonneg (Int.emod_nonneg _ (by decide))
    split <;> omega

theorem fits_int32 {i : Int} (hi : InInt32 i) : int32.Fits i := by
  refine ⟨hi, ?_⟩
  change (i % 2 ^ 32).toNat < 256 ^ 4
  omega

def uint16BE : Codec UInt16 :=
  (byte.pair byte).via (fun n => (UInt8.ofNat (n.toNat / 256), UInt8.ofNat n.toNat))
    (fun p => UInt16.ofNat (256 * p.1.toNat + p.2.toNat)) (fun _ => True) <| by
    intro n _
    have hlt := n.toNat_lt
    have hhigh : (UInt8.ofNat (n.toNat / 256)).toNat = n.toNat / 256 := by
      rw [UInt8.toNat_ofNat']
      omega
    have hlow : (UInt8.ofNat n.toNat).toNat = n.toNat % 256 := UInt8.toNat_ofNat'
    rw [hhigh, hlow, Nat.div_add_mod]
    exact UInt16.ofNat_toNat

theorem fits_uint16BE (n : UInt16) : uint16BE.Fits n :=
  ⟨trivial, trivial, trivial⟩

def bool : Codec Bool :=
  byte.via (fun b => if b then 1 else 0) (fun n => n ≠ 0) (fun _ => True) <| by
    rintro (_ | _) - <;> rfl

theorem fits_bool (b : Bool) : bool.Fits b :=
  ⟨trivial, trivial⟩

/-! ### Integers of variable width -/

def MAX_SIZE : Nat := 0x02000000

def writeCompactSize (nSize : Nat) : Bytes :=
  if nSize < 253 then leBytes 1 nSize
  else if nSize ≤ 0xffff then 253 :: leBytes 2 nSize
  else if nSize ≤ 0xffffffff then 254 :: leBytes 4 nSize
  else 255 :: leBytes 8 nSize

def readCompactSize : Bytes → Option (Nat × Bytes)
  | [] => none
  | chSize :: bytes => do
    let (nSize, bytes) ←
      if chSize < 253 then some (chSize.toNat, bytes)
      else if chSize = 253 then (readLE 2 bytes).filter fun p => 253 ≤ p.1
      else if chSize = 254 then (readLE 4 bytes).filter fun p => 0x10000 ≤ p.1
      else (readLE 8 bytes).filter fun p => 0x100000000 ≤ p.1
    if MAX_SIZE < nSize then none else some (nSize, bytes)

def compactSize : Codec Nat where
  put := writeCompactSize
  get := readCompactSize
  Fits n := n ≤ MAX_SIZE
  get_put := by
    intro n hn rest
    have hle : ¬ MAX_SIZE < n := Nat.not_lt.mpr hn
    unfold MAX_SIZE at hn
    have hread {k : Nat} (hk : n < 256 ^ k) : readLE k (leBytes k n ++ rest) = some (n, rest) :=
      (le k).get_put hk rest
    unfold writeCompactSize
    split
    next hsmall =>
      have hbyte : (UInt8.ofNat (n % 256)).toNat = n := by
        rw [UInt8.toNat_ofNat']
        omega
      have hlt : UInt8.ofNat (n % 256) < 253 := UInt8.lt_iff_toNat_lt.mpr (by rwa [hbyte])
      simp only [leBytes, List.cons_append, List.nil_append, readCompactSize, if_pos hlt, hbyte]
      exact if_neg hle
    split
    next hlow hhigh =>
      have hcanonical : decide (253 ≤ n) = true := decide_eq_true (Nat.not_lt.mp hlow)
      rw [List.cons_append, readCompactSize, hread (by omega)]
      simp only [Option.filter, hcanonical]
      exact if_neg hle
    split
    next hlow hhigh =>
      have hcanonical : decide (0x10000 ≤ n) = true := decide_eq_true (by omega)
      rw [List.cons_append, readCompactSize, hread (by omega)]
      simp only [Option.filter, hcanonical]
      exact if_neg hle
    · omega

/-- The digits before the last one. Each has the high bit set and stands for one more than it
says. -/
def varIntPrefix : Nat → Nat → Bytes
  | 0, _ => []
  | fuel + 1, n =>
    if n ≤ 0x7f then []
    else varIntPrefix fuel (n / 128 - 1) ++ [UInt8.ofNat ((n / 128 - 1) % 128 + 128)]

def writeVarInt (n : Nat) : Bytes :=
  varIntPrefix n n ++ [UInt8.ofNat (n % 128)]

/-- The loop of `ReadVarInt` for a type with the largest value `max`. -/
def readVarInt (max : Nat) : Nat → Bytes → Option (Nat × Bytes)
  | _, [] => none
  | n, chData :: bytes =>
    if max / 128 < n then none
    else
      let n := n * 128 + chData.toNat % 128
      if 128 ≤ chData then if n = max then none else readVarInt max (n + 1) bytes
      else some (n, bytes)

theorem readVarInt_prefix {max n fuel : Nat} (hn : n ≤ max) (hfuel : n ≤ fuel) (rest : Bytes) :
    readVarInt max 0 (varIntPrefix fuel n ++ rest) = readVarInt max (n / 128) rest := by
  induction fuel generalizing n rest with
  | zero =>
    obtain rfl : n = 0 := Nat.le_zero.mp hfuel
    rfl
  | succ fuel ih =>
    unfold varIntPrefix
    split
    next hsmall =>
      have hzero : n / 128 = 0 := by omega
      rw [hzero]
      rfl
    next hlarge =>
      obtain ⟨m, hm⟩ : ∃ m, n / 128 = m + 1 := ⟨n / 128 - 1, by omega⟩
      have hbyte : (UInt8.ofNat (m % 128 + 128)).toNat = m % 128 + 128 := by
        rw [UInt8.toNat_ofNat']
        omega
      have hhigh : (128 : UInt8) ≤ UInt8.ofNat (m % 128 + 128) :=
        UInt8.le_iff_toNat_le.mpr (by rw [hbyte]; exact Nat.le_add_left _ _)
      have hdigit : m / 128 * 128 + (m % 128 + 128) % 128 = m := by omega
      rw [hm, Nat.add_sub_cancel, List.append_assoc, ih (by omega) (by omega), List.cons_append,
        List.nil_append, readVarInt, if_neg (by omega)]
      rw [if_pos hhigh, hbyte, hdigit, if_neg (by omega)]

def varInt (max : Nat) : Codec Nat where
  put := writeVarInt
  get := readVarInt max 0
  Fits n := n ≤ max
  get_put := by
    intro n hn rest
    have hbyte : (UInt8.ofNat (n % 128)).toNat = n % 128 := by
      rw [UInt8.toNat_ofNat']
      omega
    have hlast : ¬ (128 : UInt8) ≤ UInt8.ofNat (n % 128) := by
      rw [UInt8.le_iff_toNat_le, hbyte, Nat.not_le]
      exact Nat.mod_lt _ (by decide)
    have hdigit : n / 128 * 128 + n % 128 % 128 = n := by omega
    rw [writeVarInt, List.append_assoc, readVarInt_prefix hn le_rfl, List.cons_append,
      List.nil_append, readVarInt, if_neg (by omega)]
    rw [if_neg hlast, hbyte, hdigit]

end Codec

end Lib
