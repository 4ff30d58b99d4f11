import Defcon.Coins
import Defcon.Lib.Codec

/-!
# Compressed outputs

Coins are stored with their amount and script compressed: an amount loses its trailing zeros, and
six kinds of standard scripts are written as the hash or key they contain. Reading gives back what
was written, for amounts of money and for scripts that are not too long.
-/

namespace Defcon

open List Nat
open Lib (Bytes Codec)

/-! ### Amounts -/

/-- Divide out up to `fuel` factors of ten; returned are the quotient and their number. -/
def stripZeros : Nat → Nat → Nat × Nat
  | 0, n => (n, 0)
  | fuel + 1, n =>
    if n % 10 = 0 then ((stripZeros fuel (n / 10)).1, (stripZeros fuel (n / 10)).2 + 1) else (n, 0)

def compressAmount (n : Nat) : Nat :=
  if n = 0 then 0
  else
    let (n, e) := stripZeros 9 n
    if e < 9 then (1 + (n / 10 * 9 + n % 10 - 1) * 10 + e) % 2 ^ 64
    else (1 + (n - 1) * 10 + 9) % 2 ^ 64

def decompressAmount (x : Nat) : Nat :=
  if x = 0 then 0
  else
    let x := x - 1
    let e := x % 10
    let x := x / 10
    let n := if e < 9 then x / 9 * 10 + (x % 9 + 1) else x + 1
    n * 10 ^ e % 2 ^ 64

theorem stripZeros_spec (fuel n : Nat) :
    n = (stripZeros fuel n).1 * 10 ^ (stripZeros fuel n).2 ∧ (stripZeros fuel n).2 ≤ fuel ∧
      ((stripZeros fuel n).2 < fuel → (stripZeros fuel n).1 % 10 ≠ 0) := by
  induction fuel generalizing n with
  | zero => simp [stripZeros]
  | succ fuel ih =>
    unfold stripZeros
    split
    next hzero =>
      obtain ⟨hvalue, hle, hlast⟩ := ih (n / 10)
      refine ⟨?_, succ_le_succ hle, fun hlt => hlast (lt_of_succ_lt_succ hlt)⟩
      calc n = n / 10 * 10 := by omega
        _ = (stripZeros fuel (n / 10)).1 * 10 ^ (stripZeros fuel (n / 10)).2 * 10 := by rw [← hvalue]
        _ = _ := by rw [mul_assoc, ← pow_succ]
    next hdigit => exact ⟨by simp, zero_le _, fun _ => hdigit⟩

theorem compressAmount_lt (n : Nat) : compressAmount n < 2 ^ 64 := by
  unfold compressAmount
  split
  · decide
  · dsimp only
    split <;> exact mod_lt _ (by decide)

theorem decompressAmount_compressAmount {n : Nat} (hn : n < 2 ^ 60) :
    decompressAmount (compressAmount n) = n := by
  unfold compressAmount
  split
  next hzero => rw [hzero]; rfl
  next hpos =>
  obtain ⟨hvalue, hle, hlast⟩ := stripZeros_spec 9 n
  generalize stripZeros 9 n = stripped at hvalue hle hlast ⊢
  obtain ⟨m, e⟩ := stripped
  dsimp only at hvalue hle hlast ⊢
  have hpow : 0 < 10 ^ e := Nat.pow_pos (by decide)
  have hmle : m ≤ n := by
    rw [hvalue]
    exact Nat.le_mul_of_pos_right m hpow
  have hmpos : m ≠ 0 := by
    rintro rfl
    exact hpos (by rw [hvalue, Nat.zero_mul])
  have hsmall : n % 2 ^ 64 = n := Nat.mod_eq_of_lt (by omega)
  split
  next he =>
    generalize hx : 1 + (m / 10 * 9 + m % 10 - 1) * 10 + e = x
    have hxlt : x % 2 ^ 64 = x := Nat.mod_eq_of_lt (by omega)
    have hquot : (x - 1) / 10 = m / 10 * 9 + (m % 10 - 1) := by omega
    rw [hxlt, decompressAmount, if_neg (by omega)]
    dsimp only
    rw [show (x - 1) % 10 = e by omega, if_pos he, hquot,
      show (m / 10 * 9 + (m % 10 - 1)) / 9 * 10 + ((m / 10 * 9 + (m % 10 - 1)) % 9 + 1) = m by omega,
      ← hvalue, hsmall]
  next he =>
    obtain rfl : e = 9 := by omega
    generalize hx : 1 + (m - 1) * 10 + 9 = x
    have hxlt : x % 2 ^ 64 = x := Nat.mod_eq_of_lt (by omega)
    rw [hxlt, decompressAmount, if_neg (by omega)]
    dsimp only
    rw [show (x - 1) % 10 = 9 by omega, if_neg (by decide), show (x - 1) / 10 + 1 = m by omega,
      ← hvalue, hsmall]

def amountOfUint64 (n : Nat) : Int :=
  if n < 2 ^ 63 then n else n - 2 ^ 64

theorem amountOfUint64_decompressAmount {v : Int} (hlow : 0 ≤ v) (hhigh : v < 2 ^ 60) :
    amountOfUint64 (decompressAmount (compressAmount (v % 2 ^ 64).toNat)) = v := by
  have hnat : ((v % 2 ^ 64).toNat : Int) = v := by omega
  rw [decompressAmount_compressAmount (by omega), amountOfUint64, if_pos (by omega), hnat]

def amountFormat : Codec CAmount :=
  (Codec.varInt (2 ^ 64 - 1)).via (fun v => compressAmount (v % 2 ^ 64).toNat)
    (fun x => amountOfUint64 (decompressAmount x)) MoneyRange fun {_} hv =>
      amountOfUint64_decompressAmount hv.1 (lt_of_le_of_lt hv.2 (by decide))

theorem fits_amountFormat {v : CAmount} (hv : MoneyRange v) : amountFormat.Fits v :=
  ⟨hv, le_pred_of_lt (compressAmount_lt _)⟩

/-! ### Scripts -/

def OP_DUP : UInt8 := 0x76
def OP_EQUAL : UInt8 := 0x87
def OP_EQUALVERIFY : UInt8 := 0x88
def OP_HASH160 : UInt8 := 0xa9
def OP_CHECKSIG : UInt8 := 0xac

/-- Public keys as the curve library sees them. Decompressing the compressed form of a fully valid
key gives the key. -/
structure PubKeys where
  isFullyValid : Bytes → Bool
  decompress : Bytes → Option Bytes
  length_decompress : ∀ {vch key}, decompress vch = some key → key.length = 65
  decompress_compress : ∀ {x y : Bytes}, x.length = 32 → y.length = 32 →
    isFullyValid (0x04 :: x ++ y) = true →
    decompress ((0x02 ||| (y.getD 31 0 &&& 0x01)) :: x) = some (0x04 :: x ++ y)

def isToKeyID (script : CScript) : Option Bytes :=
  if script.length = 25 ∧ script.take 3 = [OP_DUP, OP_HASH160, 20] ∧
      script.drop 23 = [OP_EQUALVERIFY, OP_CHECKSIG] then
    some ((script.drop 3).take 20)
  else none

def isToScriptID (script : CScript) : Option Bytes :=
  if script.length = 23 ∧ script.take 2 = [OP_HASH160, 20] ∧ script.drop 22 = [OP_EQUAL] then
    some ((script.drop 2).take 20)
  else none

def isToPubKey (keys : PubKeys) (script : CScript) : Option Bytes :=
  if script.length = 35 ∧ script.take 1 = [33] ∧ script.drop 34 = [OP_CHECKSIG] ∧
      (script.getD 1 0 = 0x02 ∨ script.getD 1 0 = 0x03) then
    some ((script.drop 1).take 33)
  else if script.length = 67 ∧ script.take 1 = [65] ∧ script.drop 66 = [OP_CHECKSIG] ∧
      script.getD 1 0 = 0x04 then
    if keys.isFullyValid ((script.drop 1).take 65) then some ((script.drop 1).take 65) else none
  else none

def compressScript (keys : PubKeys) (script : CScript) : Option Bytes :=
  match isToKeyID script with
  | some hash => some (0x00 :: hash)
  | none =>
    match isToScriptID script with
    | some hash => some (0x01 :: hash)
    | none =>
      match isToPubKey keys script with
      | none => none
      | some pubkey =>
        if pubkey.getD 0 0 = 0x02 ∨ pubkey.getD 0 0 = 0x03 then
          some (pubkey.getD 0 0 :: (pubkey.drop 1).take 32)
        else if pubkey.getD 0 0 = 0x04 then
          some ((0x04 ||| (pubkey.getD 64 0 &&& 0x01)) :: (pubkey.drop 1).take 32)
        else none

def getSpecialScriptSize (nSize : Nat) : Nat :=
  if nSize = 0 ∨ nSize = 1 then 20 else if nSize = 2 ∨ nSize = 3 ∨ nSize = 4 ∨ nSize = 5 then 32 else 0

/-- `DecompressScript`. A key that cannot be decompressed leaves the script empty. -/
def decompressScript (keys : PubKeys) (nSize : Nat) (vch : Bytes) : CScript :=
  match nSize with
  | 0x00 => [OP_DUP, OP_HASH160, 20] ++ vch ++ [OP_EQUALVERIFY, OP_CHECKSIG]
  | 0x01 => [OP_HASH160, 20] ++ vch ++ [OP_EQUAL]
  | 0x02 => [33, 0x02] ++ vch ++ [OP_CHECKSIG]
  | 0x03 => [33, 0x03] ++ vch ++ [OP_CHECKSIG]
  | 0x04 | 0x05 =>
    match keys.decompress (UInt8.ofNat (nSize - 2) :: vch) with
    | none => []
    | some pubkey => [65] ++ pubkey ++ [OP_CHECKSIG]
  | _ => []

def nSpecialScripts : Nat := 6

def writeScript (keys : PubKeys) (script : CScript) : Bytes :=
  match compressScript keys script with
  | some compr => compr
  | none => Codec.writeVarInt (script.length + nSpecialScripts) ++ script

def readScript (keys : PubKeys) (bytes : Bytes) : Option (CScript × Bytes) :=
  (Codec.readVarInt (2 ^ 32 - 1) 0 bytes).bind fun (nSize, bytes) =>
    if nSize < nSpecialScripts then
      ((Codec.raw (getSpecialScriptSize nSize)).get bytes).map fun (vch, bytes) =>
        (decompressScript keys nSize vch, bytes)
    else if MAX_SCRIPT_SIZE < nSize - nSpecialScripts then
      ((Codec.raw (nSize - nSpecialScripts)).get bytes).map fun (_, bytes) => ([OP_RETURN], bytes)
    else (Codec.raw (nSize - nSpecialScripts)).get bytes

/-! A script of one of the six kinds is put together again from its parts. -/

theorem eq_append_of_take_of_drop {script pre post : Bytes} (n : Nat)
    (htake : script.take pre.length = pre) (hdrop : script.drop (pre.length + n) = post) :
    script = pre ++ (script.drop pre.length).take n ++ post := by
  calc script = script.take pre.length ++ script.drop pre.length := (take_append_drop _ _).symm
    _ = pre ++ ((script.drop pre.length).take n ++ (script.drop pre.length).drop n) := by
        rw [htake, take_append_drop]
    _ = pre ++ (script.drop pre.length).take n ++ post := by
        rw [drop_drop, hdrop, append_assoc]

variable {script : CScript} {keys : PubKeys}

theorem eq_of_isToKeyID {hash : Bytes} (h : isToKeyID script = some hash) :
    hash.length = 20 ∧ script = [OP_DUP, OP_HASH160, 20] ++ hash ++ [OP_EQUALVERIFY, OP_CHECKSIG] := by
  unfold isToKeyID at h
  split at h
  next hshape =>
    obtain ⟨hlength, htake, hdrop⟩ := hshape
    cases h
    refine ⟨by simp [hlength], ?_⟩
    exact eq_append_of_take_of_drop 20 htake hdrop
  · cases h

theorem eq_of_isToScriptID {hash : Bytes} (h : isToScriptID script = some hash) :
    hash.length = 20 ∧ script = [OP_HASH160, 20] ++ hash ++ [OP_EQUAL] := by
  unfold isToScriptID at h
  split at h
  next hshape =>
    obtain ⟨hlength, htake, hdrop⟩ := hshape
    cases h
    refine ⟨by simp [hlength], ?_⟩
    exact eq_append_of_take_of_drop 20 htake hdrop
  · cases h

theorem eq_cons_of_getD {l : Bytes} {b : UInt8} {n : Nat} (hlength : l.length = n + 1)
    (hhead : l.getD 0 0 = b) : ∃ tail, l = b :: tail ∧ tail.length = n := by
  cases l with
  | nil => cases hlength
  | cons c tail => exact ⟨tail, by rw [← hhead]; rfl, succ.inj hlength⟩

theorem eq_of_isToPubKey {pubkey : Bytes} (h : isToPubKey keys script = some pubkey) :
    (∃ b x, (b = 0x02 ∨ b = 0x03) ∧ x.length = 32 ∧ pubkey = b :: x ∧
        script = [33] ++ (b :: x) ++ [OP_CHECKSIG]) ∨
      ∃ x y, x.length = 32 ∧ y.length = 32 ∧ pubkey = 0x04 :: x ++ y ∧
        keys.isFullyValid (0x04 :: x ++ y) = true ∧
        script = [65] ++ (0x04 :: x ++ y) ++ [OP_CHECKSIG] := by
  have hsecond (l : Bytes) (n : Nat) : ((l.drop 1).take (n + 1)).getD 0 0 = l.getD 1 0 := by
    cases l with
    | nil => rfl
    | cons a l => cases l <;> rfl
  unfold isToPubKey at h
  split at h
  next hshape =>
    obtain ⟨hlength, htake, hdrop, hkind⟩ := hshape
    cases h
    obtain ⟨x, hkey, hx⟩ := eq_cons_of_getD (n := 32) (by simp [hlength]) (hsecond script 32)
    refine Or.inl ⟨script.getD 1 0, x, hkind, hx, hkey, ?_⟩
    rw [← hkey]
    exact eq_append_of_take_of_drop 33 htake hdrop
  · split at h
    next hshape =>
      obtain ⟨hlength, htake, hdrop, hkind⟩ := hshape
      split at h
      next hvalid =>
        cases h
        obtain ⟨tail, hkey, htail⟩ := eq_cons_of_getD (n := 64) (by simp [hlength])
          ((hsecond script 64).trans hkind)
        have hxy : tail.take 32 ++ tail.drop 32 = tail := take_append_drop _ _
        refine Or.inr ⟨tail.take 32, tail.drop 32, by simp [htail], by simp [htail], ?_⟩
        rw [cons_append, hxy, ← hkey]
        exact ⟨rfl, hvalid, eq_append_of_take_of_drop 65 htake hdrop⟩
      · cases h
    · cases h

theorem uint8_and_one (b : UInt8) : b &&& 0x01 = 0 ∨ b &&& 0x01 = 1 := by
  have hmod : (b &&& 0x01).toNat = b.toNat % 2 := by
    exact and_one_is_mod _
  rcases mod_two_eq_zero_or_one b.toNat with hzero | hone
  · exact Or.inl (UInt8.toNat_inj.mp (hmod.trans hzero))
  · exact Or.inr (UInt8.toNat_inj.mp (hmod.trans hone))

theorem compressScript_ok {compr : Bytes} (h : compressScript keys script = some compr) :
    ∃ nSize vch, nSize < nSpecialScripts ∧ compr = UInt8.ofNat nSize :: vch ∧
      vch.length = getSpecialScriptSize nSize ∧ decompressScript keys nSize vch = script := by
  unfold compressScript at h
  split at h
  next hash hkind =>
    obtain ⟨hlength, hscript⟩ := eq_of_isToKeyID hkind
    cases h
    exact ⟨0, hash, by decide, rfl, hlength, hscript.symm⟩
  split at h
  next hash hkind =>
    obtain ⟨hlength, hscript⟩ := eq_of_isToScriptID hkind
    cases h
    exact ⟨1, hash, by decide, rfl, hlength, hscript.symm⟩
  split at h
  · cases h
  next pubkey hkind =>
  rcases eq_of_isToPubKey hkind with ⟨b, x, hb, hx, rfl, hscript⟩ | ⟨x, y, hx, hy, rfl, hvalid, hscript⟩
  · have hfirst : (b :: x).getD 0 0 = b := rfl
    have hrest : ((b :: x).drop 1).take 32 = x := by
      rw [drop_one, tail_cons, ← hx, take_length]
    rw [hfirst, if_pos hb, hrest] at h
    cases h
    rcases hb with rfl | rfl
    · exact ⟨2, x, by decide, rfl, hx, by rw [hscript]; rfl⟩
    · exact ⟨3, x, by decide, rfl, hx, by rw [hscript]; rfl⟩
  · have hfirst : (0x04 :: x ++ y).getD 0 0 = 0x04 := rfl
    have hlast : (0x04 :: x ++ y).getD 64 0 = y.getD 31 0 := by
      rw [cons_append, getD_cons_succ, getD_eq_getElem?_getD,
        getElem?_append_right (by omega), hx, getD_eq_getElem?_getD]
    have hrest : ((0x04 :: x ++ y).drop 1).take 32 = x := by
      rw [cons_append, drop_one, tail_cons, ← hx, take_left]
    rw [hfirst, if_neg (by decide), if_pos rfl, hlast, hrest] at h
    cases h
    have hdecompress := keys.decompress_compress hx hy hvalid
    -- the two kinds differ in the lowest bit of the second coordinate
    rcases uint8_and_one (y.getD 31 0) with hbit | hbit
    · rw [hbit] at hdecompress ⊢
      refine ⟨4, x, by decide, rfl, hx, ?_⟩
      simp only [decompressScript]
      rw [show (UInt8.ofNat (4 - 2) : UInt8) = 0x02 ||| 0 from rfl, hdecompress, hscript]
    · rw [hbit] at hdecompress ⊢
      refine ⟨5, x, by decide, rfl, hx, ?_⟩
      simp only [decompressScript]
      rw [show (UInt8.ofNat (5 - 2) : UInt8) = 0x02 ||| 1 from rfl, hdecompress, hscript]

theorem readVarInt_small {n : Nat} (hn : n < 128) (bytes : Bytes) :
    Codec.readVarInt (2 ^ 32 - 1) 0 (UInt8.ofNat n :: bytes) = some (n, bytes) := by
  have hwrite : Codec.writeVarInt n = [UInt8.ofNat n] := by
    rw [Codec.writeVarInt, mod_eq_of_lt hn]
    cases n with
    | zero => rfl
    | succ n => rw [Codec.varIntPrefix, if_pos (by omega), nil_append]
  have hread := (Codec.varInt (2 ^ 32 - 1)).get_put (a := n) (by simp only [Codec.varInt]; omega) bytes
  simpa only [Codec.varInt, hwrite, cons_append, nil_append] using hread

def scriptFormat (keys : PubKeys) : Codec CScript where
  put := writeScript keys
  get := readScript keys
  Fits script := script.length ≤ MAX_SCRIPT_SIZE
  get_put := by
    intro script hlength rest
    unfold writeScript readScript
    split
    next compr hcompr =>
      obtain ⟨nSize, vch, hsmall, rfl, hvch, hscript⟩ := compressScript_ok hcompr
      have hbyte : nSize < 128 := hsmall.trans (by decide)
      rw [List.cons_append, readVarInt_small hbyte, Option.bind_some]
      have hdata : (Codec.raw (getSpecialScriptSize nSize)).get (vch ++ rest) = some (vch, rest) :=
        (Codec.raw _).get_put hvch rest
      dsimp only
      rw [if_pos hsmall, hdata, Option.map_some, hscript]
    · unfold MAX_SCRIPT_SIZE at hlength
      have hread := (Codec.varInt (2 ^ 32 - 1)).get_put (a := script.length + nSpecialScripts)
        (by simp only [Codec.varInt, nSpecialScripts]; omega) (script ++ rest)
      simp only [Codec.varInt] at hread
      rw [List.append_assoc, hread, Option.bind_some]
      dsimp only
      rw [if_neg (by omega), Nat.add_sub_cancel, if_neg (by unfold MAX_SCRIPT_SIZE; omega)]
      exact (Codec.raw _).get_put rfl rest

def txOutFormat (keys : PubKeys) : Codec CTxOut :=
  (amountFormat.pair (scriptFormat keys)).via (fun out => (out.nValue, out.scriptPubKey))
    (fun p => ⟨p.1, p.2⟩) (fun _ => True) fun _ => rfl

theorem fits_txOutFormat {out : CTxOut} (hvalue : MoneyRange out.nValue)
    (hscript : out.scriptPubKey.length ≤ MAX_SCRIPT_SIZE) : (txOutFormat keys).Fits out :=
  ⟨trivial, fits_amountFormat hvalue, hscript⟩

end Defcon
