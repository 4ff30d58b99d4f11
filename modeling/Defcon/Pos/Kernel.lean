import Defcon.ArithUint256

/-!
# The hash of a stake kernel

From the second version of the kernel rule on, `CheckStakeKernelHash` divides the hash by the amount
where it used to multiply the target, which can exceed 256 bits.
-/

namespace Defcon.Pos

open Arith256

structure KernelParams where
  nPosKernelV2ActivationHeight : Int

structure KernelBlock where
  nHeight : Int
  nStakeModifier : Uint256

/-- `Hash` over the modifier, the time of the block the kernel is from, the kernel and the time. -/
abbrev KernelHash := Uint256 → UInt32 → COutPoint → UInt32 → Uint256

def isPosKernelV2 (params : KernelParams) (nHeight : Int) : Bool :=
  params.nPosKernelV2ActivationHeight ≤ nHeight

def bnWeight (prevOutAmount : Int64) : Arith256 :=
  BitVec.ofNat 256 prevOutAmount.toUInt64.toNat

/-- The verdict, with the hash and the target as far as they are set; `none` when the division
throws. -/
def checkStakeKernelHash (hash : KernelHash) (params : KernelParams) (pindexPrev : KernelBlock)
    (nBits nBlockFromTime : UInt32) (prevOutAmount : Int64) (prevout : COutPoint) (nTime : UInt32) :
    Option (Bool × Option (Uint256 × Uint256)) :=
  let bnTarget := setCompact nBits
  let kernel_v2 := isPosKernelV2 params (pindexPrev.nHeight + 1)
  let hashProofOfStake := hash pindexPrev.nStakeModifier nBlockFromTime prevout nTime
  if nTime < nBlockFromTime then some (false, none)
  else if compactNegative nBits ∨ compactOverflow nBits ∨ bnTarget = 0 then some (false, none)
  else if kernel_v2 then
    if bnWeight prevOutAmount = 0 then some (false, none)
    else (div hashProofOfStake (bnWeight prevOutAmount)).map fun quotient =>
      (quotient ≤ bnTarget, some (hashProofOfStake, bnTarget))
  else
    let bnTarget := mul bnTarget (bnWeight prevOutAmount)
    some (hashProofOfStake ≤ bnTarget, some (hashProofOfStake, bnTarget))

/-! ### The rules in unbounded integers -/

/-- The compact form `nBits` stands for the target `T`, which is positive and fits. -/
structure Decodes (nBits : UInt32) (T : Nat) : Prop where
  positive : compactNegative nBits = false
  fits : compactOverflow nBits = false
  value : compactValue nBits = T
  nonzero : T ≠ 0

section Rules

variable {hash : KernelHash} {params : KernelParams} {pindexPrev : KernelBlock}
  {nBits nBlockFromTime nTime : UInt32} {prevOutAmount : Int64} {prevout : COutPoint} {T : Nat}

theorem toNat_bnWeight (hpos : 0 < prevOutAmount) :
    (bnWeight prevOutAmount).toNat = prevOutAmount.toInt.toNat := by
  have hsigned : 0 < prevOutAmount.toBitVec.toInt := Int64.lt_iff_toInt_lt.mp hpos
  rw [BitVec.toInt_eq_toNat_cond] at hsigned
  have hlt := prevOutAmount.toUInt64.toNat_lt
  rw [bnWeight, BitVec.toNat_ofNat, Nat.mod_eq_of_lt (by omega)]
  change prevOutAmount.toBitVec.toNat = prevOutAmount.toBitVec.toInt.toNat
  rw [BitVec.toInt_eq_toNat_cond]
  split <;> omega

theorem Decodes.toNat_setCompact (hT : Decodes nBits T) : (setCompact nBits).toNat = T :=
  (Arith256.toNat_setCompact hT.fits).trans hT.value

theorem Decodes.not_refused (hT : Decodes nBits T) :
    ¬(compactNegative nBits ∨ compactOverflow nBits ∨ setCompact nBits = 0) := by
  rw [hT.positive, hT.fits]
  rintro (h | h | hzero)
  · cases h
  · cases h
  · refine hT.nonzero ?_
    rw [← hT.toNat_setCompact, hzero]
    rfl

theorem checkStakeKernelHash_v2 (hv2 : isPosKernelV2 params (pindexPrev.nHeight + 1) = true)
    (hT : Decodes nBits T) (hpos : 0 < prevOutAmount) :
    ∃ proof, checkStakeKernelHash hash params pindexPrev nBits nBlockFromTime prevOutAmount prevout
        nTime = some (decide (nBlockFromTime ≤ nTime ∧
          (hash pindexPrev.nStakeModifier nBlockFromTime prevout nTime).toNat <
            (T + 1) * prevOutAmount.toInt.toNat), proof) := by
  have hweight := toNat_bnWeight hpos
  have hw : 0 < prevOutAmount.toInt.toNat := by
    have : 0 < prevOutAmount.toInt := Int64.lt_iff_toInt_lt.mp hpos
    omega
  have hne : (bnWeight prevOutAmount).toNat ≠ 0 := by omega
  have hzero : bnWeight prevOutAmount ≠ 0 := fun h => hne (congrArg BitVec.toNat h)
  unfold checkStakeKernelHash
  by_cases htime : nTime < nBlockFromTime
  · rw [if_pos htime, decide_eq_false fun h => absurd htime (UInt32.not_lt.mpr h.1)]
    exact ⟨none, rfl⟩
  obtain ⟨quotient, hdiv, hquotient⟩ :=
    @div_eq_some (hash pindexPrev.nStakeModifier nBlockFromTime prevout nTime) _ hne
  rw [if_neg htime, if_neg hT.not_refused, if_pos hv2, if_neg hzero, hdiv]
  refine ⟨_, congrArg some (Prod.ext (decide_eq_decide.mpr ?_) rfl)⟩
  rw [BitVec.le_def, hquotient, hT.toNat_setCompact, hweight, ← Nat.lt_succ_iff,
    Nat.div_lt_iff_lt_mul hw]
  exact (and_iff_right (UInt32.not_lt.mp htime)).symm

theorem checkStakeKernelHash_v1 (hv1 : isPosKernelV2 params (pindexPrev.nHeight + 1) = false)
    (hT : Decodes nBits T) (hpos : 0 < prevOutAmount)
    (hfits : T * prevOutAmount.toInt.toNat < 2 ^ 256) :
    ∃ proof, checkStakeKernelHash hash params pindexPrev nBits nBlockFromTime prevOutAmount prevout
        nTime = some (decide (nBlockFromTime ≤ nTime ∧
          (hash pindexPrev.nStakeModifier nBlockFromTime prevout nTime).toNat ≤
            T * prevOutAmount.toInt.toNat), proof) := by
  unfold checkStakeKernelHash
  split
  next htime =>
    rw [decide_eq_false fun h => absurd htime (UInt32.not_lt.mpr h.1)]
    exact ⟨none, rfl⟩
  next htime =>
  rw [if_neg hT.not_refused, hv1, if_neg Bool.false_ne_true]
  refine ⟨_, congrArg some (Prod.ext (decide_eq_decide.mpr ?_) rfl)⟩
  rw [BitVec.le_def, toNat_mul, hT.toNat_setCompact, toNat_bnWeight hpos, Nat.mod_eq_of_lt hfits]
  exact (and_iff_right (UInt32.not_lt.mp htime)).symm

end Rules

def Accepts (hash : KernelHash) (params : KernelParams) (pindexPrev : KernelBlock)
    (nBlockFromTime : UInt32) (prevout : COutPoint) (nTime nBits : UInt32) (prevOutAmount : Int64) :
    Prop :=
  ∃ proof, checkStakeKernelHash hash params pindexPrev nBits nBlockFromTime prevOutAmount prevout
    nTime = some (true, proof)

theorem accepts_iff_of_decide {hash : KernelHash} {params : KernelParams} {pindexPrev : KernelBlock}
    {nBlockFromTime nTime nBits : UInt32} {prevout : COutPoint} {prevOutAmount : Int64} {p : Prop}
    [Decidable p] (hcheck : ∃ proof, checkStakeKernelHash hash params pindexPrev nBits nBlockFromTime
      prevOutAmount prevout nTime = some (decide p, proof)) :
    Accepts hash params pindexPrev nBlockFromTime prevout nTime nBits prevOutAmount ↔ p := by
  obtain ⟨proof, hcheck⟩ := hcheck
  unfold Accepts
  rw [hcheck]
  constructor
  · rintro ⟨proof', heq⟩
    exact of_decide_eq_true (Prod.mk.inj (Option.some.inj heq)).1
  · intro hp
    exact ⟨proof, by rw [decide_eq_true hp]⟩

/-- The second rule accepts a kernel when its hash is below `(T + 1) * w` in unbounded integers. -/
theorem stake_kernel_proportional {hash : KernelHash} {params : KernelParams}
    {pindexPrev : KernelBlock} {nBlockFromTime nTime : UInt32} {prevout : COutPoint}
    (hv2 : isPosKernelV2 params (pindexPrev.nHeight + 1) = true) :
    (∀ {nBits T} {w : Int64}, Decodes nBits T → 0 < w →
      (Accepts hash params pindexPrev nBlockFromTime prevout nTime nBits w ↔
        nBlockFromTime ≤ nTime ∧ ((hash pindexPrev.nStakeModifier nBlockFromTime prevout
          nTime).toNat : Int) < (T + 1) * w.toInt)) ∧
    (∀ {nBits nBits' T T'} {w w' : Int64}, Decodes nBits T → Decodes nBits' T' → T ≤ T' → 0 < w →
      w ≤ w' → Accepts hash params pindexPrev nBlockFromTime prevout nTime nBits w →
      Accepts hash params pindexPrev nBlockFromTime prevout nTime nBits' w') ∧
    (∀ nBits, checkStakeKernelHash hash params pindexPrev nBits nBlockFromTime 0 prevout nTime =
      some (false, none)) ∧
    ∀ {params₁ nBits T} {w : Int64}, isPosKernelV2 params₁ (pindexPrev.nHeight + 1) = false →
      Decodes nBits T → 0 < w → T * w.toInt < 2 ^ 256 →
      Accepts hash params₁ pindexPrev nBlockFromTime prevout nTime nBits w →
      Accepts hash params pindexPrev nBlockFromTime prevout nTime nBits w := by
  have hcast {w : Int64} (hw : 0 < w) : ∃ n : Nat, 0 < n ∧ w.toInt = n := by
    have hpos : 0 < w.toInt := Int64.lt_iff_toInt_lt.mp hw
    exact ⟨w.toInt.toNat, by omega, by omega⟩
  have hrule {nBits T} {w : Int64} (hT : Decodes nBits T) (hw : 0 < w) :=
    accepts_iff_of_decide (@checkStakeKernelHash_v2 hash params pindexPrev nBits nBlockFromTime
      nTime w prevout T hv2 hT hw)
  refine ⟨?_, ?_, ?_, ?_⟩
  · intro nBits T w hT hw
    obtain ⟨n, -, hn⟩ := hcast hw
    rw [hrule hT hw, hn, Int.toNat_natCast]
    norm_cast
  · intro nBits nBits' T T' w w' hT hT' hle hw hww' haccepts
    have hw' : 0 < w' := Int64.lt_of_lt_of_le hw hww'
    have hint : w.toInt ≤ w'.toInt := Int64.le_iff_toInt_le.mp hww'
    rw [hrule hT hw] at haccepts
    rw [hrule hT' hw']
    refine ⟨haccepts.1, haccepts.2.trans_le ?_⟩
    exact Nat.mul_le_mul (Nat.succ_le_succ hle) (Int.toNat_le_toNat hint)
  · intro nBits
    have hzero : bnWeight 0 = 0 := rfl
    unfold checkStakeKernelHash
    dsimp only
    rw [if_pos hv2, if_pos hzero, ite_self, ite_self]
  · intro params₁ nBits T w hv1 hT hw hfits haccepts
    obtain ⟨n, hpos, hn⟩ := hcast hw
    have hfits : T * w.toInt.toNat < 2 ^ 256 := by
      rw [hn] at hfits ⊢
      exact_mod_cast hfits
    rw [accepts_iff_of_decide (checkStakeKernelHash_v1 hv1 hT hw hfits)] at haccepts
    rw [hrule hT hw]
    refine ⟨haccepts.1, haccepts.2.trans_lt ?_⟩
    rw [hn, Int.toNat_natCast, Nat.add_mul]
    omega

namespace KernelSample

def hash : KernelHash := fun _ _ prevout _ => BitVec.ofNat 256 (1000 * prevout.n)

def parameters : KernelParams := ⟨100⟩

end KernelSample

theorem stake_kernel_proportional_sample :
    Decodes 0x01100000 16 ∧
      Accepts KernelSample.hash KernelSample.parameters ⟨99, 0⟩ 7 ⟨0, 5⟩ 8 0x01100000 300 ∧
      Accepts KernelSample.hash KernelSample.parameters ⟨99, 0⟩ 7 ⟨0, 5⟩ 8 0x01100000 400 := by
  have hT : Decodes 0x01100000 16 := ⟨by decide, by decide, by decide, by decide⟩
  obtain ⟨hexact, hmono, -, -⟩ := @stake_kernel_proportional KernelSample.hash
    KernelSample.parameters ⟨99, 0⟩ 7 8 ⟨0, 5⟩ (by decide)
  have haccepts := (hexact hT (show (0 : Int64) < 300 by decide)).mpr ⟨by decide, by decide⟩
  exact ⟨hT, haccepts, hmono hT hT le_rfl (by decide) (by decide) haccepts⟩

end Defcon.Pos
