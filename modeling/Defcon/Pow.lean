import Mathlib.Algebra.Order.BigOperators.Group.List
import Defcon.ArithUint256

/-!
# Difficulty retargeting

`Lwma3CalculateNextWorkRequired` multiplies the sum of the last targets, each divided first, by a
weighted sum of the solve times. The sum of the quotients always fits. The product fits where all
blocks of the window are proof of stake; with proof-of-work targets in the window it can exceed 256
bits, and what is left of it is then compared with the limit.
-/

namespace Defcon.Pow

open Arith256 List Nat

structure PowParams where
  posTargetSpacing : Int
  lastPowBlock : Nat
  powLimit : Arith256
  posLimit : Arith256

def mainParams : PowParams where
  posTargetSpacing := 150
  lastPowBlock := 999
  powLimit := 0x7fffffffffffffffffffffffffffffffffffffffffffffffffffffffffffffff
  posLimit := 0x0000000fffffffffffffffffffffffffffffffffffffffffffffffffffffffff

structure BlockWork where
  nTime : UInt32
  nBits : UInt32

/-- The ancestors of a block, by height. -/
abbrev Ancestors := Nat → BlockWork

def N : Nat := 36

namespace PowParams

variable (params : PowParams)

def k : Int := N * (N + 1) * params.posTargetSpacing / 2

def divisor : Arith256 := BitVec.ofNat 256 (params.k * N % 2 ^ 64).toNat

structure LwmaState where
  previousTimestamp : Int
  j : Int := 0
  t : Int := 0
  sumTarget : Arith256 := 0

def lwmaStep (s : LwmaState) (block : BlockWork) : Option LwmaState := do
  let time : Int := block.nTime.toNat
  let thisTimestamp := if s.previousTimestamp < time then time else s.previousTimestamp + 1
  let solvetime := min (6 * params.posTargetSpacing) (thisTimestamp - s.previousTimestamp)
  let quotient ← div (setCompact block.nBits) params.divisor
  return {
    previousTimestamp := thisTimestamp
    j := s.j + 1
    t := s.t + solvetime * (s.j + 1)
    sumTarget := add s.sumTarget quotient }

def window (chain : Ancestors) (height : Nat) : List BlockWork :=
  (List.range' (height + 1 - N) N).map chain

/-- `none` where the division throws. -/
def lwma3CalculateNextWorkRequired (chain : Ancestors) (height : Nat) : Option UInt32 :=
  if height < N then some (getCompact params.posLimit)
  else do
    let s ← (window chain height).foldlM params.lwmaStep
      { previousTimestamp := (chain (height - N)).nTime.toNat }
    let nextTarget := mul (BitVec.ofNat 256 (s.t % 2 ^ 64).toNat) s.sumTarget
    return getCompact (if params.posLimit < nextTarget then params.posLimit else nextTarget)

def getNextWorkRequired (chain : Ancestors) (height : Nat) : Option UInt32 :=
  if height + 1 ≤ params.lastPowBlock then some (getCompact params.powLimit)
  else params.lwma3CalculateNextWorkRequired chain height

/-! ### The sums in unbounded integers -/

def solveTimes : Int → List BlockWork → List Int
  | _, [] => []
  | previous, block :: rest =>
    let time : Int := block.nTime.toNat
    let this := if previous < time then time else previous + 1
    min (6 * params.posTargetSpacing) (this - previous) :: solveTimes this rest

def weightedSum : Int → List Int → Int
  | _, [] => 0
  | j, time :: rest => time * (j + 1) + weightedSum (j + 1) rest

def weightedSolveTime (chain : Ancestors) (height : Nat) : Int :=
  weightedSum 0 (params.solveTimes (chain (height - N)).nTime.toNat (window chain height))

def quotientSum (blocks : List BlockWork) : Nat :=
  (blocks.map fun block => (setCompact block.nBits).toNat / params.divisor.toNat).sum

def exactTarget (chain : Ancestors) (height : Nat) : Nat :=
  min params.posLimit.toNat
    ((params.weightedSolveTime chain height).toNat * params.quotientSum (window chain height))

variable {params} {blocks : List BlockWork} {s : LwmaState}

theorem foldlM_lwmaStep (hdivisor : params.divisor.toNat ≠ 0) :
    ∃ s', blocks.foldlM params.lwmaStep s = some s' ∧
      s'.t = s.t + weightedSum s.j (params.solveTimes s.previousTimestamp blocks) ∧
      s'.sumTarget.toNat = (s.sumTarget.toNat + params.quotientSum blocks) % 2 ^ 256 := by
  induction blocks generalizing s with
  | nil =>
    refine ⟨s, rfl, (Int.add_zero _).symm, ?_⟩
    exact (mod_eq_of_lt s.sumTarget.isLt).symm
  | cons block blocks ih =>
    obtain ⟨quotient, hdiv, hquotient⟩ := @div_eq_some (setCompact block.nBits) _ hdivisor
    rw [foldlM_cons, lwmaStep, hdiv]
    obtain ⟨s', hfold, ht, hsum⟩ := @ih {
      previousTimestamp := if s.previousTimestamp < (block.nTime.toNat : Int)
        then (block.nTime.toNat : Int) else s.previousTimestamp + 1
      j := s.j + 1
      t := s.t + min (6 * params.posTargetSpacing)
        ((if s.previousTimestamp < (block.nTime.toNat : Int)
          then (block.nTime.toNat : Int) else s.previousTimestamp + 1) - s.previousTimestamp) *
            (s.j + 1)
      sumTarget := add s.sumTarget quotient }
    refine ⟨s', hfold, ?_, ?_⟩
    · rw [ht, solveTimes, weightedSum, Int.add_assoc]
    · rw [hsum, toNat_add, hquotient, mod_add_mod, add_assoc]
      rfl

theorem length_solveTimes (previous : Int) (blocks : List BlockWork) :
    (params.solveTimes previous blocks).length = blocks.length := by
  induction blocks generalizing previous with
  | nil => rfl
  | cons block blocks ih => rw [solveTimes, length_cons, ih, length_cons]

theorem mem_solveTimes (hspacing : 0 < params.posTargetSpacing) {previous time : Int}
    (hmem : time ∈ params.solveTimes previous blocks) :
    1 ≤ time ∧ time ≤ 6 * params.posTargetSpacing := by
  induction blocks generalizing previous with
  | nil => cases hmem
  | cons block blocks ih =>
    rw [solveTimes, mem_cons] at hmem
    rcases hmem with rfl | hmem
    · refine ⟨le_min (by omega) ?_, min_le_left _ _⟩
      split
      · omega
      · omega
    · exact ih hmem

theorem weightedSum_le {j M : Int} (hj : 0 ≤ j) {times : List Int} (htimes : ∀ x ∈ times, x ≤ M) :
    weightedSum j times ≤ weightedSum j (List.replicate times.length M) := by
  induction times generalizing j with
  | nil => exact Int.le_refl _
  | cons time times ih =>
    refine Int.add_le_add ?_ (ih (by omega) fun x hx => htimes x (mem_cons_of_mem _ hx))
    exact Int.mul_le_mul_of_nonneg_right (htimes time mem_cons_self) (by omega)

theorem le_weightedSum {j M : Int} (hj : 0 ≤ j) {times : List Int} (htimes : ∀ x ∈ times, M ≤ x) :
    weightedSum j (List.replicate times.length M) ≤ weightedSum j times := by
  induction times generalizing j with
  | nil => exact Int.le_refl _
  | cons time times ih =>
    refine Int.add_le_add ?_ (ih (by omega) fun x hx => htimes x (mem_cons_of_mem _ hx))
    exact Int.mul_le_mul_of_nonneg_right (htimes time mem_cons_self) (by omega)

/-! ### Mainnet -/

variable {chain : Ancestors} {height : Nat}

theorem length_window : (window chain height).length = N := by
  rw [window, length_map, length_range']

theorem mem_window {block : BlockWork} (hheight : N ≤ height) :
    block ∈ window chain height ↔ ∃ h, height < h + N ∧ h ≤ height ∧ chain h = block := by
  rw [window, mem_map]
  constructor
  · rintro ⟨h, hmem, rfl⟩
    rw [mem_range'_1] at hmem
    exact ⟨h, by omega, by omega, rfl⟩
  · rintro ⟨h, hlow, hhigh, rfl⟩
    refine ⟨h, ?_, rfl⟩
    rw [mem_range'_1]
    omega

theorem divisor_main : mainParams.divisor.toNat = 3596400 := by
  decide

theorem posLimit_main : mainParams.posLimit.toNat = 2 ^ 228 - 1 := by
  decide

theorem powTarget_main : (setCompact (getCompact mainParams.powLimit)).toNat = 0x7fffff * 2 ^ 232 := by
  decide +kernel

theorem weightedSolveTime_bounds (chain : Ancestors) (height : Nat) :
    666 ≤ mainParams.weightedSolveTime chain height ∧
      mainParams.weightedSolveTime chain height ≤ 599400 := by
  unfold weightedSolveTime
  generalize hprevious : ((chain (height - N)).nTime.toNat : Int) = previous
  have hlength : (mainParams.solveTimes previous (window chain height)).length = N :=
    (length_solveTimes previous _).trans length_window
  have htimes {x : Int} (hx : x ∈ mainParams.solveTimes previous (window chain height)) :
      1 ≤ x ∧ x ≤ 900 :=
    mem_solveTimes (by decide) hx
  have hlow := @le_weightedSum 0 1 (Int.le_refl _) _ fun x hx => (htimes hx).1
  have hhigh := @weightedSum_le 0 900 (Int.le_refl _) _ fun x hx => (htimes hx).2
  rw [hlength] at hlow hhigh
  have hone : weightedSum 0 (replicate N 1) = 666 := by decide
  have hmax : weightedSum 0 (replicate N 900) = 599400 := by decide
  omega

/-- A block has the proof-of-work target or a target within the limit of proof of stake. -/
def TargetOk (block : BlockWork) : Prop :=
  block.nBits = getCompact mainParams.powLimit ∨
    (setCompact block.nBits).toNat ≤ mainParams.posLimit.toNat

theorem quotientSum_split (hblocks : ∀ block ∈ blocks, TargetOk block) :
    ∃ m rest, m ≤ blocks.length ∧ rest ≤ blocks.length * ((2 ^ 228 - 1) / 3596400) ∧
      mainParams.quotientSum blocks = m * (0x7fffff * 2 ^ 232 / 3596400) + rest := by
  induction blocks with
  | nil => exact ⟨0, 0, Nat.le_refl _, Nat.zero_le _, rfl⟩
  | cons block blocks ih =>
    obtain ⟨m, rest, hm, hrest, hsum⟩ := ih fun b hb => hblocks b (mem_cons_of_mem _ hb)
    have hcons : mainParams.quotientSum (block :: blocks) =
        (setCompact block.nBits).toNat / 3596400 + mainParams.quotientSum blocks := by
      exact sum_cons
    rw [hcons, hsum, length_cons]
    rcases hblocks block mem_cons_self with hpow | hpos
    · refine ⟨m + 1, rest, by omega, ?_, ?_⟩
      · rw [Nat.succ_mul]
        exact hrest.trans (Nat.le_add_right _ _)
      · rw [hpow, powTarget_main, Nat.add_mul, Nat.one_mul, ← Nat.add_assoc,
          Nat.add_comm (0x7fffff * 2 ^ 232 / 3596400)]
    · refine ⟨m, (setCompact block.nBits).toNat / 3596400 + rest, by omega, ?_, ?_⟩
      · have hquot : (setCompact block.nBits).toNat / 3596400 ≤ (2 ^ 228 - 1) / 3596400 :=
          Nat.div_le_div_right (posLimit_main ▸ hpos)
        rw [Nat.succ_mul, Nat.add_comm]
        exact Nat.add_le_add hrest hquot
      · exact Nat.add_left_comm _ _ _

/-- A product that does not fit leaves more than the limit. -/
theorem limit_lt_wrapped {a y : Nat} (ha : a ≤ 599400 * 36)
    (hy : y ≤ 599400 * (36 * ((2 ^ 228 - 1) / 3596400)))
    (hwrap : 2 ^ 256 ≤ a * (0x7fffff * 2 ^ 232 / 3596400) + y) :
    2 ^ 228 - 1 < (a * (0x7fffff * 2 ^ 232 / 3596400) + y) % 2 ^ 256 := by
  have hfirst : 7192801 ≤ a := by omega
  rw [mod_eq_sub_mod hwrap]
  by_cases honce : a ≤ 14385601
  · rw [mod_eq_of_lt (by omega)]
    omega
  · rw [mod_eq_sub_mod (by omega), mod_eq_of_lt (by omega)]
    omega

theorem quotientSum_le {bound : Nat}
    (hblocks : ∀ block ∈ blocks, (setCompact block.nBits).toNat / 3596400 ≤ bound) :
    mainParams.quotientSum blocks ≤ blocks.length * bound := by
  have hsum := sum_le_card_nsmul
    (blocks.map fun block => (setCompact block.nBits).toNat / mainParams.divisor.toNat) bound
  rw [length_map] at hsum
  refine hsum fun x hx => ?_
  obtain ⟨block, hmem, rfl⟩ := mem_map.mp hx
  exact hblocks block hmem

theorem quotientSum_pos {block : BlockWork} (hmem : block ∈ blocks)
    (hlarge : mainParams.divisor.toNat ≤ (setCompact block.nBits).toNat) :
    0 < mainParams.quotientSum blocks := by
  have hquot : 0 < (setCompact block.nBits).toNat / mainParams.divisor.toNat :=
    div_pos hlarge (by rw [divisor_main]; decide)
  refine hquot.trans_le (le_sum_of_mem ?_)
  exact mem_map.mpr ⟨block, hmem, rfl⟩

theorem clamp_wrapped {t S m rest : Nat} (ht : t ≤ 599400) (hm : m ≤ 36)
    (hrest : rest ≤ 36 * ((2 ^ 228 - 1) / 3596400))
    (hS : S = m * (0x7fffff * 2 ^ 232 / 3596400) + rest) :
    min (2 ^ 228 - 1) (t * S % 2 ^ 256) = min (2 ^ 228 - 1) (t * S) := by
  by_cases hfits : t * S < 2 ^ 256
  · rw [Nat.mod_eq_of_lt hfits]
  have hwrap : 2 ^ 256 ≤ t * S := Nat.not_lt.mp hfits
  have hproduct : t * S = t * m * (0x7fffff * 2 ^ 232 / 3596400) + t * rest := by
    rw [hS, Nat.mul_add, Nat.mul_assoc]
  have hgap : 2 ^ 228 - 1 < t * S % 2 ^ 256 := by
    rw [hproduct] at hwrap ⊢
    exact limit_lt_wrapped (Nat.mul_le_mul ht hm) (Nat.mul_le_mul ht hrest) hwrap
  rw [Nat.min_eq_left hgap.le, Nat.min_eq_left]
  exact (Nat.le_of_lt (by decide)).trans hwrap

theorem toNat_clamp (limit x : Arith256) :
    (if limit < x then limit else x).toNat = min limit.toNat x.toNat := by
  split
  next habove => exact (min_eq_left (le_of_lt habove)).symm
  next habove => exact (min_eq_right (BitVec.not_lt.mp habove)).symm

theorem lwma3_eq (hheight : N ≤ height) :
    ∃ nextTarget : Arith256,
      nextTarget.toNat = (mainParams.weightedSolveTime chain height).toNat *
        mainParams.quotientSum (window chain height) % 2 ^ 256 ∧
      mainParams.lwma3CalculateNextWorkRequired chain height = some (getCompact
        (if mainParams.posLimit < nextTarget then mainParams.posLimit else nextTarget)) := by
  have hdivisor : mainParams.divisor.toNat ≠ 0 := by
    decide
  obtain ⟨s, hfold, ht, hsum⟩ := @foldlM_lwmaStep mainParams (window chain height)
    { previousTimestamp := (chain (height - N)).nTime.toNat } hdivisor
  have htime : s.t = mainParams.weightedSolveTime chain height := ht.trans (Int.zero_add _)
  obtain ⟨hlow, hhigh⟩ := weightedSolveTime_bounds chain height
  refine ⟨mul (BitVec.ofNat 256 (s.t % 2 ^ 64).toNat) s.sumTarget, ?_, ?_⟩
  · have hfactor : (BitVec.ofNat 256 (s.t % 2 ^ 64).toNat).toNat =
        (mainParams.weightedSolveTime chain height).toNat := by
      rw [BitVec.toNat_ofNat, htime]
      omega
    have hzero : (0 : Arith256).toNat = 0 := rfl
    rw [toNat_mul, hfactor, hsum, hzero, zero_add, mul_mod_mod]
  · unfold lwma3CalculateNextWorkRequired
    rw [if_neg (not_lt.mpr hheight), hfold]
    rfl

/-- **Retargeting is exact on mainnet**: the next target is that of unbounded integers. -/
theorem lwma3_exact (hheight : mainParams.lastPowBlock ≤ height)
    (hpow : ∀ h, height < h + N → h ≤ mainParams.lastPowBlock →
      (chain h).nBits = getCompact mainParams.powLimit)
    (hpos : ∀ h, h ≤ height → mainParams.lastPowBlock < h →
      (setCompact (chain h).nBits).toNat ≤ mainParams.posLimit.toNat) :
    mainParams.lwma3CalculateNextWorkRequired chain height =
        some (getCompact (BitVec.ofNat 256 (mainParams.exactTarget chain height))) ∧
      mainParams.quotientSum (window chain height) < 2 ^ 256 ∧
      (mainParams.lastPowBlock + N ≤ height →
        (mainParams.weightedSolveTime chain height).toNat *
          mainParams.quotientSum (window chain height) < 2 ^ 256) ∧
      ((∀ block ∈ window chain height,
          mainParams.divisor.toNat ≤ (setCompact block.nBits).toNat) →
        (setCompact (getCompact
          (BitVec.ofNat 256 (mainParams.exactTarget chain height)))).toNat ≠ 0) := by
  have hN : N ≤ height := Nat.le_trans (by decide) hheight
  obtain ⟨hlow, hhigh⟩ := weightedSolveTime_bounds chain height
  have htime : (mainParams.weightedSolveTime chain height).toNat ≤ 599400 := by omega
  have htargets : ∀ block ∈ window chain height, TargetOk block := by
    intro block hmem
    obtain ⟨h, hwindow, hle, rfl⟩ := (mem_window hN).mp hmem
    by_cases hlast : h ≤ mainParams.lastPowBlock
    · exact Or.inl (hpow h hwindow hlast)
    · exact Or.inr (hpos h hle (Nat.not_le.mp hlast))
  obtain ⟨m, rest, hm, hrest, hsum⟩ := quotientSum_split htargets
  rw [length_window] at hm hrest
  have hexact : mainParams.exactTarget chain height ≤ 2 ^ 228 - 1 := by
    exact Nat.min_le_left _ _
  have htoNat : (BitVec.ofNat 256 (mainParams.exactTarget chain height)).toNat =
      mainParams.exactTarget chain height := by
    rw [BitVec.toNat_ofNat, Nat.mod_eq_of_lt]
    exact hexact.trans_lt (by decide)
  refine ⟨?_, ?_, ?_, ?_⟩
  · obtain ⟨nextTarget, hnext, hresult⟩ := @lwma3_eq chain height hN
    have hclamp := clamp_wrapped htime hm hrest hsum
    rw [← hnext, ← posLimit_main] at hclamp
    have htarget : (if mainParams.posLimit < nextTarget then mainParams.posLimit else nextTarget) =
        BitVec.ofNat 256 (mainParams.exactTarget chain height) := by
      apply BitVec.eq_of_toNat_eq
      rw [htoNat, exactTarget, ← hclamp, toNat_clamp]
    rw [hresult, htarget]
  · have hfew : m * (0x7fffff * 2 ^ 232 / 3596400) ≤ 36 * (0x7fffff * 2 ^ 232 / 3596400) :=
      Nat.mul_le_mul_right _ hm
    rw [hsum]
    exact (Nat.add_le_add hfew hrest).trans_lt (by decide)
  · intro hstake
    have hsmall : mainParams.quotientSum (window chain height) ≤
        N * ((2 ^ 228 - 1) / 3596400) := by
      refine quotientSum_le fun block hmem => ?_
      obtain ⟨h, hwindow, hle, rfl⟩ := (mem_window hN).mp hmem
      exact Nat.div_le_div_right (posLimit_main ▸ hpos h hle (by omega))
    exact (Nat.mul_le_mul htime hsmall).trans_lt (by decide)
  · intro hlarge
    have hmem : chain height ∈ window chain height :=
      (mem_window hN).mpr ⟨height, by rw [N]; omega, Nat.le_refl _, rfl⟩
    have hS := quotientSum_pos hmem (hlarge _ hmem)
    have ht : 0 < (mainParams.weightedSolveTime chain height).toNat := by omega
    apply setCompact_getCompact_ne_zero
    rw [htoNat, exactTarget, posLimit_main]
    exact (Nat.lt_min.mpr ⟨by decide, Nat.mul_pos ht hS⟩).ne'

end PowParams

/-! ### A product that wraps -/

namespace PowSample

open PowParams

/-- The first proof-of-stake target after blocks that come every five minutes, a second later for
the first of them. All have the proof-of-work target. -/
def slowChain : Ancestors := fun h =>
  { nTime := UInt32.ofNat (if h ≤ 963 then 0 else 300 * (h - 963) + 1)
    nBits := getCompact mainParams.powLimit }

theorem nBits_slowChain (h : Nat) : (slowChain h).nBits = getCompact mainParams.powLimit := by
  rw [slowChain]

theorem lwma3_exact_slow :
    2 ^ 256 ≤ (mainParams.weightedSolveTime slowChain 999).toNat *
        mainParams.quotientSum (window slowChain 999) ∧
      mainParams.lwma3CalculateNextWorkRequired slowChain 999 =
        some (getCompact (BitVec.ofNat 256 (mainParams.exactTarget slowChain 999))) := by
  refine ⟨by decide +kernel, (lwma3_exact (Nat.le_refl _) (fun h _ _ => nBits_slowChain h) ?_).1⟩
  intro h hle hlast
  exact absurd hle (Nat.not_le.mpr hlast)

/-- One of the blocks has a slightly lower target, within the limit of proof of work. -/
def unevenChain : Ancestors := fun h =>
  if h = 999 then { slowChain 999 with nBits := 0x207ffa3c } else slowChain h

/-- The product wraps to a value below the limit, which becomes the next target in its place. -/
theorem wrapped_product_below_limit :
    (∀ h ≤ 999, (setCompact (unevenChain h).nBits).toNat ≤ mainParams.powLimit.toNat) ∧
      mainParams.lwma3CalculateNextWorkRequired unevenChain 999 = some 0x1d06728d ∧
      getCompact (BitVec.ofNat 256 (mainParams.exactTarget unevenChain 999)) = 0x1d0fffff := by
  refine ⟨?_, by decide +kernel, by decide +kernel⟩
  intro h _
  unfold unevenChain
  split
  · decide +kernel
  · rw [nBits_slowChain]
    decide +kernel

end PowSample

end Defcon.Pow
