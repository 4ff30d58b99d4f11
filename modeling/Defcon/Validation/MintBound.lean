import Defcon.Lib.Run
import Defcon.Masternode.Payments

/-!
# What a proof-of-stake block mints

`ConnectBlock` adds up what the transactions of a block spend and create. Together with
`IsBlockValueValid` this bounds the growth of the money supply: the coinstake mints at most the
subsidy, the coinbase pays at most the required payouts, and every other transaction destroys
its fee.
-/

namespace Defcon.Validation

open Lib (Run)
open Masternode CTransaction List

/-! ### The loop over the transactions -/

structure ConnectTotals where
  view : CoinsView
  nFees : CAmount
  nValueIn : CAmount
  nValueOut : CAmount

/-- One transaction in the loop of `ConnectBlock`. -/
def connectTx (nHeight : Nat) (st : ConnectTotals) (tx : BlockTx) : Except String ConnectTotals :=
  match tx.getValueOut with
  | .error e => .error e
  | .ok nValueOut =>
    if tx.isCoinBase then
      match st.view.updateCoins tx.toCTransaction nHeight with
      | .error e => .error e
      | .ok view => .ok { st with view := view, nValueOut := st.nValueOut + nValueOut }
    else
      match st.view.checkTxInputs tx nHeight with
      | .error e => .error e
      | .ok txfee =>
        let nFees := if tx.isCoinStake then st.nFees else st.nFees + txfee
        if ¬MoneyRange nFees then .error "bad-txns-accumulated-fee-outofrange"
        else
          match st.view.updateCoins tx.toCTransaction nHeight with
          | .error e => .error e
          | .ok view => .ok
              { view := view
                nFees := nFees
                nValueIn := st.nValueIn + st.view.inputValue tx.toCTransaction
                nValueOut := st.nValueOut + nValueOut }

def connectTxs (view : CoinsView) (nHeight : Nat) (vtx : List BlockTx) :
    Except String ConnectTotals :=
  vtx.foldlM (connectTx nHeight) ⟨view, 0, 0, 0⟩

def nMoneySupply (prevMoneySupply : CAmount) (st : ConnectTotals) : CAmount :=
  prevMoneySupply + st.nValueOut - st.nValueIn

/-- What `ConnectBlock` does with the amounts of a block. -/
def connectBlock (params : ConsensusParams) (ctx : PayeeContext) (node : NodeState)
    (view : CoinsView) (vtx : List BlockTx) (nHeight : Nat) (prevMoneySupply : CAmount)
    (check_superblock : Bool) : Except String CAmount :=
  if isProofOfStake vtx ∧ (nHeight : Int) ≤ params.lastPowBlock then .error "pos-early"
  else if !isProofOfStake vtx ∧ params.lastPowBlock < nHeight then .error "pow-late"
  else
    match connectTxs view nHeight vtx with
    | .error e => .error e
    | .ok st =>
      let stakeValueIn := match vtx with
        | _ :: coinstake :: _ =>
          if coinstake.isCoinStake then view.getValueIn coinstake.toCTransaction else 0
        | _ => 0
      match isBlockValueValid params ctx node vtx nHeight
          (params.getBlockSubsidyInner (nHeight - 1)) st.nFees stakeValueIn check_superblock with
      | .error _ => .error "bad-cb-amount"
      | .ok () => .ok (nMoneySupply prevMoneySupply st)

/-! ### Accounting -/

def ConnectTotals.minted (st : ConnectTotals) : CAmount :=
  st.nValueOut - st.nValueIn + st.nFees

def assetUnlocked (tx : BlockTx) : CAmount :=
  if tx.isAssetUnlock then tx.valueOut + tx.assetUnlockFee.getD 0 else 0

variable {nHeight : Nat} {st st' : ConnectTotals} {tx : BlockTx}

theorem connectTx_coinbase (hcoinbase : tx.isCoinBase = true)
    (hconnect : connectTx nHeight st tx = .ok st') :
    st.view.updateCoins tx.toCTransaction nHeight = .ok st'.view ∧
      st'.minted = st.minted + tx.valueOut := by
  unfold connectTx at hconnect
  split at hconnect
  · cases hconnect
  rename_i nValueOut hout
  rw [if_pos hcoinbase] at hconnect
  split at hconnect
  · cases hconnect
  rename_i view hupdate
  cases hconnect
  refine ⟨hupdate, ?_⟩
  rw [getValueOut_ok hout]
  unfold ConnectTotals.minted
  ring

theorem connectTx_ok (hcoinbase : tx.isCoinBase = false)
    (hconnect : connectTx nHeight st tx = .ok st') :
    ∃ txfee, st.view.checkTxInputs tx nHeight = .ok txfee ∧
      st'.minted = st.minted + tx.valueOut - st.view.inputValue tx.toCTransaction +
        (if tx.isCoinStake then 0 else txfee) := by
  unfold connectTx at hconnect
  split at hconnect
  · cases hconnect
  rename_i nValueOut hout
  rw [if_neg (by rw [hcoinbase]; exact Bool.false_ne_true)] at hconnect
  split at hconnect
  · cases hconnect
  rename_i txfee hcheck
  generalize hfees : (if tx.isCoinStake then st.nFees else st.nFees + txfee) = nFees at hconnect
  simp only at hconnect
  split at hconnect
  · cases hconnect
  split at hconnect
  · cases hconnect
  cases hconnect
  refine ⟨txfee, hcheck, ?_⟩
  rw [getValueOut_ok hout]
  simp only [ConnectTotals.minted, ← hfees]
  split <;> ring

theorem minted_connectTx_other (hcoinbase : tx.isCoinBase = false) (hstake : tx.isCoinStake = false)
    (hunlock : tx.isAssetUnlock = true → tx.vin = [])
    (hconnect : connectTx nHeight st tx = .ok st') :
    st'.minted = st.minted + assetUnlocked tx := by
  obtain ⟨txfee, hcheck, hminted⟩ := connectTx_ok hcoinbase hconnect
  obtain ⟨hfee, hordinary, -⟩ := CoinsView.checkTxInputs_ok hcheck
  rw [hminted, hstake]
  simp only [Bool.false_eq_true, if_false]
  unfold assetUnlocked
  cases hkind : tx.isAssetUnlock with
  | true =>
    have hnoinput : st.view.inputValue tx.toCTransaction = 0 := by
      rw [CoinsView.inputValue, hunlock hkind]
      rfl
    rw [hnoinput, hfee hkind, if_pos rfl, Option.getD_some]
    ring
  | false =>
    rw [hordinary hkind hstake, if_neg Bool.false_ne_true]
    ring

theorem minted_connectTxs_other {vtx : List BlockTx}
    (hcoinbase : ∀ tx ∈ vtx, tx.isCoinBase = false)
    (hstake : ∀ tx ∈ vtx, tx.isCoinStake = false)
    (hunlock : ∀ tx ∈ vtx, tx.isAssetUnlock = true → tx.vin = [])
    (hrun : Run (fun st tx st' => connectTx nHeight st tx = .ok st') st vtx st') :
    st'.minted = st.minted + (vtx.map assetUnlocked).sum := by
  induction hrun with
  | nil st => simp
  | @cons st mid st' tx vtx hfirst _ ih =>
    have hmid := minted_connectTx_other (hcoinbase tx mem_cons_self)
      (hstake tx mem_cons_self) (hunlock tx mem_cons_self) hfirst
    have hrest := ih (fun t ht => hcoinbase t (mem_cons_of_mem _ ht))
      (fun t ht => hstake t (mem_cons_of_mem _ ht))
      (fun t ht => hunlock t (mem_cons_of_mem _ ht))
    rw [hrest, hmid, map_cons, sum_cons, add_assoc]

/-- A block as `CheckBlock` leaves it: one coinbase in front, one coinstake behind it. -/
structure PosBlock (coinbase coinstake : BlockTx) (rest : List BlockTx) : Prop where
  isCoinBase : coinbase.isCoinBase = true
  isCoinStake : coinstake.isCoinStake = true
  rest_not_coinBase : ∀ tx ∈ rest, tx.isCoinBase = false
  rest_not_coinStake : ∀ tx ∈ rest, tx.isCoinStake = false
  unlock_no_inputs : ∀ tx ∈ coinstake :: rest, tx.isAssetUnlock = true → tx.vin = []

variable {coinbase coinstake : BlockTx} {rest : List BlockTx} {view : CoinsView}
  {check_superblock : Bool} {blockSubsidy : CAmount}

theorem PosBlock.stake_not_unlock (hblock : PosBlock coinbase coinstake rest) :
    coinstake.isAssetUnlock = false := by
  by_contra hunlock
  rw [Bool.not_eq_false] at hunlock
  have hstake := hblock.isCoinStake
  rw [CTransaction.isCoinStake, hblock.unlock_no_inputs coinstake mem_cons_self hunlock] at hstake
  cases hstake

theorem not_isCoinBase_of_isCoinStake {tx : CTransaction} (hstake : tx.isCoinStake = true) :
    tx.isCoinBase = false := by
  unfold isCoinStake at hstake
  unfold isCoinBase
  split at hstake
  · rename_i prevout vin out out' vout hvin hvout
    rw [hvin]
    cases vin with
    | nil =>
      rw [Bool.and_eq_true, Bool.not_eq_true'] at hstake
      simp [hstake.1]
    | cons => rfl
  · cases hstake

theorem minted_connectTxs (hblock : PosBlock coinbase coinstake rest)
    (hconnect : connectTxs view nHeight (coinbase :: coinstake :: rest) = .ok st) :
    st.minted = coinbase.valueOut +
      (coinstake.valueOut - view.getValueIn coinstake.toCTransaction) +
      (rest.map assetUnlocked).sum := by
  have hnotbase := not_isCoinBase_of_isCoinStake hblock.isCoinStake
  cases Run.except hconnect with
  | @cons _ afterBase _ _ _ hbase hrun =>
    cases hrun with
    | @cons _ afterStake _ _ _ hstake hothers =>
      obtain ⟨hupdate, hbaseMint⟩ := connectTx_coinbase hblock.isCoinBase hbase
      obtain ⟨txfee, hcheck, hstakeMint⟩ := connectTx_ok hnotbase hstake
      have hinputs := CoinsView.inputValue_of_updateCoins hblock.isCoinBase hupdate
        hblock.stake_not_unlock hcheck
      rw [if_pos hblock.isCoinStake, hinputs, hbaseMint] at hstakeMint
      have hothersMint := minted_connectTxs_other hblock.rest_not_coinBase
        hblock.rest_not_coinStake
        (fun tx htx => hblock.unlock_no_inputs tx (mem_cons_of_mem _ htx)) hothers
      rw [hothersMint, hstakeMint, CoinsView.getValueIn, hnotbase]
      simp only [ConnectTotals.minted, Bool.false_eq_true, if_false]
      ring

/-! ### The value checks -/

variable {params : ConsensusParams} {ctx : PayeeContext} {node : NodeState} {nBlockHeight : Int}

def requiredPayouts (params : ConsensusParams) (ctx : PayeeContext) (nBlockHeight : Int) : CAmount :=
  (((getBlockTxOuts params ctx nBlockHeight).getD []).map CTxOut.nValue).sum

theorem requiredPayouts_le :
    requiredPayouts params ctx nBlockHeight ≤ params.getMasternodePayment nBlockHeight := by
  unfold requiredPayouts
  cases houts : getBlockTxOuts params ctx nBlockHeight with
  | none => simpa using getMasternodePayment_nonneg
  | some outs => exact sum_getBlockTxOuts_le houts

theorem checkSuperblock_ok {coinbase : CTransaction} {actual blockReward : CAmount} {mint : Mint}
    (hpos : mint.proofOfStake = true) (hv231 : params.v231Active nBlockHeight = true)
    (hcheck : checkSuperblock params node nBlockHeight coinbase actual blockReward mint
      check_superblock = .ok ()) : mint.actual ≤ mint.limit := by
  have hmet : mint.met = true := by
    by_contra hnot
    unfold checkSuperblock at hcheck
    by_cases hheight : params.isValidSuperblockHeight nBlockHeight = true
    · rw [if_neg (by simp [hheight]), if_pos ⟨hpos, hv231, by simpa using hnot⟩] at hcheck
      cases hcheck
    · rw [if_pos (by simpa using hheight), Mint.check, if_neg hnot] at hcheck
      cases hcheck
  exact of_decide_eq_true hmet

theorem checkPosCoinbase_ok {coinbase : CTransaction}
    (hbound : params.nPosCoinbaseBoundActivationHeight ≤ nBlockHeight)
    (hpow : params.lastPowBlock < nBlockHeight) (hv231 : params.v231Active nBlockHeight = true)
    (hempty : ∀ out ∈ coinbase.vout.head?, out.isEmpty = true)
    (hcheck : checkPosCoinbase params ctx nBlockHeight coinbase coinbase.valueOut = .ok ()) :
    coinbase.valueOut ≤ requiredPayouts params ctx nBlockHeight := by
  unfold checkPosCoinbase at hcheck
  unfold requiredPayouts
  split at hcheck
  · rename_i voutExpected hexpected
    rw [hexpected, Option.getD_some]
    by_contra hmore
    have hfalse : params.checkPosCoinbaseValue nBlockHeight coinbase.valueOut
        (voutExpected.map CTxOut.nValue).sum = false := by
      unfold ConsensusParams.checkPosCoinbaseValue
      rw [if_neg (not_lt.mpr hbound), if_neg (not_le.mpr hpow)]
      exact decide_eq_false hmore
    simp only [hfalse] at hcheck
    cases hcheck
  · rename_i hnone
    rw [hnone]
    have hone : coinbase.vout.length = 1 := by
      by_contra hne
      rw [if_pos ⟨hv231, hne⟩] at hcheck
      cases hcheck
    obtain ⟨out, hout⟩ := length_eq_one_iff.mp hone
    rw [hout] at hempty
    have hzero : out.nValue = 0 := by
      have hisEmpty := hempty out rfl
      exact (of_decide_eq_true hisEmpty).1
    simp [valueOut, hout, hzero]

theorem isBlockValueValid_ok (hstake : coinstake.isCoinStake = true)
    {feeReward stakeValueIn : CAmount}
    (hvalid : isBlockValueValid params ctx node (coinbase :: coinstake :: rest) nBlockHeight
      blockSubsidy feeReward stakeValueIn check_superblock = .ok ()) :
    checkPosCoinbase params ctx nBlockHeight coinbase.toCTransaction coinbase.valueOut = .ok () ∧
      checkSuperblock params node nBlockHeight coinbase.toCTransaction coinbase.valueOut
        (blockSubsidy + feeReward)
        ⟨true, coinstake.valueOut - stakeValueIn,
          if params.posFeesAreBurned nBlockHeight then blockSubsidy else blockSubsidy + feeReward⟩
        check_superblock = .ok () := by
  unfold isBlockValueValid at hvalid
  simp only at hvalid
  split at hvalid
  · cases hvalid
  rename_i actual hactual
  obtain rfl := getValueOut_ok hactual
  rw [if_pos hstake] at hvalid
  split at hvalid
  · cases hvalid
  · cases hvalid
  · rename_i stakeValueOut hout hcoinbase
    obtain rfl := getValueOut_ok hout
    exact ⟨hcoinbase, hvalid⟩

theorem v231Active_of_le (hv231 : params.nV231ActivationHeight ≤ nBlockHeight)
    (hint : nBlockHeight < INT_MAX) : params.v231Active nBlockHeight = true := by
  refine decide_eq_true ⟨?_, hv231⟩
  intro heq
  rw [heq] at hv231
  exact absurd hv231 (not_le.mpr hint)

theorem value_bounds (hstake : coinstake.isCoinStake = true)
    (hempty : ∀ out ∈ coinbase.vout.head?, out.isEmpty = true)
    (hbound : params.nPosCoinbaseBoundActivationHeight ≤ nBlockHeight)
    (hburn : params.nPosFeeBurnActivationHeight ≤ nBlockHeight)
    (hv231 : params.nV231ActivationHeight ≤ nBlockHeight)
    (hpow : params.lastPowBlock < nBlockHeight) (hint : nBlockHeight < INT_MAX)
    {feeReward stakeValueIn : CAmount}
    (hvalid : isBlockValueValid params ctx node (coinbase :: coinstake :: rest) nBlockHeight
      blockSubsidy feeReward stakeValueIn check_superblock = .ok ()) :
    coinstake.valueOut - stakeValueIn ≤ blockSubsidy ∧
      coinbase.valueOut ≤ requiredPayouts params ctx nBlockHeight := by
  have hactive := v231Active_of_le hv231 hint
  obtain ⟨hcoinbase, hsuper⟩ := isBlockValueValid_ok hstake hvalid
  refine ⟨?_, checkPosCoinbase_ok hbound hpow hactive hempty hcoinbase⟩
  have hmint := checkSuperblock_ok rfl hactive hsuper
  have hburned : params.posFeesAreBurned nBlockHeight = true := decide_eq_true hburn
  simpa only [hburned, if_true] using hmint

theorem moneySupply_growth_le (hblock : PosBlock coinbase coinstake rest)
    (hstake : coinstake.valueOut - view.getValueIn coinstake.toCTransaction ≤ blockSubsidy)
    (hcoinbase : coinbase.valueOut ≤ requiredPayouts params ctx nBlockHeight)
    (hconnect : connectTxs view nHeight (coinbase :: coinstake :: rest) = .ok st)
    (prevMoneySupply : CAmount) :
    nMoneySupply prevMoneySupply st - prevMoneySupply ≤
      blockSubsidy + params.getMasternodePayment nBlockHeight - st.nFees +
        (rest.map assetUnlocked).sum := by
  have hrequired := @requiredPayouts_le params ctx nBlockHeight
  calc nMoneySupply prevMoneySupply st - prevMoneySupply
      = st.minted - st.nFees := by
        unfold nMoneySupply ConnectTotals.minted
        ring
    _ = coinbase.valueOut + (coinstake.valueOut - view.getValueIn coinstake.toCTransaction) +
          (rest.map assetUnlocked).sum - st.nFees := by
        rw [minted_connectTxs hblock hconnect]
    _ ≤ blockSubsidy + params.getMasternodePayment nBlockHeight - st.nFees +
          (rest.map assetUnlocked).sum := by
        linarith

/-- **The mint bound of proof-of-stake blocks.** The money supply grows by at most the subsidy and
the masternode payment, less the fees, apart from asset unlocks. -/
theorem mint_bound {coinbase coinstake : BlockTx} {rest : List BlockTx}
    (hblock : PosBlock coinbase coinstake rest)
    (hempty : ∀ out ∈ coinbase.vout.head?, out.isEmpty = true)
    (hbound : params.nPosCoinbaseBoundActivationHeight ≤ nHeight)
    (hburn : params.nPosFeeBurnActivationHeight ≤ nHeight)
    (hv231 : params.nV231ActivationHeight ≤ nHeight)
    (hpow : params.lastPowBlock < nHeight) (hint : (nHeight : Int) < INT_MAX)
    {blockSubsidy feeReward stakeValueIn : CAmount} {check_superblock : Bool}
    (hvalid : isBlockValueValid params ctx node (coinbase :: coinstake :: rest) nHeight
      blockSubsidy feeReward stakeValueIn check_superblock = .ok ()) :
    coinstake.valueOut - stakeValueIn ≤ blockSubsidy ∧
      coinbase.valueOut ≤ requiredPayouts params ctx nHeight ∧
      ∀ view st prevMoneySupply,
        connectTxs view nHeight (coinbase :: coinstake :: rest) = .ok st →
        feeReward = st.nFees → stakeValueIn = view.getValueIn coinstake.toCTransaction →
        nMoneySupply prevMoneySupply st - prevMoneySupply ≤
          blockSubsidy + params.getMasternodePayment nHeight - st.nFees +
            (rest.map assetUnlocked).sum := by
  obtain ⟨hstake, hcoinbase⟩ := value_bounds hblock.isCoinStake hempty hbound hburn hv231 hpow hint
    hvalid
  refine ⟨hstake, hcoinbase, ?_⟩
  rintro view st prevMoneySupply hconnect - rfl
  exact moneySupply_growth_le hblock hstake hcoinbase hconnect prevMoneySupply

/-! ### A run of blocks -/

structure ChainTip where
  view : CoinsView
  nHeight : Nat
  nMoneySupply : CAmount

/-- `ConnectTip` with a proof-of-stake block that passed `CheckBlock`. -/
def ConnectTip (params : ConsensusParams) (tip : ChainTip) (vtx : List BlockTx)
    (tip' : ChainTip) : Prop :=
  tip'.nHeight = tip.nHeight + 1 ∧ ∃ ctx node check_superblock coinbase coinstake rest st,
    vtx = coinbase :: coinstake :: rest ∧ PosBlock coinbase coinstake rest ∧
      (∀ out ∈ coinbase.vout.head?, out.isEmpty = true) ∧
      connectBlock params ctx node tip.view vtx tip'.nHeight tip.nMoneySupply check_superblock =
        .ok tip'.nMoneySupply ∧
      connectTxs tip.view tip'.nHeight vtx = .ok st ∧ tip'.view = st.view

theorem nFees_nonneg {vtx : List BlockTx} (hconnect : connectTxs view nHeight vtx = .ok st) :
    0 ≤ st.nFees := by
  refine (Run.except hconnect).invariant (I := fun st => 0 ≤ st.nFees) ?_ le_rfl
  intro st tx st' hst hstep
  grind [connectTx, MoneyRange]

theorem connectTip_moneySupply_le {tip tip' : ChainTip} {vtx : List BlockTx}
    (hbound : params.nPosCoinbaseBoundActivationHeight ≤ tip'.nHeight)
    (hburn : params.nPosFeeBurnActivationHeight ≤ tip'.nHeight)
    (hv231 : params.nV231ActivationHeight ≤ tip'.nHeight) (hint : (tip'.nHeight : Int) < INT_MAX)
    (htip : ConnectTip params tip vtx tip') : tip'.nMoneySupply ≤
      tip.nMoneySupply + (5500 * COIN + ((vtx.drop 2).map assetUnlocked).sum) := by
  obtain ⟨-, ctx, node, check_superblock, coinbase, coinstake, rest, st, rfl, hblock, hempty,
    hconnect, hst, -⟩ := htip
  unfold connectBlock at hconnect
  rw [hst] at hconnect
  split at hconnect
  · cases hconnect
  rename_i hlate
  have hpow : params.lastPowBlock < tip'.nHeight := by
    by_contra hearly
    exact hlate ⟨hblock.isCoinStake, not_lt.mp hearly⟩
  split at hconnect
  · cases hconnect
  simp only [hblock.isCoinStake, if_true] at hconnect
  split at hconnect
  · cases hconnect
  rename_i hvalid
  have hsupply := Except.ok.inj hconnect
  have hsubsidy : params.getBlockSubsidyInner (tip'.nHeight - 1) = 500 * COIN := by
    unfold ConsensusParams.getBlockSubsidyInner ConsensusParams.getBlockSubsidyHelper
    rw [sub_add_cancel, if_pos hpow]
    rfl
  rw [hsubsidy] at hvalid
  obtain ⟨hstake, hcoinbase⟩ := value_bounds hblock.isCoinStake hempty hbound hburn hv231 hpow hint
    hvalid
  have hgrowth := moneySupply_growth_le hblock hstake hcoinbase hst tip.nMoneySupply
  have hpayment : params.getMasternodePayment tip'.nHeight = 5000 * COIN :=
    if_pos (v231Active_of_le hv231 hint)
  have hfees := nFees_nonneg hst
  simp only [drop_succ_cons, drop_zero]
  linarith

/-- **The money supply of a chain** of proof-of-stake blocks, apart from asset unlocks. -/
theorem moneySupply_of_run {tip tip' : ChainTip} {blocks : List (List BlockTx)}
    (hbound : params.nPosCoinbaseBoundActivationHeight ≤ tip.nHeight)
    (hburn : params.nPosFeeBurnActivationHeight ≤ tip.nHeight)
    (hv231 : params.nV231ActivationHeight ≤ tip.nHeight)
    (hint : (tip.nHeight + blocks.length : Int) < INT_MAX)
    (hrun : Run (ConnectTip params) tip blocks tip') :
    tip'.nMoneySupply ≤ tip.nMoneySupply + blocks.length * (5500 * COIN) +
      (blocks.map fun vtx => ((vtx.drop 2).map assetUnlocked).sum).sum := by
  induction hrun with
  | nil tip => simp
  | @cons tip mid tip' vtx blocks hfirst hrest ih =>
    have hheight := hfirst.1
    simp only [length_cons, map_cons, sum_cons, Nat.cast_succ] at hint ⊢
    have hmid := ih (by omega) (by omega) (by omega) (by omega)
    have hstep := connectTip_moneySupply_le (by omega) (by omega) (by omega) (by omega) hfirst
    linarith

/-! ### Two blocks -/

def sampleParams (lastPowBlock : Int) : ConsensusParams where
  nV231ActivationHeight := 1500
  nPosCoinbaseBoundActivationHeight := 0
  nPosFeeBurnActivationHeight := 0
  lastPowBlock := lastPowBlock
  nSuperblockStartBlock := 100
  nSuperblockCycle := 10

def sampleContext : PayeeContext := ⟨false, 1, some ⟨0, [1], [], by decide⟩⟩

def sampleNode : NodeState := ⟨true, true, false, false, fun _ => false⟩

def sampleCoinbase (payout : CAmount) : BlockTx :=
  { hash := 1, vin := [⟨0, 2 ^ 32 - 1⟩], vout := [⟨0, []⟩, ⟨payout, [1]⟩], isAssetUnlock := false,
    assetUnlockFee := none }

def sampleCoinstake : BlockTx :=
  { hash := 2, vin := [⟨7, 0⟩], vout := [⟨0, []⟩, ⟨600 * COIN, [2]⟩], isAssetUnlock := false,
    assetUnlockFee := none }

def sampleView : CoinsView :=
  AList.singleton ⟨7, 0⟩ ⟨⟨100 * COIN, [2]⟩, 10, false, false⟩

theorem posBlock_sample (payout : CAmount) : PosBlock (sampleCoinbase payout) sampleCoinstake [] where
  isCoinBase := by rfl
  isCoinStake := by rfl
  rest_not_coinBase := by simp
  rest_not_coinStake := by simp
  unlock_no_inputs := by simp [sampleCoinstake]

theorem mint_bound_sample :
    ∃ st, connectTxs sampleView 2000 [sampleCoinbase (5000 * COIN), sampleCoinstake] = .ok st ∧
      nMoneySupply 0 st - 0 ≤ 500 * COIN + (sampleParams 999).getMasternodePayment 2000 -
        st.nFees + 0 := by
  have hvalid : isBlockValueValid (sampleParams 999) sampleContext sampleNode
      [sampleCoinbase (5000 * COIN), sampleCoinstake] ((2000 : Nat) : Int) (500 * COIN) 0
      (100 * COIN) true = .ok () := by
    decide +kernel
  obtain ⟨st, hst, hfees⟩ : ∃ st, connectTxs sampleView 2000
      [sampleCoinbase (5000 * COIN), sampleCoinstake] = .ok st ∧ 0 = st.nFees := ⟨_, rfl, rfl⟩
  have hbounds := mint_bound (posBlock_sample (5000 * COIN)) (by decide) (by decide) (by decide)
    (by decide) (by decide) (by decide) hvalid
  exact ⟨st, hst, hbounds.2.2 sampleView st 0 hst hfees (by decide +kernel)⟩

theorem moneySupply_of_run_sample :
    ∃ tip, Run (ConnectTip (sampleParams 999)) ⟨sampleView, 1999, 0⟩
        [[sampleCoinbase (5000 * COIN), sampleCoinstake]] tip ∧
      tip.nMoneySupply ≤ 0 + 1 * (5500 * COIN) + 0 := by
  have hconnect : connectBlock (sampleParams 999) sampleContext sampleNode sampleView
      [sampleCoinbase (5000 * COIN), sampleCoinstake] 2000 0 true = .ok (5500 * COIN) := by
    decide +kernel
  obtain ⟨st, hst⟩ : ∃ st, connectTxs sampleView 2000
      [sampleCoinbase (5000 * COIN), sampleCoinstake] = .ok st := ⟨_, rfl⟩
  have htip : ConnectTip (sampleParams 999) ⟨sampleView, 1999, 0⟩
      [sampleCoinbase (5000 * COIN), sampleCoinstake] ⟨st.view, 2000, 5500 * COIN⟩ :=
    ⟨rfl, _, _, _, _, _, _, st, rfl, posBlock_sample _, by decide, hconnect, hst, rfl⟩
  have hrun := Run.cons htip (.nil _)
  exact ⟨_, hrun, moneySupply_of_run (by decide) (by decide) (by decide) (by decide) hrun⟩

/-- Up to the last proof-of-work height `IsBlockValueValid` does not bound the coinbase. -/
theorem coinbase_unbounded_before_lastPowBlock :
    PosBlock (sampleCoinbase (1000000 * COIN)) sampleCoinstake [] ∧
      (∀ out ∈ (sampleCoinbase (1000000 * COIN)).vout.head?, out.isEmpty = true) ∧
      (sampleParams 5000).nPosCoinbaseBoundActivationHeight ≤ 2001 ∧
      (sampleParams 5000).nPosFeeBurnActivationHeight ≤ 2001 ∧
      (sampleParams 5000).nV231ActivationHeight ≤ 2001 ∧
      isBlockValueValid (sampleParams 5000) sampleContext sampleNode
        [sampleCoinbase (1000000 * COIN), sampleCoinstake] 2001 (500 * COIN) 0 (100 * COIN) true =
          .ok () ∧
      ¬(sampleCoinbase (1000000 * COIN)).valueOut ≤
        requiredPayouts (sampleParams 5000) sampleContext 2001 := by
  refine ⟨posBlock_sample _, by decide, by decide, by decide, by decide, by decide +kernel,
    by decide +kernel⟩

end Defcon.Validation
