import Mathlib.Tactic.Ring
import Defcon.Coins

/-!
# Block value and masternode payments

`GetBlockTxOuts` says what a coinbase has to pay, `IsBlockValueValid` what the coinbase and the
coinstake may pay at most. The masternode list enters through its payee, and the node's own
view of sync, sporks and governance through the answers it gives.
-/

namespace Defcon.Masternode

def INT_MAX : Int := 2 ^ 31 - 1

/-- `Consensus::Params`, the fields that payments and block values depend on. -/
structure ConsensusParams where
  nV231ActivationHeight : Int
  nPosCoinbaseBoundActivationHeight : Int
  nPosFeeBurnActivationHeight : Int
  lastPowBlock : Int
  nSuperblockStartBlock : Int
  nSuperblockCycle : Int

namespace ConsensusParams

variable (params : ConsensusParams) (nHeight : Int)

def v231Active : Bool :=
  params.nV231ActivationHeight ≠ INT_MAX ∧ params.nV231ActivationHeight ≤ nHeight

def getProofOfStakeReward : CAmount := 500 * COIN

variable (nPrevHeight : Int)

def getBlockSubsidyHelper : CAmount × CAmount :=
  (if params.lastPowBlock < nPrevHeight + 1 then getProofOfStakeReward else 11000000 * COIN, 0)

def getBlockSubsidyInner : CAmount :=
  (params.getBlockSubsidyHelper nPrevHeight).1

def getSuperblockSubsidyInner : CAmount :=
  (params.getBlockSubsidyHelper nPrevHeight).2

def getMasternodePayment : CAmount :=
  if params.v231Active nHeight then 5000 * COIN else 10000 * COIN

def checkPosCoinbaseValue (coinbaseValueOut expected : CAmount) : Bool :=
  if nHeight < params.nPosCoinbaseBoundActivationHeight then true
  else if nHeight ≤ params.lastPowBlock then true
  else coinbaseValueOut ≤ expected

def posFeesAreBurned : Bool :=
  params.nPosFeeBurnActivationHeight ≤ nHeight

def isValidSuperblockHeight (nBlockHeight : Int) : Bool :=
  params.nSuperblockStartBlock ≤ nBlockHeight ∧ nBlockHeight.tmod params.nSuperblockCycle = 0

def getPaymentsLimit (nBlockHeight : Int) : CAmount :=
  if !params.isValidSuperblockHeight nBlockHeight then 0
  else params.getSuperblockSubsidyInner (nBlockHeight - 1) * params.nSuperblockCycle

end ConsensusParams

def platformShare (reward : CAmount) : CAmount :=
  (reward * 375).tdiv 1000

/-- The masternode a block has to pay. A registration with a larger share is refused. -/
structure Payee where
  nOperatorReward : Nat
  scriptPayout : CScript
  scriptOperatorPayout : CScript
  nOperatorReward_le : nOperatorReward ≤ 10000

structure PayeeContext where
  mnRRActive : Bool
  allMNsCount : Nat
  payee : Option Payee

def payeeTxOuts (payee : Payee) (masternodeReward : CAmount) : List CTxOut :=
  let operatorReward : CAmount :=
    if payee.nOperatorReward ≠ 0 ∧ payee.scriptOperatorPayout ≠ [] then
      (masternodeReward * payee.nOperatorReward).tdiv 10000
    else 0
  (if masternodeReward - operatorReward > 0 then
      [⟨masternodeReward - operatorReward, payee.scriptPayout⟩]
    else []) ++
  (if operatorReward > 0 then [⟨operatorReward, payee.scriptOperatorPayout⟩] else [])

variable (params : ConsensusParams) (ctx : PayeeContext)

def getBlockTxOuts (nBlockHeight : Int) : Option (List CTxOut) :=
  let payment := params.getMasternodePayment nBlockHeight
  let platformReward := if ctx.mnRRActive then platformShare payment else 0
  let platform : List CTxOut := if ctx.mnRRActive then [⟨platformReward, [OP_RETURN]⟩] else []
  if ctx.allMNsCount = 0 then some platform
  else
    match ctx.payee with
    | none => none
    | some payee => some (platform ++ payeeTxOuts payee (payment - platformReward))

/-! ### What is paid -/

section Sums

variable {params : ConsensusParams} {ctx : PayeeContext} {nBlockHeight : Int}

theorem getMasternodePayment_nonneg : 0 ≤ params.getMasternodePayment nBlockHeight := by
  unfold ConsensusParams.getMasternodePayment
  split <;> decide

theorem platformShare_bounds {reward : CAmount} (hreward : 0 ≤ reward) :
    0 ≤ platformShare reward ∧ platformShare reward ≤ reward := by
  unfold platformShare
  have hmul : 0 ≤ reward * 375 := by positivity
  rw [Int.tdiv_eq_ediv_of_nonneg hmul]
  exact ⟨Int.ediv_nonneg hmul (by decide), Int.ediv_le_of_le_mul (by decide) (by linarith)⟩

theorem sum_txOut_if_pos {amount : CAmount} (hamount : 0 ≤ amount) (script : CScript) :
    ((if amount > 0 then [(⟨amount, script⟩ : CTxOut)] else []).map CTxOut.nValue).sum =
      amount := by
  rcases hamount.lt_or_eq with hpos | rfl
  · rw [if_pos hpos]
    simp
  · simp

theorem sum_payeeTxOuts (payee : Payee) {reward : CAmount} (hreward : 0 ≤ reward) :
    ((payeeTxOuts payee reward).map CTxOut.nValue).sum = reward := by
  unfold payeeTxOuts
  generalize hop : (if payee.nOperatorReward ≠ 0 ∧ payee.scriptOperatorPayout ≠ [] then
    (reward * payee.nOperatorReward).tdiv 10000 else 0) = operatorReward
  have hbounds : 0 ≤ operatorReward ∧ operatorReward ≤ reward := by
    rw [← hop]
    split
    · have hshare : (payee.nOperatorReward : Int) ≤ 10000 := by
        exact_mod_cast payee.nOperatorReward_le
      have hmul : 0 ≤ reward * payee.nOperatorReward := by positivity
      have hle : reward * payee.nOperatorReward ≤ reward * 10000 := by gcongr
      rw [Int.tdiv_eq_ediv_of_nonneg hmul]
      exact ⟨Int.ediv_nonneg hmul (by decide), Int.ediv_le_of_le_mul (by decide) hle⟩
    · exact ⟨le_refl 0, hreward⟩
  obtain ⟨hop0, hople⟩ := hbounds
  rw [List.map_append, List.sum_append, sum_txOut_if_pos (sub_nonneg.mpr hople),
    sum_txOut_if_pos hop0]
  linarith

theorem payeeTxOuts_nonneg (payee : Payee) (reward : CAmount) :
    ∀ out ∈ payeeTxOuts payee reward, 0 ≤ out.nValue := by
  have hpos (amount : CAmount) (script : CScript) :
      ∀ out ∈ (if amount > 0 then [(⟨amount, script⟩ : CTxOut)] else []), 0 ≤ out.nValue := by
    intro out hout
    split at hout
    · rename_i hamount
      rw [List.mem_singleton.mp hout]
      exact hamount.le
    · cases hout
  intro out hout
  rcases List.mem_append.mp hout with hout | hout
  · exact hpos _ _ out hout
  · exact hpos _ _ out hout

def platformTxOuts (params : ConsensusParams) (ctx : PayeeContext) (nBlockHeight : Int) :
    List CTxOut :=
  if ctx.mnRRActive then [⟨platformShare (params.getMasternodePayment nBlockHeight), [OP_RETURN]⟩]
  else []

def payeeReward (params : ConsensusParams) (ctx : PayeeContext) (nBlockHeight : Int) : CAmount :=
  let payment := params.getMasternodePayment nBlockHeight
  payment - if ctx.mnRRActive then platformShare payment else 0

theorem getBlockTxOuts_eq (params : ConsensusParams) (ctx : PayeeContext) (nBlockHeight : Int) :
    getBlockTxOuts params ctx nBlockHeight =
      if ctx.allMNsCount = 0 then some (platformTxOuts params ctx nBlockHeight)
      else ctx.payee.map fun payee => platformTxOuts params ctx nBlockHeight ++
        payeeTxOuts payee (payeeReward params ctx nBlockHeight) := by
  unfold getBlockTxOuts platformTxOuts payeeReward
  cases ctx.mnRRActive <;> cases ctx.payee <;> rfl

theorem payeeReward_nonneg : 0 ≤ payeeReward params ctx nBlockHeight := by
  have hpay : 0 ≤ params.getMasternodePayment nBlockHeight := getMasternodePayment_nonneg
  have hshare := platformShare_bounds hpay
  unfold payeeReward
  cases ctx.mnRRActive with
  | true => exact sub_nonneg.mpr hshare.2
  | false => simpa using hpay

theorem sum_platformTxOuts : ((platformTxOuts params ctx nBlockHeight).map CTxOut.nValue).sum =
    params.getMasternodePayment nBlockHeight - payeeReward params ctx nBlockHeight := by
  unfold platformTxOuts payeeReward
  cases ctx.mnRRActive <;> simp

theorem platformTxOuts_nonneg : ∀ out ∈ platformTxOuts params ctx nBlockHeight, 0 ≤ out.nValue := by
  intro out hout
  unfold platformTxOuts at hout
  split at hout
  · rw [List.mem_singleton.mp hout]
    exact (platformShare_bounds getMasternodePayment_nonneg).1
  · cases hout

theorem sum_getBlockTxOuts_of_payee {payee : Payee} (hcount : ctx.allMNsCount ≠ 0)
    (hpayee : ctx.payee = some payee) :
    ∃ outs, getBlockTxOuts params ctx nBlockHeight = some outs ∧
      (outs.map CTxOut.nValue).sum = params.getMasternodePayment nBlockHeight := by
  refine ⟨_, by rw [getBlockTxOuts_eq, if_neg hcount, hpayee, Option.map_some], ?_⟩
  rw [List.map_append, List.sum_append, sum_platformTxOuts, sum_payeeTxOuts payee payeeReward_nonneg,
    sub_add_cancel]

theorem sum_getBlockTxOuts_le {outs : List CTxOut}
    (houts : getBlockTxOuts params ctx nBlockHeight = some outs) :
    (outs.map CTxOut.nValue).sum ≤ params.getMasternodePayment nBlockHeight := by
  by_cases hcount : ctx.allMNsCount = 0
  · rw [getBlockTxOuts_eq, if_pos hcount] at houts
    rw [← Option.some.inj houts, sum_platformTxOuts]
    have hreward : 0 ≤ payeeReward params ctx nBlockHeight := payeeReward_nonneg
    linarith
  · cases hpayee : ctx.payee with
    | none =>
      rw [getBlockTxOuts_eq, if_neg hcount, hpayee] at houts
      cases houts
    | some payee =>
      obtain ⟨outs', houts', hsum⟩ : ∃ outs, getBlockTxOuts params ctx nBlockHeight = some outs ∧
          (outs.map CTxOut.nValue).sum = params.getMasternodePayment nBlockHeight :=
        sum_getBlockTxOuts_of_payee hcount hpayee
      obtain rfl := Option.some.inj (houts.symm.trans houts')
      exact hsum.le

end Sums

structure NodeState where
  mnSynced : Bool
  govmanValid : Bool
  superblocksEnabled : Bool
  superblockTriggered : Bool
  isValidSuperblock : CTransaction → Bool

def isProofOfStake (vtx : List BlockTx) : Bool :=
  match vtx with
  | _ :: coinstake :: _ => coinstake.isCoinStake
  | _ => false

/-- The first check of a proof-of-stake block: its coinbase carries the required payouts only. -/
def checkPosCoinbase (nBlockHeight : Int) (coinbase : CTransaction) (actual : CAmount) :
    Except String Unit :=
  match getBlockTxOuts params ctx nBlockHeight with
  | some voutExpected =>
    let expected : CAmount := (voutExpected.map CTxOut.nValue).sum
    if !params.checkPosCoinbaseValue nBlockHeight actual expected then
      .error s!"coinbase pays too much at height {nBlockHeight} (actual={actual} vs expected={expected}), proof-of-stake coinbase may carry only the required payouts"
    else .ok ()
  | none =>
    let outputs := coinbase.vout.length
    if params.v231Active nBlockHeight ∧ outputs ≠ 1 then
      .error s!"coinbase differs from the required payouts at height {nBlockHeight} (outputs={outputs}), a block with no payable masternode may carry only the empty first output"
    else .ok ()

/-- What the block mints and may mint: the coinstake of a proof-of-stake block, the coinbase
of another one. -/
structure Mint where
  proofOfStake : Bool
  actual : CAmount
  limit : CAmount

def Mint.met (mint : Mint) : Bool :=
  mint.actual ≤ mint.limit

def Mint.tooMuch (mint : Mint) (nBlockHeight : Int) (why : String) : String :=
  let what := if mint.proofOfStake then "coinstake mints" else "coinbase pays"
  let actual := mint.actual
  let limit := mint.limit
  s!"{what} too much at height {nBlockHeight} (actual={actual} vs limit={limit}), exceeded block reward{why}"

def Mint.check (mint : Mint) (nBlockHeight : Int) (why : String) : Except String Unit :=
  if mint.met then .ok () else .error (mint.tooMuch nBlockHeight why)

def checkSuperblock (node : NodeState) (nBlockHeight : Int) (coinbase : CTransaction)
    (actual blockReward : CAmount) (mint : Mint) (check_superblock : Bool) : Except String Unit :=
  let nSuperblockMaxValue := blockReward + params.getPaymentsLimit nBlockHeight
  if !params.isValidSuperblockHeight nBlockHeight then
    mint.check nBlockHeight ", only regular blocks are allowed at this height"
  else if mint.proofOfStake ∧ params.v231Active nBlockHeight ∧ !mint.met then
    .error (mint.tooMuch nBlockHeight " at superblock height")
  else if nSuperblockMaxValue < actual - params.getMasternodePayment nBlockHeight then
    .error s!"coinbase pays too much at height {nBlockHeight} (actual={actual} vs limit={nSuperblockMaxValue}), exceeded superblock max value"
  else if !node.mnSynced ∨ !node.govmanValid then .ok ()
  else if !node.superblocksEnabled then
    mint.check nBlockHeight ", superblocks are disabled"
  else if !check_superblock then .ok ()
  else if !node.superblockTriggered then
    mint.check nBlockHeight ", no triggered superblock detected"
  else if !node.isValidSuperblock coinbase then
    .error s!"invalid superblock detected at height {nBlockHeight}"
  else .ok ()

def isBlockValueValid (node : NodeState) (vtx : List BlockTx) (nBlockHeight : Int)
    (blockSubsidy feeReward stakeValueIn : CAmount) (check_superblock : Bool) :
    Except String Unit :=
  match vtx with
  | [] => .error "block.vtx[0]"
  | coinbase :: rest =>
    match coinbase.getValueOut with
    | .error e => .error e
    | .ok actual =>
      let blockReward := blockSubsidy + feeReward
      let coinstakeCeiling :=
        if params.posFeesAreBurned nBlockHeight then blockSubsidy else blockReward
      match rest with
      | coinstake :: _ =>
        if coinstake.isCoinStake then
          match coinstake.getValueOut,
              checkPosCoinbase params ctx nBlockHeight coinbase.toCTransaction actual with
          | .error e, _ => .error e
          | .ok _, .error e => .error e
          | .ok stakeValueOut, .ok () =>
            checkSuperblock params node nBlockHeight coinbase.toCTransaction actual
              blockReward ⟨true, stakeValueOut - stakeValueIn, coinstakeCeiling⟩
              check_superblock
        else
          checkSuperblock params node nBlockHeight coinbase.toCTransaction actual
            blockReward ⟨false, actual, blockReward⟩ check_superblock
      | [] =>
        checkSuperblock params node nBlockHeight coinbase.toCTransaction actual blockReward
          ⟨false, actual, blockReward⟩ check_superblock

end Defcon.Masternode
