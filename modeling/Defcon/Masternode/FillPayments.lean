import Defcon.Masternode.Payments

/-!
# The payments a block producer adds

`FillBlockPayments` completes the coinbase of a new block with the outputs that `GetBlockTxOuts`
writes. `IsBlockPayeeValid` looks for the same outputs in a coinbase and `IsBlockValueValid` bounds
their sum, each with a call of its own.
-/

namespace Defcon.Masternode

open List ConsensusParams

structure PaymentParams extends ConsensusParams where
  DIP0003EnforcementHeight : Int

variable (params : PaymentParams) (ctx : PayeeContext) (node : NodeState) (nBlockHeight : Int)

def writtenTxOuts : List CTxOut :=
  match getBlockTxOuts params.toConsensusParams ctx nBlockHeight with
  | some voutMasternodePayments => voutMasternodePayments
  | none => platformTxOuts params.toConsensusParams ctx nBlockHeight

/-- `FillBlockPayments`; the payments of a triggered superblock are `superblockPayments`. -/
def fillBlockPayments (superblockPayments : List CTxOut) (txNew : CTransaction) : CTransaction :=
  let voutSuperblockPayments :=
    if node.superblocksEnabled ∧ node.superblockTriggered then superblockPayments else []
  let voutMasternodePayments := writtenTxOuts params ctx nBlockHeight
  let vout := txNew.vout ++ voutMasternodePayments ++ voutSuperblockPayments
  if params.lastPowBlock < nBlockHeight then { txNew with vout := vout }
  else
    -- the miner pays the masternode out of its own output
    { txNew with
      vout := voutMasternodePayments.foldl (fun vout txout =>
        vout.modifyHead fun out => { out with nValue := out.nValue - txout.nValue }) vout }

def isTransactionValid (txNew : CTransaction) : Bool :=
  if nBlockHeight < params.DIP0003EnforcementHeight then true
  else
    match getBlockTxOuts params.toConsensusParams ctx nBlockHeight with
    | none => true
    | some voutMasternodePayments =>
      voutMasternodePayments.all fun txout => txNew.vout.any fun txout2 => txout = txout2

def isBlockPayeeValid (txNew : CTransaction) (check_superblock : Bool) : Bool :=
  if !isTransactionValid params ctx nBlockHeight txNew then false
  else if !node.mnSynced ∨ !node.govmanValid then true
  else if nBlockHeight < params.nSuperblockStartBlock then true
  else if node.superblocksEnabled then
    if !check_superblock then true
    else if node.superblockTriggered then node.isValidSuperblock txNew
    else true
  else true

variable {params ctx node nBlockHeight}

theorem vout_fillBlockPayments {superblockPayments : List CTxOut} {txNew : CTransaction}
    (hpos : params.lastPowBlock < nBlockHeight) (hregular : node.superblockTriggered = false) :
    (fillBlockPayments params ctx node nBlockHeight superblockPayments txNew).vout =
      txNew.vout ++ writtenTxOuts params ctx nBlockHeight := by
  unfold fillBlockPayments
  rw [if_pos hpos, if_neg (by simp [hregular])]
  simp only [append_nil]

theorem writtenTxOuts_of_some {outs : List CTxOut}
    (houts : getBlockTxOuts params.toConsensusParams ctx nBlockHeight = some outs) :
    writtenTxOuts params ctx nBlockHeight = outs := by
  rw [writtenTxOuts, houts]

theorem writtenTxOuts_of_none
    (houts : getBlockTxOuts params.toConsensusParams ctx nBlockHeight = none) :
    writtenTxOuts params ctx nBlockHeight =
      platformTxOuts params.toConsensusParams ctx nBlockHeight := by
  rw [writtenTxOuts, houts]

theorem writtenTxOuts_nonneg : ∀ out ∈ writtenTxOuts params ctx nBlockHeight, 0 ≤ out.nValue := by
  intro out hout
  unfold writtenTxOuts at hout
  rw [getBlockTxOuts_eq] at hout
  by_cases hcount : ctx.allMNsCount = 0
  · rw [if_pos hcount] at hout
    exact platformTxOuts_nonneg out hout
  · rw [if_neg hcount] at hout
    cases hpayee : ctx.payee with
    | none =>
      rw [hpayee] at hout
      exact platformTxOuts_nonneg out hout
    | some payee =>
      rw [hpayee] at hout
      rcases mem_append.mp hout with hout | hout
      · exact platformTxOuts_nonneg out hout
      · exact payeeTxOuts_nonneg payee _ out hout

theorem sum_writtenTxOuts_le :
    ((writtenTxOuts params ctx nBlockHeight).map CTxOut.nValue).sum ≤
      params.getMasternodePayment nBlockHeight := by
  cases houts : getBlockTxOuts params.toConsensusParams ctx nBlockHeight with
  | some outs =>
    rw [writtenTxOuts_of_some houts]
    exact sum_getBlockTxOuts_le houts
  | none =>
    rw [writtenTxOuts_of_none houts, sum_platformTxOuts]
    have hreward : 0 ≤ payeeReward params.toConsensusParams ctx nBlockHeight := payeeReward_nonneg
    linarith

theorem getMasternodePayment_le : params.getMasternodePayment nBlockHeight ≤ MAX_MONEY := by
  unfold getMasternodePayment
  split <;> decide

theorem isTransactionValid_of_written {txNew : CTransaction}
    (hvout : ∀ out ∈ writtenTxOuts params ctx nBlockHeight, out ∈ txNew.vout) :
    isTransactionValid params ctx nBlockHeight txNew = true := by
  unfold isTransactionValid
  split
  · rfl
  split
  · rfl
  · rename_i outs houts
    rw [writtenTxOuts_of_some houts] at hvout
    refine all_eq_true.mpr ?_
    intro out hout
    exact any_eq_true.mpr ⟨out, hvout out hout, decide_eq_true rfl⟩

theorem isBlockPayeeValid_of_written {txNew : CTransaction} (check_superblock : Bool)
    (hvout : ∀ out ∈ writtenTxOuts params ctx nBlockHeight, out ∈ txNew.vout)
    (hregular : node.superblockTriggered = false) :
    isBlockPayeeValid params ctx node nBlockHeight txNew check_superblock = true := by
  unfold isBlockPayeeValid
  rw [isTransactionValid_of_written hvout, hregular]
  simp

/-- The first check of a proof-of-stake block: past the v23.1 height a block without payee may have
no further output, and the platform share is then not active. -/
theorem checkPosCoinbase_of_written {coinbase : CTransaction} {out : CTxOut}
    (hbundle : ctx.mnRRActive = true → params.v231Active nBlockHeight = false)
    (hempty : out.isEmpty = true)
    (hvout : coinbase.vout = out :: writtenTxOuts params ctx nBlockHeight) :
    checkPosCoinbase params.toConsensusParams ctx nBlockHeight coinbase coinbase.valueOut =
      .ok () := by
  have hvalue : out.nValue = 0 := (of_decide_eq_true hempty).1
  have hsum : coinbase.valueOut =
      ((writtenTxOuts params ctx nBlockHeight).map CTxOut.nValue).sum := by
    unfold CTransaction.valueOut
    rw [hvout, map_cons, sum_cons, hvalue, zero_add]
  unfold checkPosCoinbase
  cases houts : getBlockTxOuts params.toConsensusParams ctx nBlockHeight with
  | some outs =>
    rw [writtenTxOuts_of_some houts] at hsum
    have hbound : params.checkPosCoinbaseValue nBlockHeight coinbase.valueOut
        (outs.map CTxOut.nValue).sum = true := by
      unfold checkPosCoinbaseValue
      rw [hsum]
      simp
    simp only
    rw [hbound]
    rfl
  | none =>
    rw [if_neg]
    rintro ⟨hv231, houtputs⟩
    have hplatform : ctx.mnRRActive = false := by
      by_contra hactive
      rw [hbundle (Bool.not_eq_false _ ▸ hactive)] at hv231
      cases hv231
    apply houtputs
    rw [hvout, writtenTxOuts_of_none houts, platformTxOuts, hplatform]
    rfl

theorem checkSuperblock_of_met {coinbase : CTransaction} {actual blockReward : CAmount} {mint : Mint}
    {check_superblock : Bool} (hregular : node.superblockTriggered = false) (hmet : mint.met = true)
    (hreward : 0 ≤ blockReward)
    (hactual : actual ≤ params.getMasternodePayment nBlockHeight) :
    checkSuperblock params.toConsensusParams node nBlockHeight coinbase actual blockReward mint
      check_superblock = .ok () := by
  have hlimit : params.getPaymentsLimit nBlockHeight = 0 := by
    unfold getPaymentsLimit
    split
    · rfl
    · exact zero_mul _
  have hcheck (why : String) : mint.check nBlockHeight why = .ok () := by
    rw [Mint.check, if_pos hmet]
  have hmint : ¬(mint.proofOfStake = true ∧ params.v231Active nBlockHeight = true ∧
      (!mint.met) = true) := by
    rw [hmet]
    exact fun h => nomatch h.2.2
  have hmax : ¬blockReward + params.getPaymentsLimit nBlockHeight <
      actual - params.getMasternodePayment nBlockHeight := by
    linarith
  unfold checkSuperblock
  simp only [hcheck, if_neg hmint, if_neg hmax, hregular, Bool.not_false, if_true, ite_self]

/-- **The producer's payments are accepted**, past the last proof-of-work block where no superblock
is triggered; to `IsBlockValueValid` only the coinstake's mint is left. -/
theorem fillBlockPayments_valid {superblockPayments : List CTxOut} {txNew : CTransaction}
    {out : CTxOut} (hpos : params.lastPowBlock < nBlockHeight)
    (hregular : node.superblockTriggered = false)
    (hbundle : ctx.mnRRActive = true → params.v231Active nBlockHeight = false)
    (hempty : out.isEmpty = true) (hvout : txNew.vout = [out]) {coinbase : BlockTx}
    (hcoinbase : coinbase.toCTransaction =
      fillBlockPayments params ctx node nBlockHeight superblockPayments txNew)
    (check_superblock : Bool) :
    isBlockPayeeValid params ctx node nBlockHeight coinbase.toCTransaction check_superblock = true ∧
    (∀ (blockSubsidy feeReward stakeValueIn stakeValueOut : CAmount) (coinstake : BlockTx)
      (rest : List BlockTx), 0 ≤ blockSubsidy → 0 ≤ feeReward → coinstake.isCoinStake = true →
      coinstake.getValueOut = .ok stakeValueOut →
      stakeValueOut - stakeValueIn ≤
        (if params.posFeesAreBurned nBlockHeight then blockSubsidy
          else blockSubsidy + feeReward) →
      isBlockValueValid params.toConsensusParams ctx node (coinbase :: coinstake :: rest)
        nBlockHeight blockSubsidy feeReward stakeValueIn check_superblock = .ok ()) ∧
    ∃ added, coinbase.vout = out :: added ∧
      (ctx.allMNsCount ≠ 0 → ctx.payee.isSome → (added.map CTxOut.nValue).sum =
        params.getMasternodePayment nBlockHeight) := by
  have hadded : coinbase.vout = out :: writtenTxOuts params ctx nBlockHeight := by
    rw [hcoinbase, vout_fillBlockPayments hpos hregular, hvout]
    rfl
  have hvalue : out.nValue = 0 := (of_decide_eq_true hempty).1
  refine ⟨?_, ?_, writtenTxOuts params ctx nBlockHeight, hadded, ?_⟩
  · refine isBlockPayeeValid_of_written check_superblock ?_ hregular
    intro txout htxout
    rw [hadded]
    exact mem_cons_of_mem _ htxout
  · intro blockSubsidy feeReward stakeValueIn stakeValueOut coinstake rest hsubsidy hfee hstake
      hstakeOut hmint
    have hsum : coinbase.valueOut ≤ params.getMasternodePayment nBlockHeight := by
      unfold CTransaction.valueOut
      rw [hadded, map_cons, sum_cons, hvalue, zero_add]
      exact sum_writtenTxOuts_le
    have hout : coinbase.getValueOut = .ok coinbase.valueOut := by
      refine CTransaction.getValueOut_of_le ?_ (hsum.trans getMasternodePayment_le)
      rw [hadded]
      refine forall_mem_cons.mpr ⟨hvalue.ge, writtenTxOuts_nonneg⟩
    unfold isBlockValueValid
    simp only [hout, hstake, hstakeOut, if_true, checkPosCoinbase_of_written hbundle hempty hadded]
    exact checkSuperblock_of_met hregular (decide_eq_true hmint) (add_nonneg hsubsidy hfee) hsum
  · intro hcount hsome
    obtain ⟨payee, hpayee⟩ := Option.isSome_iff_exists.mp hsome
    obtain ⟨outs, houts, hsum⟩ : ∃ outs,
        getBlockTxOuts params.toConsensusParams ctx nBlockHeight = some outs ∧
          (outs.map CTxOut.nValue).sum = params.getMasternodePayment nBlockHeight :=
      sum_getBlockTxOuts_of_payee hcount hpayee
    rw [writtenTxOuts_of_some houts]
    exact hsum

/-! ### A block with a platform share and an operator -/

namespace Sample

def consensus : PaymentParams where
  nV231ActivationHeight := INT_MAX
  nPosCoinbaseBoundActivationHeight := 0
  nPosFeeBurnActivationHeight := 0
  lastPowBlock := 999
  nSuperblockStartBlock := 100
  nSuperblockCycle := 10
  DIP0003EnforcementHeight := 0

def context : PayeeContext := ⟨true, 3, some ⟨1234, [1], [2], by decide⟩⟩

def synced : NodeState := ⟨true, true, true, false, fun _ => false⟩

def template : CTransaction := { hash := 1, vin := [⟨0, 2 ^ 32 - 1⟩], vout := [⟨0, []⟩] }

def coinbase : BlockTx :=
  { fillBlockPayments consensus context synced 2000 [] template with
    isAssetUnlock := false
    assetUnlockFee := none }

def coinstake : BlockTx :=
  { hash := 2, vin := [⟨7, 0⟩], vout := [⟨0, []⟩, ⟨600 * COIN, [2]⟩], isAssetUnlock := false,
    assetUnlockFee := none }

end Sample

open Sample

theorem fillBlockPayments_valid_sample :
    coinbase.vout = [⟨0, []⟩, ⟨3750 * COIN, [OP_RETURN]⟩, ⟨547875000000, [1]⟩,
      ⟨77125000000, [2]⟩] ∧
    isBlockPayeeValid consensus context synced 2000 coinbase.toCTransaction
      true = true ∧
    isBlockValueValid consensus.toConsensusParams context synced
      [coinbase, coinstake] 2000 (500 * COIN) 7 (100 * COIN) true = .ok () ∧
    ((coinbase.vout.tail).map CTxOut.nValue).sum = 10000 * COIN := by
  obtain ⟨hpayee, hvalue, added, hadded, hsum⟩ := fillBlockPayments_valid
    (show consensus.lastPowBlock < 2000 by decide) (show synced.superblockTriggered = false
      from rfl) (show context.mnRRActive = true → consensus.v231Active 2000 = false
      by decide) (show CTxOut.isEmpty ⟨0, []⟩ = true by decide)
    (show template.vout = [⟨0, []⟩] from rfl)
    (show coinbase.toCTransaction = fillBlockPayments consensus context
      synced 2000 [] template from rfl) true
  refine ⟨by decide +kernel, hpayee, ?_, ?_⟩
  · exact hvalue (500 * COIN) 7 (100 * COIN) (600 * COIN) coinstake [] (by decide) (by decide)
      (by decide) (by decide +kernel) (by decide +kernel)
  · rw [hadded]
    exact hsum (by decide) rfl

/-! ### Equal payouts -/

theorem payeeReward_eq_mul (params : ConsensusParams) (ctx : PayeeContext) (nBlockHeight : Int) :
    ∃ k : Int, 0 < k ∧ payeeReward params ctx nBlockHeight = 10000 * k := by
  unfold payeeReward getMasternodePayment
  cases ctx.mnRRActive <;> cases params.v231Active nBlockHeight
  · exact ⟨COIN, by decide, by decide⟩
  · exact ⟨50000000, by decide, by decide⟩
  · exact ⟨62500000, by decide, by decide⟩
  · exact ⟨31250000, by decide, by decide⟩

theorem nodup_payeeTxOuts {payee : Payee} {k : Int} (hk : 0 < k)
    (hscripts : payee.nOperatorReward = 5000 → payee.scriptPayout ≠ payee.scriptOperatorPayout) :
    (payeeTxOuts payee (10000 * k)).Nodup := by
  have hone (p : Prop) [Decidable p] (out : CTxOut) : (if p then [out] else []).Nodup := by
    split
    · exact nodup_singleton out
    · exact nodup_nil
  refine (hone _ _).append (hone _ _) fun out howner hoperator => ?_
  have hamount : (10000 * k * payee.nOperatorReward).tdiv 10000 = k * payee.nOperatorReward := by
    rw [mul_assoc, Int.mul_tdiv_cancel_left _ (by decide)]
  simp only [mem_ite_nil_right, mem_singleton, hamount] at howner hoperator
  obtain ⟨-, rfl⟩ := howner
  obtain ⟨hpos, heq⟩ := hoperator
  split at hpos
  · rename_i hshare
    rw [if_pos hshare, CTxOut.mk.injEq] at heq
    refine hscripts ?_ heq.2
    have hhalf : k * (10000 - 2 * payee.nOperatorReward) = 0 := by linarith [heq.1]
    have := (mul_eq_zero.mp hhalf).resolve_left hk.ne'
    omega
  · exact absurd hpos (lt_irrefl 0)

theorem scriptPubKey_of_mem_payeeTxOuts {payee : Payee} {reward : CAmount} {out : CTxOut}
    (hout : out ∈ payeeTxOuts payee reward) :
    out.scriptPubKey = payee.scriptPayout ∨ out.scriptPubKey = payee.scriptOperatorPayout := by
  rcases mem_append.mp hout with howner | hoperator
  · exact Or.inl (congrArg _ (mem_singleton.mp (mem_ite_nil_right.mp howner).2))
  · exact Or.inr (congrArg _ (mem_singleton.mp (mem_ite_nil_right.mp hoperator).2))

theorem mem_vout_of_isBlockPayeeValid {txNew : CTransaction} {check_superblock : Bool}
    {outs : List CTxOut} (hheight : params.DIP0003EnforcementHeight ≤ nBlockHeight)
    (houts : getBlockTxOuts params.toConsensusParams ctx nBlockHeight = some outs)
    (hvalid : isBlockPayeeValid params ctx node nBlockHeight txNew check_superblock = true) :
    outs ⊆ txNew.vout := by
  have htx : isTransactionValid params ctx nBlockHeight txNew = true := by
    by_contra hnot
    simp [isBlockPayeeValid, hnot] at hvalid
  rw [isTransactionValid, if_neg (not_lt.mpr hheight), houts] at htx
  intro out hout
  obtain ⟨out', hmem, heq⟩ := any_eq_true.mp (all_eq_true.mp htx out hout)
  rwa [of_decide_eq_true heq]

def Sample.sharing : PayeeContext := ⟨false, 3, some ⟨5000, [1], [1], by decide⟩⟩

def Sample.payingOnce : CTransaction := { template with vout := [⟨0, []⟩, ⟨5000 * COIN, [1]⟩] }

end Defcon.Masternode
