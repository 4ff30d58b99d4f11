import Defcon.Evo.ProviderTx

/-!
# Rebuilding the list from a block

`RebuildListFromBlock` starts from the list of the previous block and applies the special
transactions of the block in their order, each to the list as rebuilt so far. Collaterals that the
block spends are removed at the end.
-/

namespace Defcon.Evo

open Lib (refuseIf need Run)

/-! ### What the transactions make of a state -/

namespace CDeterministicMNState

variable (nHeight : Int)

def registered (p : CProRegTx) : CDeterministicMNState :=
  let state : CDeterministicMNState :=
    { nVersion := p.nVersion
      keyIDOwner := p.keyIDOwner
      pubKeyOperator := p.pubKeyOperator
      keyIDVoting := p.keyIDVoting
      addr := p.addr
      scriptPayout := p.scriptPayout
      computeDescriptor := p.computeDescriptor
      nRegisteredHeight := nHeight }
  if p.addr = {} then state.banIfNotBanned nHeight else state

def setService (p : CProUpServTx) (state : CDeterministicMNState) : CDeterministicMNState :=
  { state with
    addr := p.addr
    scriptOperatorPayout := p.scriptOperatorPayout
    computeDescriptor :=
      if p.nType = .compute then p.computeDescriptor else state.computeDescriptor }

def updateService (p : CProUpServTx) (state : CDeterministicMNState) : CDeterministicMNState :=
  let state := state.setService p
  -- only revive when all keys are set
  if state.isBanned ∧ !state.pubKeyOperator.isNull ∧ state.keyIDVoting ≠ 0 ∧ state.keyIDOwner ≠ 0
  then state.revive nHeight
  else state

def updateRegistrar (p : CProUpRegTx) (state : CDeterministicMNState) : CDeterministicMNState :=
  let state :=
    if state.pubKeyOperator.same p.pubKeyOperator then state
    else { state.resetOperatorFields.banIfNotBanned nHeight with
      nVersion := p.nVersion
      pubKeyOperator := p.pubKeyOperator }
  { state with keyIDVoting := p.keyIDVoting, scriptPayout := p.scriptPayout }

def revokeOperator (p : CProUpRevTx) (state : CDeterministicMNState) : CDeterministicMNState :=
  { state.resetOperatorFields.banIfNotBanned nHeight with nRevocationReason := p.nReason }

section Fields

variable (nHeight : Int) (p : CProUpServTx) (s : CDeterministicMNState)

@[simp] theorem pubKeyOperator_updateService :
    (s.updateService nHeight p).pubKeyOperator = s.pubKeyOperator := by
  unfold updateService; dsimp only; split <;> rfl

@[simp] theorem addr_updateService : (s.updateService nHeight p).addr = p.addr := by
  unfold updateService; dsimp only; split <;> rfl

variable {nHeight p s}

theorem nPoSeBanHeight_updateService (hnull : s.pubKeyOperator.isNull = true) :
    (s.updateService nHeight p).nPoSeBanHeight = s.nPoSeBanHeight := by
  unfold updateService
  rw [if_neg]
  · rfl
  · rintro ⟨-, hkey, -⟩
    change (!s.pubKeyOperator.isNull) = true at hkey
    rw [hnull] at hkey
    cases hkey

theorem updateRegistrar_of_same {p : CProUpRegTx}
    (hsame : s.pubKeyOperator.same p.pubKeyOperator = true) :
    s.updateRegistrar nHeight p =
      { s with keyIDVoting := p.keyIDVoting, scriptPayout := p.scriptPayout } := by
  simp only [updateRegistrar, hsame, if_true]

theorem updateRegistrar_of_not_same {p : CProUpRegTx}
    (hsame : s.pubKeyOperator.same p.pubKeyOperator = false) :
    s.updateRegistrar nHeight p =
      { s.resetOperatorFields.banIfNotBanned nHeight with
        nVersion := p.nVersion
        pubKeyOperator := p.pubKeyOperator
        keyIDVoting := p.keyIDVoting
        scriptPayout := p.scriptPayout } := by
  simp only [updateRegistrar, hsame, Bool.false_eq_true, if_false]

theorem nPoSeBanHeight_reset (hheight : nHeight ≠ -1) :
    (s.resetOperatorFields.banIfNotBanned nHeight).nPoSeBanHeight ≠ -1 ↔ ¬ s.DslBanOnly :=
  nPoSeBanHeight_banIfNotBanned hheight

end Fields

end CDeterministicMNState

namespace BlockContext

variable (ctx : BlockContext) (newList : CDeterministicMNList) (newList : CDeterministicMNList)

def removeReplaced (collateralOutpoint : COutPoint) :
    Except ListError CDeterministicMNList :=
  match newList.getMNByCollateral collateralOutpoint with
  | some replacedDmn => newList.removeMN replacedDmn.proTxHash
  | none => .ok newList

def applyProRegTx (tx : CTransaction) (p : CProRegTx) : Except ListError CDeterministicMNList := do
  let collateralOutpoint : COutPoint :=
    if p.collateralOutpoint.hash = 0 then ⟨tx.hash, p.collateralOutpoint.n⟩
    else p.collateralOutpoint
  refuseIf (ctx.viewHasBestBlock ∧ p.collateralOutpoint.hash ≠ 0 ∧
    (ctx.getCoin collateralOutpoint).all fun coin =>
      coin.nValue ≠ ctx.params.collatAmount p.nType) (.invalid "bad-protx-collateral")
  let internalId := newList.nTotalRegisteredCount
  let newList ← removeReplaced newList collateralOutpoint
  refuseIf (newList.hasUniqueProperty (.addr p.addr)) (.invalid "bad-protx-dup-addr")
  refuseIf (newList.hasUniqueProperty (.keyIDOwner p.keyIDOwner) ∨
    newList.hasUniqueProperty (.pubKeyOperator p.pubKeyOperator.serialized))
    (.invalid "bad-protx-dup-key")
  refuseIf (ctx.v19Active ∧ newList.hasOperatorKeyUnderAnyScheme p.pubKeyOperator.get 0)
    (.invalid "bad-protx-dup-key")
  newList.addMN
    { internalId := internalId
      proTxHash := tx.hash
      collateralOutpoint := collateralOutpoint
      nOperatorReward := p.nOperatorReward
      nType := p.nType
      pdmnState := .registered ctx.nHeight p }

def applyProUpServTx (p : CProUpServTx) : Except ListError CDeterministicMNList := do
  refuseIf ((newList.getUniquePropertyMN (.addr p.addr)).any fun dmn =>
    dmn.proTxHash ≠ p.proTxHash) (.invalid "bad-protx-dup-addr")
  let dmn ← need (.invalid "bad-protx-hash") (newList.getMN p.proTxHash)
  refuseIf (p.nType ≠ dmn.nType) (.invalid "bad-protx-type-mismatch")
  refuseIf (!isValidMnType p.nType) (.invalid "bad-protx-type")
  newList.updateMN p.proTxHash (dmn.pdmnState.updateService ctx.nHeight p)

def applyProUpRegTx (p : CProUpRegTx) : Except ListError CDeterministicMNList := do
  let dmn ← need (.invalid "bad-protx-hash") (newList.getMN p.proTxHash)
  refuseIf (ctx.v19Active ∧ !p.pubKeyOperator.same dmn.pdmnState.pubKeyOperator ∧
    newList.hasOperatorKeyUnderAnyScheme p.pubKeyOperator.get p.proTxHash)
    (.invalid "bad-protx-dup-key")
  newList.updateMN p.proTxHash (dmn.pdmnState.updateRegistrar ctx.nHeight p)

def applyProUpRevTx (p : CProUpRevTx) : Except ListError CDeterministicMNList := do
  let dmn ← need (.invalid "bad-protx-hash") (newList.getMN p.proTxHash)
  newList.updateMN p.proTxHash (dmn.pdmnState.revokeOperator ctx.nHeight p)

def punishMember (qc : Llmq.CFinalCommitment) (newList : CDeterministicMNList)
    (member : Uint256 × Nat) : Except ListError CDeterministicMNList :=
  if !newList.hasMN member.1 then .ok newList
  else if !qc.validMembers.getD member.2 false then
    newList.poSePunish member.1 (newList.calcPenalty 66)
  else .ok newList

def handleQuorumCommitment (qc : Llmq.CFinalCommitment) (quorumBaseHash : Uint256) :
    Except ListError CDeterministicMNList :=
  (ctx.getAllQuorumMembers qc.llmqType quorumBaseHash).zipIdx.foldlM (punishMember qc) newList

def applyQuorumCommitment (payload : CFinalCommitmentTxPayload) :
    Except ListError CDeterministicMNList :=
  let qc := payload.commitment
  if qc.isNull then .ok newList
  else do
    let llmqParams ← need (.invalid "bad-qc-commitment-type") (ctx.getLLMQ qc.llmqType)
    let quorumHeight : Int :=
      payload.nHeight - payload.nHeight % llmqParams.dkgInterval + qc.quorumIndex
    refuseIf (ctx.getAncestor quorumHeight ≠ some qc.quorumHash) (.invalid "bad-qc-quorum-hash")
    ctx.handleQuorumCommitment newList qc qc.quorumHash

def applyServiceCommitmentTx (c : CPoSeServiceCommitment) :
    Except ListError CDeterministicMNList := do
  refuseIf (ctx.getAncestor (ctx.nHeight - ctx.params.nDSLEpochInterval) ≠ some c.epochBlockHash)
    (.invalid "bad-dsl-epoch-hash")
  let epochBaseList := ctx.getListForBlock c.epochBlockHash
  refuseIf (c.missed.length ≠ epochBaseList.getAllMNsCount) (.invalid "bad-dsl-bitfield-size")
  refuseIf (CPoSeServiceCommitment.OBSERVED_VERSION ≤ c.nVersion ∧
    c.observed.length ≠ epochBaseList.getAllMNsCount) (.invalid "bad-dsl-bitfield-size")
  newList.applyServiceCommitment ctx.params c epochBaseList ctx.nHeight

def applySpecialTx (acc : CDeterministicMNList × Nat) (tx : SpecialTx) :
    Except ListError (CDeterministicMNList × Nat) :=
  match tx.payload with
  | .other => .ok acc
  | .proReg payload => do
    let p ← need (.invalid "bad-protx-payload") payload
    return (← ctx.applyProRegTx acc.1 tx.toCTransaction p, acc.2)
  | .proUpServ payload => do
    let p ← need (.invalid "bad-protx-payload") payload
    return (← ctx.applyProUpServTx acc.1 p, acc.2)
  | .proUpReg payload => do
    let p ← need (.invalid "bad-protx-payload") payload
    return (← ctx.applyProUpRegTx acc.1 p, acc.2)
  | .proUpRev payload => do
    let p ← need (.invalid "bad-protx-payload") payload
    return (← ctx.applyProUpRevTx acc.1 p, acc.2)
  | .quorumCommitment payload => do
    let p ← need (.invalid "bad-qc-payload") payload
    return (← ctx.applyQuorumCommitment acc.1 p, acc.2)
  | .serviceCommitment payload => do
    refuseIf (1 < acc.2 + 1) (.invalid "bad-dsl-multiple")
    let p ← need (.invalid "bad-dsl-payload") payload
    return (← ctx.applyServiceCommitmentTx acc.1 p.commitment, acc.2 + 1)

/-! ### The whole function -/

def confirmMN (dmn : CDeterministicMN) :
    Except ListError CDeterministicMNList :=
  if dmn.pdmnState.confirmedHash ≠ 0 then .ok newList
  else if ctx.params.nMasternodeMinimumConfirmations ≤
      ctx.prevHeight - dmn.pdmnState.nRegisteredHeight then
    newList.updateMN dmn.proTxHash
      (dmn.pdmnState.updateConfirmedHash ctx.env.sha256 dmn.proTxHash ctx.prevHash)
  else .ok newList

variable (prevList : CDeterministicMNList)

def startList : Except ListError CDeterministicMNList := do
  let newList := { prevList with blockHash := 0, nHeight := ctx.nHeight }
  let newList ← (prevList.mns false).foldlM ctx.confirmMN newList
  newList.decreaseScores

def removeSpent (prevout : COutPoint) :
    Except ListError CDeterministicMNList :=
  match newList.getMNByCollateral prevout with
  | none => .ok newList
  | some dmn =>
    if dmn.collateralOutpoint = prevout then newList.removeMN dmn.proTxHash else .ok newList

def recordPayment (payee : Option CDeterministicMN) : Except ListError CDeterministicMNList :=
  match payee with
  | none => .ok newList
  | some payee =>
    match newList.getMN payee.proTxHash with
    | none => .ok newList
    | some dmn =>
      newList.updateMN payee.proTxHash
        { dmn.pdmnState with
          nLastPaidHeight := ctx.nHeight
          nConsecutivePayments :=
            if 1 < newList.getEffectivePaymentWeight ctx.params dmn ∧ !ctx.mnRRActive then
              dmn.pdmnState.nConsecutivePayments + 1
            else dmn.pdmnState.nConsecutivePayments }

def resetPayments (payee : Option CDeterministicMN) (newList : CDeterministicMNList)
    (dmn : CDeterministicMN) : Except ListError CDeterministicMNList :=
  if ctx.params.paymentWeight dmn.nType ≤ 1 then .ok newList
  else if payee.map CDeterministicMN.proTxHash = some dmn.proTxHash ∧ !ctx.mnRRActive then
    .ok newList
  else if dmn.pdmnState.nConsecutivePayments = 0 then .ok newList
  else newList.updateMN dmn.proTxHash { dmn.pdmnState with nConsecutivePayments := 0 }

def applyTxs (txs : List SpecialTx) : Except ListError (CDeterministicMNList × Nat) := do
  let newList ← ctx.startList prevList
  txs.foldlM ctx.applySpecialTx (newList, 0)

def finishList (txs : List SpecialTx) (newList : CDeterministicMNList) :
    Except ListError CDeterministicMNList := do
  let payee := prevList.getMNPayee ctx.params ctx.mnRRActive
  let newList ← (txs.flatMap fun tx => tx.vin).foldlM removeSpent newList
  let newList ← ctx.recordPayment newList payee
  (newList.mns false).foldlM (ctx.resetPayments payee) newList

def rebuildListFromBlock (vtx : List SpecialTx) : Except ListError CDeterministicMNList := do
  refuseIf (¬ (prevList.isDefault ∨ prevList.blockHash = ctx.prevHash))
    (.assertion "prevList == CDeterministicMNList() || prevList.GetBlockHash() == pindexPrev->GetBlockHash()")
  let (newList, _) ← ctx.applyTxs prevList vtx.tail
  ctx.finishList prevList vtx.tail newList

end BlockContext

end Defcon.Evo
