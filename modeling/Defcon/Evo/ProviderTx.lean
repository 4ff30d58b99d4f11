import Defcon.Evo.MasternodeList

/-!
# Provider transactions

The payloads of the special transactions that change the masternode list, and the checks each
passes on its own against the list of the previous block. Addresses, scripts, hashes and
signatures enter through the functions that decide about them.
-/

namespace Defcon.Evo

open Lib (refuseIf need provided)
open Llmq (CBLSPublicKey CBLSSignature LLMQType LLMQParams CFinalCommitment)

structure CProRegTx where
  nVersion : UInt16
  nType : MnType
  nMode : UInt16
  collateralOutpoint : COutPoint
  addr : CService
  keyIDOwner : CKeyID
  pubKeyOperator : CBLSLazyPublicKey
  keyIDVoting : CKeyID
  nOperatorReward : Nat
  scriptPayout : CScript
  computeDescriptor : CComputeServiceDescriptor
  inputsHash : Uint256
  vchSig : List UInt8
  deriving DecidableEq

structure CProUpServTx where
  nVersion : UInt16
  nType : MnType
  proTxHash : Uint256
  addr : CService
  scriptOperatorPayout : CScript
  computeDescriptor : CComputeServiceDescriptor
  inputsHash : Uint256
  sig : CBLSSignature
  deriving DecidableEq

structure CProUpRegTx where
  nVersion : UInt16
  proTxHash : Uint256
  nMode : UInt16
  pubKeyOperator : CBLSLazyPublicKey
  keyIDVoting : CKeyID
  scriptPayout : CScript
  inputsHash : Uint256
  vchSig : List UInt8
  deriving DecidableEq

structure CProUpRevTx where
  nVersion : UInt16
  proTxHash : Uint256
  nReason : UInt16
  inputsHash : Uint256
  sig : CBLSSignature
  deriving DecidableEq

structure CFinalCommitmentTxPayload where
  nVersion : UInt16
  nHeight : Nat
  commitment : CFinalCommitment
  deriving DecidableEq

structure CPoSeServiceCommitmentTxPayload where
  nVersion : UInt16
  commitment : CPoSeServiceCommitment
  deriving DecidableEq

/-- The types of transactions that the list is rebuilt from, each with what `GetTxPayload`
returns for it. -/
inductive SpecialPayload where
  | other
  | proReg (payload : Option CProRegTx)
  | proUpServ (payload : Option CProUpServTx)
  | proUpReg (payload : Option CProUpRegTx)
  | proUpRev (payload : Option CProUpRevTx)
  | quorumCommitment (payload : Option CFinalCommitmentTxPayload)
  | serviceCommitment (payload : Option CPoSeServiceCommitmentTxPayload)
  deriving DecidableEq

structure SpecialTx extends CTransaction where
  payload : SpecialPayload
  deriving DecidableEq

inductive CTxDestination where
  | pubKey (key : List UInt8)
  | pkHash (id : CKeyID)
  | scriptHash (id : BitVec 160)
  deriving DecidableEq

namespace CScript

def isPayToPublicKeyHash (script : CScript) : Bool :=
  script.length = 25 ∧ script.take 3 = [0x76, 0xa9, 0x14] ∧ script.drop 23 = [0x88, 0xac]

def isPayToScriptHash (script : CScript) : Bool :=
  script.length = 23 ∧ script.take 2 = [0xa9, 0x14] ∧ script.drop 22 = [0x87]

end CScript

/-- What the checks call outside the list: networks, scripts, hashes and signatures. -/
structure ProTxEnv where
  isValid : CService → Bool
  isRoutable : CService → Bool
  isIPv4 : CService → Bool
  requireRoutableExternalIP : Bool
  isMainNet : Bool
  mainnetDefaultPort : UInt16
  isFullyValidPubKey : List UInt8 → Bool
  extractDestination : CScript → Option CTxDestination
  /-- Of the concatenation of its arguments. -/
  sha256 : Uint256 → Uint256 → Uint256
  calcTxInputsHash : List COutPoint → Uint256
  hashProUpServTx : CProUpServTx → Uint256
  hashProUpRegTx : CProUpRegTx → Uint256
  hashProUpRevTx : CProUpRevTx → Uint256
  verifyHash : Uint256 → CKeyID → List UInt8 → Bool
  /-- `CMessageSigner::VerifyMessage` for the sign string of the payload. -/
  verifyMessage : CKeyID → CProRegTx → Bool
  blsVerify : BitVec 384 → Uint256 → BitVec 768 → Bool
  isValid_default : isValid {} = false

variable (env : ProTxEnv)

def ProTxEnv.verifyInsecure (sig : CBLSSignature) (pubKey : CBLSPublicKey) (hash : Uint256) :
    Bool :=
  match sig, pubKey with
  | some s, some k => env.blsVerify k hash s
  | _, _ => false

/-- The chain up to the previous block `pindexPrev`, as a block after it is checked against and
the list is rebuilt from. -/
structure BlockContext where
  params : ConsensusParams
  env : ProTxEnv
  nDSLActivationHeight : Int
  nDSLCommitmentV2Height : Int
  getLLMQ : LLMQType → Option LLMQParams
  prevHeight : Nat
  prevHash : Uint256
  /-- The hash of `pindexPrev->GetAncestor(height)`. -/
  getAncestor : Int → Option Uint256
  v19Active : Bool
  mnRRActive : Bool
  dip0003Enforced : Bool
  /-- `!view.GetBestBlock().IsNull()`. -/
  viewHasBestBlock : Bool
  getCoin : COutPoint → Option CTxOut
  getListForBlock : Uint256 → CDeterministicMNList
  /-- The members of the quorum with this base block, by their `proTxHash`. -/
  getAllQuorumMembers : LLMQType → Uint256 → List Uint256
  checkLLMQCommitment : CFinalCommitmentTxPayload → Bool
  /-- The part of `CheckPoSeServiceCommitmentTx` about the attesting quorum and its signature. -/
  checkServiceQuorum : CPoSeServiceCommitment → Bool

def BlockContext.nHeight (ctx : BlockContext) : Int :=
  ctx.prevHeight + 1

/-! ### Checks of the payload alone -/

variable (isBasicSchemeActive : Bool)

def getVersion : UInt16 :=
  if isBasicSchemeActive then BASIC_BLS_VERSION else LEGACY_BLS_VERSION

def checkComputeDescriptor (d : CComputeServiceDescriptor) : Except String Unit := do
  refuseIf (d.nVersion = 0 ∨ CComputeServiceDescriptor.CURRENT_VERSION < d.nVersion)
    "bad-compute-descriptor-version"
  refuseIf (d.vchOracleKey.length ≠ CComputeServiceDescriptor.ORACLE_KEY_SIZE ∨
      (d.vchOracleKey.head? ≠ some 0x02 ∧ d.vchOracleKey.head? ≠ some 0x03) ∨
      !env.isFullyValidPubKey d.vchOracleKey) "bad-compute-oracle-key"
  refuseIf (d.vchBlsReserved ≠ []) "bad-compute-bls-reserved"
  refuseIf (¬ (d.certHash = 0 ↔ d.certExpiryHeight = 0) ∨ d.certExpiryHeight < 0)
    "bad-compute-cert"

def CProRegTx.isTriviallyValid (p : CProRegTx) : Except String Unit := do
  refuseIf (p.nVersion = 0 ∨ getVersion isBasicSchemeActive < p.nVersion) "bad-protx-version"
  refuseIf (p.nType ≠ .regular ∧ p.nType ≠ .compute) "bad-protx-type"
  provided (p.nType = .compute) (checkComputeDescriptor env p.computeDescriptor)
  refuseIf (p.nMode ≠ 0) "bad-protx-mode"
  refuseIf (p.keyIDOwner = 0 ∨ p.pubKeyOperator.get.isNone ∨ p.keyIDVoting = 0)
    "bad-protx-key-null"
  refuseIf (p.pubKeyOperator.legacy ≠ decide (p.nVersion = LEGACY_BLS_VERSION))
    "bad-protx-operator-pubkey"
  refuseIf (!CScript.isPayToPublicKeyHash p.scriptPayout ∧ !CScript.isPayToScriptHash p.scriptPayout)
    "bad-protx-payee"
  let payoutDest ← need "bad-protx-payee-dest" (env.extractDestination p.scriptPayout)
  refuseIf (payoutDest = .pkHash p.keyIDOwner ∨ payoutDest = .pkHash p.keyIDVoting)
    "bad-protx-payee-reuse"
  refuseIf (10000 < p.nOperatorReward) "bad-protx-operator-reward"

def CProUpServTx.isTriviallyValid (p : CProUpServTx) : Except String Unit := do
  refuseIf (p.nVersion = 0 ∨ getVersion isBasicSchemeActive < p.nVersion) "bad-protx-version"
  refuseIf (p.nType ≠ .regular ∧ p.nType ≠ .compute) "bad-protx-type"
  provided (p.nType = .compute) (checkComputeDescriptor env p.computeDescriptor)

def CProUpRegTx.isTriviallyValid (p : CProUpRegTx) : Except String Unit := do
  refuseIf (p.nVersion = 0 ∨ getVersion isBasicSchemeActive < p.nVersion) "bad-protx-version"
  refuseIf (p.nMode ≠ 0) "bad-protx-mode"
  refuseIf (p.pubKeyOperator.get.isNone ∨ p.keyIDVoting = 0) "bad-protx-key-null"
  refuseIf (p.pubKeyOperator.legacy ≠ decide (p.nVersion = LEGACY_BLS_VERSION))
    "bad-protx-operator-pubkey"
  refuseIf (!CScript.isPayToPublicKeyHash p.scriptPayout ∧ !CScript.isPayToScriptHash p.scriptPayout)
    "bad-protx-payee"

def REASON_LAST : UInt16 := 3

def CProUpRevTx.isTriviallyValid (p : CProUpRevTx) : Except String Unit := do
  refuseIf (p.nVersion = 0 ∨ getVersion isBasicSchemeActive < p.nVersion) "bad-protx-version"
  refuseIf (REASON_LAST < p.nReason) "bad-protx-reason"

/-! ### Checks against the previous block -/

def checkService (addr : CService) : Except String Unit := do
  refuseIf (!env.isValid addr) "bad-protx-ipaddr"
  refuseIf (env.requireRoutableExternalIP ∧ !env.isRoutable addr) "bad-protx-ipaddr"
  refuseIf (if env.isMainNet then addr.port ≠ env.mainnetDefaultPort
    else addr.port = env.mainnetDefaultPort) "bad-protx-ipaddr-port"
  refuseIf (!env.isIPv4 addr) "bad-protx-ipaddr"

def checkInputsHash (tx : CTransaction) (inputsHash : Uint256) : Except String Unit :=
  refuseIf (env.calcTxInputsHash tx.vin ≠ inputsHash) "bad-protx-inputs-hash"

namespace BlockContext

variable (ctx : BlockContext) (mnList : CDeterministicMNList) (tx : CTransaction)

/-- The outpoint and the destination of a registration's collateral, and the key that has to sign
for it. -/
def findCollateral (p : CProRegTx) :
    Except String (COutPoint × CTxDestination × Option CKeyID) := do
  let expectedCollateral := ctx.params.collatAmount p.nType
  if p.collateralOutpoint.hash ≠ 0 then
    let coin ← need "bad-protx-collateral" (ctx.getCoin p.collateralOutpoint)
    refuseIf (coin.nValue ≠ expectedCollateral) "bad-protx-collateral"
    match ← need "bad-protx-collateral-dest" (ctx.env.extractDestination coin.scriptPubKey) with
    | .pkHash key => return (p.collateralOutpoint, .pkHash key, some key)
    | _ => .error "bad-protx-collateral-pkh"
  else
    let out ← need "bad-protx-collateral-index" tx.vout[p.collateralOutpoint.n]?
    refuseIf (out.nValue ≠ expectedCollateral) "bad-protx-collateral"
    let dest ← need "bad-protx-collateral-dest" (ctx.env.extractDestination out.scriptPubKey)
    return (⟨tx.hash, p.collateralOutpoint.n⟩, dest, none)

def checkProRegTx (p : CProRegTx) : Except String Unit := do
  p.isTriviallyValid ctx.env ctx.v19Active
  provided (p.addr ≠ {}) (checkService ctx.env p.addr)
  refuseIf (p.nType = .compute ∧ !ctx.params.isComputeTypeActive ctx.nHeight)
    "bad-protx-compute-early"
  let (collateralOutpoint, collateralTxDest, keyForPayloadSig) ← ctx.findCollateral tx p
  refuseIf (collateralTxDest = .pkHash p.keyIDOwner ∨ collateralTxDest = .pkHash p.keyIDVoting)
    "bad-protx-collateral-reuse"
  refuseIf ((mnList.getUniquePropertyMN (.addr p.addr)).any fun dmn =>
    dmn.collateralOutpoint ≠ collateralOutpoint) "bad-protx-dup-addr"
  refuseIf (mnList.hasUniqueProperty (.keyIDOwner p.keyIDOwner) ∨
    mnList.hasUniqueProperty (.pubKeyOperator p.pubKeyOperator.serialized)) "bad-protx-dup-key"
  refuseIf (ctx.v19Active ∧ mnList.hasOperatorKeyUnderAnyScheme p.pubKeyOperator.get 0)
    "bad-protx-dup-key"
  refuseIf (!ctx.dip0003Enforced ∧ p.keyIDOwner ≠ p.keyIDVoting) "bad-protx-key-not-same"
  checkInputsHash ctx.env tx p.inputsHash
  match keyForPayloadSig with
  | some key => refuseIf (!ctx.env.verifyMessage key p) "bad-protx-sig"
  | none => refuseIf (p.vchSig ≠ []) "bad-protx-sig"

def checkProUpServTx (p : CProUpServTx) : Except String Unit := do
  p.isTriviallyValid ctx.env ctx.v19Active
  checkService ctx.env p.addr
  refuseIf (p.nType = .compute ∧ !ctx.params.isComputeTypeActive ctx.nHeight)
    "bad-protx-compute-early"
  let mn ← need "bad-protx-hash" (mnList.getMN p.proTxHash)
  refuseIf (p.nType ≠ mn.nType) "bad-protx-type-mismatch"
  refuseIf ((mnList.getUniquePropertyMN (.addr p.addr)).any fun dmn => dmn.proTxHash ≠ p.proTxHash)
    "bad-protx-dup-addr"
  refuseIf (p.scriptOperatorPayout ≠ [] ∧ (mn.nOperatorReward = 0 ∨
    !CScript.isPayToPublicKeyHash p.scriptOperatorPayout ∧
      !CScript.isPayToScriptHash p.scriptOperatorPayout)) "bad-protx-operator-payee"
  checkInputsHash ctx.env tx p.inputsHash
  refuseIf (!ctx.env.verifyInsecure p.sig mn.pdmnState.pubKeyOperator.get
    (ctx.env.hashProUpServTx p)) "bad-protx-sig"

def checkProUpRegTx (p : CProUpRegTx) : Except String Unit := do
  p.isTriviallyValid ctx.v19Active
  let payoutDest ← need "bad-protx-payee-dest" (ctx.env.extractDestination p.scriptPayout)
  let dmn ← need "bad-protx-hash" (mnList.getMN p.proTxHash)
  refuseIf (payoutDest = .pkHash dmn.pdmnState.keyIDOwner ∨ payoutDest = .pkHash p.keyIDVoting)
    "bad-protx-payee-reuse"
  let coin ← need "bad-protx-collateral" (ctx.getCoin dmn.collateralOutpoint)
  let collateralTxDest ← need "bad-protx-collateral-dest"
    (ctx.env.extractDestination coin.scriptPubKey)
  refuseIf (collateralTxDest = .pkHash dmn.pdmnState.keyIDOwner ∨
    collateralTxDest = .pkHash p.keyIDVoting) "bad-protx-collateral-reuse"
  refuseIf ((mnList.getUniquePropertyMN (.pubKeyOperator p.pubKeyOperator.serialized)).any
    fun otherDmn => p.proTxHash ≠ otherDmn.proTxHash) "bad-protx-dup-key"
  refuseIf (ctx.v19Active ∧ !p.pubKeyOperator.same dmn.pdmnState.pubKeyOperator ∧
    mnList.hasOperatorKeyUnderAnyScheme p.pubKeyOperator.get p.proTxHash) "bad-protx-dup-key"
  refuseIf (!ctx.dip0003Enforced ∧ dmn.pdmnState.keyIDOwner ≠ p.keyIDVoting)
    "bad-protx-key-not-same"
  checkInputsHash ctx.env tx p.inputsHash
  refuseIf (!ctx.env.verifyHash (ctx.env.hashProUpRegTx p) dmn.pdmnState.keyIDOwner p.vchSig)
    "bad-protx-sig"

def checkProUpRevTx (p : CProUpRevTx) : Except String Unit := do
  p.isTriviallyValid ctx.v19Active
  let dmn ← need "bad-protx-hash" (mnList.getMN p.proTxHash)
  checkInputsHash ctx.env tx p.inputsHash
  refuseIf (!ctx.env.verifyInsecure p.sig dmn.pdmnState.pubKeyOperator.get
    (ctx.env.hashProUpRevTx p)) "bad-protx-sig"

def checkServiceCommitmentBitfields (c : CPoSeServiceCommitment) : Except String Unit := do
  if CPoSeServiceCommitment.OBSERVED_VERSION ≤ c.nVersion then
    refuseIf (c.observed.length ≠ c.missed.length) "bad-dsl-bitfield-size"
    refuseIf ((c.missed.zip c.observed).any fun bits => bits.1 && !bits.2)
      "bad-dsl-missed-unobserved"

def checkPoSeServiceCommitmentTx (payload : CPoSeServiceCommitmentTxPayload) :
    Except String Unit := do
  let c := payload.commitment
  let nDSLEpochInterval := ctx.params.nDSLEpochInterval
  refuseIf (payload.nVersion = 0 ∨ 1 < payload.nVersion) "bad-dsl-version"
  refuseIf (c.nVersion ≠ if ctx.nDSLCommitmentV2Height ≤ ctx.nHeight then 2 else 1)
    "bad-dsl-commitment-version"
  checkServiceCommitmentBitfields c
  refuseIf (nDSLEpochInterval ≤ 0 ∨ ctx.nHeight < ctx.nDSLActivationHeight ∨
    ctx.nHeight - nDSLEpochInterval < ctx.nDSLActivationHeight) "bad-dsl-commitment-early"
  refuseIf (ctx.nHeight % nDSLEpochInterval ≠ 0) "bad-dsl-not-epoch-boundary"
  refuseIf (c.nEpoch ≠ ctx.nHeight / nDSLEpochInterval - 1) "bad-dsl-epoch"
  refuseIf (ctx.getAncestor (ctx.nHeight - nDSLEpochInterval) ≠ some c.epochBlockHash)
    "bad-dsl-epoch-hash"
  refuseIf (!ctx.checkServiceQuorum c) "bad-dsl-invalid-sig"

def checkSpecialTx (tx : SpecialTx) : Except String Unit :=
  match tx.payload with
  | .other => .ok ()
  | .proReg payload => do
    ctx.checkProRegTx mnList tx.toCTransaction (← need "bad-protx-payload" payload)
  | .proUpServ payload => do
    ctx.checkProUpServTx mnList tx.toCTransaction (← need "bad-protx-payload" payload)
  | .proUpReg payload => do
    ctx.checkProUpRegTx mnList tx.toCTransaction (← need "bad-protx-payload" payload)
  | .proUpRev payload => do
    ctx.checkProUpRevTx mnList tx.toCTransaction (← need "bad-protx-payload" payload)
  | .quorumCommitment payload => do
    refuseIf (!ctx.checkLLMQCommitment (← need "bad-qc-payload" payload)) "bad-qc-invalid"
  | .serviceCommitment payload => do
    ctx.checkPoSeServiceCommitmentTx (← need "bad-dsl-payload" payload)

end BlockContext

/-! ### What a transaction that passed is known to have -/

section Checked

variable {ctx : BlockContext} {mnList : CDeterministicMNList} {tx : CTransaction}

theorem addr_ne_of_checkService {addr : CService} (hcheck : checkService ctx.env addr = .ok ()) :
    addr ≠ {} := by
  simp only [checkService, Lib.bind_eq_ok, Lib.refuseIf_eq_ok] at hcheck
  obtain ⟨-, hvalid, -⟩ := hcheck
  intro heq
  rw [heq, ctx.env.isValid_default] at hvalid
  exact hvalid rfl

theorem pubKeyOperator_of_checkProRegTx {p : CProRegTx}
    (hcheck : ctx.checkProRegTx mnList tx p = .ok ()) : p.pubKeyOperator.isNull = false := by
  simp only [BlockContext.checkProRegTx, Lib.bind_eq_ok] at hcheck
  obtain ⟨_, htrivial, -⟩ := hcheck
  simp only [CProRegTx.isTriviallyValid, Lib.bind_eq_ok, Lib.refuseIf_eq_ok] at htrivial
  obtain ⟨-, -, -, -, -, -, -, -, -, hkeys, -⟩ := htrivial
  exact Bool.eq_false_iff.mpr fun hnull => hkeys (.inr (.inl hnull))

theorem addr_ne_of_checkProUpServTx {p : CProUpServTx}
    (hcheck : ctx.checkProUpServTx mnList tx p = .ok ()) : p.addr ≠ {} := by
  simp only [BlockContext.checkProUpServTx, Lib.bind_eq_ok] at hcheck
  obtain ⟨_, -, _, hservice, -⟩ := hcheck
  exact addr_ne_of_checkService hservice

end Checked

end Defcon.Evo
