import Defcon.Dsl.ServiceManager
import Defcon.Evo.OperatorKeySafety
import Defcon.Evo.RebuildInvariant
import Defcon.Llmq.QuorumManager

/-!
# Service commitments from the signing member to the block

A member of the attesting quorum aggregates the reports of an epoch into a commitment and asks its
quorum to sign it. Nodes relay the signed commitment after `CheckRelayedServiceCommitment`, and the
block at the epoch's boundary carries it, checked by `CheckPoSeServiceCommitmentTx` and by
`RebuildListFromBlock`. The three derive the format, the base block, the quorum and the signed
message from different data.
-/

namespace Defcon.Dsl

open Lib (refuseIf need BlockTree Ensures)
open Evo (CDeterministicMNList CPoSeServiceCommitment ProTxEnv BlockContext SpecialTx)
open Llmq (CBLSSignature LLMQType LLMQParams CQuorum QuorumContext QuorumState)
open Lib Option

def INT_MAX : Int := 2 ^ 31 - 1

def castInt (n : Nat) : Int :=
  Int.bmod n (2 ^ 32)

/-! ### Commitments and the transactions that carry them -/

/-- `CPoSeServiceCommitment` with the attesting quorum and its signature. -/
structure AttestedCommitment extends CPoSeServiceCommitment where
  llmqType : LLMQType
  quorumHash : Uint256
  quorumSig : CBLSSignature
  deriving DecidableEq

/-- What is read back of a commitment: version 1 has no bytes for the observed bits. -/
def AttestedCommitment.serialized (c : AttestedCommitment) : AttestedCommitment :=
  if CPoSeServiceCommitment.OBSERVED_VERSION ≤ c.nVersion then c else { c with observed := [] }

def AttestedCommitment.countUnobserved (c : AttestedCommitment) : Nat :=
  if c.nVersion < CPoSeServiceCommitment.OBSERVED_VERSION then 0 else c.observed.count false

structure AttestedPayload where
  nVersion : UInt16 := 1
  commitment : AttestedCommitment
  deriving DecidableEq

def SPECIAL_VERSION : Int := 3

def TRANSACTION_POSE_SERVICE_COMMITMENT : UInt16 := 10

/-- A transaction by what `GetTxPayload` reads from it. -/
structure CMutableTransaction where
  nVersion : Int
  nType : UInt16
  vin : List COutPoint := []
  vout : List CTxOut := []
  payload : Option AttestedPayload := none
  deriving DecidableEq

def setTxPayload (tx : CMutableTransaction) (payload : AttestedPayload) : CMutableTransaction :=
  { tx with payload := some { payload with commitment := payload.commitment.serialized } }

structure ServiceCommitmentTxCandidate where
  tx : CMutableTransaction
  msgHash : Uint256
  commitment : AttestedCommitment
  deriving DecidableEq

structure CPoSeServiceReport where
  nEpoch : Nat
  targetProTxHash : Uint256
  sentinelProTxHash : Uint256
  status : UInt8
  sig : CBLSSignature
  deriving DecidableEq

def ONLINE : UInt8 := 1

def MISSED : UInt8 := 2

/-! ### The node -/

structure ServiceParams extends Evo.ConsensusParams where
  nDSLActivationHeight : Int
  nDSLCommitmentV2Height : Int
  nDSLSentinelCount : Nat
  nDSLSentinelAgree : Int
  llmqTypeChainLocks : LLMQType
  llmqTypeChainLocksV2 : LLMQType
  nChainLocksV2ActivationHeight : Int

def LLMQ_NONE : LLMQType := 0xff

def requiredServiceCommitmentVersion (consensus : ServiceParams) (height : Int) : UInt16 :=
  if consensus.nDSLCommitmentV2Height ≤ height then 2 else 1

def getChainLocksLLMQType (params : ServiceParams) (nSignedHeight : Int) : LLMQType :=
  if params.llmqTypeChainLocksV2 ≠ LLMQ_NONE ∧
      params.nChainLocksV2ActivationHeight ≤ nSignedHeight then params.llmqTypeChainLocksV2
  else params.llmqTypeChainLocks

/-- The hashes of the fields that are written into them. -/
structure ServiceHashes where
  getHash : CMutableTransaction → Uint256
  serviceCommitmentQuorumSelectionHash : Nat → Uint256
  getRequestId : Nat → Uint256 → Uint256
  buildSignHash : LLMQType → Uint256 → Uint256 → Uint256 → Uint256
  quorumScore : LLMQType → Uint256 → Uint256 → Uint256
  sentinelModifier : Uint256 → Uint256 → Uint256
  getSignHash : CPoSeServiceReport → Uint256 → Uint256

/-- What `CQuorumManager` answers for blocks of the index. -/
structure QuorumView (B : Type) where
  scanQuorums : LLMQType → B → Nat → List (CQuorum B)
  getQuorum : LLMQType → Uint256 → Option (CQuorum B)

def QuorumView.ofState {B : Type} (ctx : QuorumContext B) (s : QuorumState B) : QuorumView B where
  scanQuorums llmqType pindexStart count :=
    ((Llmq.scanQuorums ctx s llmqType pindexStart count).map Prod.fst).getD []
  getQuorum llmqType quorumHash := (Llmq.getQuorum ctx s llmqType quorumHash).1

structure ServiceNode (B : Type) where
  consensus : ServiceParams
  index : QuorumContext B
  /-- Heights are of type `int`, and so is the height after each block. -/
  height_lt : ∀ b, (index.tree.height b : Int) < INT_MAX
  qman : QuorumView B
  getListForBlock : B → CDeterministicMNList
  env : ProTxEnv
  hashes : ServiceHashes
  /-- The rest of what a block after the given one is checked against. -/
  rest : B → BlockContext

namespace ServiceNode

variable {B : Type} (node : ServiceNode B)

def nHeight (pindex : B) : Int :=
  node.index.tree.height pindex

def getAncestor (pindex : B) (height : Int) : Option B :=
  if height < 0 then none else node.index.tree.ancestorAt pindex height.toNat

/-- The chain up to `pindexPrev` as the list of the next block is rebuilt from it. -/
def blockContext (pindexPrev : B) : BlockContext :=
  { node.rest pindexPrev with
    params := node.consensus.toConsensusParams
    env := node.env
    nDSLActivationHeight := node.consensus.nDSLActivationHeight
    nDSLCommitmentV2Height := node.consensus.nDSLCommitmentV2Height
    getLLMQ := node.index.getLLMQ
    prevHeight := node.index.tree.height pindexPrev
    prevHash := node.index.getBlockHash pindexPrev
    getAncestor := fun height => (node.getAncestor pindexPrev height).map node.index.getBlockHash
    getListForBlock := fun hash =>
      match node.index.lookupBlockIndex hash with
      | none => {}
      | some pindex => node.getListForBlock pindex }

/-! ### The selected quorum and its signature -/

def SIGN_HEIGHT_OFFSET : Int := 8

/-- The quorum with the lowest score, the first of them on a tie. -/
def selectQuorumForSigningAt (llmqParams : LLMQParams) (pindexStart : Option B)
    (selectionHash : Uint256) : Option (CQuorum B) := do
  let pindexStart ← pindexStart
  let quorums := node.qman.scanQuorums llmqParams.type pindexStart
    llmqParams.signingActiveQuorumCount
  let scores := quorums.map fun quorum =>
    node.hashes.quorumScore llmqParams.type quorum.qc.quorumHash selectionHash
  let sorted := scores.zipIdx.insertionSort fun a b => a.1 < b.1 ∨ a.1 = b.1 ∧ a.2 ≤ b.2
  let front ← sorted.head?
  quorums[front.2]?

def selectQuorumForSigning (llmqParams : LLMQParams) (tip : B) (selectionHash : Uint256)
    (signHeight : Int) : Option (CQuorum B) :=
  let signHeight := if signHeight = -1 then node.nHeight tip else signHeight
  let startBlockHeight := signHeight - SIGN_HEIGHT_OFFSET
  if node.nHeight tip < startBlockHeight ∨ startBlockHeight < 0 then none
  else
    node.selectQuorumForSigningAt llmqParams (node.getAncestor tip startBlockHeight) selectionHash

def verify (c : AttestedCommitment) (msgHash : Uint256) : Except String Unit := do
  let quorum ← need "bad-dsl-missing-quorum" (node.qman.getQuorum c.llmqType c.quorumHash)
  let signHash := node.hashes.buildSignHash c.llmqType quorum.qc.quorumHash
    (node.hashes.getRequestId c.nEpoch c.epochBlockHash) msgHash
  refuseIf (!node.env.verifyInsecure c.quorumSig quorum.qc.quorumPublicKey signHash)
    "bad-dsl-invalid-sig"

def makeServiceCommitmentTx (commitment : AttestedCommitment) : ServiceCommitmentTxCandidate :=
  let unsigned := { commitment with quorumSig := none }
  let tx := setTxPayload
    { nVersion := 3, nType := TRANSACTION_POSE_SERVICE_COMMITMENT } { commitment := unsigned }
  { tx := tx, msgHash := node.hashes.getHash tx, commitment := unsigned }

def carrier (commitment : AttestedCommitment) : CMutableTransaction :=
  setTxPayload (node.makeServiceCommitmentTx commitment).tx { commitment := commitment }

/-! ### The three checks -/

def epochBase (tip : B) (nEpoch : Nat) : Option B :=
  if node.consensus.nDSLEpochInterval ≤ 0 then none
  else
    let baseHeight := nEpoch * node.consensus.nDSLEpochInterval
    if baseHeight < 0 ∨ node.nHeight tip < baseHeight then none
    else node.getAncestor tip baseHeight

def checkRelayedServiceCommitment (c : AttestedCommitment) (pindexEpochBase : B)
    (msgHash : Uint256) : Except String Unit := do
  let boundary := ((c.nEpoch : Int) + 1) * node.consensus.nDSLEpochInterval
  refuseIf (node.consensus.nDSLEpochInterval ≤ 0 ∨ INT_MAX < boundary) "epoch out of range"
  let required := requiredServiceCommitmentVersion node.consensus boundary
  refuseIf (c.nVersion ≠ required)
    ("format v" ++ toString c.nVersion ++ " where the boundary requires v" ++ toString required)
  BlockContext.checkServiceCommitmentBitfields c.toCPoSeServiceCommitment
  refuseIf (c.epochBlockHash ≠ node.index.getBlockHash pindexEpochBase) "names another epoch base"
  let listSize := (node.getListForBlock pindexEpochBase).getAllMNsCount
  refuseIf (c.missed.length ≠ listSize)
    ("a bitfield of " ++ toString c.missed.length ++ " for a list of " ++ toString listSize)
  refuseIf (c.llmqType ≠ getChainLocksLLMQType node.consensus boundary) "not the attesting profile"
  let llmqParams ← need "no attesting quorum can be selected" (node.index.getLLMQ c.llmqType)
  let pindexSelect ← need "no attesting quorum can be selected"
    (node.getAncestor pindexEpochBase (node.nHeight pindexEpochBase - SIGN_HEIGHT_OFFSET))
  let selected ← need "no attesting quorum can be selected"
    (node.selectQuorumForSigningAt llmqParams (some pindexSelect)
      (node.hashes.serviceCommitmentQuorumSelectionHash c.nEpoch))
  refuseIf (selected.qc.quorumHash ≠ c.quorumHash) "not the quorum the epoch selects"
  node.verify c msgHash

def checkPoSeServiceCommitmentTx (tx : CMutableTransaction) (pindexPrev : B) :
    Except String Unit := do
  let interval := node.consensus.nDSLEpochInterval
  refuseIf (tx.nVersion < SPECIAL_VERSION ∨ tx.nType ≠ TRANSACTION_POSE_SERVICE_COMMITMENT)
    "bad-dsl-type"
  let payload ← need "bad-dsl-payload" tx.payload
  refuseIf (payload.nVersion = 0 ∨ 1 < payload.nVersion) "bad-dsl-version"
  let c := payload.commitment
  let height := node.nHeight pindexPrev + 1
  refuseIf (c.nVersion ≠ requiredServiceCommitmentVersion node.consensus height)
    "bad-dsl-commitment-version"
  BlockContext.checkServiceCommitmentBitfields c.toCPoSeServiceCommitment
  refuseIf (interval ≤ 0 ∨ height < node.consensus.nDSLActivationHeight ∨
    height - interval < node.consensus.nDSLActivationHeight) "bad-dsl-commitment-early"
  refuseIf (height % interval ≠ 0) "bad-dsl-not-epoch-boundary"
  refuseIf (c.nEpoch ≠ height / interval - 1) "bad-dsl-epoch"
  let pindexEpochBase ← need "bad-dsl-epoch-hash" (node.getAncestor pindexPrev (height - interval))
  refuseIf (c.epochBlockHash ≠ node.index.getBlockHash pindexEpochBase) "bad-dsl-epoch-hash"
  refuseIf (c.llmqType ≠ getChainLocksLLMQType node.consensus height) "bad-dsl-quorum-type"
  let llmqParams ← need "bad-dsl-quorum-type" (node.index.getLLMQ c.llmqType)
  let pindexSelect := node.getAncestor pindexEpochBase
    (node.nHeight pindexEpochBase - SIGN_HEIGHT_OFFSET)
  let selected ← need "bad-dsl-no-quorum" (node.selectQuorumForSigningAt llmqParams pindexSelect
    (node.hashes.serviceCommitmentQuorumSelectionHash c.nEpoch))
  refuseIf (selected.qc.quorumHash ≠ c.quorumHash) "bad-dsl-quorum-hash"
  -- the message that was signed is the transaction without the signature
  let msgHash := node.hashes.getHash
    (setTxPayload tx { payload with commitment := { c with quorumSig := none } })
  node.verify c msgHash

def specialTx (tx : CMutableTransaction) : SpecialTx where
  hash := node.hashes.getHash tx
  vin := tx.vin
  vout := tx.vout
  payload := .serviceCommitment (tx.payload.map fun payload =>
    ⟨payload.nVersion, payload.commitment.toCPoSeServiceCommitment⟩)

/-! ### The signing step -/

structure Tally where
  counted : List Uint256 := []
  missedCount : Int := 0
  onlineCount : Int := 0

def tallyReport (epochBlockHash : Uint256) (epochBaseList : CDeterministicMNList)
    (assigned : List Uint256) (tally : Tally) (r : CPoSeServiceReport) : Tally :=
  if r.sentinelProTxHash ∉ assigned then tally
  else if r.sentinelProTxHash ∈ tally.counted then tally
  else
    let tally := { tally with counted := r.sentinelProTxHash :: tally.counted }
    match epochBaseList.getMN r.sentinelProTxHash with
    | none => tally
    | some sdmn =>
      if !node.env.verifyInsecure r.sig sdmn.pdmnState.pubKeyOperator.get
          (node.hashes.getSignHash r epochBlockHash) then tally
      else if r.status = MISSED then { tally with missedCount := tally.missedCount + 1 }
      else if r.status = ONLINE then { tally with onlineCount := tally.onlineCount + 1 }
      else tally

def targetBits (nEpoch : Nat) (epochBlockHash : Uint256) (reports : List CPoSeServiceReport)
    (epochBaseList : CDeterministicMNList) (target : Uint256) : Bool × Bool :=
  let assigned := epochBaseList.calcSentinelsForMN node.env.sha256 target
    (node.hashes.sentinelModifier target epochBlockHash) node.consensus.nDSLSentinelCount
  let byTarget := reports.filter fun r => r.nEpoch = nEpoch ∧ r.targetProTxHash = target
  let tally := byTarget.foldl (node.tallyReport epochBlockHash epochBaseList assigned) {}
  let verdictMissed : Bool := node.consensus.nDSLSentinelAgree ≤ tally.missedCount
  let verdictOnline : Bool :=
    !verdictMissed && decide (node.consensus.nDSLSentinelAgree ≤ tally.onlineCount)
  (verdictMissed, verdictMissed || verdictOnline)

def buildServiceCommitment (nEpoch : Nat) (epochBlockHash : Uint256) (llmqType : LLMQType)
    (quorumHash : Uint256) (reports : List CPoSeServiceReport)
    (epochBaseList : CDeterministicMNList) : AttestedCommitment :=
  let boundaryHeight :=
    if 0 < node.consensus.nDSLEpochInterval then
      min (((nEpoch : Int) + 1) * node.consensus.nDSLEpochInterval) INT_MAX
    else INT_MAX
  let nVersion := requiredServiceCommitmentVersion node.consensus boundaryHeight
  let bits := epochBaseList.canonicalOrder.map
    (node.targetBits nEpoch epochBlockHash reports epochBaseList)
  { nVersion := nVersion
    nEpoch := nEpoch
    epochBlockHash := epochBlockHash
    missed := bits.map Prod.fst
    observed :=
      if CPoSeServiceCommitment.OBSERVED_VERSION ≤ nVersion then bits.map Prod.snd else []
    llmqType := llmqType
    quorumHash := quorumHash
    quorumSig := none }

def buildServiceCommitmentTx (nEpoch : Nat) (epochBlockHash : Uint256) (llmqType : LLMQType)
    (quorumHash : Uint256) (reports : List CPoSeServiceReport)
    (epochBaseList : CDeterministicMNList) : ServiceCommitmentTxCandidate :=
  node.makeServiceCommitmentTx
    (node.buildServiceCommitment nEpoch epochBlockHash llmqType quorumHash reports epochBaseList)

/-- What a masternode brings to the signing step of `ProcessDSLTick`. -/
structure SigningMember where
  myProTxHash : Uint256
  m_dsl_warmup_epoch : Int
  m_dsl_last_signed_epoch : Int
  wait_for_reports : Bool
  getReportsForEpoch : Nat → List CPoSeServiceReport

def isValidMember (quorum : CQuorum B) (proTxHash : Uint256) : Bool :=
  match quorum.members.findIdx? (· = proTxHash) with
  | none => false
  | some i => quorum.qc.validMembers.getD i false

/-- The candidate for which the tick of `pindexNew` asks the quorum to sign, while `tip` is the tip
of the active chain. -/
def processDSLTick [DecidableEq B] (member : SigningMember) (tip pindexNew : B) :
    Option ServiceCommitmentTxCandidate := do
  let height := node.index.tree.height pindexNew
  let interval := node.consensus.nDSLEpochInterval.toNat
  let epoch := height / interval
  let pos := height % interval
  guard (node.consensus.nDSLActivationHeight ≤ height)
  let pindexBase ← node.getAncestor pindexNew (epoch * interval : Nat)
  guard (node.getAncestor tip (node.nHeight pindexBase) = some pindexBase)
  guard (interval - interval / 8 ≤ pos ∧ (epoch : Int) ≠ member.m_dsl_warmup_epoch ∧
    member.m_dsl_last_signed_epoch ≠ epoch)
  let boundaryHeight := castInt ((epoch + 1) * interval)
  let llmqType := getChainLocksLLMQType node.consensus boundaryHeight
  let llmqParams ← node.index.getLLMQ llmqType
  let quorum ← node.selectQuorumForSigning llmqParams tip
    (node.hashes.serviceCommitmentQuorumSelectionHash epoch) (node.nHeight pindexBase)
  guard (isValidMember quorum member.myProTxHash)
  let candidate := node.buildServiceCommitmentTx epoch (node.index.getBlockHash pindexBase) llmqType
    quorum.qc.quorumHash (member.getReportsForEpoch epoch) (node.getListForBlock pindexBase)
  -- an incomplete candidate waits for the last block of the epoch
  guard ¬ (member.wait_for_reports ∧ 0 < candidate.commitment.countUnobserved ∧ pos < interval - 1)
  return candidate

/-- `sig` is the threshold signature that `AsyncSignIfMember` was asked for. -/
def QuorumSigned (candidate : ServiceCommitmentTxCandidate) (sig : CBLSSignature) : Prop :=
  ∃ quorum,
    node.qman.getQuorum candidate.commitment.llmqType candidate.commitment.quorumHash =
      some quorum ∧
    node.env.verifyInsecure sig quorum.qc.quorumPublicKey
      (node.hashes.buildSignHash candidate.commitment.llmqType quorum.qc.quorumHash
        (node.hashes.getRequestId candidate.commitment.nEpoch candidate.commitment.epochBlockHash)
        candidate.msgHash) = true

end ServiceNode

/-! ### What the block carries -/

namespace AttestedCommitment

variable (c : AttestedCommitment)

@[simp]
theorem nVersion_serialized : c.serialized.nVersion = c.nVersion := by
  unfold serialized
  split <;> rfl

@[simp]
theorem nEpoch_serialized : c.serialized.nEpoch = c.nEpoch := by
  unfold serialized
  split <;> rfl

@[simp]
theorem epochBlockHash_serialized : c.serialized.epochBlockHash = c.epochBlockHash := by
  unfold serialized
  split <;> rfl

@[simp]
theorem missed_serialized : c.serialized.missed = c.missed := by
  unfold serialized
  split <;> rfl

@[simp]
theorem llmqType_serialized : c.serialized.llmqType = c.llmqType := by
  unfold serialized
  split <;> rfl

@[simp]
theorem quorumHash_serialized : c.serialized.quorumHash = c.quorumHash := by
  unfold serialized
  split <;> rfl

@[simp]
theorem quorumSig_serialized : c.serialized.quorumSig = c.quorumSig := by
  unfold serialized
  split <;> rfl

variable {c}

theorem serialized_of_observed (hversion : CPoSeServiceCommitment.OBSERVED_VERSION ≤ c.nVersion) :
    c.serialized = c :=
  if_pos hversion

theorem serialized_of_legacy (hversion : ¬ CPoSeServiceCommitment.OBSERVED_VERSION ≤ c.nVersion) :
    c.serialized = { c with observed := [] } :=
  if_neg hversion

theorem serialized_unsigned :
    ({ c.serialized with quorumSig := none } : AttestedCommitment).serialized =
      ({ c with quorumSig := none } : AttestedCommitment).serialized := by
  by_cases hversion : CPoSeServiceCommitment.OBSERVED_VERSION ≤ c.nVersion
  · rw [serialized_of_observed hversion]
  · rw [serialized_of_legacy hversion]
    unfold serialized
    rw [if_neg hversion, if_neg hversion]

theorem checkBitfields_serialized :
    BlockContext.checkServiceCommitmentBitfields c.serialized.toCPoSeServiceCommitment =
      BlockContext.checkServiceCommitmentBitfields c.toCPoSeServiceCommitment := by
  by_cases hversion : CPoSeServiceCommitment.OBSERVED_VERSION ≤ c.nVersion
  · rw [serialized_of_observed hversion]
  · rw [serialized_of_legacy hversion]
    unfold BlockContext.checkServiceCommitmentBitfields
    rw [if_neg hversion, if_neg hversion]

end AttestedCommitment

namespace ServiceNode

variable {B : Type} (node : ServiceNode B) {c : AttestedCommitment}

theorem verify_serialized (msgHash : Uint256) :
    node.verify c.serialized msgHash = node.verify c msgHash := by
  unfold verify
  rw [c.llmqType_serialized, c.quorumHash_serialized, c.nEpoch_serialized,
    c.epochBlockHash_serialized, c.quorumSig_serialized]

theorem unsigned_carrier :
    setTxPayload (node.carrier c)
        { commitment := { c.serialized with quorumSig := none } } =
      (node.makeServiceCommitmentTx c).tx := by
  unfold carrier makeServiceCommitmentTx setTxPayload
  simp only [AttestedCommitment.serialized_unsigned]

/-! ### What each check accepts -/

/-- What both checks of a commitment ask, for the base block of its epoch and the height of the
boundary. -/
structure Attests (c : AttestedCommitment) (pindexEpochBase : B) (height : Int) : Prop where
  nVersion : c.nVersion = requiredServiceCommitmentVersion node.consensus height
  bitfields : BlockContext.checkServiceCommitmentBitfields c.toCPoSeServiceCommitment = .ok ()
  epochBlockHash : c.epochBlockHash = node.index.getBlockHash pindexEpochBase
  llmqType : c.llmqType = getChainLocksLLMQType node.consensus height
  selected : ∃ llmqParams selected, node.index.getLLMQ c.llmqType = some llmqParams ∧
    node.selectQuorumForSigningAt llmqParams
      (node.getAncestor pindexEpochBase (node.nHeight pindexEpochBase - SIGN_HEIGHT_OFFSET))
      (node.hashes.serviceCommitmentQuorumSelectionHash c.nEpoch) = some selected ∧
    selected.qc.quorumHash = c.quorumHash
  verify : node.verify c (node.makeServiceCommitmentTx c).msgHash = .ok ()

variable {node} {pindexPrev pindexEpochBase : B}

theorem checkRelayedServiceCommitment_eq_ok :
    node.checkRelayedServiceCommitment c pindexEpochBase (node.makeServiceCommitmentTx c).msgHash =
        .ok () ↔
      0 < node.consensus.nDSLEpochInterval ∧
        ((c.nEpoch : Int) + 1) * node.consensus.nDSLEpochInterval ≤ INT_MAX ∧
        node.Attests c pindexEpochBase (((c.nEpoch : Int) + 1) * node.consensus.nDSLEpochInterval) ∧
        c.missed.length = (node.getListForBlock pindexEpochBase).getAllMNsCount := by
  simp only [checkRelayedServiceCommitment, bind_eq_ok, refuseIf_eq_ok, need_eq_ok,
    not_or, not_le, not_lt, not_not, exists_const]
  constructor
  · rintro ⟨⟨hinterval, hmax⟩, hversion, _, hbits, hhash, hsize, htype, params, hparams, select,
      hselect, selected, hselected, hquorum, hverify⟩
    exact ⟨hinterval, hmax, ⟨hversion, hbits, hhash, htype,
      ⟨params, selected, hparams, by rw [hselect]; exact hselected, hquorum⟩, hverify⟩, hsize⟩
  · rintro ⟨hinterval, hmax, ⟨hversion, hbits, hhash, htype,
      ⟨params, selected, hparams, hselected, hquorum⟩, hverify⟩, hsize⟩
    obtain ⟨select, hselect⟩ : ∃ select, node.getAncestor pindexEpochBase
        (node.nHeight pindexEpochBase - SIGN_HEIGHT_OFFSET) = some select := by
      cases hselect : node.getAncestor pindexEpochBase
          (node.nHeight pindexEpochBase - SIGN_HEIGHT_OFFSET) with
      | some select => exact ⟨select, rfl⟩
      | none =>
        rw [hselect] at hselected
        cases hselected
    rw [hselect] at hselected
    exact ⟨⟨hinterval, hmax⟩, hversion, (), hbits, hhash, hsize, htype, params, hparams, select,
      hselect, selected, hselected, hquorum, hverify⟩

theorem checkPoSeServiceCommitmentTx_carrier_eq_ok :
    node.checkPoSeServiceCommitmentTx (node.carrier c) pindexPrev = .ok () ↔
      0 < node.consensus.nDSLEpochInterval ∧
        node.consensus.nDSLActivationHeight ≤ node.nHeight pindexPrev + 1 ∧
        node.consensus.nDSLActivationHeight ≤
          node.nHeight pindexPrev + 1 - node.consensus.nDSLEpochInterval ∧
        (node.nHeight pindexPrev + 1) % node.consensus.nDSLEpochInterval = 0 ∧
        (c.nEpoch : Int) = (node.nHeight pindexPrev + 1) / node.consensus.nDSLEpochInterval - 1 ∧
        ∃ pindexEpochBase,
          node.getAncestor pindexPrev
            (node.nHeight pindexPrev + 1 - node.consensus.nDSLEpochInterval) =
              some pindexEpochBase ∧
          node.Attests c pindexEpochBase (node.nHeight pindexPrev + 1) := by
  have hpayload : (node.carrier c).payload = some { commitment := c.serialized } := rfl
  have htype : ¬ (node.carrier c).nVersion < SPECIAL_VERSION ∧
      (node.carrier c).nType = TRANSACTION_POSE_SERVICE_COMMITMENT := ⟨(by decide : ¬ (3 : Int) < SPECIAL_VERSION), rfl⟩
  have hpayloadVersion : (1 : UInt16) ≠ 0 ∧ ¬ (1 : UInt16) < 1 := by decide
  simp only [checkPoSeServiceCommitmentTx, bind_eq_ok, refuseIf_eq_ok, need_eq_ok,
    hpayload, some.injEq, exists_eq_left', unsigned_carrier, verify_serialized]
  simp only [c.checkBitfields_serialized, AttestedCommitment.nVersion_serialized,
    AttestedCommitment.nEpoch_serialized, AttestedCommitment.epochBlockHash_serialized,
    AttestedCommitment.llmqType_serialized, AttestedCommitment.quorumHash_serialized,
    not_or, not_lt, not_le, not_not, exists_const]
  constructor
  · rintro ⟨-, -, hversion, _, hbits, ⟨hinterval, hactive, hearly⟩, hmod, hepoch, base, hbase, hhash,
      htype, params, hparams, selected, hselected, hquorum, hverify⟩
    exact ⟨hinterval, hactive, hearly, hmod, hepoch, base, hbase, hversion, hbits, hhash, htype,
      ⟨params, selected, hparams, hselected, hquorum⟩, hverify⟩
  · rintro ⟨hinterval, hactive, hearly, hmod, hepoch, base, hbase, hversion, hbits, hhash, htype',
      ⟨params, selected, hparams, hselected, hquorum⟩, hverify⟩
    exact ⟨⟨not_lt.mp htype.1, htype.2⟩, hpayloadVersion, hversion,
      (), hbits, ⟨hinterval, hactive, hearly⟩, hmod, hepoch, base, hbase, hhash, htype', params,
      hparams, selected, hselected, hquorum, hverify⟩

theorem exists_updateDmn_of_sameProperties {l : CDeterministicMNList} {dmn : Evo.CDeterministicMN}
    {state : Evo.CDeterministicMNState} (hsame : dmn.pdmnState.SameProperties state) :
    ∃ l', l.updateDmn dmn state = .ok l' := by
  have hself (m : Evo.MnUniquePropertyMap) (h : Uint256) (v : Evo.UniqueProperty) :
      m.updateUniqueProperty h v v = some m := if_pos rfl
  simp only [CDeterministicMNList.updateDmn, hsame.addr, hsame.keyIDOwner, hsame.pubKeyOperator,
    hself, need]
  exact ⟨_, rfl⟩

theorem exists_applyServiceCommitment (l epochBaseList : CDeterministicMNList)
    (params : Evo.ConsensusParams) (c : CPoSeServiceCommitment) (nHeight : Int) :
    ∃ l', l.applyServiceCommitment params c epochBaseList nHeight = .ok l' := by
  have hensures : Ensures (fun _ => True) (fun _ => False)
      (l.applyServiceCommitment params c epochBaseList nHeight) := by
    unfold CDeterministicMNList.applyServiceCommitment
    dsimp only
    split
    · trivial
    split
    · trivial
    refine Ensures.foldlM trivial fun {l entry} _ _ => ?_
    cases hget : l.getMN entry.1 with
    | none => trivial
    | some dmn =>
      obtain ⟨l', hok⟩ := @exists_updateDmn_of_sameProperties l dmn _
        Evo.CDeterministicMNState.sameProperties_verdict
      simp only [CDeterministicMNList.updateMN, hget, need]
      exact (congrArg (Ensures _ _) hok).mpr trivial
  cases happly : l.applyServiceCommitment params c epochBaseList nHeight with
  | ok l' => exact ⟨l', rfl⟩
  | error e =>
    rw [happly] at hensures
    exact hensures.elim

theorem applySpecialTx_carrier (newList : CDeterministicMNList) :
    (∃ acc, (node.blockContext pindexPrev).applySpecialTx (newList, 0)
        (node.specialTx (node.carrier c)) = .ok acc) ↔
      ∃ pindexEpochBase,
        node.getAncestor pindexPrev
          (node.nHeight pindexPrev + 1 - node.consensus.nDSLEpochInterval) =
            some pindexEpochBase ∧
        c.epochBlockHash = node.index.getBlockHash pindexEpochBase ∧
        c.missed.length = (node.getListForBlock pindexEpochBase).getAllMNsCount ∧
        (CPoSeServiceCommitment.OBSERVED_VERSION ≤ c.nVersion →
          c.observed.length = (node.getListForBlock pindexEpochBase).getAllMNsCount) := by
  have hobserved : ∀ n, ¬ (CPoSeServiceCommitment.OBSERVED_VERSION ≤ c.nVersion ∧
      c.serialized.observed.length ≠ n) ↔
      (CPoSeServiceCommitment.OBSERVED_VERSION ≤ c.nVersion → c.observed.length = n) := by
    intro n
    by_cases hversion : CPoSeServiceCommitment.OBSERVED_VERSION ≤ c.nVersion
    · simp [AttestedCommitment.serialized_of_observed hversion, hversion]
    · simp [hversion]
  have hlist (base : B) : (node.blockContext pindexPrev).getListForBlock
      (node.index.getBlockHash base) = node.getListForBlock base := by
    simp only [blockContext, node.index.lookupBlockIndex_iff.mpr rfl]
  have hancestor (height : Int) : (node.blockContext pindexPrev).getAncestor height =
      (node.getAncestor pindexPrev height).map node.index.getBlockHash := rfl
  have hheight : (node.blockContext pindexPrev).nHeight = node.nHeight pindexPrev + 1 := rfl
  have hinterval : (node.blockContext pindexPrev).params.nDSLEpochInterval =
      node.consensus.nDSLEpochInterval := rfl
  have hpayload : (node.specialTx (node.carrier c)).payload =
      .serviceCommitment (some ⟨1, c.serialized.toCPoSeServiceCommitment⟩) := rfl
  simp only [BlockContext.applySpecialTx, hpayload, BlockContext.applyServiceCommitmentTx,
    bind_eq_ok, refuseIf_eq_ok, need_eq_ok, pure_eq_ok, some.injEq,
    exists_eq_left', hancestor, hheight, hinterval, not_not, c.missed_serialized,
    c.epochBlockHash_serialized, c.nVersion_serialized, hobserved, exists_const,
    map_eq_some_iff]
  constructor
  · rintro ⟨acc, -, l', ⟨⟨base, hbase, hhash⟩, hmissed, hobs, -⟩, -⟩
    rw [← hhash, hlist] at hmissed hobs
    exact ⟨base, hbase, hhash.symm, hmissed, hobs⟩
  · rintro ⟨base, hbase, hhash, hmissed, hobs⟩
    obtain ⟨l', hl'⟩ := exists_applyServiceCommitment newList
      ((node.blockContext pindexPrev).getListForBlock c.epochBlockHash)
      (node.blockContext pindexPrev).params c.serialized.toCPoSeServiceCommitment
      (node.nHeight pindexPrev + 1)
    refine ⟨(l', 1), by decide, l', ⟨⟨base, hbase, hhash.symm⟩, ?_, ?_, hl'⟩, rfl⟩
    · rwa [hhash, hlist]
    · rwa [hhash, hlist]

/-! ### Relay check and block rule -/

variable {tip : B}

theorem length_observed_of_bitfields {c : CPoSeServiceCommitment}
    (hbits : BlockContext.checkServiceCommitmentBitfields c = .ok ())
    (hversion : CPoSeServiceCommitment.OBSERVED_VERSION ≤ c.nVersion) :
    c.observed.length = c.missed.length := by
  unfold BlockContext.checkServiceCommitmentBitfields at hbits
  rw [if_pos hversion] at hbits
  simp only [bind_eq_ok, refuseIf_eq_ok, not_not, exists_const] at hbits
  exact hbits.1

section

variable (hanc : node.index.tree.Ancestor tip pindexPrev)

include hanc

theorem getAncestor_of_ancestor {height : Int} (hle : height ≤ node.nHeight tip) :
    node.getAncestor pindexPrev height = node.getAncestor tip height := by
  unfold getAncestor
  split
  · rfl
  · refine hanc.ancestorAt_eq ?_
    unfold nHeight at hle
    omega

theorem getAncestor_self_height : node.getAncestor pindexPrev (node.nHeight tip) = some tip := by
  exact hanc

theorem getAncestor_of_epochBase {nEpoch : Nat}
    (hbase : node.epochBase tip nEpoch = some pindexEpochBase) :
    0 < node.consensus.nDSLEpochInterval ∧
      node.getAncestor pindexPrev (nEpoch * node.consensus.nDSLEpochInterval) =
        some pindexEpochBase := by
  unfold epochBase at hbase
  split at hbase
  · cases hbase
  next hinterval =>
    dsimp only at hbase
    split at hbase
    · cases hbase
    next hrange =>
      rw [getAncestor_of_ancestor hanc (by omega)]
      exact ⟨by omega, hbase⟩

theorem relayed_iff_mined (hbase : node.epochBase tip c.nEpoch = some pindexEpochBase)
    (hboundary : node.nHeight pindexPrev + 1 =
      ((c.nEpoch : Int) + 1) * node.consensus.nDSLEpochInterval)
    (hactive : node.consensus.nDSLActivationHeight ≤
      ((c.nEpoch : Int) + 1) * node.consensus.nDSLEpochInterval -
        node.consensus.nDSLEpochInterval) (newList : CDeterministicMNList) :
    node.checkRelayedServiceCommitment c pindexEpochBase (node.makeServiceCommitmentTx c).msgHash =
        .ok () ↔
      node.checkPoSeServiceCommitmentTx (node.carrier c) pindexPrev = .ok () ∧
        ∃ acc, (node.blockContext pindexPrev).applySpecialTx (newList, 0)
          (node.specialTx (node.carrier c)) = .ok acc := by
  obtain ⟨hinterval, hanchor⟩ := getAncestor_of_epochBase hanc hbase
  have hstart : node.nHeight pindexPrev + 1 - node.consensus.nDSLEpochInterval =
      c.nEpoch * node.consensus.nDSLEpochInterval := by
    rw [hboundary]
    ring
  have hmax : node.nHeight pindexPrev + 1 ≤ INT_MAX := node.height_lt pindexPrev
  have hmod : (node.nHeight pindexPrev + 1) % node.consensus.nDSLEpochInterval = 0 := by
    rw [hboundary]
    exact Int.mul_emod_left _ _
  have hepoch : (c.nEpoch : Int) =
      (node.nHeight pindexPrev + 1) / node.consensus.nDSLEpochInterval - 1 := by
    rw [hboundary, Int.mul_ediv_cancel _ hinterval.ne']
    omega
  rw [checkRelayedServiceCommitment_eq_ok, checkPoSeServiceCommitmentTx_carrier_eq_ok,
    applySpecialTx_carrier, hstart, hanchor, ← hboundary]
  constructor
  · rintro ⟨-, -, hattests, hsize⟩
    refine ⟨⟨hinterval, by omega, by omega, hmod, hepoch, _, rfl, hattests⟩, _, rfl,
      hattests.epochBlockHash, hsize, fun hversion => ?_⟩
    exact (length_observed_of_bitfields hattests.bitfields hversion).trans hsize
  · rintro ⟨⟨-, -, -, -, -, base, heq, hattests⟩, base', heq', -, hsize, -⟩
    cases heq
    cases heq'
    exact ⟨hinterval, hmax, hattests, hsize⟩

end

/-! ### What the signing step builds -/

section Build

variable {nEpoch : Nat} {epochBlockHash : Uint256} {reports : List CPoSeServiceReport}
  {epochBaseList : CDeterministicMNList} (llmqType : LLMQType) (quorumHash : Uint256)

theorem targetBits_imp {target : Uint256}
    (hmissed : (node.targetBits nEpoch epochBlockHash reports epochBaseList target).1 = true) :
    (node.targetBits nEpoch epochBlockHash reports epochBaseList target).2 = true := by
  exact Bool.or_eq_true_iff.mpr (.inl hmissed)

theorem length_missed_build :
    (node.buildServiceCommitment nEpoch epochBlockHash llmqType quorumHash reports
      epochBaseList).missed.length = epochBaseList.getAllMNsCount := by
  simp [buildServiceCommitment, CDeterministicMNList.length_canonicalOrder]

theorem checkBitfields_build :
    BlockContext.checkServiceCommitmentBitfields
      (node.buildServiceCommitment nEpoch epochBlockHash llmqType quorumHash reports
        epochBaseList).toCPoSeServiceCommitment = .ok () := by
  unfold BlockContext.checkServiceCommitmentBitfields
  split
  next hversion =>
    have hobserved : (node.buildServiceCommitment nEpoch epochBlockHash llmqType quorumHash
        reports epochBaseList).observed =
          (epochBaseList.canonicalOrder.map (node.targetBits nEpoch epochBlockHash reports
            epochBaseList)).map Prod.snd := if_pos hversion
    have hmissed : (node.buildServiceCommitment nEpoch epochBlockHash llmqType quorumHash
        reports epochBaseList).missed =
          (epochBaseList.canonicalOrder.map (node.targetBits nEpoch epochBlockHash reports
            epochBaseList)).map Prod.fst := rfl
    rw [hobserved, hmissed]
    simp only [bind_eq_ok, refuseIf_eq_ok, not_not, exists_const, List.length_map,
      true_and, List.map_map, List.zip_map', List.any_map, List.any_eq_true, not_exists, not_and,
      Function.comp_apply, Bool.and_eq_true, Bool.not_eq_true']
    intro target _ hbit
    rw [targetBits_imp hbit]
    decide
  · rfl

end Build

theorem castInt_of_le {n : Nat} (hle : (n : Int) ≤ INT_MAX) : castInt n = n := by
  unfold INT_MAX at hle
  exact Int.bmod_eq_of_le (by omega) (by omega)

theorem selectQuorumForSigning_eq (hanc : node.index.tree.Ancestor pindexEpochBase tip)
    {llmqParams : LLMQParams} {selectionHash : Uint256} {quorum : CQuorum B}
    (hselect : node.selectQuorumForSigning llmqParams tip selectionHash
      (node.nHeight pindexEpochBase) = some quorum) :
    node.selectQuorumForSigningAt llmqParams
      (node.getAncestor pindexEpochBase (node.nHeight pindexEpochBase - SIGN_HEIGHT_OFFSET))
      selectionHash = some quorum := by
  have hnonneg : 0 ≤ node.nHeight pindexEpochBase := Int.natCast_nonneg _
  have hoffset : 0 ≤ SIGN_HEIGHT_OFFSET := by decide
  have hnot : node.nHeight pindexEpochBase ≠ -1 := by omega
  simp only [selectQuorumForSigning, if_neg hnot] at hselect
  split at hselect
  · cases hselect
  · rwa [getAncestor_of_ancestor hanc (by omega)] at hselect

variable [DecidableEq B] {member : SigningMember} {pindexNew : B}
  {candidate : ServiceCommitmentTxCandidate}

theorem processDSLTick_eq_some (htick : node.processDSLTick member tip pindexNew = some candidate) :
    ∃ (nEpoch : Nat) (pindexBase : B) (llmqParams : LLMQParams) (quorum : CQuorum B),
      node.nHeight pindexBase = nEpoch * node.consensus.nDSLEpochInterval.toNat ∧
      node.index.tree.Ancestor pindexBase tip ∧
      node.index.getLLMQ (getChainLocksLLMQType node.consensus
        (castInt ((nEpoch + 1) * node.consensus.nDSLEpochInterval.toNat))) = some llmqParams ∧
      node.selectQuorumForSigning llmqParams tip
        (node.hashes.serviceCommitmentQuorumSelectionHash nEpoch) (node.nHeight pindexBase) =
          some quorum ∧
      candidate = node.buildServiceCommitmentTx nEpoch (node.index.getBlockHash pindexBase)
        (getChainLocksLLMQType node.consensus
          (castInt ((nEpoch + 1) * node.consensus.nDSLEpochInterval.toNat)))
        quorum.qc.quorumHash (member.getReportsForEpoch nEpoch)
        (node.getListForBlock pindexBase) := by
  simp only [processDSLTick, bind_eq_bind, bind_eq_some_iff, guard_eq_some',
    exists_const, pure_def, some.injEq] at htick
  obtain ⟨-, base, hbase, hactive, -, params, hparams, quorum, hquorum, -, -, rfl⟩ := htick
  refine ⟨_, base, params, quorum, ?_, ?_, hparams, hquorum, rfl⟩
  · rw [getAncestor, if_neg (by omega)] at hbase
    have hheight := BlockTree.height_of_ancestorAt hbase
    rw [nHeight, hheight, Int.toNat_natCast, Nat.cast_mul]
  · rw [getAncestor, if_neg (by unfold nHeight; omega)] at hactive
    exact BlockTree.ancestor_of_ancestorAt hactive

theorem relayed_of_signed {tipSigned : B} (hsigned : node.index.tree.Ancestor tipSigned pindexPrev)
    (htick : node.processDSLTick member tipSigned pindexNew = some candidate)
    (hanc : node.index.tree.Ancestor tip pindexPrev)
    (hbase : node.epochBase tip candidate.commitment.nEpoch = some pindexEpochBase)
    (hboundary : node.nHeight pindexPrev + 1 =
      ((candidate.commitment.nEpoch : Int) + 1) * node.consensus.nDSLEpochInterval)
    {sig : CBLSSignature} (hsig : node.QuorumSigned candidate sig) :
    node.checkRelayedServiceCommitment { candidate.commitment with quorumSig := sig }
      pindexEpochBase
      (node.makeServiceCommitmentTx { candidate.commitment with quorumSig := sig }).msgHash =
        .ok () := by
  obtain ⟨nEpoch, base, params, quorum, hheight, hbaseTip, hparams, hquorum, rfl⟩ :=
    processDSLTick_eq_some htick
  obtain ⟨hinterval, hanchor⟩ := getAncestor_of_epochBase hanc hbase
  have hnat : (node.consensus.nDSLEpochInterval.toNat : Int) = node.consensus.nDSLEpochInterval :=
    Int.toNat_of_nonneg hinterval.le
  -- both are the block of the chain at the first height of the epoch
  have hsame : base = pindexEpochBase := by
    have hself := getAncestor_self_height (hbaseTip.trans hsigned)
    rw [hheight, hnat] at hself
    exact some.inj (hself.symm.trans hanchor)
  subst hsame
  have hmax : ((nEpoch : Int) + 1) * node.consensus.nDSLEpochInterval ≤ INT_MAX :=
    hboundary ▸ node.height_lt pindexPrev
  have hcast : castInt ((nEpoch + 1) * node.consensus.nDSLEpochInterval.toNat) =
      ((nEpoch : Int) + 1) * node.consensus.nDSLEpochInterval := by
    have hpush : (((nEpoch + 1) * node.consensus.nDSLEpochInterval.toNat : Nat) : Int) =
        ((nEpoch : Int) + 1) * node.consensus.nDSLEpochInterval := by
      rw [Nat.cast_mul, hnat]
      rfl
    rw [castInt_of_le (hpush ▸ hmax), hpush]
  rw [hcast] at hparams hsig ⊢
  generalize htype : getChainLocksLLMQType node.consensus
    (((nEpoch : Int) + 1) * node.consensus.nDSLEpochInterval) = llmqType at hparams hsig ⊢
  refine checkRelayedServiceCommitment_eq_ok.mpr ⟨hinterval, hmax,
    ⟨?_, checkBitfields_build llmqType quorum.qc.quorumHash, rfl, htype.symm,
    ⟨params, quorum, hparams, selectQuorumForSigning_eq hbaseTip hquorum, rfl⟩, ?_⟩,
    length_missed_build llmqType quorum.qc.quorumHash⟩
  · change requiredServiceCommitmentVersion node.consensus _ = _
    rw [if_pos hinterval, min_eq_left hmax]
    rfl
  · obtain ⟨quorum', hget, hvalid⟩ := hsig
    simp only [verify, bind_eq_ok, need_eq_ok, refuseIf_eq_ok]
    refine ⟨quorum', hget, ?_⟩
    rw [Bool.not_eq_true', Bool.not_eq_false]
    exact hvalid

/-- For a commitment whose epoch base is on the chain, the relay check accepts exactly what the
block at its boundary may carry, and both accept what the quorum signed. -/
theorem relay_check_agrees_with_block_rule (node : ServiceNode B)
    (hanc : node.index.tree.Ancestor tip pindexPrev) (newList : CDeterministicMNList) :
    (∀ c pindexEpochBase, node.epochBase tip c.nEpoch = some pindexEpochBase →
      node.nHeight pindexPrev + 1 = ((c.nEpoch : Int) + 1) * node.consensus.nDSLEpochInterval →
      node.consensus.nDSLActivationHeight ≤
        ((c.nEpoch : Int) + 1) * node.consensus.nDSLEpochInterval -
          node.consensus.nDSLEpochInterval →
      (node.checkRelayedServiceCommitment c pindexEpochBase
          (node.makeServiceCommitmentTx c).msgHash = .ok () ↔
        node.checkPoSeServiceCommitmentTx (node.carrier c) pindexPrev = .ok () ∧
          ∃ acc, (node.blockContext pindexPrev).applySpecialTx (newList, 0)
            (node.specialTx (node.carrier c)) = .ok acc)) ∧
    ∀ member tipSigned pindexNew candidate sig pindexEpochBase,
      node.index.tree.Ancestor tipSigned pindexPrev →
      node.processDSLTick member tipSigned pindexNew = some candidate →
      node.QuorumSigned candidate sig →
      node.epochBase tip candidate.commitment.nEpoch = some pindexEpochBase →
      node.nHeight pindexPrev + 1 =
        ((candidate.commitment.nEpoch : Int) + 1) * node.consensus.nDSLEpochInterval →
      node.consensus.nDSLActivationHeight ≤
        ((candidate.commitment.nEpoch : Int) + 1) * node.consensus.nDSLEpochInterval -
          node.consensus.nDSLEpochInterval →
      let c : AttestedCommitment := { candidate.commitment with quorumSig := sig }
      node.checkRelayedServiceCommitment c pindexEpochBase (node.makeServiceCommitmentTx c).msgHash =
          .ok () ∧
        node.checkPoSeServiceCommitmentTx (node.carrier c) pindexPrev = .ok () ∧
        ∃ acc, (node.blockContext pindexPrev).applySpecialTx (newList, 0)
          (node.specialTx (node.carrier c)) = .ok acc := by
  refine ⟨?_, ?_⟩
  · intro c pindexEpochBase hbase hboundary hactive
    exact relayed_iff_mined hanc hbase hboundary hactive newList
  · intro member tipSigned pindexNew candidate sig pindexEpochBase hsigned htick hsig hbase
      hboundary hactive
    have hrelayed := relayed_of_signed hsigned htick hanc hbase hboundary hsig
    exact ⟨hrelayed, (relayed_iff_mined (c := { candidate.commitment with quorumSig := sig }) hanc
      hbase hboundary hactive newList).mp hrelayed⟩

end ServiceNode

namespace Sample

def index : QuorumContext (Fin 24) where
  tree :=
    { parent := fun b => if b = 0 then none else some (b - 1)
      height := fun b => b.val
      height_root := by decide
      height_parent := by decide }
  getBlockHash b := BitVec.ofNat 256 (b.val + 1)
  lookupBlockIndex h := (List.finRange 24).find? fun b => BitVec.ofNat 256 (b.val + 1) = h
  lookupBlockIndex_iff := by
    intro h b
    constructor
    · intro hfind
      simpa using List.find?_some hfind
    · rintro rfl
      revert b
      decide
  genesis := 0
  genesis_root := rfl
  commitmentTxs _ := []
  genesis_commitmentTxs := rfl
  DIP0003Height := 1
  llmqs := [⟨1, 1, 1, 1, 4, 1, 2, 1, 1, 2, 3, 4⟩]
  isQuorumTypeEnabled _ _ := true
  verify _ _ _ := true
  getAllQuorumMembers _ _ := [1]

def finalCommitment : Llmq.CFinalCommitment :=
  { nVersion := 3, llmqType := 1, quorumHash := 5, quorumIndex := 0, signers := [true],
    validMembers := [true], quorumPublicKey := some 6, quorumVvecHash := 7,
    quorumSig := some 8, membersSig := some 9 }

def quorumState : QuorumState (Fin 24) where
  tip := some 23
  minedCommitments := AList.insert (1, 5) (finalCommitment, 7) ∅
  minedByHeight := AList.insert (1, 6) 4 ∅
  mapHasMinedCommitmentCache _ := .new 2 0 (by decide)
  mapQuorumsCache _ := .new 2 0 (by decide)
  scanQuorumsCache _ := .new 2 0 (by decide)
  quorumBaseBlockIndexCache := .new 128 0 (by decide)

def node : ServiceNode (Fin 24) where
  consensus :=
    { Evo.Sample.params with
      nDSLEpochInterval := 8
      nDSLActivationHeight := 8
      nDSLCommitmentV2Height := 0
      nDSLSentinelCount := 1
      nDSLSentinelAgree := 1
      llmqTypeChainLocks := 1
      llmqTypeChainLocksV2 := LLMQ_NONE
      nChainLocksV2ActivationHeight := 0 }
  index := index
  height_lt := by decide
  qman := .ofState index quorumState
  getListForBlock _ := list
  env := Evo.Sample.env
  hashes :=
    { getHash := fun tx => BitVec.ofNat 256 tx.vin.length
      serviceCommitmentQuorumSelectionHash := fun nEpoch => BitVec.ofNat 256 nEpoch
      getRequestId := fun nEpoch hash => BitVec.ofNat 256 nEpoch + hash
      buildSignHash := fun _ quorumHash id msgHash => quorumHash + id + msgHash
      quorumScore := fun _ quorumHash selectionHash => quorumHash + selectionHash
      sentinelModifier := fun target hash => target + hash
      getSignHash := fun r hash => r.targetProTxHash + hash }
  rest _ := Evo.Sample.ctx 0 {}

def member : ServiceNode.SigningMember where
  myProTxHash := 1
  m_dsl_warmup_epoch := -1
  m_dsl_last_signed_epoch := -1
  wait_for_reports := true
  getReportsForEpoch _ := []

end Sample

open Sample

def Sample.candidate : ServiceCommitmentTxCandidate :=
  node.buildServiceCommitmentTx 2 17 1 5 [] list

theorem relay_check_agrees_with_block_rule_signed :
    node.processDSLTick member 23 23 = some candidate ∧
      node.checkPoSeServiceCommitmentTx
        (node.carrier { candidate.commitment with quorumSig := some 6 }) 23 =
          .ok () := by
  have htick : node.processDSLTick member 23 23 = some candidate := by
    decide +kernel
  have hchain : node.index.tree.Ancestor 23 23 := BlockTree.Ancestor.refl 23
  have hsigned : node.QuorumSigned candidate (some 6) :=
    ⟨⟨⟨1, 1, 1, 1, 4, 1, 2, 1, 1, 2, 3, 4⟩, finalCommitment, 4, 7, [1]⟩, by decide +kernel,
      by decide +kernel⟩
  have haccepted := (ServiceNode.relay_check_agrees_with_block_rule node hchain {}).2
    member 23 23 candidate (some 6) 16 hchain htick hsigned
    (by decide +kernel) (by decide +kernel) (by decide +kernel)
  exact ⟨htick, haccepted.2.1⟩

end Defcon.Dsl
