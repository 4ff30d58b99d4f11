import Mathlib.Data.List.Sort
import Defcon.Lib.BlockTree
import Defcon.Primitives

/-!
# Quorum parameters and commitments
-/

namespace Defcon.Llmq

open Lib (BlockTree)

/-- `Consensus::LLMQType`. Any byte can stand in a payload; the configured types are those of
the consensus parameters. -/
abbrev LLMQType := UInt8

/-- `Consensus::LLMQParams`, the fields that are read by the modelled code. -/
structure LLMQParams where
  type : LLMQType
  size : Nat
  minSize : Nat
  threshold : Nat
  dkgInterval : Nat
  dkgMiningWindowStart : Nat
  dkgMiningWindowEnd : Nat
  dkgBadVotesThreshold : Nat
  dkgBadVotesThresholdV2 : Nat
  signingActiveQuorumCount : Nat
  keepOldConnections : Nat
  keepOldKeys : Nat
  deriving DecidableEq, Repr

/-- `CBLSPublicKey`; `none` is an object for which `IsValid` is false. -/
abbrev CBLSPublicKey := Option (BitVec 384)

/-- `CBLSSignature`, likewise. -/
abbrev CBLSSignature := Option (BitVec 768)

structure CFinalCommitment where
  nVersion : Nat
  llmqType : LLMQType
  quorumHash : Uint256
  quorumIndex : Int
  signers : List Bool
  validMembers : List Bool
  quorumPublicKey : CBLSPublicKey
  quorumVvecHash : Uint256
  quorumSig : CBLSSignature
  membersSig : CBLSSignature
  deriving DecidableEq, Repr

def CFinalCommitment.isNull (qc : CFinalCommitment) : Bool :=
  !(qc.signers.contains true || qc.validMembers.contains true) &&
    !(qc.quorumPublicKey.isSome || qc.quorumVvecHash != 0 || qc.membersSig.isSome ||
      qc.quorumSig.isSome)

def CFinalCommitment.verifySizes (qc : CFinalCommitment) (params : LLMQParams) : Bool :=
  qc.signers.length == params.size && qc.validMembers.length == params.size

/-- What the quorum code reads and does not change. -/
structure QuorumContext (B : Type) where
  tree : BlockTree B
  getBlockHash : B → Uint256
  lookupBlockIndex : Uint256 → Option B
  lookupBlockIndex_iff : ∀ {h b}, lookupBlockIndex h = some b ↔ getBlockHash b = h
  genesis : B
  genesis_root : tree.parent genesis = none
  /-- One item per transaction of type `TRANSACTION_QUORUM_COMMITMENT`, `none` when
  `GetTxPayload` fails on it. -/
  commitmentTxs : B → List (Option CFinalCommitment)
  genesis_commitmentTxs : commitmentTxs genesis = []
  DIP0003Height : Nat
  llmqs : List LLMQParams
  isQuorumTypeEnabled : LLMQType → B → Bool
  verify : CFinalCommitment → B → Bool → Bool
  getAllQuorumMembers : LLMQType → B → List Uint256

namespace QuorumContext

variable {B : Type} (ctx : QuorumContext B)

def getLLMQ (type : LLMQType) : Option LLMQParams :=
  ctx.llmqs.find? fun params => params.type = type

def getEnabledQuorumParams (pindex : B) : List LLMQParams :=
  ctx.llmqs.filter fun params => ctx.isQuorumTypeEnabled params.type pindex

def verifyNull (qc : CFinalCommitment) : Bool :=
  match ctx.getLLMQ qc.llmqType with
  | none => false
  | some params => qc.isNull && qc.verifySizes params

/-- The loop of `GetCommitmentsFromBlock`. `ret` is a multimap ordered by type. -/
def collectCommitments :
    List CFinalCommitment → List (Option CFinalCommitment) →
      Except String (List CFinalCommitment)
  | ret, [] => .ok ret
  | _, none :: _ => .error "bad-qc-payload"
  | ret, some qc :: rest =>
    if ctx.getLLMQ qc.llmqType = none then .error "bad-qc-commitment-type"
    else if ret.any fun qc' => qc'.llmqType = qc.llmqType then .error "bad-qc-dup"
    else collectCommitments (ret.orderedInsert (fun a b => a.llmqType ≤ b.llmqType) qc) rest

def getCommitmentsFromBlock (pindex : B) : Except String (List CFinalCommitment) :=
  match ctx.collectCommitments [] (ctx.commitmentTxs pindex) with
  | .error e => .error e
  | .ok ret =>
    if ctx.tree.height pindex < ctx.DIP0003Height ∧ ret ≠ [] then .error "bad-qc-premature"
    else .ok ret

end QuorumContext

theorem getBlockHash_injective {B : Type} {ctx : QuorumContext B} :
    Function.Injective ctx.getBlockHash := by
  intro a b hab
  have ha := ctx.lookupBlockIndex_iff.mpr (rfl : ctx.getBlockHash a = _)
  have hb := ctx.lookupBlockIndex_iff.mpr hab.symm
  rw [ha] at hb
  exact Option.some.inj hb

end Defcon.Llmq
