import Defcon.Bls.BatchVerifier
import Defcon.InstantSend.NonLocked
import Defcon.Llmq.Params

/-!
# Verification of pending InstantSend locks

`ProcessPendingInstantSendLocks` walks the pending locks twice. The first loop pushes their
signatures into a batch verifier, the second hands every lock that the verifier did not find
bad to `ProcessInstantSendLock`. The answers of the signing manager, the quorum manager and
the block index are parameters.
-/

namespace Defcon.InstantSend

open AList (Map)
open Bls (BlsScheme CBLSBatchVerifier BatchSound Message)
open Llmq (LLMQParams CBLSPublicKey CBLSSignature)

structure SigningQuorum where
  quorumHash : Uint256
  quorumPublicKey : CBLSPublicKey
  deriving DecidableEq

abbrev Lock := CInstantSendLock CBLSSignature

/-- An entry of the map of pending locks: the lock's hash, the node it came from, and the
lock. `sig` is what the lazy signature decodes to. -/
abbrev PendingLock := Sigma fun _ : Uint256 => NodeId × Lock

/-- The answers that `ProcessPendingInstantSendLocks` gets while it runs. -/
structure LockContext where
  llmqParams : LLMQParams
  signOffset : Nat
  bls : BlsScheme (BitVec 384) (BitVec 768)
  getRequestId : Lock → Uint256
  buildSignHash : (quorumHash id msgHash : Uint256) → Uint256
  hasRecoveredSig : (id msgHash : Uint256) → Bool
  hasRecoveredSigForId : Uint256 → Bool
  /-- `LookupBlockIndex`, the height of the entry. -/
  lookupBlockIndex : Uint256 → Option Nat
  chainHeight : Int
  isQuorumActive : Uint256 → Bool
  getQuorum : Uint256 → Option SigningQuorum
  selectQuorumForSigning : (id : Uint256) → (nSignHeight : Int) → (signOffset : Nat) →
    Option SigningQuorum

structure CRecoveredSig where
  quorumHash : Uint256
  id : Uint256
  msgHash : Uint256
  sig : CBLSSignature
  deriving DecidableEq

abbrev LockVerifier := CBLSBatchVerifier NodeId Uint256 (BitVec 384) (BitVec 768)

structure LockLoop where
  batchVerifier : LockVerifier := { secureVerification := false, perMessageFallback := true, subBatchSize := 8 }
  recSigs : Map Uint256 CRecoveredSig := ∅

inductive LoopStop where
  /-- No quorum could be selected: the function returns without handing on any lock. -/
  | noQuorum
  | assertion
  deriving DecidableEq

namespace LockContext

variable (ctx : LockContext)

/-- The quorum that has to have signed the lock. -/
def quorumFor (islock : Lock) (blockHeight : Nat) : Option SigningQuorum :=
  let named :=
    if ctx.isQuorumActive islock.cycleHash then ctx.getQuorum islock.cycleHash else none
  match named with
  | some quorum => some quorum
  | none =>
    let dkgInterval := ctx.llmqParams.dkgInterval
    let nSignHeight : Int :=
      if (blockHeight + dkgInterval : Int) < ctx.chainHeight then
        blockHeight + dkgInterval - 1
      else -1
    ctx.selectQuorumForSigning (ctx.getRequestId islock) nSignHeight ctx.signOffset

def signHash (islock : Lock) (quorum : SigningQuorum) : Uint256 :=
  ctx.buildSignHash quorum.quorumHash (ctx.getRequestId islock) islock.txid

def collectLock (st : LockLoop) (p : PendingLock) : Except LoopStop LockLoop :=
  let hash := p.1
  let nodeId := p.2.1
  let islock := p.2.2
  if nodeId ∈ st.batchVerifier.badSources then .ok st
  else
    match islock.sig with
    | none => .ok { st with batchVerifier := { st.batchVerifier with
        badSources := insert nodeId st.batchVerifier.badSources } }
    | some sig =>
      let id := ctx.getRequestId islock
      if ctx.hasRecoveredSig id islock.txid then .ok st
      else
        match ctx.lookupBlockIndex islock.cycleHash with
        | none => .ok { st with batchVerifier := { st.batchVerifier with
            badSources := insert nodeId st.batchVerifier.badSources } }
        | some blockHeight =>
          match ctx.quorumFor islock blockHeight with
          | none => .error .noQuorum
          | some quorum =>
            match quorum.quorumPublicKey with
            | none => .error .assertion
            | some pubKey =>
              .ok
                { batchVerifier := st.batchVerifier.pushMessage ctx.bls nodeId hash
                    (ctx.signHash islock quorum) sig pubKey
                  recSigs :=
                    if ctx.hasRecoveredSigForId id then st.recSigs
                    else st.recSigs.emplace hash
                      ⟨quorum.quorumHash, id, islock.txid, islock.sig⟩ }

def collectLocks (pend : List PendingLock) : Except LoopStop LockLoop :=
  pend.foldlM ctx.collectLock {}

structure LocksResult where
  handed : List PendingLock := []
  badISLocks : Finset Uint256 := ∅
  misbehaving : Finset NodeId := ∅
  /-- The signatures passed to `PushReconstructedRecoveredSig`. -/
  reconstructed : List CRecoveredSig := []

/-- `ProcessPendingInstantSendLocks` with its pending locks in iteration order; `none` when an
assertion stops the process. -/
def processPendingInstantSendLocks (pend : Map Uint256 (NodeId × Lock)) (ban : Bool) :
    Option LocksResult :=
  match ctx.collectLocks pend.entries with
  | .error .assertion => none
  | .error .noQuorum => some {}
  | .ok st =>
    let verifier := st.batchVerifier.verify ctx.bls
    let handed := pend.entries.filter fun p => p.1 ∉ verifier.badMessages
    some
      { handed := handed
        badISLocks := (pend.entries.filterMap fun p =>
          if p.1 ∈ verifier.badMessages then some p.1 else none).toFinset
        misbehaving := if ban then verifier.badSources else ∅
        reconstructed := (handed.filterMap fun p => st.recSigs.lookup p.1).filter
          fun recSig => !ctx.hasRecoveredSigForId recSig.id }

/-- The lock is signed by the quorum selected for it, or the signing manager already has a
recovered signature for it. -/
def Authentic (islock : Lock) : Prop :=
  (∃ blockHeight quorum sig pubKey, ctx.lookupBlockIndex islock.cycleHash = some blockHeight ∧
      ctx.quorumFor islock blockHeight = some quorum ∧ islock.sig = some sig ∧
      quorum.quorumPublicKey = some pubKey ∧
      ctx.bls.verify pubKey (ctx.signHash islock quorum) sig = true) ∨
    ctx.hasRecoveredSig (ctx.getRequestId islock) islock.txid = true

end LockContext

end Defcon.InstantSend
