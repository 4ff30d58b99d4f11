import Defcon.Llmq.Params
import Defcon.UnorderedLruCache

/-!
# `CQuorumBlockProcessor`: the mined commitments of the active chain

The commitments of connected blocks are kept in the database, once by quorum and once by the
height they were mined at; whether one exists for a quorum is also cached. The caches of
`CQuorumManager` are part of the same state. The pool of mineable commitments and the cached
commitment hashes are read by none of the functions here and are left out.
-/

namespace Defcon.Llmq

open AList (Map)

/-- `CQuorum`, without the key shares, which only the node's own contributions fill. -/
structure CQuorum (B : Type) where
  params : LLMQParams
  qc : CFinalCommitment
  quorumBaseBlockIndex : B
  minedBlockHash : Uint256
  members : List Uint256
  deriving DecidableEq

structure QuorumState (B : Type) where
  tip : Option B
  /-- `DB_MINED_COMMITMENT`: the commitment and the hash of the block that mined it. -/
  minedCommitments : Map (LLMQType × Uint256) (CFinalCommitment × Uint256)
  /-- `DB_MINED_COMMITMENT_BY_INVERSED_HEIGHT`: mined height to quorum base height. -/
  minedByHeight : Map (LLMQType × Nat) Nat
  mapHasMinedCommitmentCache : LLMQType → UnorderedLruCache Uint256 Bool
  mapQuorumsCache : LLMQType → UnorderedLruCache Uint256 (CQuorum B)
  scanQuorumsCache : LLMQType → UnorderedLruCache Uint256 (List (CQuorum B))
  quorumBaseBlockIndexCache : UnorderedLruCache Uint256 B

variable {B : Type} (ctx : QuorumContext B) (s : QuorumState B)

def getBlockHash (nBlockHeight : Int) : Option Uint256 :=
  match s.tip with
  | none => none
  | some tip =>
    if nBlockHeight < -1 ∨ (ctx.tree.height tip : Int) < nBlockHeight then none
    else
      let height := if nBlockHeight = -1 then ctx.tree.height tip else nBlockHeight.toNat
      (ctx.tree.ancestorAt tip height).map ctx.getBlockHash

variable (params : LLMQParams) (nHeight : Nat)

def getQuorumBlockHash (quorumIndex : Int) : Uint256 :=
  (getBlockHash ctx s ((nHeight - nHeight % params.dkgInterval : Nat) + quorumIndex)).getD 0

def isMiningPhase : Bool :=
  let quorumCycleStartHeight := nHeight - nHeight % params.dkgInterval
  quorumCycleStartHeight + params.dkgMiningWindowStart ≤ nHeight &&
    nHeight ≤ quorumCycleStartHeight + params.dkgMiningWindowEnd

/-- `HasMinedCommitment`. The map of caches has exactly the configured types as keys. -/
def hasMinedCommitment (llmqType : LLMQType) (quorumHash : Uint256) : Bool × QuorumState B :=
  if ctx.getLLMQ llmqType = none then (false, s)
  else
    match (s.mapHasMinedCommitmentCache llmqType).get quorumHash with
    | (some fExists, cache) =>
      (fExists, { s with
        mapHasMinedCommitmentCache :=
          Function.update s.mapHasMinedCommitmentCache llmqType cache })
    | (none, cache) =>
      let fExists := decide ((llmqType, quorumHash) ∈ s.minedCommitments)
      (fExists, { s with
        mapHasMinedCommitmentCache :=
          Function.update s.mapHasMinedCommitmentCache llmqType
            (cache.insert quorumHash fExists) })

def getNumCommitmentsRequired : Nat × QuorumState B :=
  if isMiningPhase params nHeight then
    let quorumHash := getQuorumBlockHash ctx s params nHeight 0
    if quorumHash = 0 then (0, s)
    else
      let (mined, s) := hasMinedCommitment ctx s params.type quorumHash
      (if mined then 0 else 1, s)
  else (0, s)

def checkCommitmentCounts (nHeight : Nat) (qcs : List CFinalCommitment) :
    QuorumState B → List LLMQParams → Except String Unit × QuorumState B
  | s, [] => (.ok (), s)
  | s, params :: rest =>
    -- the checks are skipped when blocks are replayed after a crash
    if s.tip.isNone then (.ok (), s)
    else
      let (required, s) := getNumCommitmentsRequired ctx s params nHeight
      let inNewBlock := qcs.countP fun qc => qc.llmqType = params.type
      if required < inNewBlock then (.error "bad-qc-not-allowed", s)
      else if inNewBlock < required then (.error "bad-qc-missing", s)
      else checkCommitmentCounts nHeight qcs s rest

/-- The part of `ProcessCommitment` that records an accepted commitment. -/
def recordCommitment (blockHash : Uint256) (qc : CFinalCommitment) (baseHeight : Nat) :
    QuorumState B :=
  { s with
    minedCommitments := s.minedCommitments.insert (qc.llmqType, qc.quorumHash) (qc, blockHash)
    minedByHeight := s.minedByHeight.insert (qc.llmqType, nHeight) baseHeight
    mapHasMinedCommitmentCache :=
      Function.update s.mapHasMinedCommitmentCache qc.llmqType
        ((s.mapHasMinedCommitmentCache qc.llmqType).erase qc.quorumHash) }

def processCommitment (blockHash : Uint256) (qc : CFinalCommitment) (fJustCheck fBLSChecks : Bool) :
    Except String Unit × QuorumState B :=
  match ctx.getLLMQ qc.llmqType with
  | none => (.error "", s)
  | some params =>
    let quorumHash :=
      if s.tip.isNone then qc.quorumHash
      else getQuorumBlockHash ctx s params nHeight qc.quorumIndex
    if quorumHash = 0 then (.error "bad-qc-block", s)
    else if quorumHash ≠ qc.quorumHash then (.error "bad-qc-block", s)
    else if qc.isNull then
      (if ctx.verifyNull qc then .ok () else .error "bad-qc-invalid-null", s)
    else
      let (mined, s) := hasMinedCommitment ctx s params.type quorumHash
      if mined then (.error "bad-qc-dup", s)
      else if !isMiningPhase params nHeight then (.error "bad-qc-height", s)
      else
        match ctx.lookupBlockIndex qc.quorumHash with
        | none => (.error "", s)
        | some pQuorumBaseBlockIndex =>
          if !ctx.verify qc pQuorumBaseBlockIndex fBLSChecks then
            (.error "bad-qc-invalid", s)
          else if fJustCheck then (.ok (), s)
          else
            (.ok (), recordCommitment s nHeight blockHash qc
              (ctx.tree.height pQuorumBaseBlockIndex))

def processCommitments (nHeight : Nat) (blockHash : Uint256) (fJustCheck fBLSChecks : Bool) :
    QuorumState B → List CFinalCommitment → Except String Unit × QuorumState B
  | s, [] => (.ok (), s)
  | s, qc :: rest =>
    match processCommitment ctx s nHeight blockHash qc fJustCheck fBLSChecks with
    | (.error e, s) => (.error e, s)
    | (.ok (), s) => processCommitments nHeight blockHash fJustCheck fBLSChecks s rest

def processBlock (pindex : B) (fJustCheck fBLSChecks : Bool) : Except String Unit × QuorumState B :=
  if ctx.tree.height pindex < ctx.DIP0003Height then (.ok (), s)
  else
    match ctx.getCommitmentsFromBlock pindex with
    | .error e => (.error e, s)
    | .ok qcs =>
      let enabled := ((ctx.tree.parent pindex).map ctx.getEnabledQuorumParams).getD []
      match checkCommitmentCounts ctx (ctx.tree.height pindex) qcs s enabled with
      | (.error e, s) => (.error e, s)
      | (.ok (), s) =>
        processCommitments ctx (ctx.tree.height pindex) (ctx.getBlockHash pindex) fJustCheck
          fBLSChecks s qcs

def undoCommitment (s : QuorumState B) (qc : CFinalCommitment) : QuorumState B :=
  if qc.isNull then s
  else
    { s with
      minedCommitments := s.minedCommitments.erase (qc.llmqType, qc.quorumHash)
      minedByHeight := s.minedByHeight.erase (qc.llmqType, nHeight)
      mapHasMinedCommitmentCache :=
        Function.update s.mapHasMinedCommitmentCache qc.llmqType
          ((s.mapHasMinedCommitmentCache qc.llmqType).erase qc.quorumHash) }

def undoBlock (pindex : B) : Option (QuorumState B) :=
  match ctx.getCommitmentsFromBlock pindex with
  | .error _ => none
  | .ok qcs => some (qcs.foldl (undoCommitment (ctx.tree.height pindex)) s)

end Defcon.Llmq
