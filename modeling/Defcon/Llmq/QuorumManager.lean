import Defcon.Llmq.BlockProcessor

/-!
# `CQuorumManager`: lookup of mined quorums

`GetQuorum` answers from a cache keyed by type and quorum hash, after it has asked the block
processor whether a commitment is mined. `ScanQuorums` keeps lists of quorums per block and
fills both caches. Where the source asserts or dereferences, `none` stands for the process
being stopped.
-/

namespace Defcon.Llmq

open AList (Map)

variable {B : Type} (ctx : QuorumContext B) (s : QuorumState B) (llmqType : LLMQType)

def buildQuorumFromCommitment (pQuorumBaseBlockIndex : B) : Option (CQuorum B) × QuorumState B :=
  let quorumHash := ctx.getBlockHash pQuorumBaseBlockIndex
  match s.minedCommitments.lookup (llmqType, quorumHash), ctx.getLLMQ llmqType with
  | some (qc, minedBlockHash), some params =>
    let quorum : CQuorum B :=
      { params := params
        qc := qc
        quorumBaseBlockIndex := pQuorumBaseBlockIndex
        minedBlockHash := minedBlockHash
        members := ctx.getAllQuorumMembers qc.llmqType pQuorumBaseBlockIndex }
    (some quorum, { s with
      mapQuorumsCache := Function.update s.mapQuorumsCache llmqType
        ((s.mapQuorumsCache llmqType).insert quorumHash quorum) })
  | _, _ => (none, s)

def getQuorumAt (pQuorumBaseBlockIndex : B) : Option (CQuorum B) × QuorumState B :=
  let quorumHash := ctx.getBlockHash pQuorumBaseBlockIndex
  let (mined, s) := hasMinedCommitment ctx s llmqType quorumHash
  if !mined then (none, s)
  else
    match (s.mapQuorumsCache llmqType).get quorumHash with
    | (some pQuorum, cache) =>
      (some pQuorum, { s with mapQuorumsCache := Function.update s.mapQuorumsCache llmqType cache })
    | (none, _) => buildQuorumFromCommitment ctx s llmqType pQuorumBaseBlockIndex

def getQuorum (quorumHash : Uint256) : Option (CQuorum B) × QuorumState B :=
  match s.quorumBaseBlockIndexCache.get quorumHash with
  | (some pindex, cache) =>
    getQuorumAt ctx { s with quorumBaseBlockIndexCache := cache } llmqType pindex
  | (none, cache) =>
    match ctx.lookupBlockIndex quorumHash with
    | none => (none, { s with quorumBaseBlockIndexCache := cache })
    | some pindex =>
      getQuorumAt ctx
        { s with quorumBaseBlockIndexCache := cache.insert quorumHash pindex } llmqType pindex

/-- `GetMinedCommitmentsUntilBlock`: the database is walked down from `nHeight` to height one. -/
def getMinedCommitmentsUntilBlock (s : QuorumState B) (llmqType : LLMQType) (pindex : B) :
    (nHeight maxCount : Nat) → Option (List B)
  | 0, _ => some []
  | _, 0 => some []
  | nHeight + 1, maxCount + 1 =>
    match s.minedByHeight.lookup (llmqType, nHeight + 1) with
    | none => getMinedCommitmentsUntilBlock s llmqType pindex nHeight (maxCount + 1)
    | some quorumHeight => do
      let pQuorumBaseBlockIndex ← ctx.tree.ancestorAt pindex quorumHeight
      let rest ← getMinedCommitmentsUntilBlock s llmqType pindex nHeight maxCount
      return pQuorumBaseBlockIndex :: rest

def getQuorums (llmqType : LLMQType) :
    QuorumState B → List B → Option (List (CQuorum B)) × QuorumState B
  | s, [] => (some [], s)
  | s, pindex :: rest =>
    match getQuorumAt ctx s llmqType pindex with
    | (none, s) => (none, s)
    | (some quorum, s) =>
      let (quorums, s) := getQuorums llmqType s rest
      (quorums.map (quorum :: ·), s)

/-- Where `ScanQuorums` starts: the last block of the nearest mining phase. The inner option
is empty when that would be below genesis. -/
def scanStart (params : LLMQParams) (pindexStart : B) : Option (Option B) :=
  let nHeight := ctx.tree.height pindexStart
  let quorumCycleStartHeight := nHeight - nHeight % params.dkgInterval
  let quorumCycleMiningEndHeight := quorumCycleStartHeight + params.dkgMiningWindowEnd
  if nHeight < quorumCycleStartHeight + params.dkgMiningWindowStart then
    if quorumCycleMiningEndHeight < params.dkgInterval then some none
    else
      (ctx.tree.ancestorAt pindexStart (quorumCycleMiningEndHeight - params.dkgInterval)).map some
  else if quorumCycleMiningEndHeight < nHeight then
    (ctx.tree.ancestorAt pindexStart quorumCycleMiningEndHeight).map some
  else some (some pindexStart)

/-- The rest of `ScanQuorums` once it is known which quorums the cache holds already and from
where on the others are looked up. -/
def scanFrom (params : LLMQParams) (pindexStore pIndexScanCommitments : B)
    (cached : List (CQuorum B)) (nScanCommitments nCountRequested : Nat) :
    Option (List (CQuorum B) × QuorumState B) := do
  let bases ← getMinedCommitmentsUntilBlock ctx s llmqType pIndexScanCommitments
    (ctx.tree.height pIndexScanCommitments) nScanCommitments
  match getQuorums ctx llmqType s bases with
  | (none, s) => return ([], s)
  | (some found, s) =>
    let result := cached ++ found
    let s :=
      if result.length = 0 then s
      else
        { s with
          scanQuorumsCache := Function.update s.scanQuorumsCache llmqType
            ((s.scanQuorumsCache llmqType).insert (ctx.getBlockHash pindexStore)
              (result.take params.keepOldConnections)) }
    return (result.take nCountRequested, s)

def scanQuorums (pindexStart : B) (nCountRequested : Nat) :
    Option (List (CQuorum B) × QuorumState B) := do
  if nCountRequested = 0 ∨ ctx.isQuorumTypeEnabled llmqType pindexStart = false then
    return ([], s)
  let params ← ctx.getLLMQ llmqType
  match ← scanStart ctx params pindexStart with
  | none => return ([], s)
  | some pindexStore =>
    match (s.scanQuorumsCache llmqType).get (ctx.getBlockHash pindexStore) with
    | (none, _) =>
      scanFrom ctx s llmqType params pindexStore pindexStore []
        (max nCountRequested params.keepOldConnections) nCountRequested
    | (some cached, cache) =>
      let s := { s with
        scanQuorumsCache := Function.update s.scanQuorumsCache llmqType cache }
      if nCountRequested ≤ cached.length then return (cached.take nCountRequested, s)
      else
        match cached.getLast? with
        | none =>
          scanFrom ctx s llmqType params pindexStore pindexStore [] nCountRequested
            nCountRequested
        | some last =>
          match ctx.tree.parent last.quorumBaseBlockIndex with
          | none => return ([], s)
          | some pprev =>
            scanFrom ctx s llmqType params pindexStore pprev cached
              (nCountRequested - cached.length) nCountRequested

/-! ### Runs -/

inductive QuorumOp (B : Type) where
  | connect (pindex : B) (fBLSChecks : Bool)
  | disconnect
  | getQuorum (llmqType : LLMQType) (quorumHash : Uint256)
  | scanQuorums (llmqType : LLMQType) (pindexStart : B) (nCountRequested : Nat)

/-- A block is connected on top of the tip it has as parent, after `ProcessBlock` has accepted
it, and the tip is disconnected after `UndoBlock`. -/
def stepQuorum [DecidableEq B] (s : QuorumState B) : QuorumOp B → Option (QuorumState B)
  | .connect pindex fBLSChecks =>
    if s.tip ≠ none ∧ s.tip = ctx.tree.parent pindex then
      match processBlock ctx s pindex false fBLSChecks with
      | (.ok (), s) => some { s with tip := some pindex }
      | (.error _, _) => none
    else none
  | .disconnect => do
    let pindex ← s.tip
    let pprev ← ctx.tree.parent pindex
    let s ← undoBlock ctx s pindex
    return { s with tip := some pprev }
  | .getQuorum llmqType quorumHash => some (getQuorum ctx s llmqType quorumHash).2
  | .scanQuorums llmqType pindexStart nCountRequested =>
    (scanQuorums ctx s llmqType pindexStart nCountRequested).map Prod.snd

end Defcon.Llmq
