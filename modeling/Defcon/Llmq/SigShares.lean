import Defcon.Bls.BatchVerifier
import Defcon.Llmq.Params

/-!
# Signature shares

`ProcessPendingSigShares` takes a batch of pending shares, at most 32 and spread over the nodes
that sent them, verifies them together and hands those of the nodes that passed to
`ProcessSigShare`, which keeps them and recovers the quorum signature once enough are there.
Sessions, announcements and requests of shares are not modelled.
-/

namespace Defcon.Llmq

open List

open AList (Map)
open Bls (BlsScheme CBLSBatchVerifier Message)

abbrev SigShareKey := Uint256 × Nat

structure CSigShare where
  llmqType : LLMQType
  quorumHash : Uint256
  id : Uint256
  msgHash : Uint256
  quorumMember : Nat
  /-- What the lazy signature decodes to. -/
  sigShare : CBLSSignature
  deriving DecidableEq

structure CRecoveredSig where
  llmqType : LLMQType
  quorumHash : Uint256
  id : Uint256
  msgHash : Uint256
  sig : CBLSSignature
  deriving DecidableEq

abbrev SigShareMap (T : Type) := Map Uint256 (Map Nat T)

namespace SigShareMap

variable {T : Type} (m : SigShareMap T)

def has (k : SigShareKey) : Bool :=
  match m.lookup k.1 with
  | none => false
  | some shares => decide (k.2 ∈ shares)

def add (k : SigShareKey) (v : T) : Option (SigShareMap T) :=
  if m.has k then none else some (m.modifyD k.1 ∅ fun shares => shares.insert k.2 v)

def countForSignHash (signHash : Uint256) : Nat :=
  match m.lookup signHash with
  | none => 0
  | some shares => shares.entries.length

end SigShareMap

structure SharesQuorum where
  params : LLMQParams
  quorumHash : Uint256
  quorumPublicKey : CBLSPublicKey
  getPubKeyShare : Nat → CBLSPublicKey
  memberProTxHash : Nat → Uint256

structure SharesContext where
  bls : BlsScheme (BitVec 384) (BitVec 768)
  /-- `bls::Threshold::SignatureRecover`, `none` when it throws. -/
  signatureRecover : List (BitVec 768) → List Uint256 → Option (BitVec 768)
  buildSignHash : LLMQType → (quorumHash id msgHash : Uint256) → Uint256
  getQuorum : LLMQType → Uint256 → Option SharesQuorum
  getQuorum_spec : ∀ {llmqType quorumHash quorum}, getQuorum llmqType quorumHash = some quorum →
    quorum.params.type = llmqType ∧ quorum.quorumHash = quorumHash

structure CSigSharesNodeState where
  /-- The pending shares in the order in which `GetFirst` gives them. -/
  pendingIncomingSigShares : List CSigShare := []
  banned : Bool := false

structure CSigSharesManager where
  nodeStates : Map NodeId CSigSharesNodeState
  sigShares : SigShareMap CSigShare
  /-- The recovered signatures of the signing manager, by type and id. -/
  recoveredSigs : Map (LLMQType × Uint256) CRecoveredSig
  recoveredSigsCounter : UInt32

namespace SharesContext

variable (ctx : SharesContext)

def signHash (s : CSigShare) : Uint256 :=
  ctx.buildSignHash s.llmqType s.quorumHash s.id s.msgHash

def getKey (s : CSigShare) : SigShareKey :=
  (ctx.signHash s, s.quorumMember)

def verifyInsecure (key : CBLSPublicKey) (hash : Uint256) (sig : CBLSSignature) : Bool :=
  match key, sig with
  | some key, some sig => ctx.bls.verify key hash sig
  | _, _ => false

/-- `CBLSSignature::Recover`. Every `CBLSId` made from a hash is valid. -/
def recover (sigs : List CBLSSignature) (ids : List Uint256) : CBLSSignature :=
  if sigs = [] ∨ ids = [] ∨ sigs.length ≠ ids.length then none
  else
    match sigs.mapM id with
    | none => none
    | some sigsVec => ctx.signatureRecover sigsVec ids

end SharesContext

namespace CSigSharesManager

variable (ctx : SharesContext) (m : CSigSharesManager)

def hasRecoveredSigForId (llmqType : LLMQType) (id : Uint256) : Bool :=
  decide ((llmqType, id) ∈ m.recoveredSigs)

def banNode (nodeId : NodeId) : CSigSharesManager :=
  if nodeId = -1 then m
  else
    match m.nodeStates.lookup nodeId with
    | none => m
    | some _ => { m with nodeStates := m.nodeStates.insert nodeId ⟨[], true⟩ }

def removeSigSharesForSession (signHash : Uint256) : CSigSharesManager :=
  { m with
    nodeStates := m.nodeStates.mapVal fun nodeState => { nodeState with
      pendingIncomingSigShares := nodeState.pendingIncomingSigShares.filter
        fun s => ctx.signHash s ≠ signHash }
    sigShares := m.sigShares.erase signHash }

def processRecoveredSig (recoveredSig : CRecoveredSig) : CSigSharesManager :=
  if m.hasRecoveredSigForId recoveredSig.llmqType recoveredSig.id then m
  else
    { m with
      recoveredSigs := m.recoveredSigs.insert (recoveredSig.llmqType, recoveredSig.id)
        recoveredSig }.removeSigSharesForSession ctx
      (ctx.buildSignHash recoveredSig.llmqType recoveredSig.quorumHash recoveredSig.id
        recoveredSig.msgHash)

def tryRecoverSig (quorum : SharesQuorum) (id msgHash : Uint256) :
    CSigSharesManager × Option CRecoveredSig :=
  if m.hasRecoveredSigForId quorum.params.type id then (m, none)
  else
    let signHash := ctx.buildSignHash quorum.params.type quorum.quorumHash id msgHash
    match m.sigShares.lookup signHash with
    | none => (m, none)
    | some shares =>
      let taken := (shares.entries.take quorum.params.threshold).map Sigma.snd
      if taken.length < quorum.params.threshold then (m, none)
      else
        match ctx.recover (taken.map CSigShare.sigShare)
            (taken.map fun s => quorum.memberProTxHash s.quorumMember) with
        | none => (m, none)
        | some sig =>
          let rs : CRecoveredSig :=
            ⟨quorum.params.type, quorum.quorumHash, id, msgHash, some sig⟩
          let m' := { m with recoveredSigsCounter := m.recoveredSigsCounter + 1 }
          -- own recovered signatures are verified only from time to time
          if m.recoveredSigsCounter % 100 = 0 ∧
              ctx.verifyInsecure quorum.quorumPublicKey signHash (some sig) = false then
            (m', none)
          else (m'.processRecoveredSig ctx rs, some rs)

def processSigShare (s : CSigShare) (quorum : SharesQuorum) :
    CSigSharesManager × Option CRecoveredSig :=
  if m.hasRecoveredSigForId quorum.params.type s.id then (m, none)
  else
    match m.sigShares.add (ctx.getKey s) s with
    | none => (m, none)
    | some sigShares =>
      let m' := { m with sigShares := sigShares }
      if quorum.params.threshold ≤ sigShares.countForSignHash (ctx.signHash s) then
        m'.tryRecoverSig ctx quorum s.id s.msgHash
      else (m', none)

end CSigSharesManager

/-! ### Collecting a batch -/

/-- The loop of `IterateNodesRandom`, until `room` shares are taken or no node has any left. -/
def collectLoop (alreadyHave : CSigShare → Bool) :
    (room : Nat) → List (NodeId × List CSigShare) →
      List (NodeId × CSigShare) × List (NodeId × List CSigShare)
  | _, [] => ([], [])
  | 0, nodes => ([], nodes)
  | room + 1, (_, []) :: nodes => collectLoop alreadyHave (room + 1) nodes
  | room + 1, (nodeId, s :: shares) :: nodes =>
    let nodes' := if shares = [] then nodes else nodes ++ [(nodeId, shares)]
    if alreadyHave s then collectLoop alreadyHave (room + 1) nodes'
    else
      let (taken, left) := collectLoop alreadyHave room nodes'
      ((nodeId, s) :: taken, left)
termination_by _ nodes => (nodes.map fun p => p.2.length + 1).sum
decreasing_by
  all_goals simp only [map_cons, sum_cons, length_cons, length_nil]
  · omega
  all_goals
    split
    · omega
    · simp only [map_append, sum_append, map_cons, map_nil, sum_cons,
        sum_nil]
      omega

namespace CSigSharesManager

variable (ctx : SharesContext) (m : CSigSharesManager)

/-- `CollectPendingSigSharesToVerify` with the nodes as they were shuffled; `none` stands for
`false`. -/
def collectPendingSigSharesToVerify (maxShares : Nat) (rndNodes : List NodeId) :
    CSigSharesManager × Option (Map NodeId (List CSigShare)) :=
  let pend := rndNodes.filterMap fun nodeId =>
    (m.nodeStates.lookup nodeId).map fun nodeState =>
      (nodeId, nodeState.pendingIncomingSigShares)
  let (taken, left) := collectLoop (fun s => m.sigShares.has (ctx.getKey s)) maxShares pend
  let nodeStates := rndNodes.foldl (fun nodeStates nodeId =>
    nodeStates.modifyD nodeId {} fun nodeState =>
      { nodeState with pendingIncomingSigShares := (left.lookup nodeId).getD [] }) m.nodeStates
  let retSigShares : Map NodeId (List CSigShare) :=
    taken.foldl (fun ret p => ret.modifyD p.1 [] (· ++ [p.2])) ∅
  ({ m with nodeStates := nodeStates },
    if taken = [] then none
    else if taken.all fun p => (ctx.getQuorum p.2.llmqType p.2.quorumHash).isSome then
      some retSigShares
    else none)

end CSigSharesManager

/-! ### Processing a batch -/

abbrev ShareVerifier := CBLSBatchVerifier NodeId SigShareKey (BitVec 384) (BitVec 768)

namespace CSigSharesManager

variable (ctx : SharesContext)

/-- The message for a share; `none` when the assertion on the key share fails, or when the
quorum is missing from the map. -/
def message (s : CSigShare) (sig : BitVec 768) :
    Option (Message SigShareKey (BitVec 384) (BitVec 768)) :=
  match ctx.getQuorum s.llmqType s.quorumHash with
  | none => none
  | some quorum =>
    match quorum.getPubKeyShare s.quorumMember with
    | none => none
    | some pubKeyShare => some ⟨ctx.getKey s, ctx.signHash s, sig, pubKeyShare⟩

def pushSigShares (m : CSigSharesManager) (v : ShareVerifier) (nodeId : NodeId) :
    List CSigShare → Option (CSigSharesManager × ShareVerifier)
  | [] => some (m, v)
  | s :: shares =>
    if m.hasRecoveredSigForId s.llmqType s.id then pushSigShares m v nodeId shares
    else
      match s.sigShare with
      | none => some (m.banNode nodeId, v)
      | some sig =>
        match message ctx s sig with
        | none => none
        | some msg => pushSigShares m (v.pushMessage ctx.bls nodeId msg.msgId msg.msgHash
            msg.sig msg.pubKey) nodeId shares

structure SharesRun where
  manager : CSigSharesManager
  passed : List CSigShare := []
  /-- The signatures that `TryRecoverSig` passed on. -/
  recovered : List CRecoveredSig := []

def passSigShare (run : SharesRun) (s : CSigShare) : Option SharesRun :=
  match ctx.getQuorum s.llmqType s.quorumHash with
  | none => none
  | some quorum =>
    let (m, recoveredSig) := run.manager.processSigShare ctx s quorum
    some ⟨m, run.passed ++ [s], run.recovered ++ recoveredSig.toList⟩

def processNode (badSources : Finset NodeId) (run : SharesRun)
    (p : Sigma fun _ : NodeId => List CSigShare) : Option SharesRun :=
  if p.1 ∈ badSources then some { run with manager := run.manager.banNode p.1 }
  else p.2.foldlM (passSigShare ctx) run

def emptyVerifier : ShareVerifier :=
  ⟨false, true, 0, ∅, ∅, ∅, ∅⟩

/-- `ProcessPendingSigShares` once the batch is collected; `none` when the process is stopped
by an assertion or an exception. -/
def processSigSharesByNodes (m : CSigSharesManager) (sigSharesByNodes : Map NodeId (List CSigShare)) :
    Option SharesRun :=
  match sigSharesByNodes.entries.foldlM (fun (st : CSigSharesManager × ShareVerifier) p =>
      pushSigShares ctx st.1 st.2 p.1 p.2) (m, emptyVerifier) with
  | none => none
  | some (m', verifier) =>
    sigSharesByNodes.entries.foldlM (processNode ctx (verifier.verify ctx.bls).badSources)
      { manager := m' }

def processPendingSigShares (m : CSigSharesManager) (rndNodes : List NodeId) :
    Option (SharesRun × Bool) :=
  match m.collectPendingSigSharesToVerify ctx 32 rndNodes with
  | (m', none) => some ({ manager := m' }, false)
  | (m', some sigSharesByNodes) =>
    match processSigSharesByNodes ctx m' sigSharesByNodes with
    | none => none
    | some run => some (run, 32 ≤ sigSharesByNodes.entries.length)

end CSigSharesManager

end Defcon.Llmq
