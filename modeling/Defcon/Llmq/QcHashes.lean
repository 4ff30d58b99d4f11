import Defcon.Lib.Merkle
import Defcon.Llmq.MineableCommitments

/-!
# The merkle root of the active quorums

A coinbase commits to the commitments that are newest for each quorum type, those of its own block
included. `CalcCbTxMerkleRootQuorums` reads the earlier ones through a cache that belongs to the
block processor and that every recorded or unrecorded commitment drops, and puts those of the block
in the place of the oldest.
-/

namespace Defcon.Llmq

open List Option AList
open AList (Map)
open Lib (Run Accepts)

structure QcHashProcessor (B : Type) extends QuorumState B where
  m_quorums_cached : Map LLMQType (List B) := ∅
  m_qc_hashes_cached : Map LLMQType (List Uint256) := ∅

/-- The network with the hash of a commitment and the hash of two nodes. `AddLLMQ` asserts that a
type is new, and each type keeps at least one quorum active. -/
structure RootContext (B : Type) extends ProcessorContext B where
  sha256D64 : Uint256 → Uint256 → Uint256
  nodup_types : (llmqs.map LLMQParams.type).Nodup
  active_pos : ∀ params ∈ llmqs, 0 < params.signingActiveQuorumCount

variable {B : Type}

instance : Coe (QcHashProcessor B) (QuorumState B) := ⟨QcHashProcessor.toQuorumState⟩

instance : Coe (RootContext B) (ProcessorContext B) := ⟨RootContext.toProcessorContext⟩

def QcHashProcessor.dropQcHashesCache (s : QcHashProcessor B) : QcHashProcessor B :=
  { s with m_quorums_cached := ∅, m_qc_hashes_cached := ∅ }

namespace RootContext

variable (ctx : RootContext B)

/-! ### Recording commitments -/

def processCommitments (nHeight : Nat) (blockHash : Uint256) (fJustCheck fBLSChecks : Bool) :
    QcHashProcessor B → List CFinalCommitment → Except String Unit × QcHashProcessor B
  | s, [] => (.ok (), s)
  | s, qc :: rest =>
    match processCommitment ctx s nHeight blockHash qc fJustCheck
        fBLSChecks with
    | (.error e, q) => (.error e, { s with toQuorumState := q })
    | (.ok (), q) =>
      let s := { s with toQuorumState := q }
      processCommitments nHeight blockHash fJustCheck fBLSChecks
        (if qc.isNull || fJustCheck then s else s.dropQcHashesCache) rest

def processBlock (s : QcHashProcessor B) (pindex : B) (fJustCheck fBLSChecks : Bool) :
    Except String Unit × QcHashProcessor B :=
  if ctx.tree.height pindex < ctx.DIP0003Height then (.ok (), s)
  else
    match ctx.getCommitmentsFromBlock pindex with
    | .error e => (.error e, s)
    | .ok qcs =>
      let enabled := ((ctx.tree.parent pindex).map ctx.getEnabledQuorumParams).getD []
      match checkCommitmentCounts ctx (ctx.tree.height pindex) qcs
          s enabled with
      | (.error e, q) => (.error e, { s with toQuorumState := q })
      | (.ok (), q) =>
        ctx.processCommitments (ctx.tree.height pindex) (ctx.getBlockHash pindex) fJustCheck
          fBLSChecks { s with toQuorumState := q } qcs

def undoCommitment (nHeight : Nat) (s : QcHashProcessor B) (qc : CFinalCommitment) :
    QcHashProcessor B :=
  if qc.isNull then s
  else
    { s with toQuorumState := Llmq.undoCommitment nHeight s qc }.dropQcHashesCache

def undoBlock (s : QcHashProcessor B) (pindex : B) : Option (QcHashProcessor B) :=
  match ctx.getCommitmentsFromBlock pindex with
  | .error _ => none
  | .ok qcs => some (qcs.foldl (undoCommitment (ctx.tree.height pindex)) s)

/-! ### Hashes of the active commitments -/

/-- `GetMinedAndActiveCommitmentsUntilBlock`, `none` when the walk of a type asserts. -/
def getMinedAndActiveCommitmentsUntilBlock (s : QuorumState B) (pindex : B) :
    Option (Map LLMQType (List B)) :=
  ctx.llmqs.foldlM (fun ret params => do
    let commitments ← getMinedCommitmentsUntilBlock ctx s params.type pindex
      (ctx.tree.height pindex) params.signingActiveQuorumCount
    return ret.modifyD params.type [] (· ++ commitments)) ∅

/-- The inner loop of `GetQcHashes`: the hashes so far, and whether all commitments were found. -/
def hashCommitments (s : QuorumState B) (llmqType : LLMQType) : List B → List Uint256 × Bool
  | [] => ([], true)
  | blockIndex :: rest =>
    match s.minedCommitments.lookup (llmqType, ctx.getBlockHash blockIndex) with
    | none => ([], false)
    | some (qc, _) =>
      let (vec_hashes, found) := hashCommitments s llmqType rest
      (ctx.serializeHash qc :: vec_hashes, found)

def hashQuorums (s : QuorumState B) :
    List (Sigma fun _ : LLMQType => List B) → Map LLMQType (List Uint256) →
      Map LLMQType (List Uint256) × Bool
  | [], hashes => (hashes, true)
  | ⟨llmqType, vecBlockIndexes⟩ :: rest, hashes =>
    match ctx.hashCommitments s llmqType vecBlockIndexes with
    | (vec_hashes, false) => (hashes.insert llmqType vec_hashes, false)
    | (vec_hashes, true) => hashQuorums s rest (hashes.insert llmqType vec_hashes)

/-- A commitment of the block takes the place of the oldest one if all places are taken. -/
def replaceOldest (params : LLMQParams) (qcHash : Uint256) (vec_hashes : List Uint256) :
    List Uint256 :=
  (if vec_hashes.length = params.signingActiveQuorumCount then vec_hashes.dropLast
    else vec_hashes) ++ [qcHash]

def addCommitments : List (Option CFinalCommitment) → Map LLMQType (List Uint256) →
    Except String (Map LLMQType (List Uint256))
  | [], qcHashes => .ok qcHashes
  | none :: _, _ => .error "bad-qc-payload-calc-cbtx-quorummerkleroot"
  | some qc :: rest, qcHashes =>
    if qc.isNull then addCommitments rest qcHashes
    else
      match ctx.getLLMQ qc.llmqType with
      | none => .error "bad-qc-commitment-type-calc-cbtx-quorummerkleroot"
      | some params =>
        addCommitments rest
          (qcHashes.modifyD params.type [] (replaceOldest params (ctx.serializeHash qc)))

/-- The loop that joins the hashes of all types, `none` when it asserts. -/
def joinHashes : List (Sigma fun _ : LLMQType => List Uint256) →
    Option (Except String (List Uint256))
  | [] => some (.ok [])
  | ⟨llmqType, vec_hashes⟩ :: rest =>
    match ctx.getLLMQ llmqType with
    | none => none
    | some params =>
      if params.signingActiveQuorumCount < vec_hashes.length then
        some (.error "excess-quorums-calc-cbtx-quorummerkleroot")
      else
        match joinHashes rest with
        | some (.ok hashes) => some (.ok (vec_hashes ++ hashes))
        | failed => failed

/-- The root of the sorted hashes, refused when two neighbours are equal. -/
def sortedRoot (hashes : List Uint256) : Except String Uint256 :=
  match Lib.Merkle.computeMerkleRoot ctx.sha256D64 0 (hashes.insertionSort (· < ·)) with
  | (_, true) => .error "mutated-calc-cbtx-quorummerkleroot"
  | (merkleRoot, false) => .ok merkleRoot

variable [DecidableEq B]

def getQcHashes (s : QcHashProcessor B) (pindexPrev : B) :
    Option (Option (Map LLMQType (List Uint256)) × QcHashProcessor B) := do
  let quorums ← ctx.getMinedAndActiveCommitmentsUntilBlock s pindexPrev
  if quorums.entries = s.m_quorums_cached.entries then return (some s.m_qc_hashes_cached, s)
  else
    match ctx.hashQuorums s quorums.entries ∅ with
    | (hashes, false) =>
      return (none, { s with m_quorums_cached := ∅, m_qc_hashes_cached := hashes })
    | (hashes, true) =>
      return (some hashes, { s with m_quorums_cached := quorums, m_qc_hashes_cached := hashes })

/-- `CalcCbTxMerkleRootQuorums` for a block with the quorum commitment transactions `vtx`. -/
def calcCbTxMerkleRootQuorums (s : QcHashProcessor B) (vtx : List (Option CFinalCommitment))
    (pindexPrev : B) : Option (Except String Uint256 × QcHashProcessor B) := do
  match ← ctx.getQcHashes s pindexPrev with
  | (none, s) => return (.error "commitment-not-found", s)
  | (some qcHashes, s) =>
    match ctx.addCommitments vtx qcHashes with
    | .error e => return (.error e, s)
    | .ok qcHashes =>
      match ← ctx.joinHashes qcHashes.entries with
      | .error e => return (.error e, s)
      | .ok hashes => return (ctx.sortedRoot hashes, s)

/-! ### Runs -/

/-- The calls on the block processor, and what the quorum manager looks up. `checkRoot` tells
whether the coinbase of the block has the root and is checked. -/
inductive RootOp (B : Type) where
  /-- The miner computes the root for a template on top of the tip. -/
  | template (vtx : List (Option CFinalCommitment))
  | justCheck (pindex : B) (fBLSChecks checkRoot : Bool)
  | connect (pindex : B) (fBLSChecks checkRoot : Bool)
  /-- `ConnectBlock` fails and the changes to the database are taken back. -/
  | failToConnect (pindex : B) (fBLSChecks checkRoot : Bool)
  | disconnect
  | getQuorum (llmqType : LLMQType) (quorumHash : Uint256)
  | scanQuorums (llmqType : LLMQType) (pindexStart : B) (nCountRequested : Nat)

def processAndCheck (s : QcHashProcessor B) (pindex pindexPrev : B)
    (fJustCheck fBLSChecks checkRoot : Bool) : Option (Except String Unit × QcHashProcessor B) :=
  match ctx.processBlock s pindex fJustCheck fBLSChecks with
  | (.error e, s) => some (.error e, s)
  | (.ok (), s) =>
    if checkRoot then
      match ctx.calcCbTxMerkleRootQuorums s (ctx.commitmentTxs pindex) pindexPrev with
      | none => none
      | some (.error e, s) => some (.error e, s)
      | some (.ok _, s) => some (.ok (), s)
    else some (.ok (), s)

def step (s : QcHashProcessor B) : RootOp B → Option (QcHashProcessor B)
  | .template vtx => do
    let tip ← s.tip
    let (_, s) ← ctx.calcCbTxMerkleRootQuorums s vtx tip
    return s
  | .justCheck pindex fBLSChecks checkRoot => do
    let tip ← s.tip
    if ctx.tree.parent pindex = some tip then
      let (_, s) ← ctx.processAndCheck s pindex tip true fBLSChecks checkRoot
      return s
    else none
  | .connect pindex fBLSChecks checkRoot => do
    let tip ← s.tip
    if ctx.tree.parent pindex = some tip then
      match ← ctx.processAndCheck s pindex tip false fBLSChecks checkRoot with
      | (.error _, _) => none
      | (.ok (), s) => return { s with tip := some pindex }
    else none
  | .failToConnect pindex fBLSChecks checkRoot => do
    let tip ← s.tip
    if ctx.tree.parent pindex = some tip then
      let (_, after) ← ctx.processAndCheck s pindex tip false fBLSChecks checkRoot
      return { after with
        minedCommitments := s.minedCommitments
        minedByHeight := s.minedByHeight }
    else none
  | .disconnect => do
    let tip ← s.tip
    let pprev ← ctx.tree.parent tip
    let s ← ctx.undoBlock s tip
    return { s with tip := some pprev }
  | .getQuorum llmqType quorumHash =>
    some { s with
      toQuorumState := (getQuorum ctx s llmqType quorumHash).2 }
  | .scanQuorums llmqType pindexStart nCountRequested => do
    let (_, q) ← scanQuorums ctx s llmqType pindexStart
      nCountRequested
    return { s with toQuorumState := q }

end RootContext

/-! ### What `ProcessBlock` leaves -/

section Grown

variable {s t u : QcHashProcessor B} {fJustCheck : Bool} {nHeight : Nat}

/-- What `ProcessBlock` of a block at `nHeight` can have changed. -/
structure Grown (fJustCheck : Bool) (nHeight : Nat) (s t : QcHashProcessor B) : Prop where
  tip : t.tip = s.tip
  kept : ∀ {k v}, s.minedCommitments.lookup k = some v → t.minedCommitments.lookup k = some v
  below : ∀ {llmqType h}, h ≠ nHeight →
    t.minedByHeight.lookup (llmqType, h) = s.minedByHeight.lookup (llmqType, h)
  baseIndex : t.quorumBaseBlockIndexCache = s.quorumBaseBlockIndexCache
  agrees : HasMinedAgrees t.toQuorumState
  cache : t.m_quorums_cached = s.m_quorums_cached ∧ t.m_qc_hashes_cached = s.m_qc_hashes_cached ∧
      t.minedCommitments = s.minedCommitments ∨
    t.m_quorums_cached = ∅ ∧ t.m_qc_hashes_cached = ∅
  justChecked : fJustCheck = true → OnlyHasMined s.toQuorumState t.toQuorumState

theorem Grown.refl (hagree : HasMinedAgrees s.toQuorumState) : Grown fJustCheck nHeight s s :=
  ⟨rfl, id, fun _ => rfl, rfl, hagree, Or.inl ⟨rfl, rfl, rfl⟩, fun _ => .refl _⟩

theorem Grown.trans (hst : Grown fJustCheck nHeight s t) (htu : Grown fJustCheck nHeight t u) :
    Grown fJustCheck nHeight s u where
  tip := htu.tip.trans hst.tip
  kept h := htu.kept (hst.kept h)
  below h := (htu.below h).trans (hst.below h)
  baseIndex := htu.baseIndex.trans hst.baseIndex
  agrees := htu.agrees
  cache := by
    rcases htu.cache with ⟨hquorums, hhashes, hmined⟩ | hdropped
    · rw [hquorums, hhashes, hmined]
      exact hst.cache
    · exact Or.inr hdropped
  justChecked h := (hst.justChecked h).trans (htu.justChecked h)

theorem OnlyHasMined.grown {q : QuorumState B} (honly : OnlyHasMined s.toQuorumState q)
    (hagree : HasMinedAgrees s.toQuorumState) :
    Grown fJustCheck nHeight s { s with toQuorumState := q } where
  tip := honly.tip
  kept h := by rwa [honly.minedCommitments]
  below _ := by rw [honly.minedByHeight]
  baseIndex := honly.quorumBaseBlockIndexCache
  agrees := honly.agrees hagree
  cache := Or.inl ⟨rfl, rfl, honly.minedCommitments⟩
  justChecked _ := honly

theorem grown_record {q : QuorumState B} {qc : CFinalCommitment} {blockHash : Uint256}
    {baseHeight : Nat} (honly : OnlyHasMined s.toQuorumState q)
    (hagree : HasMinedAgrees s.toQuorumState)
    (hnew : (qc.llmqType, qc.quorumHash) ∉ s.minedCommitments) :
    Grown false nHeight s { s with
      toQuorumState := recordCommitment q nHeight blockHash qc baseHeight }.dropQcHashesCache where
  tip := honly.tip
  kept {k v} h := by
    change (q.minedCommitments.insert _ _).lookup k = some v
    rw [lookup_insert_eq_ite, honly.minedCommitments, if_neg, h]
    rintro rfl
    exact hnew (lookup_isSome.mp (by rw [h]; rfl))
  below {llmqType h} hne := by
    change (q.minedByHeight.insert _ _).lookup (llmqType, h) = _
    rw [lookup_insert_eq_ite, honly.minedByHeight, if_neg]
    exact fun heq => hne (Prod.mk.inj heq).2
  baseIndex := honly.quorumBaseBlockIndexCache
  agrees := hasMinedAgrees_recordCommitment (honly.agrees hagree) nHeight baseHeight blockHash qc
  cache := Or.inr ⟨rfl, rfl⟩
  justChecked h := (nomatch h)

end Grown

namespace RootContext

variable {ctx : RootContext B} {s t : QcHashProcessor B} {nHeight : Nat} {blockHash : Uint256}
  {fJustCheck fBLSChecks : Bool} {qcs : List CFinalCommitment} {b : B}

theorem grown_processCommitments (hagree : HasMinedAgrees s.toQuorumState) :
    Grown fJustCheck nHeight s
      (ctx.processCommitments nHeight blockHash fJustCheck fBLSChecks s qcs).2 := by
  induction qcs generalizing s with
  | nil => exact .refl hagree
  | cons qc qcs ih =>
    rw [processCommitments]
    have honly := onlyHasMined_hasMinedCommitment ctx.toQuorumContext s.toQuorumState qc.llmqType
      qc.quorumHash
    have hasked : Grown fJustCheck nHeight s { s with toQuorumState :=
        (hasMinedCommitment ctx.toQuorumContext s.toQuorumState qc.llmqType qc.quorumHash).2 } :=
      honly.grown hagree
    have hprocessed := processed_processCommitment ctx.toQuorumContext s.toQuorumState nHeight blockHash
      qc fJustCheck fBLSChecks
    generalize processCommitment ctx.toQuorumContext s.toQuorumState nHeight blockHash qc fJustCheck
      fBLSChecks = result at hprocessed ⊢
    cases hprocessed with
    | refused e => exact .refl hagree
    | null _ _ hnull =>
      dsimp only
      rw [hnull, Bool.true_or, if_pos rfl]
      exact ih hagree
    | refusedAsked e _ => exact hasked
    | @accepted _ base hparams _ hnull hnew _ _ _ =>
      rw [hnull, Bool.false_or]
      cases fJustCheck with
      | true => exact hasked.trans (ih hasked.agrees)
      | false =>
        have hgrown := @grown_record _ s nHeight _ qc blockHash (ctx.tree.height base) honly hagree
          (notMem_of_hasMined ctx.toQuorumContext hagree hparams hnew)
        exact hgrown.trans (ih hgrown.agrees)

theorem grown_processBlock (hagree : HasMinedAgrees s.toQuorumState) :
    Grown fJustCheck (ctx.tree.height b) s (ctx.processBlock s b fJustCheck fBLSChecks).2 := by
  unfold processBlock
  split
  · exact .refl hagree
  cases hqcs : ctx.getCommitmentsFromBlock b with
  | error e => exact .refl hagree
  | ok qcs =>
    have honly := @onlyHasMined_checkCommitmentCounts _ ctx.toQuorumContext (ctx.tree.height b)
      qcs s.toQuorumState (((ctx.tree.parent b).map ctx.getEnabledQuorumParams).getD [])
    dsimp only
    rcases hcounts : checkCommitmentCounts ctx.toQuorumContext (ctx.tree.height b) qcs
      s.toQuorumState (((ctx.tree.parent b).map ctx.getEnabledQuorumParams).getD [])
      with ⟨verdict, q⟩
    rw [hcounts] at honly
    have hgrown : Grown fJustCheck (ctx.tree.height b) s { s with toQuorumState := q } :=
      honly.grown hagree
    cases verdict with
    | error e => exact hgrown
    | ok u => exact hgrown.trans (grown_processCommitments hgrown.agrees)

/-! ### The records without the cache -/

theorem toQuorumState_processCommitments :
    Llmq.processCommitments ctx.toQuorumContext nHeight blockHash fJustCheck fBLSChecks
        s.toQuorumState qcs =
      ((ctx.processCommitments nHeight blockHash fJustCheck fBLSChecks s qcs).1,
        (ctx.processCommitments nHeight blockHash fJustCheck fBLSChecks s qcs).2.toQuorumState) := by
  induction qcs generalizing s with
  | nil => rfl
  | cons qc qcs ih =>
    rw [processCommitments, Llmq.processCommitments]
    rcases processCommitment ctx.toQuorumContext s.toQuorumState nHeight blockHash qc
      fJustCheck fBLSChecks with ⟨verdict, q⟩
    cases verdict with
    | error e => rfl
    | ok u =>
      dsimp only
      split
      · exact ih (s := { s with toQuorumState := q })
      · exact ih (s := { s with toQuorumState := q }.dropQcHashesCache)

theorem toQuorumState_processBlock :
    Llmq.processBlock ctx.toQuorumContext s.toQuorumState b fJustCheck fBLSChecks =
      ((ctx.processBlock s b fJustCheck fBLSChecks).1,
        (ctx.processBlock s b fJustCheck fBLSChecks).2.toQuorumState) := by
  unfold processBlock Llmq.processBlock
  by_cases hheight : ctx.tree.height b < ctx.DIP0003Height
  · rw [if_pos hheight, if_pos hheight]
  rw [if_neg hheight, if_neg hheight]
  cases ctx.getCommitmentsFromBlock b with
  | error e => rfl
  | ok qcs =>
    dsimp only
    rcases checkCommitmentCounts ctx.toQuorumContext (ctx.tree.height b) qcs
      s.toQuorumState (((ctx.tree.parent b).map ctx.getEnabledQuorumParams).getD [])
      with ⟨verdict, q⟩
    cases verdict with
    | error e => rfl
    | ok u => exact toQuorumState_processCommitments (s := { s with toQuorumState := q })

theorem undoBlock_cases (hundo : ctx.undoBlock s b = some t) :
    Llmq.undoBlock ctx.toQuorumContext s.toQuorumState b = some t.toQuorumState ∧
      (t = s ∨ t.m_quorums_cached = ∅ ∧ t.m_qc_hashes_cached = ∅) := by
  unfold undoBlock at hundo
  unfold Llmq.undoBlock
  cases hqcs : ctx.getCommitmentsFromBlock b with
  | error e =>
    rw [hqcs] at hundo
    cases hundo
  | ok qcs =>
    rw [hqcs] at hundo
    obtain rfl := some.inj hundo
    dsimp only
    clear hundo hqcs
    induction qcs generalizing s with
    | nil => exact ⟨rfl, Or.inl rfl⟩
    | cons qc qcs ih =>
      rw [foldl_cons, foldl_cons]
      by_cases hnull : qc.isNull = true
      · rw [undoCommitment, if_pos hnull, Llmq.undoCommitment, if_pos hnull]
        exact ih
      · rw [undoCommitment, if_neg hnull]
        obtain ⟨hstate, hcache⟩ := ih (s := { s with
          toQuorumState := Llmq.undoCommitment (ctx.tree.height b) s.toQuorumState qc
        }.dropQcHashesCache)
        refine ⟨hstate, Or.inr ?_⟩
        rcases hcache with hsame | hdropped
        · rw [hsame]
          exact ⟨rfl, rfl⟩
        · exact hdropped

end RootContext

/-! ### The commitments of a branch -/

section Branch

variable {net : Network B} {b p : B} {llmqType : LLMQType} {qc : CFinalCommitment}

def minedIn (net : Network B) (llmqType : LLMQType) (b : B) : Option CFinalCommitment :=
  match net.getCommitmentsFromBlock b with
  | .error _ => none
  | .ok qcs => qcs.find? fun qc => qc.llmqType = llmqType ∧ qc.isNull = false

/-- The commitments of the type that count in a block and its ancestors, the newest first. The
height of the block is enough fuel. -/
def minedFrom (net : Network B) (llmqType : LLMQType) : Nat → B → List CFinalCommitment
  | 0, b => (minedIn net llmqType b).toList
  | n + 1, b =>
    (minedIn net llmqType b).toList ++
      match net.tree.parent b with
      | none => []
      | some p => minedFrom net llmqType n p

def minedUpTo (net : Network B) (llmqType : LLMQType) (b : B) : List CFinalCommitment :=
  minedFrom net llmqType (net.tree.height b) b

theorem minedUpTo_of_parent (hparent : net.tree.parent b = some p) :
    minedUpTo net llmqType b = (minedIn net llmqType b).toList ++ minedUpTo net llmqType p := by
  rw [minedUpTo, net.tree.height_parent hparent, minedFrom, hparent]
  rfl

theorem find_commitment_iff {qcs : List CFinalCommitment}
    (hnodup : (qcs.map CFinalCommitment.llmqType).Nodup) :
    (qcs.find? fun qc => qc.llmqType = llmqType ∧ qc.isNull = false) = some qc ↔
      qc ∈ qcs ∧ qc.llmqType = llmqType ∧ qc.isNull = false := by
  constructor
  · intro hfind
    have hprop := find?_some hfind
    rw [decide_eq_true_eq] at hprop
    exact ⟨mem_of_find?_eq_some hfind, hprop⟩
  · rintro ⟨hmem, htype, hnull⟩
    have hsome : (qcs.find? fun qc => decide (qc.llmqType = llmqType ∧ qc.isNull = false)).isSome :=
      find?_isSome.mpr ⟨qc, hmem, decide_eq_true ⟨htype, hnull⟩⟩
    obtain ⟨first, hfirst⟩ := isSome_iff_exists.mp hsome
    have hprop := find?_some hfirst
    rw [decide_eq_true_eq] at hprop
    have hinj := inj_on_of_nodup_map hnodup
    rw [hfirst, hinj (mem_of_find?_eq_some hfirst) hmem (hprop.1.trans htype.symm)]

theorem minedIn_eq_some :
    minedIn net llmqType b = some qc ↔
      Mined net.toQuorumContext b qc ∧ qc.llmqType = llmqType := by
  unfold minedIn
  cases hqcs : net.getCommitmentsFromBlock b with
  | error e =>
    refine ⟨(nomatch ·), ?_⟩
    rintro ⟨⟨-, ⟨_, hok, -⟩, -⟩, -⟩
    cases hqcs.symm.trans hok
  | ok qcs =>
    rw [find_commitment_iff (getCommitmentsFromBlock_ok hqcs).1, mined_iff hqcs, and_assoc,
      and_comm (a := qc.llmqType = llmqType)]

def recordOf (net : Network B) (q : QuorumState B) (llmqType : LLMQType) (base : B) :
    Option CFinalCommitment :=
  (q.minedCommitments.lookup (llmqType, net.getBlockHash base)).map Prod.fst

variable {q : QuorumState B} {tip : B}

theorem ChainInv.recordOf_minedCycles (hinv : ChainInv net q) (htip : q.tip = some tip) {c : B}
    (hanc : net.tree.Ancestor c tip) :
    (minedCycles net q llmqType tip (net.tree.height c)).map (recordOf net q llmqType) =
      (minedUpTo net llmqType c).map some := by
  induction hheight : net.tree.height c generalizing c with
  | zero =>
    have hroot : net.tree.parent c = none := by
      by_contra hne
      obtain ⟨p, hparent⟩ := ne_none_iff_exists'.mp hne
      have := net.tree.height_parent hparent
      omega
    obtain rfl := hinv.eq_genesis htip hanc hroot
    have hnone : minedIn net llmqType net.genesis = none := by
      by_contra hne
      obtain ⟨qc, hqc⟩ := ne_none_iff_exists'.mp hne
      exact genesis_not_mined qc (minedIn_eq_some.mp hqc).1
    rw [minedUpTo, hheight, minedFrom, hnone]
    rfl
  | succ h ih =>
    obtain ⟨p, hparent⟩ : ∃ p, net.tree.parent c = some p := by
      rw [← ne_none_iff_exists']
      intro hroot
      rw [net.tree.height_root hroot] at hheight
      cases hheight
    have hp : net.tree.height p = h := by
      have := net.tree.height_parent hparent
      omega
    rw [minedCycles, minedUpTo_of_parent hparent, map_append, map_append,
      ih ((Lib.BlockTree.ancestor_parent hparent).trans hanc) hp]
    congr 1
    cases hmined : minedIn net llmqType c with
    | none =>
      have hlookup : q.minedByHeight.lookup (llmqType, h + 1) = none := by
        by_contra hne
        obtain ⟨baseHeight, hsome⟩ := ne_none_iff_exists'.mp hne
        obtain ⟨c', p', qc, params, base, hanc', hheight', -, hqc, htype, -⟩ :=
          hinv.record htip hsome
        obtain rfl : c' = c :=
          (hanc'.of_height_le hanc (by omega)).eq_of_height_eq (by omega)
        rw [minedIn_eq_some.mpr ⟨hqc, htype⟩] at hmined
        cases hmined
      rw [hlookup]
      rfl
    | some qc =>
      obtain ⟨hqc, rfl⟩ := minedIn_eq_some.mp hmined
      obtain ⟨p', params, base, hparent', hin, -⟩ := hinv.mined htip hanc hqc
      have hlookup : q.minedByHeight.lookup (qc.llmqType, h + 1) =
          some (net.tree.height base) :=
        hinv.heights.mpr ⟨tip, c, qc, base, htip, hanc, hheight, hqc, rfl, hin.hash_eq, rfl⟩
      have hbase : net.tree.ancestorAt tip (net.tree.height base) = some base :=
        hin.cycle.1.trans hanc
      have hrecord : q.minedCommitments.lookup (qc.llmqType, net.getBlockHash base) =
          some (qc, net.getBlockHash c) :=
        hinv.records.mpr ⟨tip, c, htip, hanc, hqc, rfl, hin.hash_eq.symm, rfl⟩
      rw [hlookup, bind_some, hbase]
      simp only [toList_some, map_cons, map_nil, recordOf, hrecord,
        map_some]

end Branch

/-! ### The cache of `GetQcHashes` -/

namespace RootContext

variable {ctx : RootContext B} {q : QuorumState B} {s t : QcHashProcessor B} {b p : B}
  {bases : LLMQParams → List B}

def newestHashes (ctx : RootContext B) (b : B) (params : LLMQParams) : List Uint256 :=
  ((minedUpTo ctx params.type b).take params.signingActiveQuorumCount).map
    ctx.serializeHash

/-- The walks from `p` end with `bases`, for which the newest commitments at `p` are recorded. -/
def Reads (ctx : RootContext B) (p : B) (bases : LLMQParams → List B) (q : QuorumState B) : Prop :=
  ∀ params ∈ ctx.llmqs,
    getMinedCommitmentsUntilBlock ctx q params.type p (ctx.tree.height p)
        params.signingActiveQuorumCount = some (bases params) ∧
      (bases params).map (recordOf ctx q params.type) =
        ((minedUpTo ctx params.type p).take params.signingActiveQuorumCount).map some

theorem reads_of_chainInv (hinv : ChainInv ctx q) (htip : q.tip = some p) :
    ctx.Reads p (fun params => (minedCycles ctx q params.type p
      (ctx.tree.height p)).take params.signingActiveQuorumCount) q := by
  intro params _
  refine ⟨hinv.getMinedCommitments_eq htip _, ?_⟩
  rw [map_take, hinv.recordOf_minedCycles htip (.refl p), map_take]

variable {llmqType : LLMQType} {q' : QuorumState B}

theorem getMinedCommitmentsUntilBlock_congr {ctx : QuorumContext B} {q : QuorumState B}
    {nHeight : Nat}
    (hsame : ∀ h ≤ nHeight,
      q'.minedByHeight.lookup (llmqType, h) = q.minedByHeight.lookup (llmqType, h)) (maxCount : Nat) :
    getMinedCommitmentsUntilBlock ctx q' llmqType p nHeight maxCount =
      getMinedCommitmentsUntilBlock ctx q llmqType p nHeight maxCount := by
  induction nHeight generalizing maxCount with
  | zero => rfl
  | succ nHeight ih =>
    have hbelow (maxCount : Nat) := ih (fun h hle => hsame h (by omega)) maxCount
    cases maxCount with
    | zero => rfl
    | succ maxCount =>
      rw [getMinedCommitmentsUntilBlock, getMinedCommitmentsUntilBlock, hsame _ (le_refl _),
        hbelow, hbelow]

theorem Reads.grown {fJustCheck : Bool} (hreads : ctx.Reads p bases s.toQuorumState)
    (hparent : ctx.tree.parent b = some p) (hgrown : Grown fJustCheck (ctx.tree.height b) s t) :
    ctx.Reads p bases t.toQuorumState := by
  intro params hparams
  obtain ⟨hwalk, hrecords⟩ := hreads params hparams
  have hheight := ctx.tree.height_parent hparent
  refine ⟨?_, ?_⟩
  · rw [getMinedCommitmentsUntilBlock_congr (fun h hle => hgrown.below (by omega)), hwalk]
  · rw [← hrecords]
    refine map_congr_left fun base hbase => ?_
    -- the base block has a record, which is kept
    have hsome : recordOf ctx.toNetwork s.toQuorumState params.type base ∈
        ((minedUpTo ctx.toNetwork params.type p).take params.signingActiveQuorumCount).map some := by
      rw [← hrecords]
      exact mem_map_of_mem hbase
    obtain ⟨qc, -, hqc⟩ := mem_map.mp hsome
    obtain ⟨v, hv, -⟩ := map_eq_some_iff.mp hqc.symm
    rw [recordOf, recordOf, hv, hgrown.kept hv]

theorem hashCommitments_eq {blocks : List B} {qcs : List CFinalCommitment}
    (hrecords : blocks.map (recordOf ctx q llmqType) = qcs.map some) :
    ctx.hashCommitments q llmqType blocks = (qcs.map ctx.serializeHash, true) := by
  induction blocks generalizing qcs with
  | nil =>
    obtain rfl : qcs = [] := map_eq_nil_iff.mp hrecords.symm
    rfl
  | cons block blocks ih =>
    cases qcs with
    | nil => cases hrecords
    | cons qc qcs =>
      obtain ⟨hhead, hrest⟩ := cons.inj hrecords
      obtain ⟨v, hv, rfl⟩ := map_eq_some_iff.mp hhead
      have hlookup : q.minedCommitments.lookup (llmqType, ctx.getBlockHash block) = some v := hv
      rw [hashCommitments, hlookup, ih hrest]
      rfl

theorem hashQuorums_eq {entries : List (Sigma fun _ : LLMQType => List B)}
    {hashes : LLMQType → List Uint256} {m : Map LLMQType (List Uint256)}
    (hfound : ∀ e ∈ entries, ctx.hashCommitments q e.1 e.2 = (hashes e.1, true)) :
    ctx.hashQuorums q entries m =
      ((entries.map Sigma.fst).foldl (fun m llmqType => m.insert llmqType (hashes llmqType)) m,
        true) := by
  induction entries generalizing m with
  | nil => rfl
  | cons e entries ih =>
    rw [hashQuorums, hfound e mem_cons_self, map_cons, foldl_cons]
    exact ih fun e he => hfound e (mem_cons_of_mem _ he)

def Coherent (ctx : RootContext B) (quorums : Map LLMQType (List B))
    (hashes : Map LLMQType (List Uint256)) (q : QuorumState B) : Prop :=
  ctx.hashQuorums q quorums.entries ∅ = (hashes, true)

theorem coherent_empty : ctx.Coherent ∅ ∅ q :=
  rfl

theorem hashCommitments_congr (hsame : q'.minedCommitments = q.minedCommitments)
    (llmqType : LLMQType) (blocks : List B) :
    ctx.hashCommitments q' llmqType blocks = ctx.hashCommitments q llmqType blocks := by
  induction blocks with
  | nil => rfl
  | cons block blocks ih => rw [hashCommitments, hashCommitments, hsame, ih]

theorem Coherent.of_same {quorums : Map LLMQType (List B)} {hashes : Map LLMQType (List Uint256)}
    (hcoherent : ctx.Coherent quorums hashes q) (hsame : q'.minedCommitments = q.minedCommitments) :
    ctx.Coherent quorums hashes q' := by
  have hfold (entries : List (Sigma fun _ : LLMQType => List B))
      (m : Map LLMQType (List Uint256)) :
      ctx.hashQuorums q' entries m = ctx.hashQuorums q entries m := by
    induction entries generalizing m with
    | nil => rfl
    | cons e entries ih => simp only [hashQuorums, hashCommitments_congr hsame, ih]
  rw [Coherent, hfold]
  exact hcoherent

theorem getLLMQ_of_mem {params : LLMQParams} (hmem : params ∈ ctx.llmqs) :
    ctx.getLLMQ params.type = some params := by
  have hsome : (ctx.getLLMQ params.type).isSome :=
    find?_isSome.mpr ⟨params, hmem, decide_eq_true rfl⟩
  obtain ⟨found, hfound⟩ := isSome_iff_exists.mp hsome
  obtain ⟨hmem', htype⟩ := mem_llmqs hfound
  rw [hfound, inj_on_of_nodup_map ctx.nodup_types hmem' hmem htype]

def activeQuorums (ctx : RootContext B) (bases : LLMQParams → List B) : Map LLMQType (List B) :=
  ctx.llmqs.foldl (fun ret params => ret.modifyD params.type [] (· ++ bases params)) ∅

theorem Reads.getActive (hreads : ctx.Reads p bases q) :
    ctx.getMinedAndActiveCommitmentsUntilBlock q p = some (ctx.activeQuorums bases) := by
  have hfold (llmqs : List LLMQParams) (hsub : ∀ params ∈ llmqs, params ∈ ctx.llmqs)
      (ret : Map LLMQType (List B)) :
      llmqs.foldlM (fun ret params => do
        let commitments ← getMinedCommitmentsUntilBlock ctx q params.type p
          (ctx.tree.height p) params.signingActiveQuorumCount
        return ret.modifyD params.type [] (· ++ commitments)) ret =
      some (llmqs.foldl (fun ret params => ret.modifyD params.type [] (· ++ bases params)) ret) := by
    induction llmqs generalizing ret with
    | nil => rfl
    | cons params llmqs ih =>
      rw [foldlM_cons, (hreads params (hsub params mem_cons_self)).1, foldl_cons]
      exact ih (fun params hmem => hsub params (mem_cons_of_mem _ hmem)) _
  exact hfold ctx.llmqs (fun _ hmem => hmem) ∅

theorem lookup_activeQuorums {blocks : List B} :
    (ctx.activeQuorums bases).lookup llmqType = some blocks ↔
      ∃ params ∈ ctx.llmqs, params.type = llmqType ∧ bases params = blocks := by
  rw [activeQuorums, lookup_foldl_modifyD ctx.nodup_types fun _ _ => rfl]
  exact or_iff_right (nomatch ·)

def HoldsFor (ctx : RootContext B) (val : LLMQParams → List Uint256)
    (qcHashes : Map LLMQType (List Uint256)) : Prop :=
  ∀ llmqType vec_hashes, qcHashes.lookup llmqType = some vec_hashes ↔
    ∃ params ∈ ctx.llmqs, params.type = llmqType ∧ val params = vec_hashes

theorem exists_hashQuorums (ctx : RootContext B) (p : B) (bases : LLMQParams → List B) :
    ∃ qcHashes, ctx.HoldsFor (ctx.newestHashes p) qcHashes ∧ ∀ q, ctx.Reads p bases q →
      ctx.Coherent (ctx.activeQuorums bases) qcHashes q := by
  let hashes (llmqType : LLMQType) : List Uint256 :=
    ((ctx.getLLMQ llmqType).map (ctx.newestHashes p)).getD []
  have hhashes {params : LLMQParams} (hmem : params ∈ ctx.llmqs) :
      hashes params.type = ctx.newestHashes p params := by
    change ((ctx.getLLMQ params.type).map (ctx.newestHashes p)).getD [] = _
    rw [getLLMQ_of_mem hmem]
    rfl
  refine ⟨((ctx.activeQuorums bases).entries.map Sigma.fst).foldl
    (fun m llmqType => m.insert llmqType (hashes llmqType)) ∅, ?_, ?_⟩
  · intro llmqType vec_hashes
    rw [lookup_foldl_insert]
    have hkeys : llmqType ∈ (ctx.activeQuorums bases).entries.map Sigma.fst ↔
        ∃ params ∈ ctx.llmqs, params.type = llmqType := by
      change llmqType ∈ (ctx.activeQuorums bases).keys ↔ _
      rw [← AList.mem_keys, ← AList.lookup_isSome, isSome_iff_exists]
      simp only [lookup_activeQuorums]
      constructor
      · rintro ⟨-, params, hmem, htype, -⟩
        exact ⟨params, hmem, htype⟩
      · rintro ⟨params, hmem, htype⟩
        exact ⟨bases params, params, hmem, htype, rfl⟩
    by_cases hknown : ∃ params ∈ ctx.llmqs, params.type = llmqType
    · rw [if_pos (hkeys.mpr hknown), some.injEq]
      obtain ⟨params, hmem, rfl⟩ := hknown
      rw [hhashes hmem]
      constructor
      · exact fun heq => ⟨params, hmem, rfl, heq⟩
      · rintro ⟨params', hmem', htype, heq⟩
        rwa [inj_on_of_nodup_map ctx.nodup_types hmem' hmem htype] at heq
    · rw [if_neg (fun h => hknown (hkeys.mp h))]
      refine ⟨(nomatch ·), ?_⟩
      rintro ⟨params, hmem, htype, -⟩
      exact absurd ⟨params, hmem, htype⟩ hknown
  · intro q hreads
    refine hashQuorums_eq ?_
    rintro ⟨llmqType, blocks⟩ hentry
    obtain ⟨params, hmem, rfl, rfl⟩ := lookup_activeQuorums.mp (mem_lookup_iff.mpr hentry)
    rw [hashCommitments_eq (hreads params hmem).2, hhashes hmem]
    rfl

variable [DecidableEq B]

theorem getQcHashes_spec (hreads : ctx.Reads p bases s.toQuorumState)
    (hcoherent : ctx.Coherent s.m_quorums_cached s.m_qc_hashes_cached s.toQuorumState) :
    ∃ qcHashes t, ctx.getQcHashes s p = some (some qcHashes, t) ∧ ctx.HoldsFor (ctx.newestHashes p) qcHashes ∧
      t.toQuorumState = s.toQuorumState ∧
      (t = s ∨ ∀ q, ctx.Reads p bases q →
        ctx.Coherent t.m_quorums_cached t.m_qc_hashes_cached q) := by
  obtain ⟨qcHashes, hholds, hcompute⟩ := exists_hashQuorums ctx p bases
  have hloop := hcompute s.toQuorumState hreads
  unfold getQcHashes
  rw [hreads.getActive]
  by_cases hhit : (ctx.activeQuorums bases).entries = s.m_quorums_cached.entries
  · refine ⟨s.m_qc_hashes_cached, s, if_pos hhit, ?_, rfl, Or.inl rfl⟩
    rw [ext hhit] at hloop
    rwa [← (Prod.mk.inj (hloop.symm.trans hcoherent)).1]
  · refine ⟨qcHashes, { s with
      m_quorums_cached := ctx.activeQuorums bases, m_qc_hashes_cached := qcHashes },
      (if_neg hhit).trans ?_, hholds, rfl, Or.inr hcompute⟩
    rw [hloop]
    rfl

end RootContext

end Defcon.Llmq
