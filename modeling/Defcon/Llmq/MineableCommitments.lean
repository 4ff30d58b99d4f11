import Defcon.Llmq.MinedCycles

/-!
# Blocks that fail to connect and the quorum block processor

`ProcessBlock` writes its records into the transaction of the database that `ConnectBlock` runs in,
and drops commitments from the pool of the mineable ones right away. When the block fails
afterwards the transaction is rolled back; the pool is not. What the processor answers later is
unchanged when the pool knew nothing of the commitments of the block.
-/

namespace Defcon.Llmq

open List
open AList (Map)

variable {B : Type}

/-! ### The pool of mineable commitments -/

/-- `CQuorumBlockProcessor` with its pool of commitments that can be mined. -/
structure CQuorumBlockProcessor (B : Type) extends QuorumState B where
  minableCommitmentsByQuorum : Map (LLMQType × Uint256) Uint256 := ∅
  minableCommitments : Map Uint256 CFinalCommitment := ∅

/-- The block processor on a network, where `serializeHash` is `SerializeHash` of a commitment. -/
structure ProcessorContext (B : Type) extends Network B where
  serializeHash : CFinalCommitment → Uint256

instance : Coe (CQuorumBlockProcessor B) (QuorumState B) := ⟨CQuorumBlockProcessor.toQuorumState⟩

instance : Coe (ProcessorContext B) (Network B) := ⟨ProcessorContext.toNetwork⟩

variable (ctx : ProcessorContext B) (s : CQuorumBlockProcessor B)

/-- `ProcessCommitment`. A recorded commitment is not mineable any more. -/
def ProcessorContext.processCommitment (nHeight : Nat) (blockHash : Uint256) (qc : CFinalCommitment)
    (fBLSChecks : Bool) : Except String Unit × CQuorumBlockProcessor B :=
  match Llmq.processCommitment ctx s nHeight blockHash qc false
      fBLSChecks with
  | (.error e, q) => (.error e, { s with toQuorumState := q })
  | (.ok (), q) =>
    if qc.isNull then (.ok (), { s with toQuorumState := q })
    else
      (.ok (),
        { toQuorumState := q
          minableCommitmentsByQuorum :=
            s.minableCommitmentsByQuorum.erase (qc.llmqType, qc.quorumHash)
          minableCommitments := s.minableCommitments.erase (ctx.serializeHash qc) })

def ProcessorContext.processCommitments (nHeight : Nat) (blockHash : Uint256) (fBLSChecks : Bool) :
    CQuorumBlockProcessor B → List CFinalCommitment →
      Except String Unit × CQuorumBlockProcessor B
  | s, [] => (.ok (), s)
  | s, qc :: rest =>
    match ctx.processCommitment s nHeight blockHash qc fBLSChecks with
    | (.error e, s) => (.error e, s)
    | (.ok (), s) => processCommitments nHeight blockHash fBLSChecks s rest

def ProcessorContext.processBlock (pindex : B) (fBLSChecks : Bool) :
    Except String Unit × CQuorumBlockProcessor B :=
  if ctx.tree.height pindex < ctx.DIP0003Height then (.ok (), s)
  else
    match ctx.getCommitmentsFromBlock pindex with
    | .error e => (.error e, s)
    | .ok qcs =>
      let enabled := ((ctx.tree.parent pindex).map ctx.getEnabledQuorumParams).getD []
      match checkCommitmentCounts ctx (ctx.tree.height pindex) qcs
          s enabled with
      | (.error e, q) => (.error e, { s with toQuorumState := q })
      | (.ok (), q) =>
        ctx.processCommitments (ctx.tree.height pindex) (ctx.getBlockHash pindex) fBLSChecks
          { s with toQuorumState := q } qcs

/-- `AddMineableCommitment`, with the hash that is relayed. `std::map::at` throws. -/
def ProcessorContext.addMineableCommitment (fqc : CFinalCommitment) :
    Except String (Option Uint256 × CQuorumBlockProcessor B) :=
  let commitmentHash := ctx.serializeHash fqc
  let k := (fqc.llmqType, fqc.quorumHash)
  match s.minableCommitmentsByQuorum.lookup k with
  | none =>
    .ok (some commitmentHash,
      { s with
        minableCommitmentsByQuorum := s.minableCommitmentsByQuorum.insert k commitmentHash
        minableCommitments := s.minableCommitments.emplace commitmentHash fqc })
  | some insertedQuorumHash =>
    match s.minableCommitments.lookup insertedQuorumHash with
    | none => .error "map::at"
    | some old =>
      if old.countSigners < fqc.countSigners then
        .ok (some commitmentHash,
          { s with
            minableCommitmentsByQuorum := s.minableCommitmentsByQuorum.insert k commitmentHash
            minableCommitments :=
              (s.minableCommitments.erase insertedQuorumHash).emplace commitmentHash fqc })
      else .ok (none, s)

/-- `CFinalCommitment(params, quorumHash)` with the version of the block after `pindex`. -/
def ProcessorContext.nullCommitmentFor (params : LLMQParams) (quorumHash : Uint256)
    (basic_bls_enabled : Bool) : CFinalCommitment :=
  { nVersion := if basic_bls_enabled then 3 else 1
    llmqType := params.type
    quorumHash := quorumHash
    quorumIndex := 0
    signers := List.replicate params.size false
    validMembers := List.replicate params.size false
    quorumPublicKey := none
    quorumVvecHash := 0
    quorumSig := none
    membersSig := none }

/-- `GetMineableCommitments`, for a block on top of the active chain or of a block on it. -/
def ProcessorContext.getMineableCommitments (params : LLMQParams) (nHeight : Nat) :
    Except String (Option (List CFinalCommitment)) × CQuorumBlockProcessor B :=
  let (required, q) := getNumCommitmentsRequired ctx.toQuorumContext s.toQuorumState params nHeight
  let s := { s with toQuorumState := q }
  if required = 0 then (.ok none, s)
  else
    match s.tip with
    | none => (.error "assert", s)
    | some tip =>
      let pindex :=
        if ctx.tree.height tip < nHeight then some tip else ctx.tree.ancestorAt tip nHeight
      let basic_bls_enabled := (pindex.map ctx.isV19ActiveAfter).getD false
      let quorumHash := getQuorumBlockHash ctx.toQuorumContext s.toQuorumState params nHeight 0
      let (mined, q) := hasMinedCommitment ctx.toQuorumContext s.toQuorumState params.type quorumHash
      let s := { s with toQuorumState := q }
      if quorumHash = 0 ∨ mined then (.ok none, s)
      else
        match s.minableCommitmentsByQuorum.lookup (params.type, quorumHash) with
        | none => (.ok (some [nullCommitmentFor params quorumHash basic_bls_enabled]), s)
        | some hash =>
          match s.minableCommitments.lookup hash with
          | none => (.error "map::at", s)
          | some cf => (.ok (some [cf]), s)

def getMinedCommitment (llmqType : LLMQType) (quorumHash : Uint256) :
    Option (CFinalCommitment × Uint256) :=
  s.minedCommitments.lookup (llmqType, quorumHash)

/-- The loop of `UndoBlock`. An undone commitment goes back into the pool. -/
def ProcessorContext.undoCommitments (nHeight : Nat) :
    CQuorumBlockProcessor B → List CFinalCommitment →
      Except String Unit × CQuorumBlockProcessor B
  | s, [] => (.ok (), s)
  | s, qc :: rest =>
    if qc.isNull then undoCommitments nHeight s rest
    else
      let s := { s with toQuorumState := undoCommitment nHeight s qc }
      match ctx.addMineableCommitment s qc with
      | .error what => (.error what, s)
      | .ok (_, s) => undoCommitments nHeight s rest

/-! ### Calls -/

inductive ProcessorCall (B : Type) where
  | hasMinedCommitment (llmqType : LLMQType) (quorumHash : Uint256)
  | getMinedCommitment (llmqType : LLMQType) (quorumHash : Uint256)
  | getMineableCommitments (params : LLMQParams) (nHeight : Nat)
  | addMineableCommitment (fqc : CFinalCommitment)
  /-- `ProcessBlock` of a block that goes on to be connected if it is accepted. -/
  | connect (pindex : B) (fBLSChecks : Bool)
  | disconnect

inductive Answer where
  | exists (fExists : Bool)
  | mined (found : Option (CFinalCommitment × Uint256))
  | mineable (commitments : Except String (Option (List CFinalCommitment)))
  | relayed (inv : Except String (Option Uint256))
  | done (result : Except String Unit)

def rollback (before after : CQuorumBlockProcessor B) : CQuorumBlockProcessor B :=
  { after with
    minedCommitments := before.minedCommitments
    minedByHeight := before.minedByHeight }

def ProcessorContext.call : ProcessorCall B → Answer × CQuorumBlockProcessor B
  | .hasMinedCommitment llmqType quorumHash =>
    let (fExists, q) := hasMinedCommitment ctx.toQuorumContext s.toQuorumState llmqType quorumHash
    (.exists fExists, { s with toQuorumState := q })
  | .getMinedCommitment llmqType quorumHash =>
    (.mined (Llmq.getMinedCommitment s llmqType quorumHash), s)
  | .getMineableCommitments params nHeight =>
    let (commitments, s) := ctx.getMineableCommitments s params nHeight
    (.mineable commitments, s)
  | .addMineableCommitment fqc =>
    match ctx.addMineableCommitment s fqc with
    | .error what => (.relayed (.error what), s)
    | .ok (inv, s) => (.relayed (.ok inv), s)
  | .connect pindex fBLSChecks =>
    match ctx.processBlock s pindex fBLSChecks with
    | (.error e, after) => (.done (.error e), rollback s after)
    | (.ok (), after) => (.done (.ok ()), { after with tip := some pindex })
  | .disconnect =>
    match s.tip with
    | none => (.done (.error ""), s)
    | some pindex =>
      match ctx.getCommitmentsFromBlock pindex with
      | .error e => (.done (.error e), s)
      | .ok qcs =>
        match ctx.undoCommitments (ctx.tree.height pindex) s qcs with
        | (.error e, after) => (.done (.error e), rollback s after)
        | (.ok (), after) => (.done (.ok ()), { after with tip := ctx.tree.parent pindex })

def ProcessorContext.answers (s : CQuorumBlockProcessor B) : List (ProcessorCall B) → List Answer
  | [] => []
  | call :: calls => (ctx.call s call).1 :: answers (ctx.call s call).2 calls

/-! ### A block that fails to connect -/

/-- What `ConnectBlock` does with a block until it fails, and what is asked for in between. -/
structure FailedBlock (B : Type) where
  pindex : B
  fBLSChecks : Bool
  /-- `CheckSpecialTxInner` has accepted every transaction. -/
  checked : Bool
  lookups : List (LLMQType × Uint256)

/-- The processor after the transaction of the database has been rolled back. -/
def ProcessorContext.failToConnect (block : FailedBlock B) : CQuorumBlockProcessor B :=
  if !block.checked then s
  else
    let after := (ctx.processBlock s block.pindex block.fBLSChecks).2
    let after :=
      { after with
        toQuorumState := block.lookups.foldl (fun q k =>
          (hasMinedCommitment ctx q k.1 k.2).2) after }
    rollback s after

/-! ### States that answer alike -/

/-- The states differ in cached answers only, and these agree with the database. -/
structure SameRecords (s t : QuorumState B) : Prop where
  tip : t.tip = s.tip
  minedCommitments : t.minedCommitments = s.minedCommitments
  minedByHeight : t.minedByHeight = s.minedByHeight
  agrees : HasMinedAgrees s
  agrees' : HasMinedAgrees t

structure Alike (s t : CQuorumBlockProcessor B) : Prop where
  records : SameRecords s.toQuorumState t.toQuorumState
  byQuorum : t.minableCommitmentsByQuorum = s.minableCommitmentsByQuorum
  commitments : t.minableCommitments = s.minableCommitments

section Congruence

variable {ctx} {s t s' t' : QuorumState B} {params : LLMQParams} {nHeight : Nat}
  {qc : CFinalCommitment} {qcs : List CFinalCommitment} {blockHash : Uint256} {fBLSChecks : Bool}

section

variable (hsame : SameRecords s t)

include hsame

theorem SameRecords.onlyHasMined (hs : OnlyHasMined s s') (ht : OnlyHasMined t t') :
    SameRecords s' t' where
  tip := by rw [ht.tip, hs.tip, hsame.tip]
  minedCommitments := by rw [ht.minedCommitments, hs.minedCommitments, hsame.minedCommitments]
  minedByHeight := by rw [ht.minedByHeight, hs.minedByHeight, hsame.minedByHeight]
  agrees := hs.agrees hsame.agrees
  agrees' := ht.agrees hsame.agrees'

theorem SameRecords.hasMined (llmqType : LLMQType) (quorumHash : Uint256) :
    (hasMinedCommitment ctx t llmqType quorumHash).1 =
        (hasMinedCommitment ctx s llmqType quorumHash).1 ∧
      SameRecords (hasMinedCommitment ctx s llmqType quorumHash).2
        (hasMinedCommitment ctx t llmqType quorumHash).2 := by
  refine ⟨?_, hsame.onlyHasMined (onlyHasMined_hasMinedCommitment _ _ _ _)
    (onlyHasMined_hasMinedCommitment _ _ _ _)⟩
  by_cases hknown : ctx.getLLMQ llmqType = none
  · rw [hasMinedCommitment, hasMinedCommitment, if_pos hknown, if_pos hknown]
  · rw [Bool.eq_iff_iff, hasMinedCommitment_fst _ hsame.agrees' hknown,
      hasMinedCommitment_fst _ hsame.agrees hknown, hsame.minedCommitments]

theorem SameRecords.quorumHash_eq (quorumIndex : Int) :
    getQuorumBlockHash ctx t params nHeight quorumIndex =
      getQuorumBlockHash ctx s params nHeight quorumIndex :=
  getQuorumBlockHash_of_tip hsame.tip

theorem SameRecords.numRequired :
    (getNumCommitmentsRequired ctx t params nHeight).1 =
        (getNumCommitmentsRequired ctx s params nHeight).1 ∧
      SameRecords (getNumCommitmentsRequired ctx s params nHeight).2
        (getNumCommitmentsRequired ctx t params nHeight).2 := by
  refine ⟨?_, hsame.onlyHasMined (onlyHasMined_getNumCommitmentsRequired _ _ _)
    (onlyHasMined_getNumCommitmentsRequired _ _ _)⟩
  unfold getNumCommitmentsRequired
  split
  · simp only [hsame.quorumHash_eq]
    split
    · rfl
    · simp only [(hsame.hasMined _ _).1]
  · rfl

theorem SameRecords.counts (enabled : List LLMQParams) :
    (checkCommitmentCounts ctx nHeight qcs t enabled).1 =
        (checkCommitmentCounts ctx nHeight qcs s enabled).1 ∧
      SameRecords (checkCommitmentCounts ctx nHeight qcs s enabled).2
        (checkCommitmentCounts ctx nHeight qcs t enabled).2 := by
  refine ⟨?_, hsame.onlyHasMined (onlyHasMined_checkCommitmentCounts _ _ _ _)
    (onlyHasMined_checkCommitmentCounts _ _ _ _)⟩
  induction enabled generalizing s t with
  | nil => rfl
  | cons params rest ih =>
    obtain ⟨hnum, hnext⟩ := @SameRecords.numRequired _ ctx s t params nHeight hsame
    simp only [checkCommitmentCounts, hsame.tip, hnum]
    split
    · rfl
    split
    · rfl
    split
    · rfl
    exact ih hnext

theorem SameRecords.record (baseHeight : Nat) :
    SameRecords (recordCommitment s nHeight blockHash qc baseHeight)
      (recordCommitment t nHeight blockHash qc baseHeight) where
  tip := hsame.tip
  minedCommitments := by rw [recordCommitment, recordCommitment, hsame.minedCommitments]
  minedByHeight := by rw [recordCommitment, recordCommitment, hsame.minedByHeight]
  agrees := hasMinedAgrees_recordCommitment hsame.agrees _ _ _ _
  agrees' := hasMinedAgrees_recordCommitment hsame.agrees' _ _ _ _

theorem SameRecords.commitment :
    (processCommitment ctx t nHeight blockHash qc false fBLSChecks).1 =
        (processCommitment ctx s nHeight blockHash qc false fBLSChecks).1 ∧
      SameRecords (processCommitment ctx s nHeight blockHash qc false fBLSChecks).2
        (processCommitment ctx t nHeight blockHash qc false fBLSChecks).2 := by
  unfold processCommitment
  cases ctx.getLLMQ qc.llmqType with
  | none => exact ⟨rfl, hsame⟩
  | some params =>
    simp only [hsame.tip, hsame.quorumHash_eq]
    generalize (if s.tip.isNone then qc.quorumHash
      else getQuorumBlockHash ctx s params nHeight qc.quorumIndex) = quorumHash
    obtain ⟨hmined, hnext⟩ := @SameRecords.hasMined _ ctx s t hsame params.type quorumHash
    split
    · exact ⟨rfl, hsame⟩
    split
    · exact ⟨rfl, hsame⟩
    split
    · exact ⟨rfl, hsame⟩
    rw [hmined]
    split
    · exact ⟨rfl, hnext⟩
    split
    · exact ⟨rfl, hnext⟩
    split
    · exact ⟨rfl, hnext⟩
    split
    · exact ⟨rfl, hnext⟩
    · exact ⟨rfl, hnext.record _⟩

end

end Congruence

/-! ### Taking changes back -/

section Rollback

variable {ctx} {s t : QuorumState B} {records : Map (LLMQType × Uint256) (CFinalCommitment × Uint256)}
  {keys : Set (LLMQType × Uint256)} {nHeight : Nat} {qc : CFinalCommitment} {blockHash : Uint256}
  {fBLSChecks : Bool}

/-- Only records under `keys` have changed since `records`, nothing is cached for these, and what
is cached agrees with `records`. -/
structure Touched (records : Map (LLMQType × Uint256) (CFinalCommitment × Uint256))
    (keys : Set (LLMQType × Uint256)) (s : QuorumState B) : Prop where
  mem_iff : ∀ k ∉ keys, (k ∈ s.minedCommitments ↔ k ∈ records)
  cached : ∀ {llmqType quorumHash fExists},
    (s.mapHasMinedCommitmentCache llmqType).find quorumHash = some fExists →
      (llmqType, quorumHash) ∉ keys ∧ (fExists = true ↔ (llmqType, quorumHash) ∈ records)

theorem HasMinedAgrees.touched (hagree : HasMinedAgrees s) :
    Touched s.minedCommitments ∅ s where
  mem_iff _ _ := Iff.rfl
  cached hfind := ⟨Set.notMem_empty _, hagree hfind⟩

section

variable (htouched : Touched records keys s)

include htouched

theorem Touched.hasMined {llmqType : LLMQType} {quorumHash : Uint256}
    (hkey : (llmqType, quorumHash) ∉ keys) :
    Touched records keys (hasMinedCommitment ctx s llmqType quorumHash).2 := by
  obtain ⟨caches, hstate, hcached⟩ := hasMinedCommitment_snd ctx s llmqType quorumHash
  rw [hstate]
  refine ⟨htouched.mem_iff, fun {type' hash' fExists} hfind => ?_⟩
  rcases hcached hfind with ⟨hasked, rfl⟩ | hold
  · rw [hasked, decide_eq_true_iff, htouched.mem_iff _ hkey]
    exact ⟨hkey, Iff.rfl⟩
  · exact htouched.cached hold

theorem Touched.change {llmqType : LLMQType} {quorumHash : Uint256}
    (hcache : t.mapHasMinedCommitmentCache = Function.update s.mapHasMinedCommitmentCache llmqType
      ((s.mapHasMinedCommitmentCache llmqType).erase quorumHash))
    (hmem : ∀ k ≠ (llmqType, quorumHash), (k ∈ t.minedCommitments ↔ k ∈ s.minedCommitments)) :
    Touched records (insert (llmqType, quorumHash) keys) t := by
  refine ⟨?_, ?_⟩
  · intro k hk
    rw [Set.mem_insert_iff, not_or] at hk
    rw [hmem k hk.1, htouched.mem_iff k hk.2]
  · intro type' hash' fExists hfind
    rw [hcache] at hfind
    obtain ⟨hkey, hold⟩ := find_update_erase hfind
    obtain ⟨hnot, hiff⟩ := htouched.cached hold
    exact ⟨fun hmem => (Set.mem_insert_iff.mp hmem).elim hkey hnot, hiff⟩

theorem Touched.agrees (hrecords : t.minedCommitments = records)
    (hcache : t.mapHasMinedCommitmentCache = s.mapHasMinedCommitmentCache) : HasMinedAgrees t := by
  intro llmqType quorumHash fExists hfind
  rw [hcache] at hfind
  rw [hrecords]
  exact (htouched.cached hfind).2

theorem Touched.commitment (hfresh : ∀ k ∈ keys, k.1 ≠ qc.llmqType) :
    ∃ keys', Touched records keys'
        (processCommitment ctx s nHeight blockHash qc false fBLSChecks).2 ∧
      ∀ k ∈ keys', k ∈ keys ∨ (qc.isNull = false ∧ k = (qc.llmqType, qc.quorumHash)) := by
  have hasked : Touched records keys
      (hasMinedCommitment ctx s qc.llmqType qc.quorumHash).2 :=
    htouched.hasMined fun hk => hfresh _ hk rfl
  have hprocessed := processed_processCommitment ctx s nHeight blockHash qc false
    fBLSChecks
  generalize processCommitment ctx s nHeight blockHash qc false fBLSChecks = result
    at hprocessed ⊢
  cases hprocessed with
  | refused _ | null _ _ _ => exact ⟨keys, htouched, fun k hk => Or.inl hk⟩
  | refusedAsked _ _ => exact ⟨keys, hasked, fun k hk => Or.inl hk⟩
  | accepted _ _ hnull _ _ _ _ =>
    refine ⟨insert (qc.llmqType, qc.quorumHash) keys, ?_, ?_⟩
    · apply hasked.change rfl
      intro k hk
      simp [recordCommitment, AList.mem_insert, hk]
    · intro k hk
      rcases Set.mem_insert_iff.mp hk with rfl | hold
      · exact Or.inr ⟨hnull, rfl⟩
      · exact Or.inl hold

end

end Rollback

section Processor

variable {ctx} {s t : CQuorumBlockProcessor B}
  {records : Map (LLMQType × Uint256) (CFinalCommitment × Uint256)}
  {keys : Set (LLMQType × Uint256)} {nHeight : Nat} {qc : CFinalCommitment}
  {qcs : List CFinalCommitment} {blockHash : Uint256} {fBLSChecks : Bool} {pindex : B}

theorem toQuorumState_processCommitment :
    (ctx.processCommitment s nHeight blockHash qc fBLSChecks).2.toQuorumState =
      (processCommitment ctx s nHeight blockHash qc false
        fBLSChecks).2 := by
  unfold ProcessorContext.processCommitment
  split
  · rename_i heq
    rw [heq]
  · rename_i heq
    rw [heq]
    split <;> rfl

/-- What a commitment leaves of `P`, a block leaves of it; `P` may depend on the commitments that
are still to come. -/
theorem processBlock_rule {P : List CFinalCommitment → CQuorumBlockProcessor B → Prop}
    (hnone : P [] s)
    (hcounts : ∀ {qcs q}, ctx.DIP0003Height ≤ ctx.tree.height pindex →
      ctx.getCommitmentsFromBlock pindex = .ok qcs → OnlyHasMined s.toQuorumState q →
      P qcs { s with toQuorumState := q })
    (hstep : ∀ {qc qcs u}, P (qc :: qcs) u → P qcs (ctx.processCommitment u
      (ctx.tree.height pindex) (ctx.getBlockHash pindex) qc fBLSChecks).2) :
    ∃ rest, P rest (ctx.processBlock s pindex fBLSChecks).2 := by
  have hloop {qcs} {u : CQuorumBlockProcessor B} (hu : P qcs u) : ∃ rest, P rest
      (ctx.processCommitments (ctx.tree.height pindex) (ctx.getBlockHash pindex) fBLSChecks u
        qcs).2 := by
    induction qcs generalizing u with
    | nil => exact ⟨[], hu⟩
    | cons qc qcs ih =>
      have hhead := hstep hu
      unfold ProcessorContext.processCommitments
      split
      next heq =>
        rw [heq] at hhead
        exact ⟨qcs, hhead⟩
      next heq =>
        rw [heq] at hhead
        exact ih hhead
  unfold ProcessorContext.processBlock
  split
  · exact ⟨[], hnone⟩
  next hheight =>
  split
  · exact ⟨[], hnone⟩
  next qcs hqcs =>
  have honly := @onlyHasMined_checkCommitmentCounts _ ctx.toQuorumContext (ctx.tree.height pindex)
    qcs s.toQuorumState (((ctx.tree.parent pindex).map ctx.getEnabledQuorumParams).getD [])
  have hcounted := hcounts (not_lt.mp hheight) hqcs honly
  dsimp only
  split
  next heq =>
    rw [heq] at hcounted
    exact ⟨qcs, hcounted⟩
  next heq =>
    rw [heq] at hcounted
    exact hloop hcounted

theorem processBlock_touched (hagree : HasMinedAgrees s.toQuorumState) (pindex : B)
    (fBLSChecks : Bool) :
    ∃ keys, Touched s.minedCommitments keys (ctx.processBlock s pindex fBLSChecks).2.toQuorumState ∧
      ∀ k ∈ keys, ∃ qc, Mined ctx.toQuorumContext pindex qc ∧
        k = (qc.llmqType, qc.quorumHash) := by
  -- the commitments to come are of types of which no record has changed yet
  have hrule := @processBlock_rule _ ctx s fBLSChecks pindex
    (fun rest u => (rest.map CFinalCommitment.llmqType).Nodup ∧
      (∀ qc ∈ rest, qc.isNull = false → Mined ctx.toQuorumContext pindex qc) ∧
      ∃ keys, Touched s.minedCommitments keys u.toQuorumState ∧
        ∀ k ∈ keys, (∀ qc ∈ rest, k.1 ≠ qc.llmqType) ∧
          ∃ qc, Mined ctx.toQuorumContext pindex qc ∧ k = (qc.llmqType, qc.quorumHash))
    ⟨nodup_nil, fun _ h => absurd h not_mem_nil, ∅, hagree.touched,
      fun k hk => absurd hk (Set.notMem_empty k)⟩ ?_ ?_
  · obtain ⟨rest, -, -, keys, hkeys, hsub⟩ := hrule
    exact ⟨keys, hkeys, fun k hk => (hsub k hk).2⟩
  · intro qcs q hheight hqcs honly
    have htouched := (honly.agrees hagree).touched
    rw [honly.minedCommitments] at htouched
    exact ⟨(getCommitmentsFromBlock_ok hqcs).1, fun qc hmem hnull => ⟨hheight, ⟨qcs, hqcs, hmem⟩,
      hnull⟩, ∅, htouched, fun k hk => absurd hk (Set.notMem_empty k)⟩
  · rintro qc qcs u ⟨htypes, hmined, keys, htouched, hsub⟩
    rw [map_cons, nodup_cons] at htypes
    rw [forall_mem_cons] at hmined
    obtain ⟨keys', htouched', hsub'⟩ := @Touched.commitment _ ctx u.toQuorumState _ keys
      (ctx.tree.height pindex) qc (ctx.getBlockHash pindex) fBLSChecks htouched
      fun k hk => (hsub k hk).1 qc mem_cons_self
    rw [← toQuorumState_processCommitment] at htouched'
    refine ⟨htypes.2, hmined.2, keys', htouched', fun k hk => ?_⟩
    rcases hsub' k hk with hold | ⟨hnull, rfl⟩
    · exact ⟨fun qc' hmem => (hsub k hold).1 qc' (mem_cons_of_mem _ hmem), (hsub k hold).2⟩
    · refine ⟨fun qc' hmem heq => ?_, qc, hmined.1 hnull, rfl⟩
      exact htypes.1 (mem_map.mpr ⟨qc', hmem, heq.symm⟩)

theorem tip_processBlock : (ctx.processBlock s pindex fBLSChecks).2.tip = s.tip := by
  refine (@processBlock_rule _ ctx s fBLSChecks pindex (fun _ u => u.tip = s.tip) rfl
    (fun _ _ honly => honly.tip) fun {qc _ u} hu => ?_).elim fun _ htip => htip
  have honly := onlyHasMined_hasMinedCommitment ctx.toQuorumContext u.toQuorumState qc.llmqType
    qc.quorumHash
  have hprocessed := processed_processCommitment ctx.toQuorumContext u.toQuorumState
    (ctx.tree.height pindex) (ctx.getBlockHash pindex) qc false fBLSChecks
  rw [toQuorumState_processCommitment]
  generalize Llmq.processCommitment ctx.toQuorumContext u.toQuorumState (ctx.tree.height pindex)
    (ctx.getBlockHash pindex) qc false fBLSChecks = result at hprocessed ⊢
  cases hprocessed with
  | refusedAsked _ _ | accepted _ _ _ _ _ _ _ => exact honly.tip.trans hu
  | _ => exact hu

/-! ### The pool -/

def Unpooled (ctx : ProcessorContext B) (s : CQuorumBlockProcessor B) (qc : CFinalCommitment) : Prop :=
  (qc.llmqType, qc.quorumHash) ∉ s.minableCommitmentsByQuorum ∧
    ctx.serializeHash qc ∉ s.minableCommitments

def SamePool (s t : CQuorumBlockProcessor B) : Prop :=
  t.minableCommitmentsByQuorum = s.minableCommitmentsByQuorum ∧
    t.minableCommitments = s.minableCommitments

theorem erase_of_notMem {κ ν : Type} [DecidableEq κ] {m : Map κ ν} {k : κ} (hk : k ∉ m) :
    m.erase k = m :=
  AList.ext (kerase_of_notMem_keys hk)

theorem samePool_processCommitment (hpool : qc.isNull = false → Unpooled ctx s qc) :
    SamePool s (ctx.processCommitment s nHeight blockHash qc fBLSChecks).2 := by
  unfold ProcessorContext.processCommitment
  split
  · exact ⟨rfl, rfl⟩
  · split
    · exact ⟨rfl, rfl⟩
    · rename_i hnull
      obtain ⟨hquorum, hcommitment⟩ := hpool (by simpa using hnull)
      exact ⟨erase_of_notMem hquorum, erase_of_notMem hcommitment⟩

theorem samePool_processBlock
    (hpool : ∀ qc, Mined ctx pindex qc → Unpooled ctx s qc) :
    SamePool s (ctx.processBlock s pindex fBLSChecks).2 := by
  refine (@processBlock_rule _ ctx s fBLSChecks pindex
    (fun qcs u => SamePool s u ∧ ∀ qc ∈ qcs, qc.isNull = false → Unpooled ctx s qc)
    ⟨⟨rfl, rfl⟩, fun _ h => absurd h not_mem_nil⟩ (fun {qcs q} hheight hqcs _ => ⟨⟨rfl, rfl⟩,
      fun qc hmem hnull => hpool qc ⟨hheight, ⟨qcs, hqcs, hmem⟩, hnull⟩⟩)
    fun {qc qcs u} ⟨hu, hqcs⟩ => ?_).elim fun _ hsame => hsame.1
  rw [forall_mem_cons] at hqcs
  have hhead := @samePool_processCommitment _ ctx u (ctx.tree.height pindex) qc
    (ctx.getBlockHash pindex) fBLSChecks fun hnull => by
      rw [Unpooled, hu.1, hu.2]
      exact hqcs.1 hnull
  exact ⟨⟨hhead.1.trans hu.1, hhead.2.trans hu.2⟩, hqcs.2⟩

/-! ### Alike states give the same answers -/

def Agree {α : Type} (alike : CQuorumBlockProcessor B → CQuorumBlockProcessor B → Prop)
    (left right : α × CQuorumBlockProcessor B) : Prop :=
  right.1 = left.1 ∧ alike left.2 right.2

theorem exists_of_fst_eq {α σ : Type} {R : σ → σ → Prop} {left right : α × σ}
    (hagree : right.1 = left.1 ∧ R left.2 right.2) :
    ∃ a s t, left = (a, s) ∧ right = (a, t) ∧ R s t :=
  ⟨left.1, left.2, right.2, rfl, Prod.ext hagree.1 rfl, hagree.2⟩

section

variable (halike : Alike s t)

include halike

theorem Alike.commitment :
    Agree Alike (ctx.processCommitment s nHeight blockHash qc fBLSChecks)
      (ctx.processCommitment t nHeight blockHash qc fBLSChecks) := by
  obtain ⟨result, q, q', hs, ht, hrecords⟩ := exists_of_fst_eq (@SameRecords.commitment _ ctx
    s.toQuorumState t.toQuorumState nHeight qc blockHash fBLSChecks halike.records)
  rw [ProcessorContext.processCommitment, ProcessorContext.processCommitment, hs, ht]
  cases result with
  | error e => exact ⟨rfl, hrecords, halike.byQuorum, halike.commitments⟩
  | ok u =>
    dsimp only
    split
    · exact ⟨rfl, hrecords, halike.byQuorum, halike.commitments⟩
    · exact ⟨rfl, hrecords, by rw [halike.byQuorum], by rw [halike.commitments]⟩

theorem Alike.process :
    Agree Alike (ctx.processCommitments nHeight blockHash fBLSChecks s qcs)
      (ctx.processCommitments nHeight blockHash fBLSChecks t qcs) := by
  induction qcs generalizing s t with
  | nil => exact ⟨rfl, halike⟩
  | cons qc qcs ih =>
    obtain ⟨result, s', t', hs, ht, hnext⟩ := exists_of_fst_eq (@Alike.commitment _ ctx s t nHeight
      qc blockHash fBLSChecks halike)
    rw [ProcessorContext.processCommitments, ProcessorContext.processCommitments, hs, ht]
    cases result with
    | error e => exact ⟨rfl, hnext⟩
    | ok u => exact ih hnext

theorem Alike.block :
    Agree Alike (ctx.processBlock s pindex fBLSChecks) (ctx.processBlock t pindex fBLSChecks) := by
  unfold ProcessorContext.processBlock
  split
  · exact ⟨rfl, halike⟩
  cases ctx.getCommitmentsFromBlock pindex with
  | error e => exact ⟨rfl, halike⟩
  | ok qcs =>
    obtain ⟨result, q, q', hs, ht, hrecords⟩ := exists_of_fst_eq (@SameRecords.counts _ ctx
      s.toQuorumState t.toQuorumState (ctx.tree.height pindex) qcs halike.records
      (((ctx.tree.parent pindex).map ctx.getEnabledQuorumParams).getD []))
    dsimp only
    rw [hs, ht]
    cases result with
    | error e => exact ⟨rfl, hrecords, halike.byQuorum, halike.commitments⟩
    | ok u => exact Alike.process ⟨hrecords, halike.byQuorum, halike.commitments⟩

theorem Alike.addMineable (fqc : CFinalCommitment) :
    (∃ what, ctx.addMineableCommitment s fqc = .error what ∧
        ctx.addMineableCommitment t fqc = .error what) ∨
      ∃ inv s' t', ctx.addMineableCommitment s fqc = .ok (inv, s') ∧
        ctx.addMineableCommitment t fqc = .ok (inv, t') ∧ Alike s' t' := by
  unfold ProcessorContext.addMineableCommitment
  dsimp only
  rw [halike.byQuorum, halike.commitments]
  split
  · exact Or.inr ⟨_, _, _, rfl, rfl, halike.records, rfl, rfl⟩
  split
  · exact Or.inl ⟨_, rfl, rfl⟩
  split
  · exact Or.inr ⟨_, _, _, rfl, rfl, halike.records, rfl, rfl⟩
  · exact Or.inr ⟨_, _, _, rfl, rfl, halike⟩

theorem Alike.mineable (params : LLMQParams) :
    Agree Alike (ctx.getMineableCommitments s params nHeight)
      (ctx.getMineableCommitments t params nHeight) := by
  obtain ⟨required, q, q', hs, ht, hrecords⟩ := exists_of_fst_eq (@SameRecords.numRequired _ ctx
    s.toQuorumState t.toQuorumState params nHeight halike.records)
  rw [ProcessorContext.getMineableCommitments, ProcessorContext.getMineableCommitments, hs, ht]
  dsimp only
  split
  · exact ⟨rfl, hrecords, halike.byQuorum, halike.commitments⟩
  rw [hrecords.tip]
  cases q.tip with
  | none => exact ⟨rfl, hrecords, halike.byQuorum, halike.commitments⟩
  | some tip =>
    dsimp only
    rw [hrecords.quorumHash_eq]
    generalize getQuorumBlockHash ctx.toQuorumContext q params nHeight 0 = quorumHash
    obtain ⟨hmined, hasked⟩ := @SameRecords.hasMined _ ctx q q' hrecords params.type quorumHash
    rw [hmined, halike.byQuorum, halike.commitments]
    split
    · exact ⟨rfl, hasked, rfl, rfl⟩
    split
    · exact ⟨rfl, hasked, rfl, rfl⟩
    split
    · exact ⟨rfl, hasked, rfl, rfl⟩
    · exact ⟨rfl, hasked, rfl, rfl⟩

end

theorem SameRecords.undo {q q' : QuorumState B} (hsame : SameRecords q q') :
    SameRecords (undoCommitment nHeight q qc) (undoCommitment nHeight q' qc) := by
  have hagrees {u : QuorumState B} (hu : HasMinedAgrees u) :
      HasMinedAgrees (undoCommitment nHeight u qc) :=
    (disconnected_undoCommitment nHeight u qc).agrees hu
  refine ⟨?_, ?_, ?_, hagrees hsame.agrees, hagrees hsame.agrees'⟩
  · unfold undoCommitment
    split <;> exact hsame.tip
  · unfold undoCommitment
    split
    · exact hsame.minedCommitments
    · rw [hsame.minedCommitments]
  · unfold undoCommitment
    split
    · exact hsame.minedByHeight
    · rw [hsame.minedByHeight]

theorem Alike.undo (halike : Alike s t) :
    Agree Alike (ctx.undoCommitments nHeight s qcs) (ctx.undoCommitments nHeight t qcs) := by
  induction qcs generalizing s t with
  | nil => exact ⟨rfl, halike⟩
  | cons qc qcs ih =>
    unfold ProcessorContext.undoCommitments
    split
    · exact ih halike
    · have hundone : Alike
          { s with toQuorumState := undoCommitment nHeight s.toQuorumState qc }
          { t with toQuorumState := undoCommitment nHeight t.toQuorumState qc } :=
        ⟨halike.records.undo, halike.byQuorum, halike.commitments⟩
      rcases @Alike.addMineable _ ctx _ _ hundone qc with
        ⟨what, hs, ht⟩ | ⟨inv, s', t', hs, ht, hnext⟩
      · simp only [hs, ht]
        exact ⟨rfl, hundone⟩
      · simp only [hs, ht]
        exact ih hnext

theorem undoCommitments_touched (htouched : Touched records keys s.toQuorumState) :
    ∃ keys', Touched records keys' (ctx.undoCommitments nHeight s qcs).2.toQuorumState := by
  induction qcs generalizing s keys with
  | nil => exact ⟨keys, htouched⟩
  | cons qc qcs ih =>
    unfold ProcessorContext.undoCommitments
    split
    · exact ih htouched
    · rename_i hnull
      have hundone : Touched records (insert (qc.llmqType, qc.quorumHash) keys)
          (undoCommitment nHeight s.toQuorumState qc) := by
        unfold undoCommitment
        rw [if_neg hnull]
        apply htouched.change rfl
        intro k hk
        simp [AList.mem_erase, hk]
      dsimp only
      split
      · exact ⟨_, hundone⟩
      · rename_i inv s' heq
        have hsame : s'.toQuorumState = undoCommitment nHeight s.toQuorumState qc := by
          unfold ProcessorContext.addMineableCommitment at heq
          dsimp only at heq
          split at heq
          · cases heq
            rfl
          split at heq
          · cases heq
          split at heq
          · cases heq
            rfl
          · cases heq
            rfl
        exact ih (by rwa [hsame])

theorem Alike.rollback {after after' : CQuorumBlockProcessor B} {keys' : Set (LLMQType × Uint256)}
    (halike : Alike s t) (hafter : Alike after after')
    (hs : Touched s.minedCommitments keys after.toQuorumState)
    (ht : Touched t.minedCommitments keys' after'.toQuorumState) :
    Alike (rollback s after) (rollback t after') where
  records :=
    { tip := hafter.records.tip
      minedCommitments := halike.records.minedCommitments
      minedByHeight := halike.records.minedByHeight
      agrees := hs.agrees rfl rfl
      agrees' := ht.agrees rfl rfl }
  byQuorum := hafter.byQuorum
  commitments := hafter.commitments

theorem Alike.moved (halike : Alike s t) (tip : Option B) :
    Alike { s with tip := tip } { t with tip := tip } :=
  ⟨⟨rfl, halike.records.minedCommitments, halike.records.minedByHeight, halike.records.agrees,
    halike.records.agrees'⟩, halike.byQuorum, halike.commitments⟩

theorem Alike.call (halike : Alike s t) (call : ProcessorCall B) :
    Agree Alike (ctx.call s call) (ctx.call t call) := by
  cases call with
  | hasMinedCommitment llmqType quorumHash =>
    obtain ⟨hmined, hrecords⟩ := @SameRecords.hasMined _ ctx _ _ halike.records llmqType quorumHash
    exact ⟨congrArg Answer.exists hmined, hrecords, halike.byQuorum, halike.commitments⟩
  | getMinedCommitment llmqType quorumHash =>
    refine ⟨?_, halike⟩
    simp only [ProcessorContext.call, getMinedCommitment, halike.records.minedCommitments]
  | getMineableCommitments params nHeight =>
    obtain ⟨hanswer, hnext⟩ := @Alike.mineable _ ctx s t nHeight halike params
    exact ⟨congrArg Answer.mineable hanswer, hnext⟩
  | addMineableCommitment fqc =>
    simp only [ProcessorContext.call]
    rcases @Alike.addMineable _ ctx s t halike fqc with
      ⟨what, hs, ht⟩ | ⟨inv, s', t', hs, ht, hnext⟩
    · rw [hs, ht]
      exact ⟨rfl, halike⟩
    · rw [hs, ht]
      exact ⟨rfl, hnext⟩
  | connect pindex fBLSChecks =>
    obtain ⟨result, after, after', hl, hr, hafter⟩ :=
      exists_of_fst_eq (@Alike.block _ ctx s t fBLSChecks pindex halike)
    obtain ⟨keys, hs, -⟩ := @processBlock_touched _ ctx s halike.records.agrees pindex fBLSChecks
    obtain ⟨keys', ht, -⟩ := @processBlock_touched _ ctx t halike.records.agrees' pindex fBLSChecks
    rw [hl] at hs
    rw [hr] at ht
    simp only [ProcessorContext.call, hl, hr]
    cases result with
    | error e => exact ⟨rfl, halike.rollback hafter hs ht⟩
    | ok u => exact ⟨rfl, hafter.moved (some pindex)⟩
  | disconnect =>
    simp only [ProcessorContext.call, halike.records.tip]
    cases s.tip with
    | none => exact ⟨rfl, halike⟩
    | some pindex =>
      dsimp only
      cases ctx.getCommitmentsFromBlock pindex with
      | error e => exact ⟨rfl, halike⟩
      | ok qcs =>
        obtain ⟨result, after, after', hl, hr, hafter⟩ :=
          exists_of_fst_eq (@Alike.undo _ ctx s t (ctx.tree.height pindex) qcs halike)
        obtain ⟨keys, hs⟩ := @undoCommitments_touched _ ctx s _ _ (ctx.tree.height pindex) qcs
          halike.records.agrees.touched
        obtain ⟨keys', ht⟩ := @undoCommitments_touched _ ctx t _ _ (ctx.tree.height pindex) qcs
          halike.records.agrees'.touched
        rw [hl] at hs
        rw [hr] at ht
        simp only [hl, hr]
        cases result with
        | error e => exact ⟨rfl, halike.rollback hafter hs ht⟩
        | ok u => exact ⟨rfl, hafter.moved (ctx.tree.parent pindex)⟩

/-! ### No trace is left -/

/-- Nothing in the pool is about a commitment that the block carries, and nobody asks about one
before the changes are taken back. -/
structure LeavesNoTrace (ctx : ProcessorContext B) (s : CQuorumBlockProcessor B)
    (block : FailedBlock B) : Prop where
  pool : ∀ qc, Mined ctx block.pindex qc → Unpooled ctx s qc
  lookups : ∀ k ∈ block.lookups, ∀ qc, Mined ctx block.pindex qc →
    k ≠ (qc.llmqType, qc.quorumHash)

theorem Touched.lookups {q : QuorumState B} (htouched : Touched records keys q)
    {lookups : List (LLMQType × Uint256)} (hkeys : ∀ k ∈ lookups, k ∉ keys) :
    Touched records keys
      (lookups.foldl (fun q k => (hasMinedCommitment ctx q k.1 k.2).2) q) := by
  induction lookups generalizing q with
  | nil => exact htouched
  | cons k lookups ih =>
    rw [forall_mem_cons] at hkeys
    exact ih (htouched.hasMined hkeys.1) hkeys.2

theorem tip_lookups (q : QuorumState B) (lookups : List (LLMQType × Uint256)) :
    (lookups.foldl (fun q k => (hasMinedCommitment ctx q k.1 k.2).2) q).tip =
      q.tip := by
  induction lookups generalizing q with
  | nil => rfl
  | cons k lookups ih =>
    rw [foldl_cons, ih, (onlyHasMined_hasMinedCommitment ctx q _ _).tip]

theorem alike_failToConnect (hagree : HasMinedAgrees s.toQuorumState) {block : FailedBlock B}
    (htrace : LeavesNoTrace ctx s block) : Alike s (ctx.failToConnect s block) := by
  have hself : Alike s s := ⟨⟨rfl, rfl, rfl, hagree, hagree⟩, rfl, rfl⟩
  unfold ProcessorContext.failToConnect
  split
  · exact hself
  obtain ⟨keys, htouched, hsub⟩ := @processBlock_touched _ ctx s hagree block.pindex block.fBLSChecks
  obtain ⟨hquorum, hcommitments⟩ := @samePool_processBlock _ ctx s block.fBLSChecks block.pindex
    htrace.pool
  have hafter := @Touched.lookups _ ctx _ _ _ htouched block.lookups (by
    intro k hk hkey
    obtain ⟨qc, hmined, heq⟩ := hsub k hkey
    exact htrace.lookups k hk qc hmined heq)
  refine ⟨⟨?_, rfl, rfl, hagree, hafter.agrees rfl rfl⟩, hquorum, hcommitments⟩
  exact (tip_lookups _ _).trans tip_processBlock

theorem Alike.trans {u : CQuorumBlockProcessor B} (hst : Alike s t) (htu : Alike t u) :
    Alike s u where
  records :=
    { tip := htu.records.tip.trans hst.records.tip
      minedCommitments := htu.records.minedCommitments.trans hst.records.minedCommitments
      minedByHeight := htu.records.minedByHeight.trans hst.records.minedByHeight
      agrees := hst.records.agrees
      agrees' := htu.records.agrees' }
  byQuorum := htu.byQuorum.trans hst.byQuorum
  commitments := htu.commitments.trans hst.commitments

end Processor

/-! ### Whole runs -/

inductive Event (B : Type) where
  | call (call : ProcessorCall B)
  | fail (block : FailedBlock B)

def Event.call? : Event B → Option (ProcessorCall B)
  | .call asked => some asked
  | .fail _ => none

def ProcessorContext.eventAnswers (s : CQuorumBlockProcessor B) : List (Event B) → List Answer
  | [] => []
  | .call call :: events => (ctx.call s call).1 :: eventAnswers (ctx.call s call).2 events
  | .fail block :: events => eventAnswers (ctx.failToConnect s block) events

/-- Every block of the run that fails to connect meets the condition when it is processed. -/
def ProcessorContext.FailuresLeaveNoTrace (s : CQuorumBlockProcessor B) : List (Event B) → Prop
  | [] => True
  | .call call :: events => FailuresLeaveNoTrace (ctx.call s call).2 events
  | .fail block :: events =>
    LeavesNoTrace ctx s block ∧ FailuresLeaveNoTrace (ctx.failToConnect s block) events

variable {ctx}

theorem Alike.eventAnswers {s t : CQuorumBlockProcessor B} (halike : Alike s t)
    {events : List (Event B)} (htrace : ctx.FailuresLeaveNoTrace t events) :
    ctx.eventAnswers t events = ctx.answers s (events.filterMap Event.call?) := by
  induction events generalizing s t with
  | nil => rfl
  | cons event events ih =>
    cases event with
    | call call =>
      obtain ⟨hanswer, hnext⟩ := @Alike.call _ ctx s t halike call
      rw [ProcessorContext.eventAnswers, hanswer, ih hnext htrace]
      rfl
    | fail block =>
      exact ih (halike.trans (alike_failToConnect halike.records.agrees' htrace.1)) htrace.2

/-- Where the pool knows nothing of the commitments of a block that fails to connect, and nobody
asks about these, every answer is as if the block had not been processed. -/
theorem failed_blocks_leave_no_trace {s₀ : CQuorumBlockProcessor B}
    (hinit : InitialRecords ctx.toNetwork s₀.toQuorumState) {events : List (Event B)}
    (htrace : ctx.FailuresLeaveNoTrace s₀ events) :
    ctx.eventAnswers s₀ events = ctx.answers s₀ (events.filterMap Event.call?) := by
  have hagree := hinit.chainInv.hasMined
  have hself : Alike s₀ s₀ := ⟨⟨rfl, rfl, rfl, hagree, hagree⟩, rfl, rfl⟩
  exact hself.eventAnswers htrace

/-! ### A commitment lost from the pool -/

def poolContext : ProcessorContext (Fin 5) :=
  { windowNetwork with serializeHash := fun qc => qc.quorumVvecHash }

def poolStart : CQuorumBlockProcessor (Fin 5) :=
  { toQuorumState := forkState }

/-- Blocks 1 and 2 are connected, a block fails, and a commitment is asked for. -/
def poolEvents (block : FailedBlock (Fin 5)) : List (Event (Fin 5)) :=
  [.call (.connect 1 true), .call (.connect 2 true),
    .call (.addMineableCommitment forkCommitment), .fail block,
    .call (.getMineableCommitments forkParams 3)]

/-- Block 3 mines the commitment. It is accepted by `ProcessBlock` and fails after that. -/
theorem failed_block_forgets_commitment :
    poolContext.eventAnswers poolStart
        (poolEvents { pindex := 3, fBLSChecks := true, checked := true, lookups := [] }) =
      [.done (.ok ()), .done (.ok ()), .relayed (.ok (some 6)),
        .mineable (.ok (some [nullCommitment 3 0 2]))] ∧
    poolContext.answers poolStart
        ((poolEvents { pindex := 3, fBLSChecks := true, checked := true, lookups := [] }).filterMap
          Event.call?) =
      [.done (.ok ()), .done (.ok ()), .relayed (.ok (some 6)),
        .mineable (.ok (some [forkCommitment]))] :=
  ⟨rfl, rfl⟩

/-- Block 4 carries a null commitment only; it fails while the pool holds a commitment. -/
theorem failed_blocks_leave_no_trace_null :
    ∃ block : FailedBlock (Fin 5), block.pindex = 4 ∧
      poolContext.FailuresLeaveNoTrace poolStart (poolEvents block) ∧
      poolContext.eventAnswers poolStart (poolEvents block) =
        poolContext.answers poolStart ((poolEvents block).filterMap Event.call?) := by
  have hnone : ∀ qc, ¬Mined poolContext.toQuorumContext 4 qc := by
    rintro qc ⟨-, ⟨qcs, hqcs, hmem⟩, hnull⟩
    have hsame : qcs = [nullCommitment 2 (-2) 0] := (Except.ok.inj hqcs).symm
    rw [hsame, List.mem_singleton] at hmem
    rw [hmem] at hnull
    exact absurd hnull (by decide)
  have htrace : poolContext.FailuresLeaveNoTrace poolStart (poolEvents
      { pindex := 4, fBLSChecks := true, checked := true, lookups := [(1, forkHash 2)] }) :=
    ⟨⟨fun qc hmined => absurd hmined (hnone qc), fun _ _ qc hmined => absurd hmined (hnone qc)⟩,
      trivial⟩
  exact ⟨_, rfl, htrace, failed_blocks_leave_no_trace initial_windowNetwork htrace⟩

end Defcon.Llmq
