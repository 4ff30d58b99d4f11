import Defcon.Evo.DiffCodec
import Defcon.Llmq.QuorumMerkleRoot

/-!
# Differences of simplified masternode lists

A light client asks for what changed between two blocks. It takes the deleted masternodes out of
the list it has, puts in those that are new or changed, and does the same with its active quorums.
What it gets is compared with the merkle roots of the coinbase, so nothing that the hash of an entry
covers may be missing from the difference.
-/

namespace Defcon.Evo

open Lib (Bytes Run Accepts)
open Lib.Codec List CDeterministicMNList
open AList (Map)
open Llmq (LLMQType LLMQParams CFinalCommitment QuorumState QcHashProcessor RootContext
  InitialRecords)

/-! ### Entries -/

structure CSimplifiedMNListEntry where
  proRegTxHash : Uint256
  confirmedHash : Uint256
  service : CService
  pubKeyOperator : CBLSLazyPublicKey
  keyIDVoting : CKeyID
  isValid : Bool
  scriptPayout : CScript
  scriptOperatorPayout : CScript
  nVersion : UInt16
  nType : MnType
  computeDescriptorHash : Uint256
  deriving DecidableEq, Repr

/-- The hashes that a list is made with: `CHashWriter` over bytes, the hash of two nodes, and the
encodings of points. -/
structure ListHashing where
  enc : BlsEncoding
  getHash : Bytes → Uint256
  sha256D64 : Uint256 → Uint256 → Uint256

namespace CSimplifiedMNListEntry

def ofMN (hw : ListHashing) (dmn : CDeterministicMN) : CSimplifiedMNListEntry where
  proRegTxHash := dmn.proTxHash
  confirmedHash := dmn.pdmnState.confirmedHash
  service := dmn.pdmnState.addr
  pubKeyOperator := dmn.pdmnState.pubKeyOperator
  keyIDVoting := dmn.pdmnState.keyIDVoting
  isValid := !dmn.pdmnState.isBanned
  scriptPayout := dmn.pdmnState.scriptPayout
  scriptOperatorPayout := dmn.pdmnState.scriptOperatorPayout
  nVersion :=
    if dmn.pdmnState.nVersion = LEGACY_BLS_VERSION then LEGACY_BLS_VERSION else BASIC_BLS_VERSION
  nType := dmn.nType
  computeDescriptorHash :=
    if dmn.nType = .compute then
      hw.getHash (CComputeServiceDescriptor.format.put dmn.pdmnState.computeDescriptor)
    else 0

/-- `operator==`, which leaves out the payout scripts. -/
def same (e e' : CSimplifiedMNListEntry) : Bool :=
  e.proRegTxHash = e'.proRegTxHash ∧ e.confirmedHash = e'.confirmedHash ∧
    e.service = e'.service ∧ e.pubKeyOperator.same e'.pubKeyOperator ∧
    e.keyIDVoting = e'.keyIDVoting ∧ e.isValid = e'.isValid ∧ e.nVersion = e'.nVersion ∧
    e.nType = e'.nType ∧ e.computeDescriptorHash = e'.computeDescriptorHash

def scripts (e : CSimplifiedMNListEntry) : CScript × CScript :=
  (e.scriptPayout, e.scriptOperatorPayout)

/-- The serialization for hashing. The fields at the end depend on the version and the type. -/
def serialize (enc : BlsEncoding) (e : CSimplifiedMNListEntry) : Bytes :=
  (bitVec 32).put e.proRegTxHash ++ (bitVec 32).put e.confirmedHash ++
    CService.format.put e.service ++
    (bitVec 48).put (e.pubKeyOperator.toBytes enc (e.nVersion == LEGACY_BLS_VERSION)) ++
    (bitVec 20).put e.keyIDVoting ++ Lib.Codec.bool.put e.isValid ++
    if e.nVersion = BASIC_BLS_VERSION then
      MnType.format.put e.nType ++
        if e.nType = .compute then (bitVec 32).put e.computeDescriptorHash else []
    else []

def calcHash (hw : ListHashing) (e : CSimplifiedMNListEntry) : Uint256 :=
  hw.getHash (e.serialize hw.enc)

variable {hw : ListHashing} {e e' : CSimplifiedMNListEntry}

theorem same_refl (e : CSimplifiedMNListEntry) : e.same e = true := by
  simp [same, CBLSLazyPublicKey.same]

theorem proRegTxHash_of_same (hsame : e.same e' = true) : e.proRegTxHash = e'.proRegTxHash :=
  (of_decide_eq_true hsame).1

theorem calcHash_of_same (hsame : e.same e' = true) : e.calcHash hw = e'.calcHash hw := by
  obtain ⟨hproTx, hconfirmed, hservice, hkey, hvoting, hvalid, hversion, htype, hdescriptor⟩ :=
    of_decide_eq_true hsame
  have hbytes (legacy : Bool) : e.pubKeyOperator.toBytes hw.enc legacy =
      e'.pubKeyOperator.toBytes hw.enc legacy := by
    rw [CBLSLazyPublicKey.toBytes, CBLSLazyPublicKey.toBytes, of_decide_eq_true hkey]
  rw [calcHash, calcHash, serialize, serialize, hproTx, hconfirmed, hservice, hversion, hbytes,
    hvoting, hvalid, htype, hdescriptor]

end CSimplifiedMNListEntry

/-! ### Lists -/

structure CSimplifiedMNList where
  mnList : List CSimplifiedMNListEntry
  deriving DecidableEq, Repr

namespace CSimplifiedMNList

def ofEntries (smlEntries : List CSimplifiedMNListEntry) : CSimplifiedMNList where
  mnList := smlEntries.insertionSort fun a b => a.proRegTxHash ≤ b.proRegTxHash

def ofList (hw : ListHashing) (dmnList : CDeterministicMNList) : CSimplifiedMNList :=
  ofEntries ((dmnList.mns false).map (CSimplifiedMNListEntry.ofMN hw))

def calcMerkleRoot (hw : ListHashing) (l : CSimplifiedMNList) : Uint256 × Bool :=
  Lib.Merkle.computeMerkleRoot hw.sha256D64 0 (l.mnList.map (CSimplifiedMNListEntry.calcHash hw))

def same (l l' : CSimplifiedMNList) : Bool :=
  l.mnList.length = l'.mnList.length ∧
    (l.mnList.zip l'.mnList).all fun p => p.1.same p.2

end CSimplifiedMNList

/-! ### Differences -/

structure CSimplifiedMNListDiff where
  baseBlockHash : Uint256
  blockHash : Uint256
  deletedMNs : List Uint256 := []
  mnList : List CSimplifiedMNListEntry := []
  deletedQuorums : List (LLMQType × Uint256) := []
  newQuorums : List CFinalCommitment := []

def changedEntry (hw : ListHashing) (base : CDeterministicMNList) (extended : Bool)
    (toPtr : CDeterministicMN) : Option CSimplifiedMNListEntry :=
  let sme1 := CSimplifiedMNListEntry.ofMN hw toPtr
  match base.getMN toPtr.proTxHash with
  | none => some sme1
  | some fromPtr =>
    let sme2 := CSimplifiedMNListEntry.ofMN hw fromPtr
    if !sme1.same sme2 ∨ (extended ∧ sme1.scripts ≠ sme2.scripts) then some sme1 else none

def buildSimplifiedDiff (hw : ListHashing) (base target : CDeterministicMNList) (extended : Bool) :
    CSimplifiedMNListDiff where
  baseBlockHash := base.blockHash
  blockHash := target.blockHash
  mnList := (target.mns false).filterMap (changedEntry hw base extended)
  deletedMNs :=
    ((base.mns false).filter fun fromPtr => !target.hasMN fromPtr.proTxHash).map
      CDeterministicMN.proTxHash

def CSimplifiedMNListDiff.applyTo (diff : CSimplifiedMNListDiff) (l : CSimplifiedMNList) :
    CSimplifiedMNList :=
  let kept := l.mnList.filter fun e => e.proRegTxHash ∉ diff.deletedMNs ∧
    e.proRegTxHash ∉ diff.mnList.map CSimplifiedMNListEntry.proRegTxHash
  .ofEntries (kept ++ diff.mnList)

def CSimplifiedMNListDiff.applyToQuorums (diff : CSimplifiedMNListDiff)
    (quorums : List (LLMQType × Uint256)) : List (LLMQType × Uint256) :=
  (quorums.filter (· ∉ diff.deletedQuorums)) ++
    diff.newQuorums.map fun qc => (qc.llmqType, qc.quorumHash)

namespace CSimplifiedMNListDiff

variable {B : Type} (ctx : RootContext B)

def quorumHashes (quorums : Map LLMQType (List B)) : List (LLMQType × Uint256) :=
  (quorums.entries.flatMap fun e => e.2.map fun blockindex =>
    (e.1, ctx.getBlockHash blockindex)).dedup.insertionSort
      fun p q => p.1 < q.1 ∨ (p.1 = q.1 ∧ p.2 ≤ q.2)

/-- The loop over the new quorums: the commitments that were read, and whether all were found. -/
def readCommitments (s : QuorumState B) : List (LLMQType × Uint256) → List CFinalCommitment × Bool
  | [] => ([], true)
  | p :: rest =>
    match s.minedCommitments.lookup p with
    | none => ([], false)
    | some (qc, _) =>
      let (newQuorums, found) := readCommitments s rest
      (qc :: newQuorums, found)

/-- `none` when the walk of a type asserts. -/
def buildQuorumsDiff (s : QuorumState B) (diff : CSimplifiedMNListDiff)
    (baseBlockIndex blockIndex : B) : Option (CSimplifiedMNListDiff × Bool) := do
  let baseQuorums ← ctx.getMinedAndActiveCommitmentsUntilBlock s baseBlockIndex
  let quorums ← ctx.getMinedAndActiveCommitmentsUntilBlock s blockIndex
  let baseQuorumHashes := quorumHashes ctx baseQuorums
  let quorumHashes := quorumHashes ctx quorums
  let (newQuorums, found) := readCommitments s (quorumHashes.filter (· ∉ baseQuorumHashes))
  return ({ diff with
    deletedQuorums := diff.deletedQuorums ++ baseQuorumHashes.filter (· ∉ quorumHashes)
    newQuorums := diff.newQuorums ++ newQuorums }, found)

end CSimplifiedMNListDiff

/-! ### Masternodes -/

section Masternodes

variable {hw : ListHashing} {base target : CDeterministicMNList} {extended : Bool}
  {e e' : CSimplifiedMNListEntry} {l l' : CSimplifiedMNList}

def Agrees (extended : Bool) (e e' : CSimplifiedMNListEntry) : Prop :=
  e.same e' = true ∧ (extended = true → e.scripts = e'.scripts)

theorem CSimplifiedMNList.same_of_forall₂
    (hall : Forall₂ (fun e e' => e.same e' = true) l.mnList l'.mnList) : l.same l' = true := by
  refine decide_eq_true ⟨hall.length_eq, all_eq_true.mpr ?_⟩
  rintro ⟨e, e'⟩ hmem
  exact forall₂_iff_zip.mp hall |>.2 hmem

theorem CSimplifiedMNList.calcMerkleRoot_of_forall₂
    (hall : Forall₂ (fun e e' => e.same e' = true) l.mnList l'.mnList) :
    l.calcMerkleRoot hw = l'.calcMerkleRoot hw := by
  have hleaves : l.mnList.map (CSimplifiedMNListEntry.calcHash hw) =
      l'.mnList.map (CSimplifiedMNListEntry.calcHash hw) := by
    rw [← forall₂_eq_eq_eq, forall₂_map_left_iff, forall₂_map_right_iff]
    exact hall.imp fun _ _ hsame => CSimplifiedMNListEntry.calcHash_of_same hsame
  rw [calcMerkleRoot, calcMerkleRoot, hleaves]

variable {entries : List CSimplifiedMNListEntry} {dmn : CDeterministicMN}

theorem CSimplifiedMNList.ascending_ofEntries
    (hnodup : (entries.map CSimplifiedMNListEntry.proRegTxHash).Nodup) :
    (ofEntries entries).mnList.Pairwise fun a b => a.proRegTxHash.toNat < b.proRegTxHash.toNat := by
  have hsorted : (ofEntries entries).mnList.Pairwise fun a b => a.proRegTxHash ≤ b.proRegTxHash :=
    pairwise_insertionSort _ entries
  have hdistinct : ((ofEntries entries).mnList.map
      CSimplifiedMNListEntry.proRegTxHash).Nodup :=
    ((perm_insertionSort _ entries).map _).nodup_iff.mpr hnodup
  rw [Nodup, pairwise_map] at hdistinct
  refine (hsorted.and hdistinct).imp fun ⟨hle, hne⟩ => ?_
  exact lt_of_le_of_ne (BitVec.le_def.mp hle) fun heq => hne (BitVec.eq_of_toNat_eq heq)

theorem CSimplifiedMNList.mem_ofEntries : e ∈ (ofEntries entries).mnList ↔ e ∈ entries :=
  mem_insertionSort _

theorem CSimplifiedMNList.mem_ofList :
    e ∈ (ofList hw target).mnList ↔
      ∃ dmn, target.getMN e.proRegTxHash = some dmn ∧ e = .ofMN hw dmn := by
  rw [ofList, mem_ofEntries, mem_map]
  constructor
  · rintro ⟨dmn, hdmn, rfl⟩
    exact ⟨dmn, (mem_mns_iff.mp hdmn).1, rfl⟩
  · rintro ⟨dmn, hget, rfl⟩
    exact ⟨dmn, mem_mns_of_getMN hget, rfl⟩

theorem nodup_ofMN (l : CDeterministicMNList) :
    (((l.mns false).map (CSimplifiedMNListEntry.ofMN hw)).map
      CSimplifiedMNListEntry.proRegTxHash).Nodup := by
  rw [map_map]
  exact l.nodup_mns false

theorem changedEntry_eq_some (hchanged : changedEntry hw base extended dmn = some e) :
    e = .ofMN hw dmn := by
  unfold changedEntry at hchanged
  cases hget : base.getMN dmn.proTxHash with
  | none =>
    rw [hget] at hchanged
    exact (Option.some.inj hchanged).symm
  | some fromPtr =>
    simp only [hget] at hchanged
    split at hchanged
    · exact (Option.some.inj hchanged).symm
    · cases hchanged

theorem changedEntry_eq_none (hunchanged : changedEntry hw base extended dmn = none) :
    ∃ fromPtr, base.getMN dmn.proTxHash = some fromPtr ∧
      Agrees extended (.ofMN hw dmn) (.ofMN hw fromPtr) := by
  unfold changedEntry at hunchanged
  cases hget : base.getMN dmn.proTxHash with
  | none =>
    rw [hget] at hunchanged
    cases hunchanged
  | some fromPtr =>
    simp only [hget, ite_eq_right_iff, reduceCtorEq, imp_false, not_or, not_and,
      Bool.not_eq_true', Bool.not_eq_false, not_not] at hunchanged
    exact ⟨fromPtr, rfl, hunchanged⟩

theorem mem_diff_mnList :
    e ∈ (buildSimplifiedDiff hw base target extended).mnList ↔
      ∃ dmn, target.getMN e.proRegTxHash = some dmn ∧
        changedEntry hw base extended dmn = some e := by
  rw [buildSimplifiedDiff, mem_filterMap]
  constructor
  · rintro ⟨dmn, hdmn, hchanged⟩
    obtain rfl := changedEntry_eq_some hchanged
    exact ⟨dmn, (mem_mns_iff.mp hdmn).1, hchanged⟩
  · rintro ⟨dmn, hget, hchanged⟩
    obtain rfl := changedEntry_eq_some hchanged
    exact ⟨dmn, mem_mns_of_getMN hget, hchanged⟩

theorem mem_deletedMNs {proTxHash : Uint256} :
    proTxHash ∈ (buildSimplifiedDiff hw base target extended).deletedMNs ↔
      (base.getMN proTxHash).isSome = true ∧ target.getMN proTxHash = none := by
  simp only [buildSimplifiedDiff, mem_map, mem_filter, mem_mns_iff,
    hasMN, Bool.not_eq_true', Option.isSome_eq_false_iff,
    Option.isNone_iff_eq_none]
  constructor
  · rintro ⟨dmn, ⟨⟨hget, -⟩, hgone⟩, rfl⟩
    exact ⟨Option.isSome_of_eq_some hget, hgone⟩
  · rintro ⟨hsome, hgone⟩
    obtain ⟨dmn, hget⟩ := Option.isSome_iff_exists.mp hsome
    obtain rfl := base.mnMap_keyed hget
    exact ⟨dmn, ⟨mem_mns_iff.mp (mem_mns_of_getMN hget), hgone⟩, rfl⟩

theorem nodup_diff_mnList :
    ((buildSimplifiedDiff hw base target extended).mnList.map
      CSimplifiedMNListEntry.proRegTxHash).Nodup := by
  have hnodup := target.nodup_mns false
  rw [Nodup, pairwise_map] at hnodup ⊢
  rw [buildSimplifiedDiff, pairwise_filterMap]
  refine hnodup.imp ?_
  intro dmn dmn' hne e hchanged e' hchanged'
  rw [changedEntry_eq_some hchanged, changedEntry_eq_some hchanged']
  exact hne

theorem CSimplifiedMNListDiff.mem_applyTo {diff : CSimplifiedMNListDiff} :
    e ∈ (diff.applyTo l).mnList ↔
      (e ∈ l.mnList ∧ e.proRegTxHash ∉ diff.deletedMNs ∧
        e.proRegTxHash ∉ diff.mnList.map CSimplifiedMNListEntry.proRegTxHash) ∨
      e ∈ diff.mnList := by
  rw [applyTo, CSimplifiedMNList.mem_ofEntries, mem_append, mem_filter, decide_eq_true_iff]

theorem ascending_applyTo :
    ((buildSimplifiedDiff hw base target extended).applyTo (.ofList hw base)).mnList.Pairwise
      fun a b => a.proRegTxHash.toNat < b.proRegTxHash.toNat := by
  apply CSimplifiedMNList.ascending_ofEntries
  have hbase : ((CSimplifiedMNList.ofList hw base).mnList.map
      CSimplifiedMNListEntry.proRegTxHash).Nodup :=
    ((perm_insertionSort _ _).map _).nodup_iff.mpr (nodup_ofMN base)
  rw [map_append]
  refine Nodup.append (hbase.sublist (filter_sublist.map _)) nodup_diff_mnList ?_
  intro proTxHash hkept hsent
  obtain ⟨e, he, rfl⟩ := mem_map.mp hkept
  exact (of_decide_eq_true (mem_filter.mp he).2).2 hsent

theorem mem_sent_iff (hget : target.getMN dmn.proTxHash = some dmn) :
    dmn.proTxHash ∈ (buildSimplifiedDiff hw base target extended).mnList.map
        CSimplifiedMNListEntry.proRegTxHash ↔
      changedEntry hw base extended dmn ≠ none := by
  rw [mem_map, Option.ne_none_iff_exists']
  constructor
  · rintro ⟨e, he, hkey⟩
    obtain ⟨dmn', hget', hchanged⟩ := mem_diff_mnList.mp he
    rw [hkey, hget] at hget'
    cases hget'
    exact ⟨e, hchanged⟩
  · rintro ⟨e, hchanged⟩
    obtain rfl := changedEntry_eq_some hchanged
    exact ⟨_, mem_diff_mnList.mpr ⟨dmn, hget, hchanged⟩, rfl⟩

theorem forall₂_applyTo :
    Forall₂ (Agrees extended) (CSimplifiedMNList.ofList hw target).mnList
      ((buildSimplifiedDiff hw base target extended).applyTo (.ofList hw base)).mnList := by
  refine Lib.forall₂_of_ascending (fun hagrees => ?_)
    (CSimplifiedMNList.ascending_ofEntries (nodup_ofMN target)) ascending_applyTo ?_ ?_
  · rw [CSimplifiedMNListEntry.proRegTxHash_of_same hagrees.1]
  · intro e he
    obtain ⟨dmn, hget, rfl⟩ := CSimplifiedMNList.mem_ofList.mp he
    cases hchanged : changedEntry hw base extended dmn with
    | some e =>
      obtain rfl := changedEntry_eq_some hchanged
      refine ⟨_, CSimplifiedMNListDiff.mem_applyTo.mpr (Or.inr ?_),
        CSimplifiedMNListEntry.same_refl _, fun _ => rfl⟩
      exact mem_diff_mnList.mpr ⟨dmn, hget, hchanged⟩
    | none =>
      obtain ⟨fromPtr, hfrom, hagrees⟩ := changedEntry_eq_none hchanged
      have hkey : fromPtr.proTxHash = dmn.proTxHash := base.mnMap_keyed hfrom
      refine ⟨_, CSimplifiedMNListDiff.mem_applyTo.mpr (Or.inl ⟨?_, ?_, ?_⟩), hagrees⟩
      · exact CSimplifiedMNList.mem_ofList.mpr ⟨fromPtr, by rwa [← hkey] at hfrom, rfl⟩
      · intro hdeleted
        have hgone := (mem_deletedMNs.mp hdeleted).2
        change target.getMN fromPtr.proTxHash = none at hgone
        rw [hkey, show target.getMN dmn.proTxHash = some dmn from hget] at hgone
        cases hgone
      · intro hsent
        change fromPtr.proTxHash ∈ _ at hsent
        rw [hkey, mem_sent_iff hget] at hsent
        exact hsent hchanged
  · intro e he
    rcases CSimplifiedMNListDiff.mem_applyTo.mp he with ⟨hbase, hstays, hkept⟩ | hsent
    · obtain ⟨fromPtr, hfrom, rfl⟩ := CSimplifiedMNList.mem_ofList.mp hbase
      change base.getMN fromPtr.proTxHash = some fromPtr at hfrom
      obtain ⟨dmn, hget⟩ : ∃ dmn, target.getMN fromPtr.proTxHash = some dmn := by
        rw [← Option.ne_none_iff_exists']
        exact fun hgone => hstays (mem_deletedMNs.mpr ⟨Option.isSome_of_eq_some hfrom, hgone⟩)
      have hkey : dmn.proTxHash = fromPtr.proTxHash := target.mnMap_keyed hget
      rw [← hkey] at hget hfrom
      have hunchanged : changedEntry hw base extended dmn = none := by
        by_contra hchanged
        have hsent := (mem_sent_iff hget).mpr hchanged
        rw [hkey] at hsent
        exact hkept hsent
      obtain ⟨fromPtr', hfrom', hagrees⟩ := changedEntry_eq_none hunchanged
      obtain rfl := Option.some.inj (hfrom.symm.trans hfrom')
      exact ⟨_, CSimplifiedMNList.mem_ofList.mpr ⟨dmn, hget, rfl⟩, hagrees⟩
    · obtain ⟨dmn, hget, hchanged⟩ := mem_diff_mnList.mp hsent
      obtain rfl := changedEntry_eq_some hchanged
      exact ⟨_, CSimplifiedMNList.mem_ofList.mpr ⟨dmn, hget, rfl⟩,
        CSimplifiedMNListEntry.same_refl _, fun _ => rfl⟩

end Masternodes

/-! ### Quorums -/

namespace CSimplifiedMNListDiff

open Llmq (Network ChainInv minedCycles minedUpTo recordOf)

variable {B : Type} {ctx : RootContext B} {s : QuorumState B} {tip b : B}

/-- The quorums that are active at a block: those of the newest commitments of every type that are
mined on its branch. -/
def activeAt (ctx : RootContext B) (b : B) : List (LLMQType × Uint256) :=
  ctx.llmqs.flatMap fun params =>
    ((minedUpTo ctx params.type b).take params.signingActiveQuorumCount).map
      fun qc => (params.type, qc.quorumHash)

theorem reads_of_ancestor (hinv : ChainInv ctx s) (htip : s.tip = some tip)
    (hanc : ctx.tree.Ancestor b tip) :
    ctx.Reads b (fun params => (minedCycles ctx s params.type b
      (ctx.tree.height b)).take params.signingActiveQuorumCount) s := by
  intro params _
  refine ⟨hinv.getMinedCommitments_eq htip _, ?_⟩
  rw [map_take, ← hinv.minedCycles_eq_of_ancestor htip hanc le_rfl,
    hinv.recordOf_minedCycles htip hanc, map_take]

theorem mem_quorumHashes {bases : LLMQParams → List B} {k : LLMQType × Uint256} :
    k ∈ quorumHashes ctx (ctx.activeQuorums bases) ↔
      ∃ params ∈ ctx.llmqs, ∃ base ∈ bases params, k = (params.type, ctx.getBlockHash base) := by
  rw [quorumHashes, mem_insertionSort, mem_dedup, mem_flatMap]
  constructor
  · rintro ⟨⟨llmqType, blocks⟩, he, hk⟩
    obtain ⟨params, hparams, rfl, rfl⟩ :=
      RootContext.lookup_activeQuorums.mp (AList.mem_lookup_iff.mpr he)
    obtain ⟨base, hbase, rfl⟩ := mem_map.mp hk
    exact ⟨params, hparams, base, hbase, rfl⟩
  · rintro ⟨params, hparams, base, hbase, rfl⟩
    have hlookup : (ctx.activeQuorums bases).lookup params.type = some (bases params) :=
      RootContext.lookup_activeQuorums.mpr ⟨params, hparams, rfl, rfl⟩
    exact ⟨_, AList.mem_lookup_iff.mp hlookup, mem_map.mpr ⟨base, hbase, rfl⟩⟩

theorem exists_active (hinv : ChainInv ctx s) (htip : s.tip = some tip)
    (hanc : ctx.tree.Ancestor b tip) :
    ∃ quorums, ctx.getMinedAndActiveCommitmentsUntilBlock s b = some quorums ∧
      (∀ k, k ∈ quorumHashes ctx quorums ↔ k ∈ activeAt ctx b) ∧
      ∀ k ∈ activeAt ctx b, ∃ qc minedBlockHash,
        s.minedCommitments.lookup k = some (qc, minedBlockHash) := by
  have hreads := reads_of_ancestor hinv htip hanc
  have hrecord {llmqType : LLMQType} {base : B} {qc : CFinalCommitment}
      (hqc : recordOf ctx s llmqType base = some qc) :
      qc.quorumHash = ctx.getBlockHash base ∧ ∃ minedBlockHash,
        s.minedCommitments.lookup (llmqType, qc.quorumHash) = some (qc, minedBlockHash) := by
    obtain ⟨⟨qc', minedBlockHash⟩, hlookup, rfl⟩ := Option.map_eq_some_iff.mp hqc
    obtain ⟨-, -, -, -, -, -, hhash, -⟩ := hinv.records.mp hlookup
    exact ⟨hhash, minedBlockHash, hhash ▸ hlookup⟩
  have hbaseOf {params : LLMQParams} (hparams : params ∈ ctx.llmqs) {qc : CFinalCommitment}
      (hqc : qc ∈ (minedUpTo ctx params.type b).take params.signingActiveQuorumCount) :
      ∃ base ∈ (minedCycles ctx s params.type b (ctx.tree.height b)).take
          params.signingActiveQuorumCount,
        recordOf ctx s params.type base = some qc := by
    have hmem := mem_map_of_mem (f := some) hqc
    rw [← (hreads params hparams).2] at hmem
    exact mem_map.mp hmem
  refine ⟨_, hreads.getActive, fun k => ?_, ?_⟩
  · rw [mem_quorumHashes, activeAt, mem_flatMap]
    refine exists_congr fun params => and_congr_right fun hparams => ?_
    rw [mem_map]
    constructor
    · rintro ⟨base, hbase, rfl⟩
      have hmem := mem_map_of_mem (f := recordOf ctx s params.type) hbase
      rw [(hreads params hparams).2] at hmem
      obtain ⟨qc, hqc, heq⟩ := mem_map.mp hmem
      exact ⟨qc, hqc, by rw [(hrecord heq.symm).1]⟩
    · rintro ⟨qc, hqc, rfl⟩
      obtain ⟨base, hbase, heq⟩ := hbaseOf hparams hqc
      exact ⟨base, hbase, by rw [(hrecord heq).1]⟩
  · intro k hk
    obtain ⟨params, hparams, hk⟩ := mem_flatMap.mp hk
    obtain ⟨qc, hqc, rfl⟩ := mem_map.mp hk
    obtain ⟨base, -, heq⟩ := hbaseOf hparams hqc
    exact ⟨qc, (hrecord heq).2⟩

theorem readCommitments_of_recorded (hinv : ChainInv ctx s)
    {keys : List (LLMQType × Uint256)}
    (hrecorded : ∀ k ∈ keys, ∃ qc minedBlockHash,
      s.minedCommitments.lookup k = some (qc, minedBlockHash)) :
    ∃ newQuorums, readCommitments s keys = (newQuorums, true) ∧
      (newQuorums.map fun qc => (qc.llmqType, qc.quorumHash)) = keys ∧
      ∀ qc ∈ newQuorums, ∃ minedBlockHash,
        s.minedCommitments.lookup (qc.llmqType, qc.quorumHash) = some (qc, minedBlockHash) := by
  induction keys with
  | nil => exact ⟨[], rfl, rfl, fun _ hqc => absurd hqc not_mem_nil⟩
  | cons k keys ih =>
    obtain ⟨newQuorums, hread, hkeys, hall⟩ :=
      ih fun k hk => hrecorded k (mem_cons_of_mem _ hk)
    obtain ⟨qc, minedBlockHash, hlookup⟩ := hrecorded k mem_cons_self
    obtain ⟨llmqType, quorumHash⟩ := k
    obtain ⟨-, -, -, -, -, rfl, rfl, -⟩ := hinv.records.mp hlookup
    refine ⟨qc :: newQuorums, ?_, by rw [map_cons, hkeys], ?_⟩
    · rw [readCommitments, hlookup]
      simp only [hread]
    · exact forall_mem_cons.mpr ⟨⟨minedBlockHash, hlookup⟩, hall⟩

variable {base target : B} {diff : CSimplifiedMNListDiff}

theorem exists_quorumsDiff (hinv : ChainInv ctx s) (htip : s.tip = some tip)
    (hbase : ctx.tree.Ancestor base tip) (htarget : ctx.tree.Ancestor target tip)
    (hdeleted : diff.deletedQuorums = []) (hnew : diff.newQuorums = []) :
    ∃ deletedQuorums newQuorums,
      buildQuorumsDiff ctx s diff base target = some
        ({ diff with deletedQuorums := deletedQuorums, newQuorums := newQuorums }, true) ∧
      (∀ k, k ∈ ({ diff with deletedQuorums := deletedQuorums, newQuorums := newQuorums } :
          CSimplifiedMNListDiff).applyToQuorums (activeAt ctx base) ↔ k ∈ activeAt ctx target) ∧
      ∀ qc ∈ newQuorums, ∃ minedBlockHash,
        s.minedCommitments.lookup (qc.llmqType, qc.quorumHash) = some (qc, minedBlockHash) := by
  obtain ⟨baseQuorums, hreadBase, hmemBase, -⟩ := exists_active hinv htip hbase
  obtain ⟨quorums, hread, hmem, hrecorded⟩ := exists_active hinv htip htarget
  let baseHashes := quorumHashes ctx baseQuorums
  let hashes := quorumHashes ctx quorums
  let added := hashes.filter (· ∉ baseHashes)
  obtain ⟨newQuorums, hfound, hkeys, hall⟩ := readCommitments_of_recorded hinv
    fun k (hk : k ∈ added) => hrecorded k ((hmem k).mp (mem_of_mem_filter hk))
  refine ⟨baseHashes.filter (· ∉ hashes), newQuorums, ?_, fun k => ?_, hall⟩
  · simp only [buildQuorumsDiff, hreadBase, hread, hdeleted, hnew,
      nil_append, Option.bind_eq_bind, Option.bind_some]
    have hfound : readCommitments s
        ((quorumHashes ctx quorums).filter
          (· ∉ quorumHashes ctx baseQuorums)) = (newQuorums, true) := hfound
    rw [hfound]
    rfl
  · have hgone : k ∈ baseHashes.filter (· ∉ hashes) ↔
        k ∈ activeAt ctx base ∧ k ∉ activeAt ctx target := by
      rw [mem_filter, decide_eq_true_iff, hmem, hmemBase]
    have hadded : k ∈ added ↔ k ∈ activeAt ctx target ∧ k ∉ activeAt ctx base := by
      rw [mem_filter, decide_eq_true_iff, hmem, hmemBase]
    rw [applyToQuorums, hkeys, mem_append, mem_filter,
      decide_eq_true_iff, hgone, hadded]
    tauto

end CSimplifiedMNListDiff

/-! ### The difference of two blocks -/

open CSimplifiedMNListDiff

/-- **A simplified-list difference is exact.** -/
theorem simplifiedDiff_exact {B : Type} [DecidableEq B] {ctx : RootContext B}
    {s₀ s : QcHashProcessor B} {ops : List (RootContext.RootOp B)} {tip base target : B}
    (hinit : InitialRecords ctx.toNetwork s₀.toQuorumState)
    (hcold : s₀.m_quorums_cached = ∅ ∧ s₀.m_qc_hashes_cached = ∅)
    (hrun : Run (Accepts ctx.step) s₀ ops s) (htip : s.tip = some tip)
    (hbase : ctx.tree.Ancestor base tip) (htarget : ctx.tree.Ancestor target tip)
    (hw : ListHashing) (getListForBlock : B → CDeterministicMNList) (extended : Bool) :
    ∃ diff,
      buildQuorumsDiff ctx s.toQuorumState
        (buildSimplifiedDiff hw (getListForBlock base) (getListForBlock target) extended) base
        target = some (diff, true) ∧
      (CSimplifiedMNList.ofList hw (getListForBlock target)).same
        (diff.applyTo (.ofList hw (getListForBlock base))) = true ∧
      (diff.applyTo (.ofList hw (getListForBlock base))).calcMerkleRoot hw =
        (CSimplifiedMNList.ofList hw (getListForBlock target)).calcMerkleRoot hw ∧
      (extended = true →
        (diff.applyTo (.ofList hw (getListForBlock base))).mnList.map
            CSimplifiedMNListEntry.scripts =
          (CSimplifiedMNList.ofList hw (getListForBlock target)).mnList.map
            CSimplifiedMNListEntry.scripts) ∧
      (∀ k, k ∈ diff.applyToQuorums (activeAt ctx base) ↔ k ∈ activeAt ctx target) ∧
      ∀ qc ∈ diff.newQuorums, ∃ minedBlockHash,
        s.minedCommitments.lookup (qc.llmqType, qc.quorumHash) = some (qc, minedBlockHash) := by
  have hinv : ctx.RootInv s := by
    refine hrun.invariant (fun hinv hstep => hinv.step hstep) ⟨hinit.chainInv, ?_⟩
    rw [hcold.1, hcold.2]
    exact RootContext.coherent_empty
  obtain ⟨deletedQuorums, newQuorums, hbuild, hquorums, hnew⟩ :=
    @exists_quorumsDiff _ _ _ _ _ _
      (buildSimplifiedDiff hw (getListForBlock base) (getListForBlock target) extended) hinv.chain
      htip hbase htarget rfl rfl
  have hall := @forall₂_applyTo hw (getListForBlock base) (getListForBlock target) extended
  have hsame := hall.imp fun _ _ hagrees => hagrees.1
  refine ⟨_, hbuild, CSimplifiedMNList.same_of_forall₂ hsame,
    (CSimplifiedMNList.calcMerkleRoot_of_forall₂ hsame).symm, fun hextended => ?_, hquorums, hnew⟩
  symm
  rw [← forall₂_eq_eq_eq, forall₂_map_left_iff, forall₂_map_right_iff]
  exact hall.imp fun _ _ hagrees => hagrees.2 hextended

namespace SimplifiedSample

open Llmq (windowRoots rootStart forkHash initial_windowNetwork)

def hw : ListHashing where
  enc := { toBytes := fun _ point => point, fromBytes := fun _ bytes => some bytes }
  getHash := fun bytes => BitVec.ofNat 256 (bytes.foldl (fun n byte => 3 * n + byte.toNat) 0)
  sha256D64 := fun a b => a + 2 * b

def masternode (proTxHash : Uint256) (nPoSeBanHeight : Int) : CDeterministicMN where
  proTxHash := proTxHash
  internalId := 0
  collateralOutpoint := ⟨proTxHash, 0⟩
  nOperatorReward := 0
  pdmnState := { nPoSeBanHeight := nPoSeBanHeight }
  nType := .regular

def listAt (b : Fin 5) : CDeterministicMNList :=
  if b = 0 then (({} : CDeterministicMNList).setMN (masternode 5 (-1))).setMN (masternode 6 (-1))
  else (({} : CDeterministicMNList).setMN (masternode 5 3)).setMN (masternode 4 (-1))

theorem simplifiedDiff_exact_window :
    ∃ s diff, Run (Accepts windowRoots.step) rootStart
        [.connect 1 true true, .connect 2 true true, .connect 3 true true] s ∧
      buildQuorumsDiff windowRoots s.toQuorumState
        (buildSimplifiedDiff hw (listAt 0) (listAt 3) false) 0 3 = some (diff, true) ∧
      (CSimplifiedMNList.ofList hw (listAt 3)).same (diff.applyTo (.ofList hw (listAt 0))) = true ∧
      (buildSimplifiedDiff hw (listAt 0) (listAt 3) false).deletedMNs = [6] ∧
      (buildSimplifiedDiff hw (listAt 0) (listAt 3) false).mnList.map
        CSimplifiedMNListEntry.proRegTxHash = [4, 5] ∧
      activeAt windowRoots 0 = [] ∧ activeAt windowRoots 3 = [(1, forkHash 2)] ∧
      ∀ k, k ∈ diff.applyToQuorums (activeAt windowRoots 0) ↔ k ∈ activeAt windowRoots 3 := by
  obtain ⟨s, hfold, htip⟩ : ∃ s,
      [RootContext.RootOp.connect 1 true true, .connect 2 true true, .connect 3 true true].foldlM
        windowRoots.step rootStart = some s ∧ s.tip = some 3 := ⟨_, rfl, rfl⟩
  obtain ⟨diff, hbuild, hsame, -, -, hquorums, -⟩ := simplifiedDiff_exact initial_windowNetwork
    ⟨rfl, rfl⟩ (Run.accepts hfold) htip (rfl : windowRoots.tree.Ancestor 0 3) (.refl 3)
    hw listAt false
  exact ⟨s, diff, Run.accepts hfold, hbuild, hsame, by decide, by decide, rfl, rfl, hquorums⟩

end SimplifiedSample

end Defcon.Evo
