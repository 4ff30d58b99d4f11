import Mathlib.Data.Fin.VecNotation
import Mathlib.Data.Fintype.Fin
import Defcon.Lib.Run
import Defcon.Llmq.QuorumManager

/-!
# Quorum lookups and the active chain

The records of the block processor are exactly the non-null commitments of the active chain.
`GetQuorum` follows them as long as no commitment is mined for a quorum hash under which
another one is still cached.
-/

namespace Defcon.Llmq

open Lib (Run Guarded Accepts BlockTree)
open UnorderedLruCache Option List

variable {B : Type} (ctx : QuorumContext B)

/-- The block carries this commitment and it counts: it is not null, and quorum commitments
are active at the block. -/
def Mined (b : B) (qc : CFinalCommitment) : Prop :=
  ctx.DIP0003Height ≤ ctx.tree.height b ∧
    (∃ qcs, ctx.getCommitmentsFromBlock b = .ok qcs ∧ qc ∈ qcs) ∧ qc.isNull = false

def MinedOnChain (s : QuorumState B) (llmqType : LLMQType) (quorumHash : Uint256)
    (qc : CFinalCommitment) (minedBlockHash : Uint256) : Prop :=
  ∃ tip b, s.tip = some tip ∧ ctx.tree.Ancestor b tip ∧ Mined ctx b qc ∧
    qc.llmqType = llmqType ∧ qc.quorumHash = quorumHash ∧ ctx.getBlockHash b = minedBlockHash

def HasMinedAgrees (s : QuorumState B) : Prop :=
  ∀ ⦃llmqType quorumHash fExists⦄,
    (s.mapHasMinedCommitmentCache llmqType).find quorumHash = some fExists →
      (fExists = true ↔ (llmqType, quorumHash) ∈ s.minedCommitments)

/-- `t` differs from `s` in nothing but what is cached about the existence of commitments. -/
structure OnlyHasMined (s t : QuorumState B) : Prop where
  tip : t.tip = s.tip
  minedCommitments : t.minedCommitments = s.minedCommitments
  minedByHeight : t.minedByHeight = s.minedByHeight
  mapQuorumsCache : t.mapQuorumsCache = s.mapQuorumsCache
  scanQuorumsCache : t.scanQuorumsCache = s.scanQuorumsCache
  quorumBaseBlockIndexCache : t.quorumBaseBlockIndexCache = s.quorumBaseBlockIndexCache
  agrees : HasMinedAgrees s → HasMinedAgrees t

theorem OnlyHasMined.refl (s : QuorumState B) : OnlyHasMined s s :=
  ⟨rfl, rfl, rfl, rfl, rfl, rfl, id⟩

variable {s t : QuorumState B} {llmqType : LLMQType} {b : B} {qc : CFinalCommitment}
  {qcs : List CFinalCommitment} {fBLSChecks : Bool}

theorem OnlyHasMined.trans {u : QuorumState B} (hst : OnlyHasMined s t) (htu : OnlyHasMined t u) :
    OnlyHasMined s u where
  tip := htu.tip.trans hst.tip
  minedCommitments := htu.minedCommitments.trans hst.minedCommitments
  minedByHeight := htu.minedByHeight.trans hst.minedByHeight
  mapQuorumsCache := htu.mapQuorumsCache.trans hst.mapQuorumsCache
  scanQuorumsCache := htu.scanQuorumsCache.trans hst.scanQuorumsCache
  quorumBaseBlockIndexCache :=
    htu.quorumBaseBlockIndexCache.trans hst.quorumBaseBlockIndexCache
  agrees := htu.agrees ∘ hst.agrees

/-! ### The cached existence of a commitment -/

section Caches

variable {ν : Type} {caches : LLMQType → UnorderedLruCache Uint256 ν} {type type' : LLMQType}
  {cache : UnorderedLruCache Uint256 ν} {hash hash' : Uint256} {v w : ν}

theorem find_update_get (hcache : cache.find = (caches type).find) :
    (Function.update caches type cache type').find = (caches type').find := by
  rw [Function.update_apply]
  split
  next htype => rw [hcache, htype]
  · rfl

theorem find_update_insert (hcache : cache.find = (caches type).find)
    (hfind : (Function.update caches type (cache.insert hash v) type').find hash' = some w) :
    (type', hash') = (type, hash) ∧ w = v ∨ (caches type').find hash' = some w := by
  rw [Function.update_apply] at hfind
  split at hfind
  next htype =>
    subst htype
    have hins := find_insert hfind
    split at hins
    next hhash => exact Or.inl ⟨by rw [hhash], hins⟩
    · exact Or.inr (hcache ▸ hins)
  · exact Or.inr hfind

theorem find_update_erase
    (hfind : (Function.update caches type ((caches type).erase hash) type').find hash' = some w) :
    (type', hash') ≠ (type, hash) ∧ (caches type').find hash' = some w := by
  rw [Function.update_apply] at hfind
  split at hfind
  next htype =>
    subst htype
    rw [find_erase] at hfind
    split at hfind
    · cases hfind
    next hhash => exact ⟨fun heq => hhash (Prod.mk.inj heq).2, hfind⟩
  next htype => exact ⟨fun heq => htype (Prod.mk.inj heq).1, hfind⟩

end Caches

theorem hasMinedCommitment_snd (s : QuorumState B) (llmqType : LLMQType) (quorumHash : Uint256) :
    ∃ caches, (hasMinedCommitment ctx s llmqType quorumHash).2 =
        { s with mapHasMinedCommitmentCache := caches } ∧
      ∀ {type' hash' fExists}, (caches type').find hash' = some fExists →
        (type', hash') = (llmqType, quorumHash) ∧
            fExists = decide ((llmqType, quorumHash) ∈ s.minedCommitments) ∨
          (s.mapHasMinedCommitmentCache type').find hash' = some fExists := by
  have hget := find_get (s.mapHasMinedCommitmentCache llmqType) quorumHash
  unfold hasMinedCommitment
  split
  · exact ⟨_, rfl, Or.inr⟩
  split
  next heq =>
    rw [heq] at hget
    exact ⟨_, rfl, fun hfind => Or.inr (by rwa [find_update_get hget] at hfind)⟩
  next heq =>
    rw [heq] at hget
    exact ⟨_, rfl, find_update_insert hget⟩

theorem onlyHasMined_hasMinedCommitment (s : QuorumState B) (llmqType : LLMQType)
    (quorumHash : Uint256) : OnlyHasMined s (hasMinedCommitment ctx s llmqType quorumHash).2 := by
  obtain ⟨caches, hstate, hcached⟩ := hasMinedCommitment_snd ctx s llmqType quorumHash
  rw [hstate]
  refine ⟨rfl, rfl, rfl, rfl, rfl, rfl, fun hagree type' hash' fExists hfind => ?_⟩
  rcases hcached hfind with ⟨hkey, rfl⟩ | hold
  · rw [hkey, decide_eq_true_iff]
  · exact hagree hold

theorem hasMinedCommitment_fst (hagree : HasMinedAgrees s) (hknown : ctx.getLLMQ llmqType ≠ none)
    (quorumHash : Uint256) :
    (hasMinedCommitment ctx s llmqType quorumHash).1 = true ↔
      (llmqType, quorumHash) ∈ s.minedCommitments := by
  unfold hasMinedCommitment
  rw [if_neg hknown]
  have hget := get_fst (s.mapHasMinedCommitmentCache llmqType) quorumHash
  split
  · rename_i heq
    rw [heq] at hget
    exact hagree hget.symm
  · exact decide_eq_true_iff

theorem notMem_of_hasMined (hagree : HasMinedAgrees s) {params : LLMQParams}
    (hparams : ctx.getLLMQ llmqType = some params) {quorumHash : Uint256}
    (hnew : (hasMinedCommitment ctx s llmqType quorumHash).1 = false) :
    (llmqType, quorumHash) ∉ s.minedCommitments := by
  have hknown : ctx.getLLMQ llmqType ≠ none := by
    rw [hparams]
    exact some_ne_none params
  rw [← hasMinedCommitment_fst ctx hagree hknown, hnew]
  exact Bool.false_ne_true

theorem HasMinedAgrees.erase (hagree : HasMinedAgrees s) {type : LLMQType} {hash : Uint256}
    (hcache : t.mapHasMinedCommitmentCache = Function.update s.mapHasMinedCommitmentCache type
      ((s.mapHasMinedCommitmentCache type).erase hash))
    (hmem : ∀ k, k ≠ (type, hash) → (k ∈ t.minedCommitments ↔ k ∈ s.minedCommitments)) :
    HasMinedAgrees t := by
  intro llmqType quorumHash fExists hfind
  rw [hcache] at hfind
  obtain ⟨hkey, hold⟩ := find_update_erase hfind
  rw [hmem _ hkey]
  exact hagree hold

/-! ### Connecting a block -/

variable {ctx}

theorem collectCommitments_ok {ret out : List CFinalCommitment}
    {txs : List (Option CFinalCommitment)} (hok : ctx.collectCommitments ret txs = .ok out)
    (hnodup : (ret.map CFinalCommitment.llmqType).Nodup) :
    (out.map CFinalCommitment.llmqType).Nodup ∧ ∃ qcs, txs = qcs.map some ∧
      out.Perm (ret ++ qcs) ∧ ∀ qc ∈ qcs, ctx.getLLMQ qc.llmqType ≠ none := by
  induction txs generalizing ret with
  | nil =>
    cases hok
    exact ⟨hnodup, [], rfl, by rw [append_nil], fun _ h => absurd h not_mem_nil⟩
  | cons tx txs ih =>
    cases tx with
    | none => cases hok
    | some qc =>
      rw [QuorumContext.collectCommitments] at hok
      split at hok
      · cases hok
      rename_i hknown
      split at hok
      · cases hok
      rename_i hdup
      have hperm := perm_orderedInsert (fun a b => a.llmqType ≤ b.llmqType) qc ret
      obtain ⟨htypes, qcs, rfl, hout, hrest⟩ := ih hok <| by
        rw [(hperm.map _).nodup_iff, map_cons, nodup_cons]
        exact ⟨by simpa using hdup, hnodup⟩
      refine ⟨htypes, qc :: qcs, rfl, ?_, forall_mem_cons.mpr ⟨hknown, hrest⟩⟩
      exact hout.trans ((hperm.append_right qcs).trans perm_middle.symm)

theorem getCommitmentsFromBlock_ok {out : List CFinalCommitment}
    (hok : ctx.getCommitmentsFromBlock b = .ok out) :
    (out.map CFinalCommitment.llmqType).Nodup ∧
      (out ≠ [] → ctx.DIP0003Height ≤ ctx.tree.height b) ∧
      ∃ qcs, ctx.commitmentTxs b = qcs.map some ∧ out.Perm qcs ∧
        ∀ qc ∈ qcs, ctx.getLLMQ qc.llmqType ≠ none := by
  unfold QuorumContext.getCommitmentsFromBlock at hok
  split at hok
  · cases hok
  rename_i ret hret
  split at hok
  · cases hok
  rename_i hpremature
  cases hok
  obtain ⟨hnodup, hcommitments⟩ := collectCommitments_ok hret nodup_nil
  exact ⟨hnodup, fun hne => not_lt.mp fun hlt => hpremature ⟨hlt, hne⟩, hcommitments⟩

theorem some_mem_commitmentTxs (hok : ctx.getCommitmentsFromBlock b = .ok qcs) (hmem : qc ∈ qcs) :
    some qc ∈ ctx.commitmentTxs b := by
  obtain ⟨-, -, own, htxs, hperm, -⟩ := getCommitmentsFromBlock_ok hok
  rw [htxs]
  exact mem_map_of_mem (hperm.mem_iff.mp hmem)

theorem mined_iff (hok : ctx.getCommitmentsFromBlock b = .ok qcs) :
    Mined ctx b qc ↔ qc ∈ qcs ∧ qc.isNull = false := by
  simp only [Mined, hok, Except.ok.injEq, exists_eq_left']
  refine ⟨And.right, fun hmem => ⟨?_, hmem⟩⟩
  exact (getCommitmentsFromBlock_ok hok).2.1 (ne_nil_of_mem hmem.1)

theorem genesis_not_mined (qc : CFinalCommitment) : ¬Mined ctx ctx.genesis qc := by
  rintro ⟨-, ⟨qcs, hqcs, hmem⟩, -⟩
  have hsome := some_mem_commitmentTxs hqcs hmem
  rw [ctx.genesis_commitmentTxs] at hsome
  exact absurd hsome not_mem_nil

theorem onlyHasMined_getNumCommitmentsRequired (s : QuorumState B) (params : LLMQParams)
    (nHeight : Nat) : OnlyHasMined s (getNumCommitmentsRequired ctx s params nHeight).2 := by
  unfold getNumCommitmentsRequired
  split
  · simp only
    split
    · exact .refl s
    · exact onlyHasMined_hasMinedCommitment ctx s _ _
  · exact .refl s

theorem onlyHasMined_checkCommitmentCounts (nHeight : Nat) (qcs : List CFinalCommitment)
    (s : QuorumState B) (enabled : List LLMQParams) :
    OnlyHasMined s (checkCommitmentCounts ctx nHeight qcs s enabled).2 := by
  induction enabled generalizing s with
  | nil => exact .refl s
  | cons params rest ih =>
    have hrequired : OnlyHasMined s (getNumCommitmentsRequired ctx s params nHeight).2 :=
      onlyHasMined_getNumCommitmentsRequired s params nHeight
    simp only [checkCommitmentCounts]
    split
    · exact .refl s
    · split
      · exact hrequired
      · split
        · exact hrequired
        · exact hrequired.trans (ih _)

/-- What `ProcessCommitment` can do. -/
inductive Processed (ctx : QuorumContext B) (s : QuorumState B) (nHeight : Nat)
    (blockHash : Uint256) (qc : CFinalCommitment) (fJustCheck fBLSChecks : Bool) :
    Except String Unit × QuorumState B → Prop where
  | refused (e : String) : Processed ctx s nHeight blockHash qc fJustCheck fBLSChecks (.error e, s)
  | null {params : LLMQParams} (hparams : ctx.getLLMQ qc.llmqType = some params)
      (hhash : s.tip ≠ none →
        getQuorumBlockHash ctx s params nHeight qc.quorumIndex = qc.quorumHash)
      (hnull : qc.isNull = true) :
      Processed ctx s nHeight blockHash qc fJustCheck fBLSChecks (.ok (), s)
  | refusedAsked (e : String) (hnull : qc.isNull = false) :
      Processed ctx s nHeight blockHash qc fJustCheck fBLSChecks
        (.error e, (hasMinedCommitment ctx s qc.llmqType qc.quorumHash).2)
  | accepted {params : LLMQParams} {base : B} (hparams : ctx.getLLMQ qc.llmqType = some params)
      (hhash : s.tip ≠ none →
        getQuorumBlockHash ctx s params nHeight qc.quorumIndex = qc.quorumHash)
      (hnull : qc.isNull = false)
      (hnew : (hasMinedCommitment ctx s qc.llmqType qc.quorumHash).1 = false)
      (hphase : isMiningPhase params nHeight = true)
      (hbase : ctx.lookupBlockIndex qc.quorumHash = some base)
      (hverify : ctx.verify qc base fBLSChecks = true) :
      Processed ctx s nHeight blockHash qc fJustCheck fBLSChecks (.ok (),
        if fJustCheck then (hasMinedCommitment ctx s qc.llmqType qc.quorumHash).2
        else recordCommitment (hasMinedCommitment ctx s qc.llmqType qc.quorumHash).2 nHeight
          blockHash qc (ctx.tree.height base))

variable (ctx) in
theorem processed_processCommitment (s : QuorumState B) (nHeight : Nat) (blockHash : Uint256)
    (qc : CFinalCommitment) (fJustCheck fBLSChecks : Bool) :
    Processed ctx s nHeight blockHash qc fJustCheck fBLSChecks
      (processCommitment ctx s nHeight blockHash qc fJustCheck fBLSChecks) := by
  unfold processCommitment
  split
  · exact .refused _
  next params hparams =>
  have htype : params.type = qc.llmqType := by
    simpa using find?_some hparams
  have hexpected : s.tip ≠ none → (if s.tip.isNone then qc.quorumHash
      else getQuorumBlockHash ctx s params nHeight qc.quorumIndex) =
        getQuorumBlockHash ctx s params nHeight qc.quorumIndex := by
    intro htip
    rw [if_neg (by simpa using htip)]
  dsimp only
  generalize (if s.tip.isNone then qc.quorumHash
    else getQuorumBlockHash ctx s params nHeight qc.quorumIndex) = quorumHash at hexpected
  split
  · exact .refused _
  split
  · exact .refused _
  next hother =>
  obtain rfl := not_not.mp hother
  split
  next hnull =>
    split
    · exact .null hparams (fun htip => (hexpected htip).symm) hnull
    · exact .refused _
  next hnull =>
  rw [Bool.not_eq_true] at hnull
  rw [htype]
  split
  · exact .refusedAsked _ hnull
  next hnew =>
  split
  · exact .refusedAsked _ hnull
  next hphase =>
  split
  · exact .refusedAsked _ hnull
  next base hbase =>
  split
  · exact .refusedAsked _ hnull
  next hverify =>
  have haccepted : Processed ctx s nHeight blockHash qc fJustCheck fBLSChecks _ :=
    .accepted hparams (fun htip => (hexpected htip).symm) hnull (by simpa using hnew)
      (by simpa using hphase) hbase (by simpa using hverify)
  cases fJustCheck <;> exact haccepted

theorem lookup_recordCommitment {nHeight baseHeight : Nat} {blockHash : Uint256}
    (hnew : (qc.llmqType, qc.quorumHash) ∉ s.minedCommitments) (k : LLMQType × Uint256)
    (v : CFinalCommitment × Uint256) :
    (recordCommitment s nHeight blockHash qc baseHeight).minedCommitments.lookup k = some v ↔
      s.minedCommitments.lookup k = some v ∨
        k = (qc.llmqType, qc.quorumHash) ∧ v = (qc, blockHash) := by
  rw [recordCommitment, AList.lookup_insert_eq_ite]
  split
  · rename_i hk
    rw [hk, AList.lookup_eq_none.mpr hnew]
    simp [eq_comm]
  · rename_i hk
    simp [hk]

theorem hasMinedAgrees_recordCommitment (hagree : HasMinedAgrees s) (nHeight baseHeight : Nat)
    (blockHash : Uint256) (qc : CFinalCommitment) :
    HasMinedAgrees (recordCommitment s nHeight blockHash qc baseHeight) := by
  have hcache : (recordCommitment s nHeight blockHash qc baseHeight).mapHasMinedCommitmentCache =
      Function.update s.mapHasMinedCommitmentCache qc.llmqType
        ((s.mapHasMinedCommitmentCache qc.llmqType).erase qc.quorumHash) := rfl
  refine hagree.erase hcache fun k hk => ?_
  simp [recordCommitment, AList.mem_insert, hk]

structure Connected (blockHash : Uint256) (qcs : List CFinalCommitment) (s t : QuorumState B) :
    Prop where
  tip : t.tip = s.tip
  mapQuorumsCache : t.mapQuorumsCache = s.mapQuorumsCache
  quorumBaseBlockIndexCache : t.quorumBaseBlockIndexCache = s.quorumBaseBlockIndexCache
  agrees : HasMinedAgrees t
  lookup : ∀ k v, t.minedCommitments.lookup k = some v ↔
    s.minedCommitments.lookup k = some v ∨
      ∃ qc ∈ qcs, qc.isNull = false ∧ k = (qc.llmqType, qc.quorumHash) ∧ v = (qc, blockHash)

theorem processCommitments_ok {nHeight : Nat} {blockHash : Uint256} (hagree : HasMinedAgrees s)
    (hok : processCommitments ctx nHeight blockHash false fBLSChecks s qcs = (.ok (), t)) :
    Connected blockHash qcs s t := by
  induction qcs generalizing s with
  | nil =>
    obtain rfl : s = t := by simpa [processCommitments] using hok
    exact ⟨rfl, rfl, rfl, hagree, by simp⟩
  | cons qc qcs ih =>
    rw [processCommitments] at hok
    split at hok
    · cases hok
    rename_i s' hstep
    have hprocessed := processed_processCommitment ctx s nHeight blockHash qc false fBLSChecks
    rw [hstep] at hprocessed
    cases hprocessed with
    | null _ _ hnull =>
      have hrest := ih hagree hok
      exact ⟨hrest.tip, hrest.mapQuorumsCache, hrest.quorumBaseBlockIndexCache, hrest.agrees,
        fun k v => by simp [hrest.lookup k v, hnull]⟩
    | accepted hparams _ hnull hnew _ _ _ =>
      have hnew := notMem_of_hasMined ctx hagree hparams hnew
      have honly := onlyHasMined_hasMinedCommitment ctx s qc.llmqType qc.quorumHash
      have hrest := ih
        (hasMinedAgrees_recordCommitment (honly.agrees hagree) nHeight _ blockHash qc) hok
      refine ⟨hrest.tip.trans honly.tip, hrest.mapQuorumsCache.trans honly.mapQuorumsCache,
        hrest.quorumBaseBlockIndexCache.trans honly.quorumBaseBlockIndexCache, hrest.agrees,
        fun k v => ?_⟩
      rw [hrest.lookup k v, lookup_recordCommitment (by rwa [honly.minedCommitments]),
        honly.minedCommitments]
      simp only [exists_mem_cons_iff, hnull, true_and]
      exact or_assoc

theorem processBlock_cases (hok : processBlock ctx s b false fBLSChecks = (.ok (), t)) :
    (ctx.tree.height b < ctx.DIP0003Height ∧ t = s) ∨
      ctx.DIP0003Height ≤ ctx.tree.height b ∧ ∃ qcs s', ctx.getCommitmentsFromBlock b = .ok qcs ∧
        OnlyHasMined s s' ∧
        checkCommitmentCounts ctx (ctx.tree.height b) qcs s
          (((ctx.tree.parent b).map ctx.getEnabledQuorumParams).getD []) = (.ok (), s') ∧
        processCommitments ctx (ctx.tree.height b) (ctx.getBlockHash b) false fBLSChecks s' qcs =
          (.ok (), t) := by
  unfold processBlock at hok
  split at hok
  · rename_i hheight
    exact Or.inl ⟨hheight, (Prod.mk.inj hok).2.symm⟩
  rename_i hheight
  split at hok
  · cases hok
  rename_i qcs hqcs
  have honly := @onlyHasMined_checkCommitmentCounts _ ctx (ctx.tree.height b) qcs s
    (((ctx.tree.parent b).map ctx.getEnabledQuorumParams).getD [])
  dsimp only at hok
  split at hok
  · cases hok
  rename_i s' heq
  rw [heq] at honly
  exact Or.inr ⟨not_lt.mp hheight, qcs, s', hqcs, honly, heq, hok⟩

theorem processBlock_ok (hagree : HasMinedAgrees s)
    (hok : processBlock ctx s b false fBLSChecks = (.ok (), t)) :
    ∃ qcs, Connected (ctx.getBlockHash b) qcs s t ∧
      ∀ qc, qc ∈ qcs ∧ qc.isNull = false ↔ Mined ctx b qc := by
  rcases processBlock_cases hok with ⟨hheight, rfl⟩ | ⟨-, qcs, s', hqcs, hcounts, -, hok⟩
  · refine ⟨[], ⟨rfl, rfl, rfl, hagree, by simp⟩, fun qc => ?_⟩
    simp [Mined, not_le.mpr hheight]
  · have hconn := processCommitments_ok (hcounts.agrees hagree) hok
    refine ⟨qcs, ⟨hconn.tip.trans hcounts.tip,
      hconn.mapQuorumsCache.trans hcounts.mapQuorumsCache,
      hconn.quorumBaseBlockIndexCache.trans hcounts.quorumBaseBlockIndexCache, hconn.agrees,
      fun k v => by rw [hconn.lookup k v, hcounts.minedCommitments]⟩, fun qc => (mined_iff hqcs).symm⟩

/-! ### Disconnecting a block -/

structure Disconnected (qcs : List CFinalCommitment) (s t : QuorumState B) : Prop where
  mapQuorumsCache : t.mapQuorumsCache = s.mapQuorumsCache
  quorumBaseBlockIndexCache : t.quorumBaseBlockIndexCache = s.quorumBaseBlockIndexCache
  agrees : HasMinedAgrees s → HasMinedAgrees t
  lookup : ∀ k v, t.minedCommitments.lookup k = some v ↔
    s.minedCommitments.lookup k = some v ∧
      ∀ qc ∈ qcs, qc.isNull = false → k ≠ (qc.llmqType, qc.quorumHash)

theorem disconnected_undoCommitment (nHeight : Nat) (s : QuorumState B) (qc : CFinalCommitment) :
    Disconnected [qc] s (undoCommitment nHeight s qc) := by
  unfold undoCommitment
  split
  · rename_i hnull
    exact ⟨rfl, rfl, id, by simp [hnull]⟩
  · rename_i hnull
    refine ⟨rfl, rfl, fun hagree => ?_, fun k v => ?_⟩
    · exact hagree.erase rfl fun k hk => by simp [AList.mem_erase, hk]
    · rw [AList.lookup_erase_eq_ite]
      split
      · rename_i hk
        simp [hk, hnull]
      · rename_i hk
        simp [hk]

theorem disconnected_undoBlock (hok : undoBlock ctx s b = some t) :
    ∃ qcs, ctx.getCommitmentsFromBlock b = .ok qcs ∧ Disconnected qcs s t := by
  unfold undoBlock at hok
  split at hok
  · cases hok
  rename_i qcs hqcs
  obtain rfl := some.inj hok
  refine ⟨qcs, hqcs, ?_⟩
  clear hok hqcs
  induction qcs generalizing s with
  | nil => exact ⟨rfl, rfl, id, by simp⟩
  | cons qc qcs ih =>
    have hhead := disconnected_undoCommitment (ctx.tree.height b) s qc
    have hrest := ih (s := undoCommitment (ctx.tree.height b) s qc)
    refine ⟨hrest.mapQuorumsCache.trans hhead.mapQuorumsCache,
      hrest.quorumBaseBlockIndexCache.trans hhead.quorumBaseBlockIndexCache,
      hrest.agrees ∘ hhead.agrees, fun k v => ?_⟩
    rw [foldl_cons, hrest.lookup, hhead.lookup]
    simp only [forall_mem_cons, not_mem_nil, false_implies, implies_true, and_true]
    tauto

/-! ### The records are those of the active chain -/

variable (ctx) in
/-- What holds in every reachable state, whatever is reorganised. -/
structure Inv (s : QuorumState B) : Prop where
  records : ∀ {llmqType quorumHash qc minedBlockHash},
    s.minedCommitments.lookup (llmqType, quorumHash) = some (qc, minedBlockHash) ↔
      MinedOnChain ctx s llmqType quorumHash qc minedBlockHash
  hasMined : HasMinedAgrees s
  baseIndex : ∀ {quorumHash b}, s.quorumBaseBlockIndexCache.find quorumHash = some b →
    ctx.getBlockHash b = quorumHash

theorem minedOnChain_connect {p : B} {quorumHash minedBlockHash : Uint256}
    (hparent : ctx.tree.parent b = some p) (hs : s.tip = some p) (ht : t.tip = some b) :
    MinedOnChain ctx t llmqType quorumHash qc minedBlockHash ↔
      MinedOnChain ctx s llmqType quorumHash qc minedBlockHash ∨
        Mined ctx b qc ∧ qc.llmqType = llmqType ∧ qc.quorumHash = quorumHash ∧
          ctx.getBlockHash b = minedBlockHash := by
  simp only [MinedOnChain, hs, ht, some.injEq, exists_and_left, exists_eq_left',
    BlockTree.ancestor_iff_of_parent hparent, or_and_right, exists_or, exists_eq_left]
  exact or_comm

theorem Inv.connect {p : B} (hinv : Inv ctx s) (htip : s.tip = some p)
    (hparent : ctx.tree.parent b = some p)
    (hok : processBlock ctx s b false fBLSChecks = (.ok (), t)) :
    Inv ctx { t with tip := some b } := by
  obtain ⟨qcs, hconn, hmined⟩ := processBlock_ok hinv.hasMined hok
  refine ⟨fun {llmqType quorumHash qc minedBlockHash} => ?_, hconn.agrees, ?_⟩
  · rw [hconn.lookup, hinv.records,
      minedOnChain_connect (t := { t with tip := some b }) hparent htip rfl]
    refine or_congr_right ⟨?_, ?_⟩
    · rintro ⟨qc', hqc', hnull, hkey, hv⟩
      cases hkey
      cases hv
      exact ⟨(hmined qc).mp ⟨hqc', hnull⟩, rfl, rfl, rfl⟩
    · rintro ⟨hqc, rfl, rfl, rfl⟩
      obtain ⟨hmem, hnull⟩ := (hmined qc).mpr hqc
      exact ⟨qc, hmem, hnull, rfl, rfl⟩
  · intro quorumHash a hfind
    refine hinv.baseIndex ?_
    rwa [← hconn.quorumBaseBlockIndexCache]

theorem Inv.disconnect {p : B} (hinv : Inv ctx s) (htip : s.tip = some b)
    (hparent : ctx.tree.parent b = some p) (hok : undoBlock ctx s b = some t) :
    Inv ctx { t with tip := some p } := by
  obtain ⟨qcs, hqcs, hdisc⟩ := disconnected_undoBlock hok
  refine ⟨fun {llmqType quorumHash qc minedBlockHash} => ?_, hdisc.agrees hinv.hasMined, ?_⟩
  · have hrecords {qc minedBlockHash} := (@Inv.records _ ctx s hinv llmqType quorumHash qc
      minedBlockHash).trans (minedOnChain_connect (s := { t with tip := some p }) hparent rfl htip)
    rw [hdisc.lookup, hrecords]
    constructor
    · rintro ⟨hold | ⟨hqc, rfl, rfl, rfl⟩, hkept⟩
      · exact hold
      · obtain ⟨hmem, hnull⟩ := (mined_iff hqcs).mp hqc
        exact absurd rfl (hkept qc hmem hnull)
    · intro hold
      refine ⟨.inl hold, fun qc' hmem hnull hkey => ?_⟩
      -- the record of `b` for the same quorum would be the record of a block below
      cases hkey
      have hlookup := hrecords.mpr (.inr ⟨(mined_iff hqcs).mpr ⟨hmem, hnull⟩, rfl, rfl, rfl⟩)
      rw [hrecords.mpr (.inl hold)] at hlookup
      cases hlookup
      obtain ⟨tip, a, ha, hanc, -, -, -, hhash⟩ := hold
      obtain rfl := getBlockHash_injective hhash
      obtain rfl : p = tip := some.inj ha
      have hheight := ctx.tree.height_parent hparent
      have := hanc.height_le
      omega
  · intro quorumHash a hfind
    refine hinv.baseIndex ?_
    rwa [← hdisc.quorumBaseBlockIndexCache]

/-! ### Lookups -/

def QuorumsCurrent (s : QuorumState B) : Prop :=
  ∀ ⦃llmqType quorumHash quorum⦄,
    (s.mapQuorumsCache llmqType).find quorumHash = some quorum →
      ∀ ⦃qc minedBlockHash⦄,
        s.minedCommitments.lookup (llmqType, quorumHash) = some (qc, minedBlockHash) →
          quorum.qc = qc ∧ quorum.minedBlockHash = minedBlockHash

variable (ctx) in
/-- `t` differs from `s` in cached values only, and they are as good in `t` as in `s`. -/
structure OnlyCaches (s t : QuorumState B) : Prop where
  tip : t.tip = s.tip
  minedCommitments : t.minedCommitments = s.minedCommitments
  minedByHeight : t.minedByHeight = s.minedByHeight
  agrees : HasMinedAgrees s → HasMinedAgrees t
  baseIndex : (∀ {h b}, s.quorumBaseBlockIndexCache.find h = some b → ctx.getBlockHash b = h) →
    ∀ {h b}, t.quorumBaseBlockIndexCache.find h = some b → ctx.getBlockHash b = h
  current : QuorumsCurrent s → QuorumsCurrent t

theorem OnlyCaches.refl (s : QuorumState B) : OnlyCaches ctx s s :=
  ⟨rfl, rfl, rfl, id, fun h => h, id⟩

theorem OnlyCaches.trans {u : QuorumState B} (hst : OnlyCaches ctx s t) (htu : OnlyCaches ctx t u) :
    OnlyCaches ctx s u where
  tip := htu.tip.trans hst.tip
  minedCommitments := htu.minedCommitments.trans hst.minedCommitments
  minedByHeight := htu.minedByHeight.trans hst.minedByHeight
  agrees := htu.agrees ∘ hst.agrees
  baseIndex h := htu.baseIndex (hst.baseIndex h)
  current := htu.current ∘ hst.current

theorem OnlyHasMined.onlyCaches (h : OnlyHasMined s t) : OnlyCaches ctx s t where
  tip := h.tip
  minedCommitments := h.minedCommitments
  minedByHeight := h.minedByHeight
  agrees := h.agrees
  baseIndex hs := by rwa [h.quorumBaseBlockIndexCache]
  current hs := by
    intro llmqType quorumHash quorum hfind qc minedBlockHash hlookup
    rw [h.mapQuorumsCache] at hfind
    rw [h.minedCommitments] at hlookup
    exact hs hfind hlookup

theorem lookup_of_built {quorum : CQuorum B}
    (hbuilt : (buildQuorumFromCommitment ctx s llmqType b).1 = some quorum) :
    s.minedCommitments.lookup (llmqType, ctx.getBlockHash b) =
      some (quorum.qc, quorum.minedBlockHash) := by
  unfold buildQuorumFromCommitment at hbuilt
  simp only at hbuilt
  split at hbuilt
  next hlookup _ =>
    cases hbuilt
    exact hlookup
  · cases hbuilt

/-- `R` relates the states before and after each change that a lookup is made of. -/
structure LookupRule (ctx : QuorumContext B) (R : QuorumState B → QuorumState B → Prop) : Prop where
  trans : ∀ {s t u}, R s t → R t u → R s u
  hasMined : ∀ {s t}, OnlyHasMined s t → R s t
  quorums : ∀ {s : QuorumState B} {caches}, (∀ {type hash quorum},
    (caches type).find hash = some quorum → (s.mapQuorumsCache type).find hash = some quorum ∨
      ∃ b, ctx.getBlockHash b = hash ∧ (buildQuorumFromCommitment ctx s type b).1 = some quorum) →
    R s { s with mapQuorumsCache := caches }

section LookupRule

variable {R : QuorumState B → QuorumState B → Prop} (hR : LookupRule ctx R)

include hR

theorem LookupRule.getQuorumAt (s : QuorumState B) (llmqType : LLMQType) (b : B) :
    R s (Llmq.getQuorumAt ctx s llmqType b).2 := by
  have hmined := hR.hasMined (onlyHasMined_hasMinedCommitment ctx s llmqType (ctx.getBlockHash b))
  unfold Llmq.getQuorumAt
  simp only
  split
  · exact hmined
  refine hR.trans hmined ?_
  generalize (hasMinedCommitment ctx s llmqType (ctx.getBlockHash b)).2 = s'
  have hget := find_get (s'.mapQuorumsCache llmqType) (ctx.getBlockHash b)
  split
  next heq =>
    rw [heq] at hget
    refine hR.quorums fun hfind => .inl ?_
    rwa [find_update_get hget] at hfind
  · unfold buildQuorumFromCommitment
    simp only
    split
    next hlookup hparams =>
      refine hR.quorums fun hfind => ?_
      rcases find_update_insert rfl hfind with ⟨hkey, rfl⟩ | hold
      · cases hkey
        refine .inr ⟨b, rfl, ?_⟩
        simp only [buildQuorumFromCommitment, hlookup, hparams]
      · exact .inl hold
    · exact hR.hasMined (.refl s')

theorem LookupRule.getQuorums (s : QuorumState B) (llmqType : LLMQType) (bases : List B) :
    R s (Llmq.getQuorums ctx llmqType s bases).2 := by
  induction bases generalizing s with
  | nil => exact hR.hasMined (.refl s)
  | cons b rest ih =>
    have hhead := hR.getQuorumAt s llmqType b
    rw [Llmq.getQuorums]
    split
    next heq => rwa [heq] at hhead
    next heq =>
      rw [heq] at hhead
      exact hR.trans hhead (ih _)

end LookupRule

theorem onlyCaches_rule : LookupRule ctx (OnlyCaches ctx) where
  trans := .trans
  hasMined := OnlyHasMined.onlyCaches
  quorums hcached := by
    refine ⟨rfl, rfl, rfl, id, fun h => h, fun hcurrent type hash quorum hfind qc mbh hlookup => ?_⟩
    rcases hcached hfind with hold | ⟨b, rfl, hbuilt⟩
    · exact hcurrent hold hlookup
    · rw [lookup_of_built hbuilt] at hlookup
      exact Prod.mk.inj (some.inj hlookup)

theorem getQuorumAt_fst (hagree : HasMinedAgrees s) (hcurrent : QuorumsCurrent s)
    {quorum : CQuorum B} (hfound : (getQuorumAt ctx s llmqType b).1 = some quorum) :
    s.minedCommitments.lookup (llmqType, ctx.getBlockHash b) =
      some (quorum.qc, quorum.minedBlockHash) := by
  unfold getQuorumAt at hfound
  simp only at hfound
  have honly := onlyHasMined_hasMinedCommitment ctx s llmqType (ctx.getBlockHash b)
  split at hfound
  · cases hfound
  rename_i hmined
  have hknown : ctx.getLLMQ llmqType ≠ none := by
    intro hnone
    simp [hasMinedCommitment, hnone] at hmined
  simp only [Bool.not_eq_true', Bool.not_eq_false, hasMinedCommitment_fst ctx hagree hknown]
    at hmined
  generalize (hasMinedCommitment ctx s llmqType (ctx.getBlockHash b)).2 = s' at hfound honly
  have hget := get_fst (s'.mapQuorumsCache llmqType) (ctx.getBlockHash b)
  split at hfound
  · rename_i cached cache heq
    obtain rfl : cached = quorum := by simpa using hfound
    rw [heq, honly.mapQuorumsCache] at hget
    obtain ⟨⟨qc, minedBlockHash⟩, hlookup⟩ :=
      isSome_iff_exists.mp (AList.lookup_isSome.mpr hmined)
    obtain ⟨rfl, rfl⟩ := hcurrent hget.symm hlookup
    exact hlookup
  · rw [← honly.minedCommitments]
    exact lookup_of_built hfound

theorem onlyCaches_getQuorum (s : QuorumState B) (llmqType : LLMQType) (quorumHash : Uint256) :
    OnlyCaches ctx s (getQuorum ctx s llmqType quorumHash).2 := by
  have hget := find_get s.quorumBaseBlockIndexCache quorumHash
  unfold getQuorum
  split
  · rename_i b cache heq
    rw [heq] at hget
    have hbase : OnlyCaches ctx s { s with quorumBaseBlockIndexCache := cache } :=
      ⟨rfl, rfl, rfl, id, fun hs h b' hfind => hs (hget ▸ hfind), id⟩
    exact hbase.trans (onlyCaches_rule.getQuorumAt _ llmqType b)
  · rename_i cache heq
    rw [heq] at hget
    split
    · exact ⟨rfl, rfl, rfl, id, fun hs h b' hfind => hs (hget ▸ hfind), id⟩
    · rename_i b hb
      have hbase : OnlyCaches ctx s
          { s with quorumBaseBlockIndexCache := cache.insert quorumHash b } := by
        refine ⟨rfl, rfl, rfl, id, fun hs h b' hfind => ?_, id⟩
        have hins := find_insert hfind
        split at hins
        · rename_i hh
          rw [hins, hh]
          exact ctx.lookupBlockIndex_iff.mp hb
        · exact hs (hget ▸ hins)
      exact hbase.trans (onlyCaches_rule.getQuorumAt _ llmqType b)

theorem getQuorum_fst (hinv : Inv ctx s) (hcurrent : QuorumsCurrent s) {quorumHash : Uint256}
    {quorum : CQuorum B} (hfound : (getQuorum ctx s llmqType quorumHash).1 = some quorum) :
    s.minedCommitments.lookup (llmqType, quorumHash) = some (quorum.qc, quorum.minedBlockHash) := by
  have hget := get_fst s.quorumBaseBlockIndexCache quorumHash
  unfold getQuorum at hfound
  split at hfound
  · rename_i b cache heq
    rw [heq] at hget
    obtain rfl := hinv.baseIndex hget.symm
    exact getQuorumAt_fst (s := { s with quorumBaseBlockIndexCache := cache }) hinv.hasMined
      hcurrent hfound
  · split at hfound
    · cases hfound
    · rename_i cache _ _ b hb
      obtain rfl := ctx.lookupBlockIndex_iff.mp hb
      exact getQuorumAt_fst (s := { s with quorumBaseBlockIndexCache := cache.insert _ b })
        hinv.hasMined hcurrent hfound

def scanAt (ctx : QuorumContext B) (s : QuorumState B) (llmqType : LLMQType) (params : LLMQParams)
    (pindexStore : B) (nCountRequested : Nat) : Option (List (CQuorum B) × QuorumState B) :=
  match (s.scanQuorumsCache llmqType).get (ctx.getBlockHash pindexStore) with
  | (none, _) =>
    scanFrom ctx s llmqType params pindexStore pindexStore []
      (max nCountRequested params.keepOldConnections) nCountRequested
  | (some cached, cache) =>
    let s := { s with
      scanQuorumsCache := Function.update s.scanQuorumsCache llmqType cache }
    if nCountRequested ≤ cached.length then some (cached.take nCountRequested, s)
    else
      match cached.getLast? with
      | none =>
        scanFrom ctx s llmqType params pindexStore pindexStore [] nCountRequested
          nCountRequested
      | some last =>
        match ctx.tree.parent last.quorumBaseBlockIndex with
        | none => some ([], s)
        | some pprev =>
          scanFrom ctx s llmqType params pindexStore pprev cached
            (nCountRequested - cached.length) nCountRequested

section Scans

variable {params : LLMQParams} {p : B} {quorums : List (CQuorum B)} {nRequested : Nat}

theorem scanQuorums_eq (hcount : nRequested ≠ 0)
    (henabled : ctx.isQuorumTypeEnabled llmqType p = true)
    (hparams : ctx.getLLMQ llmqType = some params) :
    scanQuorums ctx s llmqType p nRequested =
      (scanStart ctx params p).bind fun start =>
        match start with
        | none => some ([], s)
        | some pindexStore =>
          scanAt ctx s llmqType params pindexStore nRequested := by
  have hnot : ¬(nRequested = 0 ∨ ctx.isQuorumTypeEnabled llmqType p = false) := by
    rw [henabled]
    simpa using hcount
  unfold scanQuorums
  rw [if_neg hnot, hparams]
  rfl

theorem scanQuorums_cases (hok : scanQuorums ctx s llmqType p nRequested = some (quorums, t)) :
    t = s ∨ ∃ params pindexStore,
      scanAt ctx s llmqType params pindexStore nRequested = some (quorums, t) := by
  by_cases hempty : nRequested = 0 ∨ ctx.isQuorumTypeEnabled llmqType p = false
  · unfold scanQuorums at hok
    rw [if_pos hempty] at hok
    cases hok
    exact .inl rfl
  cases hparams : ctx.getLLMQ llmqType with
  | none =>
    unfold scanQuorums at hok
    rw [if_neg hempty, hparams] at hok
    cases hok
  | some params =>
    rw [not_or, Bool.not_eq_false] at hempty
    rw [scanQuorums_eq hempty.1 hempty.2 hparams] at hok
    obtain ⟨start, -, hrest⟩ := bind_eq_some_iff.mp hok
    cases start with
    | none =>
      cases hrest
      exact .inl rfl
    | some pindexStore => exact .inr ⟨params, pindexStore, hrest⟩

theorem LookupRule.scanAt {R : QuorumState B → QuorumState B → Prop} (hR : LookupRule ctx R)
    (hscans : ∀ {s : QuorumState B} {caches}, (∀ {type hash quorums},
      (caches type).find hash = some quorums → (s.scanQuorumsCache type).find hash = some quorums ∨
        hash = ctx.getBlockHash p) → R s { s with scanQuorumsCache := caches })
    (hok : Llmq.scanAt ctx s llmqType params p nRequested = some (quorums, t)) : R s t := by
  have hscan {s : QuorumState B} {pIndexScan : B} {cached : List (CQuorum B)} {nScan : Nat}
      (hok : scanFrom ctx s llmqType params p pIndexScan cached nScan nRequested =
        some (quorums, t)) : R s t := by
    obtain ⟨bases, -, hrest⟩ := bind_eq_some_iff.mp hok
    have hquorums := hR.getQuorums s llmqType bases
    split at hrest
    next heq =>
      rw [heq] at hquorums
      cases hrest
      exact hquorums
    next heq =>
      rw [heq] at hquorums
      cases hrest
      split
      · exact hquorums
      · refine hR.trans hquorums (hscans fun hfind => ?_)
        exact (find_update_insert rfl hfind).symm.imp_right fun h => (Prod.mk.inj h.1).2
  have hget := find_get (s.scanQuorumsCache llmqType) (ctx.getBlockHash p)
  unfold Llmq.scanAt at hok
  split at hok
  · exact hscan hok
  next cache heq =>
    rw [heq] at hget
    have hcache : R s { s with
        scanQuorumsCache := Function.update s.scanQuorumsCache llmqType cache } :=
      hscans fun hfind => .inl (by rwa [find_update_get hget] at hfind)
    split at hok
    · cases hok
      exact hcache
    split at hok
    · exact hR.trans hcache (hscan hok)
    split at hok
    · cases hok
      exact hcache
    · exact hR.trans hcache (hscan hok)

theorem onlyCaches_scanQuorums (hok : scanQuorums ctx s llmqType p nRequested = some (quorums, t)) :
    OnlyCaches ctx s t := by
  obtain rfl | ⟨params, pindexStore, hok⟩ := scanQuorums_cases hok
  · exact .refl t
  · exact onlyCaches_rule.scanAt (fun _ => ⟨rfl, rfl, rfl, id, fun h => h, id⟩) hok

end Scans

theorem Inv.onlyCaches (hinv : Inv ctx s) (hst : OnlyCaches ctx s t) : Inv ctx t where
  records := by
    intro llmqType quorumHash qc minedBlockHash
    rw [hst.minedCommitments, hinv.records]
    simp [MinedOnChain, hst.tip]
  hasMined := hst.agrees hinv.hasMined
  baseIndex := hst.baseIndex hinv.baseIndex

/-! ### Runs -/

variable [DecidableEq B]

variable {op : QuorumOp B}

theorem stepQuorum_cases (hstep : stepQuorum ctx s op = some t) :
    (∃ b fBLSChecks p s', op = .connect b fBLSChecks ∧ s.tip = some p ∧
        ctx.tree.parent b = some p ∧ processBlock ctx s b false fBLSChecks = (.ok (), s') ∧
        t = { s' with tip := some b }) ∨
      (∃ b p s', op = .disconnect ∧ s.tip = some b ∧ ctx.tree.parent b = some p ∧
        undoBlock ctx s b = some s' ∧ t = { s' with tip := some p }) ∨
      OnlyCaches ctx s t := by
  cases op with
  | connect b fBLSChecks =>
    rw [stepQuorum] at hstep
    split at hstep
    · rename_i htip
      obtain ⟨p, hp⟩ := ne_none_iff_exists'.mp htip.1
      split at hstep
      · rename_i s' hok
        exact Or.inl ⟨b, fBLSChecks, p, s', rfl, hp, htip.2 ▸ hp, hok, (some.inj hstep).symm⟩
      · cases hstep
    · cases hstep
  | disconnect =>
    obtain ⟨b, hb, hrest⟩ := bind_eq_some_iff.mp hstep
    obtain ⟨p, hp, hrest⟩ := bind_eq_some_iff.mp hrest
    obtain ⟨s', hok, hrest⟩ := bind_eq_some_iff.mp hrest
    exact Or.inr (Or.inl ⟨b, p, s', rfl, hb, hp, hok, (some.inj hrest).symm⟩)
  | getQuorum llmqType quorumHash =>
    cases hstep
    exact Or.inr (Or.inr (onlyCaches_getQuorum s llmqType quorumHash))
  | scanQuorums llmqType pindexStart nRequested =>
    obtain ⟨⟨quorums, s'⟩, hok, rfl⟩ := map_eq_some_iff.mp hstep
    exact Or.inr (Or.inr (onlyCaches_scanQuorums hok))

theorem Inv.step (hinv : Inv ctx s) (hstep : Accepts (stepQuorum ctx) s op t) : Inv ctx t := by
  rcases stepQuorum_cases hstep with
    ⟨b, fBLSChecks, p, s', rfl, htip, hparent, hok, rfl⟩ | ⟨b, p, s', rfl, htip, hparent, hok, rfl⟩ |
      hcaches
  · exact hinv.connect htip hparent hok
  · exact hinv.disconnect htip hparent hok
  · exact hinv.onlyCaches hcaches

variable (ctx) in
structure Initial (s : QuorumState B) : Prop where
  tip : s.tip = some ctx.genesis
  minedCommitments : s.minedCommitments = ∅
  hasMined : ∀ llmqType quorumHash, (s.mapHasMinedCommitmentCache llmqType).find quorumHash = none
  quorums : ∀ llmqType quorumHash, (s.mapQuorumsCache llmqType).find quorumHash = none
  baseIndex : ∀ quorumHash, s.quorumBaseBlockIndexCache.find quorumHash = none

omit [DecidableEq B] in
theorem Initial.inv (hinit : Initial ctx s) : Inv ctx s where
  records := by
    intro llmqType quorumHash qc minedBlockHash
    rw [hinit.minedCommitments]
    refine ⟨fun h => by simp at h, ?_⟩
    rintro ⟨tip, b, htip, hanc, hmined, -⟩
    obtain rfl : ctx.genesis = tip := by simpa [hinit.tip] using htip
    obtain rfl := (BlockTree.ancestor_root_iff ctx.genesis_root).mp hanc
    exact absurd hmined (genesis_not_mined qc)
  hasMined := by
    intro llmqType quorumHash fExists hfind
    rw [hinit.hasMined] at hfind
    cases hfind
  baseIndex := by
    intro quorumHash b hfind
    rw [hinit.baseIndex] at hfind
    cases hfind

variable (ctx) in
/-- A connected block mines no commitment for a quorum of which the cache holds another one. -/
def MinesAsCached (s : QuorumState B) : QuorumOp B → Prop
  | .connect b _ =>
    ∀ qc, Mined ctx b qc → ∀ quorum,
      (s.mapQuorumsCache qc.llmqType).find qc.quorumHash = some quorum →
        quorum.qc = qc ∧ quorum.minedBlockHash = ctx.getBlockHash b
  | _ => True

theorem QuorumsCurrent.step (hinv : Inv ctx s) (hcurrent : QuorumsCurrent s)
    (hguard : MinesAsCached ctx s op) (hstep : stepQuorum ctx s op = some t) :
    QuorumsCurrent t := by
  rcases stepQuorum_cases hstep with
    ⟨b, fBLSChecks, p, s', rfl, htip, hparent, hok, rfl⟩ | ⟨b, p, s', rfl, htip, hparent, hok, rfl⟩ |
      hcaches
  · obtain ⟨qcs, hconn, hmined⟩ := processBlock_ok hinv.hasMined hok
    intro llmqType quorumHash quorum hfind qc minedBlockHash hlookup
    rw [hconn.mapQuorumsCache] at hfind
    rcases (hconn.lookup _ _).mp hlookup with hold | ⟨qc', hmem, hnull, hkey, hv⟩
    · exact hcurrent hfind hold
    · cases hkey
      cases hv
      exact hguard qc ((hmined qc).mp ⟨hmem, hnull⟩) quorum hfind
  · obtain ⟨qcs, -, hdisc⟩ := disconnected_undoBlock hok
    intro llmqType quorumHash quorum hfind qc minedBlockHash hlookup
    rw [hdisc.mapQuorumsCache] at hfind
    exact hcurrent hfind ((hdisc.lookup _ _).mp hlookup).1
  · exact hcaches.current hcurrent

/-- In every run in which no block mines a commitment for a quorum of which another one is cached,
`GetQuorum` returns what is mined on the active chain. -/
theorem getQuorum_follows_chain {s₀ s : QuorumState B} {ops : List (QuorumOp B)}
    (hinit : Initial ctx s₀)
    (hrun : Run (Guarded (MinesAsCached ctx) (Accepts (stepQuorum ctx))) s₀ ops s)
    (llmqType : LLMQType) (quorumHash : Uint256) :
    (∀ quorum, (getQuorum ctx s llmqType quorumHash).1 = some quorum →
        MinedOnChain ctx s llmqType quorumHash quorum.qc quorum.minedBlockHash) ∧
      ((∀ qc minedBlockHash, ¬MinedOnChain ctx s llmqType quorumHash qc minedBlockHash) →
        (getQuorum ctx s llmqType quorumHash).1 = none) := by
  have hinv : Inv ctx s ∧ QuorumsCurrent s := by
    refine hrun.invariant (I := fun s => Inv ctx s ∧ QuorumsCurrent s) ?_ ?_
    · rintro s op t ⟨hinv, hcurrent⟩ ⟨hguard, hstep⟩
      exact ⟨hinv.step hstep, hcurrent.step hinv hguard hstep⟩
    · refine ⟨hinit.inv, ?_⟩
      intro llmqType quorumHash quorum hfind
      rw [hinit.quorums] at hfind
      cases hfind
  have hfound (quorum : CQuorum B) (h : (getQuorum ctx s llmqType quorumHash).1 = some quorum) :
      MinedOnChain ctx s llmqType quorumHash quorum.qc quorum.minedBlockHash :=
    hinv.1.records.mp (getQuorum_fst hinv.1 hinv.2 h)
  refine ⟨hfound, fun hnone => ?_⟩
  cases h : (getQuorum ctx s llmqType quorumHash).1 with
  | none => rfl
  | some quorum => exact absurd (hfound quorum h) (hnone _ _)

/-! ### A reorganisation that mines a commitment again -/

def forkTree : BlockTree (Fin 5) where
  parent := ![none, some 0, some 1, some 2, some 2]
  height := ![0, 1, 2, 3, 3]
  height_root := by decide
  height_parent := by decide

def forkParams : LLMQParams :=
  { type := 1, size := 1, minSize := 1, threshold := 1, dkgInterval := 2,
    dkgMiningWindowStart := 1, dkgMiningWindowEnd := 1, dkgBadVotesThreshold := 1,
    dkgBadVotesThresholdV2 := 0, signingActiveQuorumCount := 1, keepOldConnections := 2,
    keepOldKeys := 2 }

def forkHash (b : Fin 5) : Uint256 := BitVec.ofNat 256 (b.val + 1)

def forkCommitment : CFinalCommitment :=
  { nVersion := 3, llmqType := 1, quorumHash := forkHash 2, quorumIndex := 0, signers := [true],
    validMembers := [true], quorumPublicKey := some 5, quorumVvecHash := 6,
    quorumSig := some 7, membersSig := some 8 }

def forkContext : QuorumContext (Fin 5) where
  tree := forkTree
  getBlockHash := forkHash
  lookupBlockIndex h := (List.finRange 5).find? fun b => forkHash b = h
  lookupBlockIndex_iff := by
    intro h b
    constructor
    · intro hfind
      simpa using List.find?_some hfind
    · rintro rfl
      revert b
      decide
  genesis := 0
  genesis_root := rfl
  commitmentTxs := ![[], [], [], [some forkCommitment], [some forkCommitment]]
  genesis_commitmentTxs := rfl
  DIP0003Height := 1
  llmqs := [forkParams]
  isQuorumTypeEnabled _ b := b = 2
  verify _ _ _ := true
  getAllQuorumMembers _ _ := []

def forkState : QuorumState (Fin 5) where
  tip := some 0
  minedCommitments := ∅
  minedByHeight := ∅
  mapHasMinedCommitmentCache _ := .new 2 0 (Nat.succ_ne_zero 1)
  mapQuorumsCache _ := .new 2 0 (Nat.succ_ne_zero 1)
  scanQuorumsCache _ := .new 2 0 (Nat.succ_ne_zero 1)
  quorumBaseBlockIndexCache := .new 128 0 (Nat.succ_ne_zero 127)

theorem initial_forkState : Initial forkContext forkState :=
  ⟨rfl, rfl, fun _ _ => rfl, fun _ _ => rfl, fun _ => rfl⟩

def connectOps : List (QuorumOp (Fin 5)) :=
  [.connect 1 true, .connect 2 true, .connect 3 true]

def reorgOps : List (QuorumOp (Fin 5)) :=
  connectOps ++ [.getQuorum 1 (forkHash 2), .disconnect, .connect 4 true]

theorem reorg_lookup :
    ((reorgOps.foldlM (stepQuorum forkContext) forkState).map fun s =>
      (s.tip, (getQuorum forkContext s 1 (forkHash 2)).1.map CQuorum.minedBlockHash)) =
        some (some 4, some (forkHash 3)) := by
  decide

/-- The commitment is mined again in block 4. The cached quorum still names block 3. -/
theorem getQuorum_names_disconnected_block :
    ∃ (ops : List (QuorumOp (Fin 5))) (s : QuorumState (Fin 5)) (quorum : CQuorum (Fin 5)),
      Initial forkContext forkState ∧ Run (Accepts (stepQuorum forkContext)) forkState ops s ∧
        (getQuorum forkContext s 1 (forkHash 2)).1 = some quorum ∧
        ¬MinedOnChain forkContext s 1 (forkHash 2) quorum.qc quorum.minedBlockHash := by
  obtain ⟨s, hrun, hs⟩ := Option.map_eq_some_iff.mp reorg_lookup
  obtain ⟨htip, hquorum⟩ := Prod.mk.inj hs
  obtain ⟨quorum, hfound, hblock⟩ := Option.map_eq_some_iff.mp hquorum
  refine ⟨reorgOps, s, quorum, initial_forkState, Run.accepts hrun, hfound, ?_⟩
  rintro ⟨tip, b, htip', hanc, -, -, -, hhash⟩
  rw [htip] at htip'
  cases htip'
  rw [hblock] at hhash
  revert b
  decide

theorem getQuorum_follows_chain_connect :
    ∃ s, Run (Guarded (MinesAsCached forkContext) (Accepts (stepQuorum forkContext))) forkState
        connectOps s ∧
      ∀ quorum, (getQuorum forkContext s 1 (forkHash 2)).1 = some quorum →
        MinedOnChain forkContext s 1 (forkHash 2) quorum.qc quorum.minedBlockHash := by
  obtain ⟨s, hrun⟩ : ∃ s, Run (Guarded (MinesAsCached forkContext)
      (Accepts (stepQuorum forkContext))) forkState connectOps s := by
    refine ⟨_, .cons ⟨?_, rfl⟩ (.cons ⟨?_, rfl⟩ (.cons ⟨?_, rfl⟩ (.nil _)))⟩
    all_goals
      intro qc _ quorum hfind
      cases hfind
  exact ⟨s, hrun, (getQuorum_follows_chain initial_forkState hrun 1 (forkHash 2)).1⟩

end Defcon.Llmq
