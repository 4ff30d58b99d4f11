import Defcon.Lib.Sorting
import Defcon.Llmq.QcHashes
import Defcon.Llmq.ScanQuorums

/-!
# The quorum merkle root is a function of the chain

The commitments of a block take the places of the oldest hashes of their types. Up to the order,
which is that of the hashes, what results are the commitments that are newest at the block. Since
the cache is dropped with every record that changes, the root is the same for the miner's template,
for a block that is only checked and for a block that is connected, after any history of calls.
-/

namespace Defcon.Llmq

open List Option Lib
open AList (Map)
open Lib (Run Accepts)

variable {B : Type}

/-! ### The block's own commitments -/

theorem exists_commitments {net : Network B} {b : B} {out : List CFinalCommitment}
    (hqcs : net.getCommitmentsFromBlock b = .ok out) :
    ∃ qcs : List CFinalCommitment, net.commitmentTxs b = qcs.map some ∧
      (qcs.map CFinalCommitment.llmqType).Nodup ∧ (∀ qc ∈ qcs, net.getLLMQ qc.llmqType ≠ none) ∧
      ∀ llmqType, minedIn net llmqType b =
        qcs.find? fun qc => qc.llmqType = llmqType ∧ qc.isNull = false := by
  obtain ⟨hnodup, -, qcs, hvtx, hperm, hknown⟩ := getCommitmentsFromBlock_ok hqcs
  have hnodup' := (hperm.map CFinalCommitment.llmqType).nodup_iff.mp hnodup
  refine ⟨qcs, hvtx, hnodup', hknown, fun llmqType => ext fun qc => ?_⟩
  rw [minedIn, hqcs]
  rw [find_commitment_iff hnodup, find_commitment_iff hnodup', hperm.mem_iff]

namespace RootContext

variable {ctx : RootContext B} {s t : QcHashProcessor B} {b p : B}

variable {m : Map LLMQType (List Uint256)} {params : LLMQParams} {val : LLMQParams → List Uint256}

theorem HoldsFor.lookup (hholds : ctx.HoldsFor val m) (hmem : params ∈ ctx.llmqs) :
    m.lookup params.type = some (val params) :=
  (hholds _ _).mpr ⟨params, hmem, rfl, rfl⟩

theorem HoldsFor.modify (hholds : ctx.HoldsFor val m) (hmem : params ∈ ctx.llmqs)
    (f : LLMQParams → List Uint256 → List Uint256) :
    ctx.HoldsFor (fun params' =>
        if params'.type = params.type then f params' (val params') else val params')
      (m.modifyD params.type [] (f params)) := by
  intro llmqType vec_hashes
  rw [AList.lookup_modifyD, hholds.lookup hmem, getD_some]
  split
  next htype =>
    rw [some.injEq]
    constructor
    · rintro rfl
      exact ⟨params, hmem, htype.symm, if_pos rfl⟩
    · rintro ⟨params', hmem', rfl, rfl⟩
      obtain rfl := inj_on_of_nodup_map ctx.nodup_types hmem' hmem htype
      exact (if_pos rfl).symm
  next htype =>
    rw [hholds]
    constructor
    · rintro ⟨params', hmem', rfl, rfl⟩
      exact ⟨params', hmem', rfl, if_neg htype⟩
    · rintro ⟨params', hmem', rfl, rfl⟩
      exact ⟨params', hmem', rfl, (if_neg htype).symm⟩

theorem addCommitments_spec {qcs : List CFinalCommitment} (hholds : ctx.HoldsFor val m)
    (hnodup : (qcs.map CFinalCommitment.llmqType).Nodup)
    (hknown : ∀ qc ∈ qcs, ctx.getLLMQ qc.llmqType ≠ none) :
    ∃ m', ctx.addCommitments (qcs.map some) m = .ok m' ∧
      ctx.HoldsFor (fun params =>
        match qcs.find? fun qc => qc.llmqType = params.type ∧ qc.isNull = false with
        | none => val params
        | some qc => replaceOldest params (ctx.serializeHash qc) (val params)) m' := by
  induction qcs generalizing m val with
  | nil => exact ⟨m, rfl, hholds⟩
  | cons qc qcs ih =>
    rw [map_cons, nodup_cons] at hnodup
    rw [map_cons, addCommitments]
    have hrest := fun qc hmem => hknown qc (mem_cons_of_mem _ hmem)
    split
    next hnull =>
      obtain ⟨m', hok, hholds'⟩ := ih hholds hnodup.2 hrest
      refine ⟨m', hok, ?_⟩
      simpa only [find?_cons, hnull, Bool.true_eq_false, and_false, decide_false] using hholds'
    next hnull =>
      rw [Bool.not_eq_true] at hnull
      obtain ⟨params, hparams⟩ := ne_none_iff_exists'.mp (hknown qc mem_cons_self)
      obtain ⟨hmem, htype⟩ := mem_llmqs hparams
      rw [hparams]
      obtain ⟨m', hok, hholds'⟩ := ih
        (hholds.modify hmem fun params => replaceOldest params (ctx.serializeHash qc))
        hnodup.2 hrest
      refine ⟨m', hok, ?_⟩
      convert hholds' using 2 with params'
      simp only [find?_cons, hnull, and_true, htype]
      by_cases hsame : qc.llmqType = params'.type
      · -- the rest of the block has no other commitment of the type
        have hnone : (qcs.find? fun qc => decide (qc.llmqType = params'.type ∧ qc.isNull = false)) =
            none := by
          rw [find?_eq_none]
          intro qc' hmem' hprop
          rw [decide_eq_true_eq] at hprop
          exact hnodup.1 (mem_map.mpr ⟨qc', hmem', hprop.1.trans hsame.symm⟩)
        rw [hnone, decide_eq_true hsame, if_pos hsame.symm]
      · rw [decide_eq_false hsame, if_neg (Ne.symm hsame)]

theorem joinHashes_spec {entries : List (Sigma fun _ : LLMQType => List Uint256)}
    (hentries : ∀ e ∈ entries, ∃ params, ctx.getLLMQ e.1 = some params ∧
      e.2.length ≤ params.signingActiveQuorumCount) :
    ctx.joinHashes entries = some (.ok (entries.flatMap Sigma.snd)) := by
  induction entries with
  | nil => rfl
  | cons e entries ih =>
    obtain ⟨params, hparams, hle⟩ := hentries e mem_cons_self
    rw [joinHashes, hparams, ih fun e he => hentries e (mem_cons_of_mem _ he)]
    dsimp only
    rw [if_neg (Nat.not_lt.mpr hle)]
    rfl

theorem perm_replaceOldest (hpos : 0 < params.signingActiveQuorumCount) (qcHash : Uint256)
    (hashes : List Uint256) :
    (replaceOldest params qcHash (hashes.take params.signingActiveQuorumCount)).Perm
      ((qcHash :: hashes).take params.signingActiveQuorumCount) := by
  obtain ⟨n, hn⟩ := Nat.exists_eq_add_of_le' hpos
  unfold replaceOldest
  rw [hn, take_succ_cons]
  refine (perm_append_singleton _ _).trans (.of_eq (congrArg _ ?_))
  by_cases hfull : (hashes.take (n + 1)).length = n + 1
  · rw [if_pos hfull, dropLast_eq_take, hfull, take_take, Nat.add_sub_cancel,
      Nat.min_eq_left (Nat.le_succ n)]
  · rw [if_neg hfull]
    rw [length_take] at hfull
    rw [take_of_length_le (by omega), take_of_length_le (by omega)]

def quorumRoot (ctx : RootContext B) (b : B) : Except String Uint256 :=
  ctx.sortedRoot (ctx.llmqs.flatMap (ctx.newestHashes b))

theorem strictComparison_lt : StrictComparison fun a b : Uint256 => a < b where
  asymm hab hba := absurd hab (BitVec.not_lt.mpr (BitVec.le_of_lt hba))
  trans := BitVec.lt_trans
  eq_of_not hab hba := BitVec.le_antisymm (BitVec.not_lt.mp hba) (BitVec.not_lt.mp hab)

theorem sortedRoot_eq_of_perm {hashes hashes' : List Uint256} (hperm : hashes.Perm hashes') :
    ctx.sortedRoot hashes = ctx.sortedRoot hashes' := by
  rw [sortedRoot, strictComparison_lt.insertionSort_eq_of_perm hperm, sortedRoot]

theorem quorumRoot_of_twinFree (hfree : Merkle.TwinFree ctx.sha256D64
      ((ctx.llmqs.flatMap (ctx.newestHashes b)).insertionSort (· < ·))) :
    ctx.quorumRoot b = .ok (Merkle.computeMerkleRoot ctx.sha256D64 0
      ((ctx.llmqs.flatMap (ctx.newestHashes b)).insertionSort (· < ·))).1 := by
  have hmutated := @Merkle.TwinFree.not_mutated _ _ _ 0 _ hfree
  rw [quorumRoot, sortedRoot]
  rcases hroot : Merkle.computeMerkleRoot ctx.sha256D64 0
    ((ctx.llmqs.flatMap (ctx.newestHashes b)).insertionSort (· < ·)) with ⟨merkleRoot, mutated⟩
  rw [hroot] at hmutated
  dsimp only at hmutated
  rw [hmutated]

variable [DecidableEq B]

theorem calcCbTxMerkleRootQuorums_eq {qcHashes : Map LLMQType (List Uint256)}
    {out : List CFinalCommitment} (hparent : ctx.tree.parent b = some p)
    (hqcs : ctx.getCommitmentsFromBlock b = .ok out)
    (hget : ctx.getQcHashes s p = some (some qcHashes, t))
    (hholds : ctx.HoldsFor (ctx.newestHashes p) qcHashes) :
    ctx.calcCbTxMerkleRootQuorums s (ctx.commitmentTxs b) p = some (ctx.quorumRoot b, t) := by
  obtain ⟨qcs, hvtx, hnodup, hknown, hown⟩ := exists_commitments hqcs
  obtain ⟨m, hadd, hholds'⟩ := addCommitments_spec hholds hnodup hknown
  -- per type the result is that of the block, in another order
  have hnewest (params : LLMQParams) (hmem : params ∈ ctx.llmqs) :
      ((match qcs.find? fun qc : CFinalCommitment =>
          qc.llmqType = params.type ∧ qc.isNull = false with
        | none => ctx.newestHashes p params
        | some qc => replaceOldest params (ctx.serializeHash qc) (ctx.newestHashes p params)).Perm
          (ctx.newestHashes b params)) := by
    rw [← hown, newestHashes, newestHashes, minedUpTo_of_parent hparent, map_take,
      map_take, map_append]
    cases minedIn ctx params.type b with
    | none => exact .rfl
    | some qc => exact perm_replaceOldest (ctx.active_pos params hmem) _ _
  have hlength (params : LLMQParams) :
      (ctx.newestHashes b params).length ≤ params.signingActiveQuorumCount := by
    rw [newestHashes, length_map, length_take]
    exact Nat.min_le_left _ _
  have hentries := AList.entries_perm ctx.nodup_types hholds'
  have hjoin := @joinHashes_spec _ ctx m.entries (by
    intro e he
    obtain ⟨params, hmem, rfl⟩ := mem_map.mp (hentries.mem_iff.mp he)
    refine ⟨params, getLLMQ_of_mem hmem, ?_⟩
    rw [(hnewest params hmem).length_eq]
    exact hlength params)
  have hroot : ctx.sortedRoot (m.entries.flatMap Sigma.snd) = ctx.quorumRoot b := by
    refine sortedRoot_eq_of_perm ((hentries.flatMap_right _).trans ?_)
    rw [flatMap_map]
    exact List.Perm.flatMap_left _ hnewest
  unfold calcCbTxMerkleRootQuorums
  rw [hget]
  dsimp only [bind_eq_bind, bind_some]
  rw [hvtx, hadd]
  dsimp only
  rw [hjoin, bind_some]
  dsimp only
  rw [hroot]
  rfl

omit [DecidableEq B] in
theorem toQuorumState_pooled {ctx : ProcessorContext B} {q : QuorumState B} {fBLSChecks : Bool} :
    (ctx.processBlock { toQuorumState := q } b fBLSChecks).2.toQuorumState =
      (Llmq.processBlock ctx.toQuorumContext q b false fBLSChecks).2 := by
  have hloop (nHeight : Nat) (blockHash : Uint256) (qcs : List CFinalCommitment)
      (s : CQuorumBlockProcessor B) :
      (ctx.processCommitments nHeight blockHash fBLSChecks s qcs).2.toQuorumState =
        (Llmq.processCommitments ctx.toQuorumContext nHeight blockHash false fBLSChecks
          s.toQuorumState qcs).2 := by
    induction qcs generalizing s with
    | nil => rfl
    | cons qc qcs ih =>
      rw [ProcessorContext.processCommitments, Llmq.processCommitments,
        ProcessorContext.processCommitment]
      rcases processCommitment ctx.toQuorumContext s.toQuorumState nHeight blockHash qc false
        fBLSChecks with ⟨verdict, q⟩
      cases verdict with
      | error e => rfl
      | ok u =>
        cases qc.isNull with
        | true => exact ih _
        | false => exact ih _
  unfold ProcessorContext.processBlock Llmq.processBlock
  by_cases hheight : ctx.tree.height b < ctx.DIP0003Height
  · rw [if_pos hheight, if_pos hheight]
  rw [if_neg hheight, if_neg hheight]
  cases ctx.getCommitmentsFromBlock b with
  | error e => rfl
  | ok qcs =>
    dsimp only
    rcases checkCommitmentCounts ctx.toQuorumContext (ctx.tree.height b) qcs q
      (((ctx.tree.parent b).map ctx.getEnabledQuorumParams).getD []) with ⟨verdict, q'⟩
    cases verdict with
    | error e => rfl
    | ok u => exact hloop _ _ qcs { toQuorumState := q' }

/-! ### Runs -/

/-- What holds after every run: the records are those of the active chain, and so are the cached
hashes. -/
structure RootInv (ctx : RootContext B) (s : QcHashProcessor B) : Prop where
  chain : ChainInv ctx.toNetwork s.toQuorumState
  coherent : ctx.Coherent s.m_quorums_cached s.m_qc_hashes_cached s.toQuorumState

variable {bases : LLMQParams → List B} {fJustCheck fBLSChecks checkRoot : Bool}

omit [DecidableEq B] in
theorem Coherent.grown
    (hcoherent : ctx.Coherent s.m_quorums_cached s.m_qc_hashes_cached s)
    (hgrown : Grown fJustCheck (ctx.tree.height b) s t) :
    ctx.Coherent t.m_quorums_cached t.m_qc_hashes_cached t ∧
      ctx.Coherent t.m_quorums_cached t.m_qc_hashes_cached s := by
  rcases hgrown.cache with ⟨hquorums, hhashes, hmined⟩ | ⟨hquorums, hhashes⟩
  · rw [hquorums, hhashes]
    exact ⟨hcoherent.of_same hmined, hcoherent⟩
  · rw [hquorums, hhashes]
    exact ⟨coherent_empty, coherent_empty⟩

theorem calc_state {vtx : List (Option CFinalCommitment)} {v : Except String Uint256}
    (hreads : ctx.Reads p bases s.toQuorumState)
    (hcoherent : ctx.Coherent s.m_quorums_cached s.m_qc_hashes_cached s.toQuorumState)
    (hcalc : ctx.calcCbTxMerkleRootQuorums s vtx p = some (v, t)) :
    t.toQuorumState = s.toQuorumState ∧
      (t = s ∨ ∀ q, ctx.Reads p bases q →
        ctx.Coherent t.m_quorums_cached t.m_qc_hashes_cached q) := by
  obtain ⟨qcHashes, t', hget, -, hstate, hcached⟩ := getQcHashes_spec hreads hcoherent
  unfold calcCbTxMerkleRootQuorums at hcalc
  rw [hget] at hcalc
  dsimp only [bind_eq_bind, bind_some] at hcalc
  have hsame : t = t' := by
    cases hadd : ctx.addCommitments vtx qcHashes with
    | error e =>
      rw [hadd] at hcalc
      exact (Prod.mk.inj (some.inj hcalc)).2.symm
    | ok m =>
      rw [hadd] at hcalc
      obtain ⟨joined, -, hcalc⟩ := bind_eq_some_iff.mp hcalc
      cases joined with
      | error e | ok hashes => exact (Prod.mk.inj (some.inj hcalc)).2.symm
  rw [hsame]
  exact ⟨hstate, hcached⟩

theorem processAndCheck_cases {v : Except String Unit}
    (hok : ctx.processAndCheck s b p fJustCheck fBLSChecks checkRoot = some (v, t)) :
    ((ctx.processBlock s b fJustCheck fBLSChecks).1 = .ok () ∨ v ≠ .ok ()) ∧
      (t = (ctx.processBlock s b fJustCheck fBLSChecks).2 ∨ ∃ root,
        ctx.calcCbTxMerkleRootQuorums (ctx.processBlock s b fJustCheck fBLSChecks).2
          (ctx.commitmentTxs b) p = some (root, t)) := by
  unfold processAndCheck at hok
  rcases hprocess : ctx.processBlock s b fJustCheck fBLSChecks with ⟨verdict, s'⟩
  rw [hprocess] at hok
  cases verdict with
  | error e =>
    cases hok
    exact ⟨Or.inr (nomatch ·), Or.inl rfl⟩
  | ok u =>
    refine ⟨Or.inl rfl, ?_⟩
    dsimp only at hok ⊢
    cases checkRoot with
    | false => exact Or.inl (Prod.mk.inj (some.inj hok)).2.symm
    | true =>
      rw [if_pos rfl] at hok
      cases hcalc : ctx.calcCbTxMerkleRootQuorums s' (ctx.commitmentTxs b) p with
      | none =>
        rw [hcalc] at hok
        cases hok
      | some result =>
        obtain ⟨root, t'⟩ := result
        rw [hcalc] at hok
        refine Or.inr ⟨root, ?_⟩
        cases root with
        | error e | ok root => rw [(Prod.mk.inj (some.inj hok)).2]

/-- `ProcessBlock` and the check of the root: the records are those of `ProcessBlock`, and what is
cached holds with them and without them. -/
theorem RootInv.processAndCheck {v : Except String Unit} (hinv : ctx.RootInv s)
    (htip : s.tip = some p) (hparent : ctx.tree.parent b = some p)
    (hok : ctx.processAndCheck s b p fJustCheck fBLSChecks checkRoot = some (v, t)) :
    t.toQuorumState = (ctx.processBlock s b fJustCheck fBLSChecks).2.toQuorumState ∧
      ctx.Coherent t.m_quorums_cached t.m_qc_hashes_cached t.toQuorumState ∧
      ctx.Coherent t.m_quorums_cached t.m_qc_hashes_cached s.toQuorumState := by
  have hgrown := @grown_processBlock _ ctx s fJustCheck fBLSChecks b hinv.chain.hasMined
  obtain ⟨hafter, hbefore⟩ := hinv.coherent.grown hgrown
  have hreads := reads_of_chainInv hinv.chain htip
  rcases (processAndCheck_cases hok).2 with rfl | ⟨root, hcalc⟩
  · exact ⟨rfl, hafter, hbefore⟩
  · have hreads' := hreads.grown hparent hgrown
    obtain ⟨hstate, hcached⟩ := calc_state hreads' hafter hcalc
    rcases hcached with rfl | hcached
    · exact ⟨rfl, hafter, hbefore⟩
    · exact ⟨hstate, hstate ▸ hcached _ hreads', hcached _ hreads⟩

omit [DecidableEq B] in
theorem chainInv_rollback (hinv : ChainInv ctx.toNetwork s.toQuorumState)
    (hstate : t.toQuorumState = (ctx.processBlock s b false fBLSChecks).2.toQuorumState) :
    ChainInv ctx.toNetwork { t.toQuorumState with
      minedCommitments := s.minedCommitments, minedByHeight := s.minedByHeight } := by
  have hgrown := @grown_processBlock _ ctx s false fBLSChecks b hinv.hasMined
  have htip : t.tip = s.tip := by
    rw [hstate]
    exact hgrown.tip
  have hbase : t.quorumBaseBlockIndexCache = s.quorumBaseBlockIndexCache := by
    rw [hstate]
    exact hgrown.baseIndex
  have hagree : HasMinedAgrees { t.toQuorumState with
      minedCommitments := s.minedCommitments, minedByHeight := s.minedByHeight } := by
    obtain ⟨keys, htouched, -⟩ := @processBlock_touched _ ctx.toProcessorContext
      { toQuorumState := s.toQuorumState } hinv.hasMined b fBLSChecks
    refine htouched.agrees rfl ?_
    rw [toQuorumState_pooled, toQuorumState_processBlock (s := s), ← hstate]
  refine hinv.of_inv ⟨?_, hagree, fun hfind => hinv.baseIndex (hbase ▸ hfind)⟩ htip rfl
  intro llmqType quorumHash qc minedBlockHash
  rw [hinv.records, MinedOnChain, MinedOnChain, htip]

theorem exists_tip {α : Type} {f : B → Option α} {a : α}
    (hstep : (s.tip.bind fun tip => if ctx.tree.parent b = some tip then f tip else none) = some a) :
    ∃ tip, s.tip = some tip ∧ ctx.tree.parent b = some tip ∧ f tip = some a := by
  obtain ⟨tip, htip, hstep⟩ := bind_eq_some_iff.mp hstep
  split at hstep
  next hparent => exact ⟨tip, htip, hparent, hstep⟩
  · cases hstep

theorem RootInv.step {op : RootOp B} (hinv : ctx.RootInv s) (hstep : ctx.step s op = some t) :
    ctx.RootInv t := by
  have hlookup {q : QuorumState B} (hcaches : OnlyCaches ctx.toQuorumContext s.toQuorumState q) :
      ctx.RootInv { s with toQuorumState := q } :=
    ⟨hinv.chain.onlyCaches hcaches, hinv.coherent.of_same hcaches.minedCommitments⟩
  cases op with
  | template vtx =>
    obtain ⟨tip, htip, hstep⟩ := bind_eq_some_iff.mp hstep
    obtain ⟨⟨root, t'⟩, hcalc, hstep⟩ := bind_eq_some_iff.mp hstep
    cases hstep
    have hreads := reads_of_chainInv hinv.chain htip
    obtain ⟨hstate, hcached⟩ := calc_state hreads hinv.coherent hcalc
    rcases hcached with rfl | hcached
    · exact hinv
    · exact ⟨hstate ▸ hinv.chain, hstate ▸ hcached _ hreads⟩
  | justCheck pindex fBLSChecks checkRoot =>
    obtain ⟨tip, htip, hparent, hstep⟩ := exists_tip hstep
    obtain ⟨⟨v, t'⟩, hok, hstep⟩ := bind_eq_some_iff.mp hstep
    cases hstep
    obtain ⟨hstate, hcoherent, -⟩ := hinv.processAndCheck htip hparent hok
    have hgrown := @grown_processBlock _ ctx s true fBLSChecks pindex hinv.chain.hasMined
    refine ⟨hinv.chain.onlyCaches ?_, hcoherent⟩
    rw [hstate]
    exact (hgrown.justChecked rfl).onlyCaches
  | connect pindex fBLSChecks checkRoot =>
    obtain ⟨tip, htip, hparent, hstep⟩ := exists_tip hstep
    obtain ⟨⟨v, t'⟩, hok, hstep⟩ := bind_eq_some_iff.mp hstep
    cases v with
    | error e => cases hstep
    | ok u =>
      cases hstep
      obtain ⟨hstate, hcoherent, -⟩ := hinv.processAndCheck htip hparent hok
      have haccepted := (processAndCheck_cases hok).1.resolve_right fun h => h rfl
      have hprocess := @toQuorumState_processBlock _ ctx s false fBLSChecks pindex
      rw [haccepted, ← hstate] at hprocess
      exact ⟨hinv.chain.connect htip hparent hprocess, hcoherent.of_same rfl⟩
  | failToConnect pindex fBLSChecks checkRoot =>
    obtain ⟨tip, htip, hparent, hstep⟩ := exists_tip hstep
    obtain ⟨⟨v, t'⟩, hok, hstep⟩ := bind_eq_some_iff.mp hstep
    cases hstep
    obtain ⟨hstate, -, hcoherent⟩ := hinv.processAndCheck htip hparent hok
    exact ⟨chainInv_rollback hinv.chain hstate, hcoherent.of_same rfl⟩
  | disconnect =>
    obtain ⟨tip, htip, hstep⟩ := bind_eq_some_iff.mp hstep
    obtain ⟨pprev, hparent, hstep⟩ := bind_eq_some_iff.mp hstep
    obtain ⟨t', hundo, hstep⟩ := bind_eq_some_iff.mp hstep
    cases hstep
    obtain ⟨hstate, hcache⟩ := undoBlock_cases hundo
    refine ⟨hinv.chain.disconnect htip hparent hstate, ?_⟩
    rcases hcache with rfl | ⟨hquorums, hhashes⟩
    · exact hinv.coherent.of_same rfl
    · rw [hquorums, hhashes]
      exact coherent_empty
  | getQuorum llmqType quorumHash =>
    cases hstep
    exact hlookup (onlyCaches_getQuorum s.toQuorumState llmqType quorumHash)
  | scanQuorums llmqType pindexStart nCountRequested =>
    obtain ⟨⟨quorums, q⟩, hscan, hstep⟩ := bind_eq_some_iff.mp hstep
    cases hstep
    exact hlookup (onlyCaches_scanQuorums hscan)

variable {s₀ : QcHashProcessor B} {ops : List (RootOp B)}

/-- **The quorum merkle root is a function of the chain**, after any history. -/
theorem quorumMerkleRoot_of_chain (hinit : InitialRecords ctx.toNetwork s₀.toQuorumState)
    (hcold : s₀.m_quorums_cached = ∅ ∧ s₀.m_qc_hashes_cached = ∅)
    (hrun : Run (Accepts ctx.step) s₀ ops s) (htip : s.tip = some p)
    (hparent : ctx.tree.parent b = some p) {qcs : List CFinalCommitment}
    (hqcs : ctx.getCommitmentsFromBlock b = .ok qcs) :
    (∃ t, ctx.calcCbTxMerkleRootQuorums s (ctx.commitmentTxs b) p = some (ctx.quorumRoot b, t)) ∧
      (∀ fJustCheck fBLSChecks s', ctx.processBlock s b fJustCheck fBLSChecks = (.ok (), s') →
        ∃ t, ctx.calcCbTxMerkleRootQuorums s' (ctx.commitmentTxs b) p =
          some (ctx.quorumRoot b, t)) ∧
      (Merkle.TwinFree ctx.sha256D64
          ((ctx.llmqs.flatMap (ctx.newestHashes b)).insertionSort (· < ·)) →
        ctx.quorumRoot b = .ok (Merkle.computeMerkleRoot ctx.sha256D64 0
          ((ctx.llmqs.flatMap (ctx.newestHashes b)).insertionSort (· < ·))).1) := by
  have hinv : ctx.RootInv s := by
    refine hrun.invariant (fun hinv hstep => hinv.step hstep) ⟨hinit.chainInv, ?_⟩
    rw [hcold.1, hcold.2]
    exact coherent_empty
  have hreads := reads_of_chainInv hinv.chain htip
  refine ⟨?_, ?_, quorumRoot_of_twinFree⟩
  · obtain ⟨qcHashes, t, hget, hholds, -⟩ := getQcHashes_spec hreads hinv.coherent
    exact ⟨t, calcCbTxMerkleRootQuorums_eq hparent hqcs hget hholds⟩
  · intro fJustCheck fBLSChecks s' hprocess
    have hgrown := @grown_processBlock _ ctx s fJustCheck fBLSChecks b hinv.chain.hasMined
    rw [hprocess] at hgrown
    obtain ⟨qcHashes, t, hget, hholds, -⟩ :=
      getQcHashes_spec (hreads.grown hparent hgrown) (hinv.coherent.grown hgrown).1
    exact ⟨t, calcCbTxMerkleRootQuorums_eq hparent hqcs hget hholds⟩

end RootContext

/-! ### A commitment of a retired type -/

def rootContext (net : Network (Fin 5)) (hnodup : (net.llmqs.map LLMQParams.type).Nodup)
    (hactive : ∀ params ∈ net.llmqs, 0 < params.signingActiveQuorumCount) :
    RootContext (Fin 5) where
  toProcessorContext := { net with serializeHash := fun qc => qc.quorumHash }
  sha256D64 := fun a b => a ^^^ b
  nodup_types := hnodup
  active_pos := hactive

def windowRoots : RootContext (Fin 5) :=
  rootContext windowNetwork (by decide) (by decide)

def rootStart : QcHashProcessor (Fin 5) :=
  { toQuorumState := forkState }

def rootHistory : List (RootContext.RootOp (Fin 5)) :=
  [.connect 1 true true, .connect 2 true true, .template [], .connect 3 true true, .disconnect,
    .justCheck 4 true true]

theorem quorumMerkleRoot_of_chain_window :
    ∃ s t, Run (Accepts windowRoots.step) rootStart rootHistory s ∧ s.tip = some 2 ∧
      windowRoots.calcCbTxMerkleRootQuorums s (windowRoots.commitmentTxs 3) 2 =
        some (windowRoots.quorumRoot 3, t) := by
  obtain ⟨s, hfold, htip⟩ : ∃ s,
      rootHistory.foldlM windowRoots.step rootStart = some s ∧ s.tip = some 2 :=
    ⟨_, rfl, rfl⟩
  have hqcs : windowRoots.getCommitmentsFromBlock 3 = .ok [forkCommitment] := rfl
  obtain ⟨⟨t, hcalc⟩, -, -⟩ := RootContext.quorumMerkleRoot_of_chain initial_windowNetwork
    ⟨rfl, rfl⟩ (Run.accepts hfold) htip rfl hqcs
  exact ⟨s, t, Run.accepts hfold, htip, hcalc⟩

def retiredRoots : RootContext (Fin 5) :=
  rootContext retiredNetwork (by decide) (by decide)

/-- No quorum type is enabled on top of block 3; the root still has the commitment mined there. -/
theorem retired_type_in_root :
    ∃ s t, Run (Accepts retiredRoots.step) rootStart
        [.connect 1 true true, .connect 2 true true, .connect 3 true true] s ∧
      s.tip = some 3 ∧ retiredRoots.getEnabledQuorumParams 3 = [] ∧
      retiredRoots.calcCbTxMerkleRootQuorums s [] 3 =
        some (.ok (retiredRoots.serializeHash forkCommitment), t) ∧
      retiredRoots.sortedRoot [] = .ok 0 ∧ retiredRoots.serializeHash forkCommitment ≠ 0 := by
  obtain ⟨s, t, hfold, htip, hcalc⟩ : ∃ s t,
      [RootContext.RootOp.connect 1 true true, .connect 2 true true, .connect 3 true true].foldlM
        retiredRoots.step rootStart = some s ∧ s.tip = some 3 ∧
      retiredRoots.calcCbTxMerkleRootQuorums s [] 3 =
        some (.ok (retiredRoots.serializeHash forkCommitment), t) :=
    ⟨_, _, rfl, rfl, rfl⟩
  exact ⟨s, t, Run.accepts hfold, htip, rfl, hcalc, rfl, by decide⟩

end Defcon.Llmq
