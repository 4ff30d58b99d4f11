import Defcon.Lib.Run
import Defcon.Llmq.SigSharesBatch

/-!
# Shares and recovered signatures that verify

The shares that `ProcessPendingSigShares` passes on are those of the nodes that are not bad.
They all verify exactly when every node with a share that does not has pushed a key whose first
share is invalid, and then everything that is kept and recovered verifies too.
-/

namespace Defcon.Llmq

open List AList
open AList (Map)
open Lib (Run)
open Bls (CBLSBatchVerifier BatchSound BatchComplete)

namespace SharesContext

variable (ctx : SharesContext)

def recoveredVerifies (rs : CRecoveredSig) : Bool :=
  match ctx.getQuorum rs.llmqType rs.quorumHash with
  | none => false
  | some quorum =>
    ctx.verifyInsecure quorum.quorumPublicKey
      (ctx.buildSignHash rs.llmqType rs.quorumHash rs.id rs.msgHash) rs.sig

/-- `threshold` valid shares of different members of a quorum give a valid signature. -/
def RecoverSound : Prop :=
  ∀ ⦃llmqType quorumHash quorum⦄, ctx.getQuorum llmqType quorumHash = some quorum →
    ∀ (signHash : Uint256) (shares : List (Nat × BitVec 768)) (sig : BitVec 768),
      shares.length = quorum.params.threshold → (shares.map Prod.fst).Nodup →
      (∀ p ∈ shares, ctx.verifyInsecure (quorum.getPubKeyShare p.1) signHash (some p.2) = true) →
      ctx.signatureRecover (shares.map Prod.snd)
        (shares.map fun p => quorum.memberProTxHash p.1) = some sig →
      ctx.verifyInsecure quorum.quorumPublicKey signHash (some sig) = true

def SignHashSeparates : Prop :=
  ∀ ⦃llmqType llmqType' quorumHash quorumHash' id id' msgHash msgHash'⦄,
    (ctx.getQuorum llmqType quorumHash).isSome → (ctx.getQuorum llmqType' quorumHash').isSome →
    ctx.buildSignHash llmqType quorumHash id msgHash =
      ctx.buildSignHash llmqType' quorumHash' id' msgHash' →
    llmqType = llmqType' ∧ quorumHash = quorumHash'

end SharesContext

namespace CSigSharesManager

variable {ctx : SharesContext} {m : CSigSharesManager}

/-! ### What is kept and recovered -/

def KeptVerified (ctx : SharesContext) (m : CSigSharesManager) : Prop :=
  ∀ ⦃signHash shares member s⦄, m.sigShares.lookup signHash = some shares →
    shares.lookup member = some s →
    ctx.getKey s = (signHash, member) ∧ ctx.shareVerifies s = true

theorem KeptVerified.of_sigShares_eq {m' : CSigSharesManager} (h : m.KeptVerified ctx)
    (heq : m'.sigShares = m.sigShares) : m'.KeptVerified ctx := by
  intro signHash shares member s hshares hs
  rw [heq] at hshares
  exact h hshares hs

theorem KeptVerified.processRecoveredSig (h : m.KeptVerified ctx) (rs : CRecoveredSig) :
    (m.processRecoveredSig ctx rs).KeptVerified ctx := by
  unfold CSigSharesManager.processRecoveredSig
  split
  · exact h
  · intro signHash shares member s hshares hs
    exact h (lookup_of_erase hshares) hs

variable {s : CSigShare} {sigs : List CBLSSignature} {llmqType : LLMQType} {quorum : SharesQuorum}
  {shares : Map Nat CSigShare} {run : SharesRun} {sigSharesByNodes : Map NodeId (List CSigShare)}

theorem KeptVerified.add {sigShares : SigShareMap CSigShare} (h : m.KeptVerified ctx)
    (hs : ctx.shareVerifies s = true) (hadd : m.sigShares.add (ctx.getKey s) s = some sigShares) :
    KeptVerified ctx { m with sigShares := sigShares } := by
  unfold SigShareMap.add at hadd
  split at hadd
  · cases hadd
  · cases hadd
    intro signHash shares member t hshares ht
    rw [lookup_modifyD] at hshares
    split at hshares
    · rename_i hhash
      cases hshares
      rcases lookup_of_insert ht with ⟨hmember, rfl⟩ | ht
      · exact ⟨Prod.ext hhash.symm hmember.symm, hs⟩
      · cases hold : m.sigShares.lookup (ctx.getKey s).1 with
        | none =>
          rw [hold] at ht
          simp at ht
        | some old =>
          rw [hold] at ht
          rw [hhash]
          exact h hold ht
    · exact h hshares ht

theorem eq_map_some_of_mapM_id {sigsVec : List (BitVec 768)} (hsigs : sigs.mapM id = some sigsVec) :
    sigs = sigsVec.map some := by
  induction sigs generalizing sigsVec with
  | nil =>
    obtain rfl : [] = sigsVec := by simpa using hsigs
    rfl
  | cons s sigs ih =>
    rw [mapM_cons] at hsigs
    obtain ⟨sig, hsig, hrest⟩ := Option.bind_eq_some_iff.mp hsigs
    obtain ⟨rest, hmap, heq⟩ := Option.bind_eq_some_iff.mp hrest
    obtain rfl : sig :: rest = sigsVec := by simpa using heq
    rw [ih hmap, map_cons, ← hsig]
    rfl

theorem recover_some {ids : List Uint256} {sig : BitVec 768}
    (hrecover : ctx.recover sigs ids = some sig) :
    ∃ sigsVec : List (BitVec 768), sigs = sigsVec.map some ∧
      ctx.signatureRecover sigsVec ids = some sig := by
  unfold SharesContext.recover at hrecover
  split at hrecover
  · cases hrecover
  · split at hrecover
    · cases hrecover
    · rename_i sigsVec hsigs
      exact ⟨sigsVec, eq_map_some_of_mapM_id hsigs, hrecover⟩

theorem KeptVerified.of_signHash (h : m.KeptVerified ctx) (hsep : ctx.SignHashSeparates)
    {quorumHash id msgHash : Uint256} (hquorum : ctx.getQuorum llmqType quorumHash = some quorum)
    {member : Nat}
    (hshares : m.sigShares.lookup (ctx.buildSignHash llmqType quorumHash id msgHash) = some shares)
    (hs : shares.lookup member = some s) :
    s.quorumMember = member ∧
      ctx.verifyInsecure (quorum.getPubKeyShare member)
        (ctx.buildSignHash llmqType quorumHash id msgHash) s.sigShare = true := by
  obtain ⟨hkey, hverifies⟩ := h hshares hs
  obtain ⟨hhash, hmember⟩ := Prod.mk.inj hkey
  unfold SharesContext.shareVerifies at hverifies
  split at hverifies
  · cases hverifies
  · rename_i quorum' hquorum'
    obtain ⟨htype, hqhash⟩ := hsep (by rw [hquorum']; rfl) (by rw [hquorum]; rfl) hhash
    rw [htype, hqhash, hquorum] at hquorum'
    cases hquorum'
    rw [hhash, hmember] at hverifies
    exact ⟨hmember, hverifies⟩

theorem KeptVerified.recover (h : m.KeptVerified ctx) (hsep : ctx.SignHashSeparates)
    (hrecover : ctx.RecoverSound) {quorumHash id msgHash : Uint256}
    (hquorum : ctx.getQuorum llmqType quorumHash = some quorum) {sig : BitVec 768}
    (hshares : m.sigShares.lookup (ctx.buildSignHash llmqType quorumHash id msgHash) = some shares)
    (henough : quorum.params.threshold ≤ (shares.entries.take quorum.params.threshold).length)
    (hsig : ctx.recover
      (((shares.entries.take quorum.params.threshold).map Sigma.snd).map CSigShare.sigShare)
      (((shares.entries.take quorum.params.threshold).map Sigma.snd).map
        fun s => quorum.memberProTxHash s.quorumMember) = some sig) :
    ctx.verifyInsecure quorum.quorumPublicKey
      (ctx.buildSignHash llmqType quorumHash id msgHash) (some sig) = true := by
  obtain ⟨sigsVec, hsigs, hsig⟩ := recover_some hsig
  have hentry : ∀ e ∈ shares.entries.take quorum.params.threshold,
      e.2.quorumMember = e.1 ∧ ctx.verifyInsecure (quorum.getPubKeyShare e.1)
        (ctx.buildSignHash llmqType quorumHash id msgHash) e.2.sigShare = true := by
    intro e he
    have hlookup := mem_lookup_iff.mpr (mem_of_mem_take he)
    exact h.of_signHash hsep hquorum hshares hlookup
  generalize htaken : shares.entries.take quorum.params.threshold = taken at *
  -- the members and the decoded signatures of the shares that are taken
  have hsome : ∀ e ∈ taken, some (e.2.sigShare.getD 0) = e.2.sigShare := by
    intro e he
    have hmem : e.2.sigShare ∈ sigsVec.map some := by
      rw [← hsigs, map_map]
      exact mem_map.mpr ⟨e, he, rfl⟩
    obtain ⟨sig', -, heq⟩ := mem_map.mp hmem
    rw [← heq]
    rfl
  have hsnd : (taken.map fun e => (e.1, e.2.sigShare.getD 0)).map Prod.snd = sigsVec := by
    apply map_injective_iff.mpr (Option.some_injective _)
    rw [← hsigs, map_map, map_map, map_map]
    exact map_congr_left hsome
  have hids : (taken.map fun e => (e.1, e.2.sigShare.getD 0)).map
      (fun p => quorum.memberProTxHash p.1) =
      (taken.map Sigma.snd).map fun s => quorum.memberProTxHash s.quorumMember := by
    rw [map_map, map_map]
    refine map_congr_left fun e he => ?_
    rw [Function.comp_apply, Function.comp_apply, (hentry e he).1]
  refine hrecover hquorum _ (taken.map fun e => (e.1, e.2.sigShare.getD 0)) sig ?_ ?_ ?_ ?_
  · rw [length_map]
    refine le_antisymm ?_ henough
    rw [← htaken]
    exact length_take_le _ _
  · rw [map_map, ← htaken]
    exact ((take_sublist _ _).map _).nodup shares.nodupKeys
  · intro p hp
    obtain ⟨e, he, rfl⟩ := mem_map.mp hp
    have hverifies := (hentry e he).2
    rwa [← hsome e he] at hverifies
  · rw [hsnd, hids]
    exact hsig

theorem tryRecoverSig_spec (hkept : m.KeptVerified ctx) (hsep : ctx.SignHashSeparates)
    (hrecover : ctx.RecoverSound) {quorumHash : Uint256}
    (hquorum : ctx.getQuorum llmqType quorumHash = some quorum) (id msgHash : Uint256) :
    (m.tryRecoverSig ctx quorum id msgHash).1.KeptVerified ctx ∧
      ∀ rs ∈ (m.tryRecoverSig ctx quorum id msgHash).2, ctx.recoveredVerifies rs = true := by
  obtain ⟨rfl, rfl⟩ := ctx.getQuorum_spec hquorum
  unfold tryRecoverSig
  split
  · exact ⟨hkept, by simp⟩
  simp only
  split
  · exact ⟨hkept, by simp⟩
  rename_i shares hshares
  split
  · exact ⟨hkept, by simp⟩
  rename_i henough
  split
  · exact ⟨hkept, by simp⟩
  rename_i sig hsig
  have hcounter : KeptVerified ctx
      { m with recoveredSigsCounter := m.recoveredSigsCounter + 1 } := hkept.of_sigShares_eq rfl
  split
  · exact ⟨hcounter, by simp⟩
  · refine ⟨hcounter.processRecoveredSig _, ?_⟩
    intro rs hrs
    cases hrs
    rw [length_map, not_lt] at henough
    simp only [SharesContext.recoveredVerifies, hquorum]
    exact hkept.recover hsep hrecover hquorum hshares henough hsig

theorem processSigShare_spec (hkept : m.KeptVerified ctx) (hsep : ctx.SignHashSeparates)
    (hrecover : ctx.RecoverSound) (hs : ctx.shareVerifies s = true)
    (hquorum : ctx.getQuorum s.llmqType s.quorumHash = some quorum) :
    (m.processSigShare ctx s quorum).1.KeptVerified ctx ∧
      ∀ rs ∈ (m.processSigShare ctx s quorum).2, ctx.recoveredVerifies rs = true := by
  unfold processSigShare
  split
  · exact ⟨hkept, by simp⟩
  split
  · exact ⟨hkept, by simp⟩
  rename_i sigShares hadd
  have hadded := hkept.add hs hadd
  split
  · exact tryRecoverSig_spec hadded hsep hrecover hquorum _ _
  · exact ⟨hadded, by simp⟩

structure Verified (ctx : SharesContext) (run : SharesRun) : Prop where
  kept : run.manager.KeptVerified ctx
  recovered : ∀ rs ∈ run.recovered, ctx.recoveredVerifies rs = true

theorem Verified.passSigShare (hsep : ctx.SignHashSeparates) (hrecover : ctx.RecoverSound)
    {run' : SharesRun} (h : Verified ctx run) (hs : ctx.shareVerifies s = true)
    (hpass : passSigShare ctx run s = some run') : Verified ctx run' := by
  obtain ⟨quorum, hquorum, rfl⟩ := passSigShare_ok hpass
  obtain ⟨hkept, hrecovered⟩ := processSigShare_spec h.kept hsep hrecover hs hquorum
  refine ⟨hkept, ?_⟩
  intro rs hrs
  rcases mem_append.mp hrs with hrs | hrs
  · exact h.recovered rs hrs
  · exact hrecovered rs (Option.mem_toList.mp hrs)

theorem Verified.processNode (hsep : ctx.SignHashSeparates) (hrecover : ctx.RecoverSound)
    {badSources : Finset NodeId} {run' : SharesRun} (h : Verified ctx run)
    {p : Sigma fun _ : NodeId => List CSigShare}
    (hp : p.1 ∉ badSources → ∀ s ∈ p.2, ctx.shareVerifies s = true)
    (hprocess : processNode ctx badSources run p = some run') : Verified ctx run' := by
  unfold CSigSharesManager.processNode at hprocess
  split at hprocess
  · cases hprocess
    exact ⟨h.kept.of_sigShares_eq (sigShares_banNode _), h.recovered⟩
  · rename_i hgood
    refine (Run.accepts hprocess).invariant_of_mem (I := Verified ctx) ?_ h
    intro run s run' hmem hrun hpass
    exact hrun.passSigShare hsep hrecover (hp hgood s hmem) hpass

/-! ### The batch as a whole -/

def AllCaught (ctx : SharesContext) (m : CSigSharesManager)
    (sigSharesByNodes : Map NodeId (List CSigShare)) : Prop :=
  ∀ p ∈ sigSharesByNodes.entries, (∃ s ∈ p.2, ctx.shareVerifies s = false) →
    m.Caught ctx sigSharesByNodes.entries p.1

theorem processSigSharesByNodes_ok
    (hrun : processSigSharesByNodes ctx m sigSharesByNodes = some run) :
    ∃ (m' : CSigSharesManager) (v : ShareVerifier), m'.sigShares = m.sigShares ∧ v.WF ∧
      v.secureVerification = false ∧ v.badSources = ∅ ∧
      (∀ nodeId, v.HoldsInvalid ctx.bls nodeId ↔ m.Caught ctx sigSharesByNodes.entries nodeId) ∧
      sigSharesByNodes.entries.foldlM (processNode ctx (v.verify ctx.bls).badSources)
        { manager := m' } = some run := by
  unfold processSigSharesByNodes at hrun
  split at hrun
  · cases hrun
  · rename_i m' v hpush
    obtain ⟨-, hkept, hsome, rfl⟩ := push_batch_ok rfl hpush
    refine ⟨m', _, hkept, ?_, ?_, ?_, holdsInvalid_iff_caught hsome, hrun⟩
    · exact CBLSBatchVerifier.wf_storeAll CBLSBatchVerifier.wf_empty _
    · rw [CBLSBatchVerifier.secureVerification_storeAll, emptyVerifier]
    · rw [CBLSBatchVerifier.badSources_storeAll, emptyVerifier]

theorem verified_of_allCaught (hsound : BatchSound SigShareKey ctx.bls false)
    (hsep : ctx.SignHashSeparates) (hrecover : ctx.RecoverSound) (hkept : m.KeptVerified ctx)
    (hrun : processSigSharesByNodes ctx m sigSharesByNodes = some run)
    (hcaught : m.AllCaught ctx sigSharesByNodes) :
    (∀ s ∈ run.passed, ctx.shareVerifies s = true) ∧ Verified ctx run := by
  obtain ⟨m', v, hsame, hwf, hsecure, -, hholds, hprocess⟩ := processSigSharesByNodes_ok hrun
  have hgood : ∀ p ∈ sigSharesByNodes.entries, p.1 ∉ (v.verify ctx.bls).badSources →
      ∀ s ∈ p.2, ctx.shareVerifies s = true := by
    intro p hp hnode s hs
    by_contra hbogus
    rw [Bool.not_eq_true] at hbogus
    have hholds := (hholds p.1).mpr (hcaught p hp ⟨s, hs, hbogus⟩)
    exact hnode (CBLSBatchVerifier.mem_badSources_verify (hsecure ▸ hsound) hwf hholds)
  constructor
  · intro s hs
    rw [passed_foldlM_processNode hprocess, nil_append] at hs
    obtain ⟨p, hp, hs⟩ := mem_flatMap.mp hs
    obtain ⟨hmem, hnode⟩ := mem_filter.mp hp
    exact hgood p hmem (of_decide_eq_true hnode) s hs
  · refine (Run.accepts hprocess).invariant_of_mem (I := Verified ctx) ?_
      ⟨hkept.of_sigShares_eq hsame, by simp⟩
    intro run p run' hmem hrun hstep
    exact hrun.processNode hsep hrecover (hgood p hmem) hstep

theorem allCaught_of_passed (hcomplete : BatchComplete SigShareKey ctx.bls false)
    (hrun : processSigSharesByNodes ctx m sigSharesByNodes = some run)
    (hpassed : ∀ s ∈ run.passed, ctx.shareVerifies s = true) :
    m.AllCaught ctx sigSharesByNodes := by
  obtain ⟨m', v, -, hwf, hsecure, hempty, hholds, hprocess⟩ := processSigSharesByNodes_ok hrun
  rintro p hp ⟨s, hs, hbogus⟩
  have hbad : p.1 ∈ (v.verify ctx.bls).badSources := by
    by_contra hnode
    have hmem : s ∈ run.passed := by
      rw [passed_foldlM_processNode hprocess, nil_append]
      exact mem_flatMap.mpr ⟨p, mem_filter.mpr ⟨hp, decide_eq_true hnode⟩, hs⟩
    rw [hpassed s hmem] at hbogus
    cases hbogus
  rcases CBLSBatchVerifier.holdsInvalid_of_mem_badSources_verify (hsecure ▸ hcomplete) hwf hbad
    with hold | hinvalid
  · rw [hempty] at hold
    cases hold
  · exact (hholds p.1).mp hinvalid

/-- **Shares and recovered signatures verify exactly when the offenders are caught.** -/
theorem processSigSharesByNodes_verified_iff (hsound : BatchSound SigShareKey ctx.bls false)
    (hsep : ctx.SignHashSeparates) (hrecover : ctx.RecoverSound) (hkept : m.KeptVerified ctx)
    {sigSharesByNodes : Map NodeId (List CSigShare)} {run : SharesRun}
    (hrun : processSigSharesByNodes ctx m sigSharesByNodes = some run) :
    (m.AllCaught ctx sigSharesByNodes →
      (∀ s ∈ run.passed, ctx.shareVerifies s = true) ∧
        (∀ rs ∈ run.recovered, ctx.recoveredVerifies rs = true) ∧
        run.manager.KeptVerified ctx) ∧
    (BatchComplete SigShareKey ctx.bls false →
      (∀ s ∈ run.passed, ctx.shareVerifies s = true) ∧
        (∀ rs ∈ run.recovered, ctx.recoveredVerifies rs = true) →
      m.AllCaught ctx sigSharesByNodes) := by
  constructor
  · intro hcaught
    obtain ⟨hpassed, hverified⟩ := verified_of_allCaught hsound hsep hrecover hkept hrun hcaught
    exact ⟨hpassed, hverified.recovered, hverified.kept⟩
  · rintro hcomplete ⟨hpassed, -⟩
    exact allCaught_of_passed hcomplete hrun hpassed

/-! ### A quorum in which one share is enough -/

def sampleQuorum : SharesQuorum where
  params :=
    { type := 1, size := 3, minSize := 2, threshold := 1, dkgInterval := 24,
      dkgMiningWindowStart := 10, dkgMiningWindowEnd := 18, dkgBadVotesThreshold := 2,
      dkgBadVotesThresholdV2 := 0, signingActiveQuorumCount := 2, keepOldConnections := 3,
      keepOldKeys := 4 }
  quorumHash := 5
  quorumPublicKey := some 6
  getPubKeyShare _ := some 7
  memberProTxHash member := BitVec.ofNat 256 member

def sampleShares : SharesContext where
  bls :=
    { verify := fun _ _ _ => true
      aggregateVerify := fun _ _ _ => true
      aggregatePubKeys := fun key _ => key
      aggregateSigs := fun sig _ => sig }
  signatureRecover sigs _ := sigs.head?
  buildSignHash _ _ id msgHash := id + msgHash
  getQuorum llmqType quorumHash := if llmqType = 1 ∧ quorumHash = 5 then some sampleQuorum else none
  getQuorum_spec := by
    intro llmqType quorumHash quorum hquorum
    split at hquorum
    · rename_i hkey
      cases hquorum
      exact ⟨hkey.1.symm, hkey.2.symm⟩
    · cases hquorum

theorem batchSound_sampleShares : BatchSound SigShareKey sampleShares.bls false :=
  fun _ _ _ _ _ => rfl

theorem separates_sampleShares : sampleShares.SignHashSeparates := by
  intro llmqType llmqType' quorumHash quorumHash' id id' msgHash msgHash' hsome hsome' _
  have hkey {t : LLMQType} {h : Uint256} (hsome : (sampleShares.getQuorum t h).isSome) :
      t = 1 ∧ h = 5 := by
    by_contra hne
    rw [show sampleShares.getQuorum t h = none from if_neg hne] at hsome
    cases hsome
  obtain ⟨rfl, rfl⟩ := hkey hsome
  obtain ⟨rfl, rfl⟩ := hkey hsome'
  exact ⟨rfl, rfl⟩

theorem recoverSound_sampleShares : sampleShares.RecoverSound := by
  intro llmqType quorumHash quorum hquorum signHash shares sig _ _ _ _
  have hspec : quorum = sampleQuorum := by
    unfold sampleShares at hquorum
    simp only at hquorum
    split at hquorum
    · exact (Option.some.inj hquorum).symm
    · cases hquorum
  rw [hspec]
  rfl

def validShare : CSigShare := ⟨1, 5, 20, 30, 2, some 9⟩

def malformedShare : CSigShare := { validShare with sigShare := none }

def oneShare (s : CSigShare) : CSigSharesManager where
  nodeStates := singleton 3 ⟨[s], false⟩
  sigShares := ∅
  recoveredSigs := ∅
  recoveredSigsCounter := 0

def oneShareBatch (s : CSigShare) : Map NodeId (List CSigShare) :=
  singleton 3 [s]

theorem keptVerified_oneShare (s : CSigShare) : (oneShare s).KeptVerified sampleShares := by
  intro signHash shares member t hshares
  simp [oneShare] at hshares

theorem processSigSharesByNodes_verified_validShare :
    ∃ run, processSigSharesByNodes sampleShares (oneShare validShare)
        (oneShareBatch validShare) = some run ∧
      run.passed = [validShare] ∧ run.recovered = [⟨1, 5, 20, 30, some 9⟩] ∧
      (∀ s ∈ run.passed, sampleShares.shareVerifies s = true) ∧
      (∀ rs ∈ run.recovered, sampleShares.recoveredVerifies rs = true) := by
  obtain ⟨run, hrun⟩ : ∃ run, processSigSharesByNodes sampleShares (oneShare validShare)
      (oneShareBatch validShare) = some run := ⟨_, rfl⟩
  have hall : (oneShare validShare).AllCaught sampleShares (oneShareBatch validShare) := by
    rintro p hp ⟨s, hs, hbogus⟩
    obtain rfl : p = ⟨3, [validShare]⟩ := by simpa [oneShareBatch] using hp
    obtain rfl : s = validShare := by simpa using hs
    cases hbogus
  obtain ⟨hpassed, hrecovered, -⟩ := (processSigSharesByNodes_verified_iff batchSound_sampleShares
    separates_sampleShares recoverSound_sampleShares (keptVerified_oneShare validShare) hrun).1 hall
  refine ⟨run, hrun, ?_, ?_, hpassed, hrecovered⟩
  · cases hrun
    rfl
  · cases hrun
    rfl

/-- A share that does not decode is passed on: its sender is no bad source of a batch it has nothing
in. -/
theorem malformedShare_passed :
    BatchSound SigShareKey sampleShares.bls false ∧ sampleShares.SignHashSeparates ∧
      sampleShares.RecoverSound ∧ (oneShare malformedShare).KeptVerified sampleShares ∧
      ∃ run more, processPendingSigShares sampleShares (oneShare malformedShare) [3] =
          some (run, more) ∧
        malformedShare ∈ run.passed ∧ sampleShares.shareVerifies malformedShare = false ∧
        run.manager.sigShares.has (sampleShares.getKey malformedShare) = true := by
  refine ⟨batchSound_sampleShares, separates_sampleShares, recoverSound_sampleShares,
    keptVerified_oneShare malformedShare, ?_⟩
  have hloop : collectLoop (fun s => (oneShare malformedShare).sigShares.has (sampleShares.getKey s))
      32 [(3, [malformedShare])] = ([(3, malformedShare)], []) := by
    have hnew : (oneShare malformedShare).sigShares.has (sampleShares.getKey malformedShare) =
        false := rfl
    simp [collectLoop, hnew]
  have hcollect : (oneShare malformedShare).collectPendingSigSharesToVerify sampleShares 32 [3] =
      ({ oneShare malformedShare with nodeStates := singleton 3 {} },
        some (oneShareBatch malformedShare)) := by
    unfold collectPendingSigSharesToVerify
    simp only [show ([3] : List NodeId).filterMap (fun nodeId =>
      ((oneShare malformedShare).nodeStates.lookup nodeId).map fun nodeState =>
        (nodeId, nodeState.pendingIncomingSigShares)) = [(3, [malformedShare])] from rfl, hloop]
    rfl
  unfold processPendingSigShares
  rw [hcollect]
  exact ⟨_, _, rfl, by decide, rfl, by decide⟩

end CSigSharesManager

end Defcon.Llmq
