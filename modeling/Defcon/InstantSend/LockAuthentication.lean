import Defcon.InstantSend.PendingLocks

/-!
# Which InstantSend locks are acted on

A pending lock that the first loop pushes into the batch verifier is handed on only if its
signature verifies. A lock that the loop passes over is handed on unseen.
-/

namespace Defcon.InstantSend.LockContext

open List

open AList (Map)
open Bls (BlsScheme CBLSBatchVerifier BatchSound Message)
open Bls.CBLSBatchVerifier (Ready Tracks Absent)
open Lib (Run)

variable {ctx : LockContext} {st st' : LockLoop} {p q : PendingLock}

variable (ctx) in
/-- The loop does not pass over the lock for its sender, its encoding or its cycle. -/
def ReachesVerifier (st : LockLoop) (p : PendingLock) : Prop :=
  p.2.1 ∉ st.batchVerifier.badSources ∧ p.2.2.sig ≠ none ∧
    ctx.lookupBlockIndex p.2.2.cycleHash ≠ none

theorem collectLock_cases (hok : ctx.collectLock st p = .ok st') :
    ((∃ bad, st'.batchVerifier = { st.batchVerifier with badSources := bad }) ∧
        (ctx.ReachesVerifier st p → ctx.Authentic p.2.2)) ∨
      (ctx.ReachesVerifier st p ∧
        ∃ msg : Message Uint256 (BitVec 384) (BitVec 768), msg.msgId = p.1 ∧
          (msg.Verifies ctx.bls → ctx.Authentic p.2.2) ∧
          st'.batchVerifier = st.batchVerifier.pushMessage ctx.bls p.2.1 msg.msgId msg.msgHash
            msg.sig msg.pubKey) := by
  unfold collectLock at hok
  simp only at hok
  split at hok
  · rename_i hbad
    cases hok
    exact Or.inl ⟨⟨_, rfl⟩, fun h => absurd hbad h.1⟩
  rename_i hnode
  split at hok
  · rename_i hsig
    cases hok
    exact Or.inl ⟨⟨_, rfl⟩, fun h => absurd hsig h.2.1⟩
  rename_i sig hsig
  split at hok
  · rename_i hrec
    cases hok
    exact Or.inl ⟨⟨_, rfl⟩, fun _ => Or.inr hrec⟩
  split at hok
  · rename_i hblock
    cases hok
    exact Or.inl ⟨⟨_, rfl⟩, fun h => absurd hblock h.2.2⟩
  rename_i blockHeight hblock
  split at hok
  · cases hok
  rename_i quorum hquorum
  split at hok
  · cases hok
  rename_i pubKey hkey
  cases hok
  refine Or.inr ⟨⟨hnode, by simp [hsig], by simp [hblock]⟩,
    ⟨p.1, ctx.signHash p.2.2 quorum, sig, pubKey⟩, rfl, fun hverifies => ?_, rfl⟩
  exact Or.inl ⟨blockHeight, quorum, sig, pubKey, hblock, hquorum, hsig, hkey, hverifies⟩

theorem ready_init (hsound : BatchSound Uint256 ctx.bls false) :
    Ready ctx.bls ({} : LockLoop).batchVerifier :=
  ⟨hsound, rfl, CBLSBatchVerifier.wf_empty⟩

theorem ready_collectLock (hready : Ready ctx.bls st.batchVerifier)
    (hok : ctx.collectLock st p = .ok st') : Ready ctx.bls st'.batchVerifier := by
  rcases collectLock_cases hok with ⟨⟨bad, heq⟩, -⟩ | ⟨-, msg, -, -, heq⟩
  · rw [heq]
    exact ⟨hready.sound, hready.fallback, hready.wf.msgId_eq, hready.wf.mem_iff⟩
  · rw [heq]
    exact hready.pushMessage _ _ _ _ _

variable {msg : Message Uint256 (BitVec 384) (BitVec 768)} {pend : List PendingLock}

theorem tracks_collectLock (hready : Ready ctx.bls st.batchVerifier)
    (hinvalid : ¬msg.Verifies ctx.bls) (htracks : st.batchVerifier.Tracks msg)
    (hok : ctx.collectLock st p = .ok st') : st'.batchVerifier.Tracks msg := by
  rcases collectLock_cases hok with ⟨⟨bad, heq⟩, -⟩ | ⟨-, msg', -, -, heq⟩
  · rw [heq]
    exact htracks
  · rw [heq]
    exact Tracks.pushMessage hready hinvalid _ _ _ _ _ (htracks.store _ _)

theorem absent_collectLock (hready : Ready ctx.bls st.batchVerifier) {hash : Uint256}
    (habsent : st.batchVerifier.Absent hash) (hne : hash ≠ p.1)
    (hok : ctx.collectLock st p = .ok st') : st'.batchVerifier.Absent hash := by
  rcases collectLock_cases hok with ⟨⟨bad, heq⟩, -⟩ | ⟨-, msg, hid, -, heq⟩
  · rw [heq]
    exact habsent
  · rw [heq]
    exact habsent.pushMessage hready _ (hid ▸ hne) _ _ _

theorem collectLocks_split {pre post : List PendingLock}
    (hok : ctx.collectLocks (pre ++ p :: post) = .ok st') :
    ∃ st₁ st₂, ctx.collectLocks pre = .ok st₁ ∧ ctx.collectLock st₁ p = .ok st₂ ∧
      post.foldlM ctx.collectLock st₂ = .ok st' := by
  rw [collectLocks, foldlM_append] at hok
  cases hpre : pre.foldlM ctx.collectLock {} with
  | error e =>
    rw [hpre] at hok
    cases hok
  | ok st₁ =>
    rw [hpre] at hok
    change (p :: post).foldlM ctx.collectLock st₁ = _ at hok
    rw [foldlM_cons] at hok
    cases hp : ctx.collectLock st₁ p with
    | error e =>
      rw [hp] at hok
      cases hok
    | ok st₂ =>
      rw [hp] at hok
      exact ⟨st₁, st₂, hpre, hp, hok⟩

theorem ready_foldlM (hready : Ready ctx.bls st.batchVerifier)
    (hok : pend.foldlM ctx.collectLock st = .ok st') : Ready ctx.bls st'.batchVerifier :=
  (Run.except hok).invariant (I := fun st => Ready ctx.bls st.batchVerifier)
    ready_collectLock hready

theorem absent_foldlM (hready : Ready ctx.bls st.batchVerifier) {hash : Uint256}
    (habsent : st.batchVerifier.Absent hash) (hnew : ∀ q ∈ pend, hash ≠ q.1)
    (hok : pend.foldlM ctx.collectLock st = .ok st') : st'.batchVerifier.Absent hash := by
  have hinv : Ready ctx.bls st'.batchVerifier ∧ st'.batchVerifier.Absent hash := by
    refine (Run.except hok).invariant_of_mem
      (I := fun st => Ready ctx.bls st.batchVerifier ∧ st.batchVerifier.Absent hash) ?_
      ⟨hready, habsent⟩
    rintro s q t hmem ⟨hready, habsent⟩ hstep
    exact ⟨ready_collectLock hready hstep, absent_collectLock hready habsent (hnew q hmem) hstep⟩
  exact hinv.2

theorem tracks_foldlM (hready : Ready ctx.bls st.batchVerifier) (hinvalid : ¬msg.Verifies ctx.bls)
    (htracks : st.batchVerifier.Tracks msg) (hok : pend.foldlM ctx.collectLock st = .ok st') :
    Ready ctx.bls st'.batchVerifier ∧ st'.batchVerifier.Tracks msg := by
  refine (Run.except hok).invariant
    (I := fun st => Ready ctx.bls st.batchVerifier ∧ st.batchVerifier.Tracks msg) ?_
    ⟨hready, htracks⟩
  rintro s q t ⟨hready, htracks⟩ hstep
  exact ⟨ready_collectLock hready hstep, tracks_collectLock hready hinvalid htracks hstep⟩

theorem mem_badMessages_iff_reachesVerifier (hsound : BatchSound Uint256 ctx.bls false)
    {pre post : List PendingLock} {st₁ stF : LockLoop}
    (hnodup : ((pre ++ p :: post).map Sigma.fst).Nodup)
    (hpre : ctx.collectLocks pre = .ok st₁)
    (hok : ctx.collectLocks (pre ++ p :: post) = .ok stF) (hbogus : ¬ctx.Authentic p.2.2) :
    p.1 ∈ (stF.batchVerifier.verify ctx.bls).badMessages ↔ ctx.ReachesVerifier st₁ p := by
  obtain ⟨st, st₂, hpre', hp, hpost⟩ := collectLocks_split hok
  obtain rfl : st = st₁ := Except.ok.inj (hpre'.symm.trans hpre)
  have hready₁ : Ready ctx.bls st.batchVerifier := ready_foldlM (ready_init hsound) hpre
  have hready₂ := ready_collectLock hready₁ hp
  rw [map_append, map_cons, nodup_middle, nodup_cons, mem_append] at hnodup
  have hnew (q : PendingLock) (hq : q ∈ pre ∨ q ∈ post) : p.1 ≠ q.1 := by
    intro heq
    refine hnodup.1 (hq.imp ?_ ?_) <;>
    · intro hmem
      rw [heq]
      exact mem_map_of_mem hmem
  have habsent : st.batchVerifier.Absent p.1 :=
    absent_foldlM (ready_init hsound) ⟨by simp, by simp⟩ (fun q hq => hnew q (.inl hq)) hpre
  rcases collectLock_cases hp with ⟨⟨bad, heq⟩, hauth⟩ | ⟨hreach, msg, hid, hverifies, heq⟩
  · have habsent₂ : st₂.batchVerifier.Absent p.1 := by
      rw [heq]
      exact habsent
    have hfinal := absent_foldlM hready₂ habsent₂ (fun q hq => hnew q (.inr hq)) hpost
    have hwf := (ready_foldlM hready₂ hpost).wf
    exact iff_of_false (hfinal.verify hwf).2 fun hreach => hbogus (hauth hreach)
  · have hinvalid : ¬msg.Verifies ctx.bls := fun h => hbogus (hverifies h)
    have htracks₂ : st₂.batchVerifier.Tracks msg := by
      rw [heq]
      refine Tracks.pushMessage hready₁ hinvalid _ _ _ _ _ ?_
      exact CBLSBatchVerifier.tracks_store (hid ▸ habsent.1) _
    obtain ⟨hready, htracks⟩ := tracks_foldlM hready₂ hinvalid htracks₂ hpost
    refine iff_of_true ?_ hreach
    rw [← hid]
    rcases htracks with hmsg | hbad
    · exact CBLSBatchVerifier.mem_badMessages_verify hready.sound hready.fallback hready.wf hmsg
        hinvalid
    · exact (CBLSBatchVerifier.flagged_verify ctx.bls _).badMessages_subset hbad

/-- Only authentic locks are handed on exactly when the loop passes over no other lock, or ends
early. -/
theorem handed_authentic_iff (hsound : BatchSound Uint256 ctx.bls false)
    {pend : Map Uint256 (NodeId × Lock)} {ban : Bool} {result : LocksResult}
    (hresult : ctx.processPendingInstantSendLocks pend ban = some result) :
    (∀ p ∈ result.handed, ctx.Authentic p.2.2) ↔
      ctx.collectLocks pend.entries = .error .noQuorum ∨
        ∀ pre p post st, pend.entries = pre ++ p :: post → ctx.collectLocks pre = .ok st →
          ¬ctx.Authentic p.2.2 → ctx.ReachesVerifier st p := by
  unfold processPendingInstantSendLocks at hresult
  split at hresult
  · cases hresult
  · rename_i hstop
    cases hresult
    exact iff_of_true (by simp) (Or.inl hstop)
  rename_i stF hok
  cases hresult
  have hnodup : (pend.entries.map Sigma.fst).Nodup := pend.keys_nodup
  rw [or_iff_right (by simp [hok])]
  simp only [mem_filter, decide_eq_true_eq]
  constructor
  · intro hhanded pre p post st hsplit hpre hbogus
    rw [hsplit] at hnodup hok hhanded
    rw [← mem_badMessages_iff_reachesVerifier hsound hnodup hpre hok hbogus]
    by_contra hgood
    exact hbogus (hhanded p ⟨by simp, hgood⟩)
  · rintro hreach p ⟨hmem, hgood⟩
    by_contra hbogus
    obtain ⟨pre, post, hsplit⟩ := append_of_mem hmem
    rw [hsplit] at hnodup hok
    obtain ⟨st, -, hpre, -, -⟩ := collectLocks_split hok
    refine hgood ?_
    rw [mem_badMessages_iff_reachesVerifier hsound hnodup hpre hok hbogus]
    exact hreach pre p post st hsplit hpre hbogus

/-! ### Two small sets of pending locks -/

/-- A node that knows one block and one quorum, and for which every signature that decodes verifies.
-/
def sampleContext : LockContext where
  llmqParams :=
    { type := 1, size := 3, minSize := 2, threshold := 2, dkgInterval := 24,
      dkgMiningWindowStart := 10, dkgMiningWindowEnd := 18, dkgBadVotesThreshold := 2,
      dkgBadVotesThresholdV2 := 0, signingActiveQuorumCount := 2, keepOldConnections := 3,
      keepOldKeys := 4 }
  signOffset := 0
  bls :=
    { verify := fun _ _ _ => true
      aggregateVerify := fun _ _ _ => true
      aggregatePubKeys := fun key _ => key
      aggregateSigs := fun sig _ => sig }
  getRequestId islock := islock.txid
  buildSignHash _ id _ := id
  hasRecoveredSig _ _ := false
  hasRecoveredSigForId _ := false
  lookupBlockIndex hash := if hash = 5 then some 100 else none
  chainHeight := 110
  isQuorumActive hash := hash = 5
  getQuorum hash := if hash = 5 then some ⟨5, some 6⟩ else none
  selectQuorumForSigning _ _ _ := none

theorem batchSound_sampleContext : BatchSound Uint256 sampleContext.bls false :=
  fun _ _ _ _ _ => rfl

def signedLock : Lock := ⟨[⟨1, 0⟩], 10, 5, some 7⟩

def malformedLock : Lock := { signedLock with sig := none }

theorem handed_authentic_signedLock :
    ∃ result, sampleContext.processPendingInstantSendLocks (AList.singleton 9 (3, signedLock)) true =
        some result ∧ ∀ p ∈ result.handed, sampleContext.Authentic p.2.2 := by
  obtain ⟨result, hresult⟩ : ∃ result, sampleContext.processPendingInstantSendLocks
      (AList.singleton 9 (3, signedLock)) true = some result := ⟨_, rfl⟩
  refine ⟨result, hresult, (handed_authentic_iff batchSound_sampleContext hresult).mpr (Or.inr ?_)⟩
  intro pre p post st hsplit _ hbogus
  have hmem : p ∈ (AList.singleton (9 : Uint256) ((3 : NodeId), signedLock)).entries := by
    rw [hsplit]
    simp
  obtain rfl : p = ⟨9, 3, signedLock⟩ := by simpa using hmem
  exact absurd (Or.inl ⟨100, ⟨5, some 6⟩, 7, 6, rfl, rfl, rfl, rfl, rfl⟩) hbogus

/-- A lock whose signature does not decode is in no batch and therefore never found bad. -/
theorem malformedLock_handed :
    BatchSound Uint256 sampleContext.bls false ∧
      ∃ result, sampleContext.processPendingInstantSendLocks
          (AList.singleton 9 (3, malformedLock)) false = some result ∧
        ⟨9, 3, malformedLock⟩ ∈ result.handed ∧ ¬sampleContext.Authentic malformedLock := by
  refine ⟨batchSound_sampleContext, _, rfl, by decide, ?_⟩
  rintro (⟨_, _, sig, _, -, -, hsig, -⟩ | hrec)
  · cases hsig
  · cases hrec

end Defcon.InstantSend.LockContext
