import Defcon.Llmq.SigShares

/-!
# Which signature shares reach the batch verifier

A node is found bad when one of the messages the verifier stores for it is invalid. Shares
behind one that does not decode, and shares with a key that another node pushed first, never
become such a message.
-/

namespace Defcon.Llmq

open Option List
open AList (Map)
open Bls (CBLSBatchVerifier Message)

namespace SharesContext

variable (ctx : SharesContext)

def shareVerifies (s : CSigShare) : Bool :=
  match ctx.getQuorum s.llmqType s.quorumHash with
  | none => false
  | some quorum =>
    ctx.verifyInsecure (quorum.getPubKeyShare s.quorumMember) (ctx.signHash s) s.sigShare

end SharesContext

namespace CSigSharesManager

variable {ctx : SharesContext} {m : CSigSharesManager}

/-! ### What reaches the verifier -/

/-- The shares of a node that are pushed: those in front of the first one that does not decode,
unless a signature for their id is already recovered. -/
def sharesToVerify (m : CSigSharesManager) (shares : List CSigShare) : List CSigShare :=
  (shares.takeWhile fun s => m.hasRecoveredSigForId s.llmqType s.id || s.sigShare.isSome).filter
    fun s => !m.hasRecoveredSigForId s.llmqType s.id

def batchToVerify (m : CSigSharesManager)
    (batch : List (Sigma fun _ : NodeId => List CSigShare)) : List (NodeId × CSigShare) :=
  batch.flatMap fun p => (m.sharesToVerify p.2).map fun s => (p.1, s)

/-- The node has pushed a key that was first pushed, by it or another node, with a share that
does not verify. -/
def Caught (ctx : SharesContext) (m : CSigSharesManager)
    (batch : List (Sigma fun _ : NodeId => List CSigShare)) (nodeId : NodeId) : Prop :=
  ∃ s first, (nodeId, s) ∈ m.batchToVerify batch ∧
    (m.batchToVerify batch).find? (fun q => ctx.getKey q.2 = ctx.getKey s) = some first ∧
    ctx.shareVerifies first.2 = false

def messageOf (ctx : SharesContext) (s : CSigShare) :
    Option (Message SigShareKey (BitVec 384) (BitVec 768)) :=
  s.sigShare.bind (message ctx s)

def pushOf (ctx : SharesContext) (q : NodeId × CSigShare) :
    Option (NodeId × Message SigShareKey (BitVec 384) (BitVec 768)) :=
  (messageOf ctx q.2).map fun msg => (q.1, msg)

theorem messageOf_spec {s : CSigShare} {msg : Message SigShareKey (BitVec 384) (BitVec 768)}
    (hmsg : messageOf ctx s = some msg) :
    msg.msgId = ctx.getKey s ∧ (msg.Verifies ctx.bls ↔ ctx.shareVerifies s = true) := by
  obtain ⟨sig, hsig, hmsg⟩ := bind_eq_some_iff.mp hmsg
  unfold message at hmsg
  split at hmsg
  · cases hmsg
  · rename_i quorum hquorum
    split at hmsg
    · cases hmsg
    · rename_i pubKeyShare hkey
      cases hmsg
      refine ⟨rfl, ?_⟩
      simp [SharesContext.shareVerifies, hquorum, SharesContext.verifyInsecure, hkey, hsig,
        Message.Verifies]

theorem hasRecoveredSigForId_banNode (nodeId : NodeId) :
    (m.banNode nodeId).hasRecoveredSigForId = m.hasRecoveredSigForId := by
  unfold banNode
  split
  · rfl
  · split <;> rfl

theorem sigShares_banNode (nodeId : NodeId) : (m.banNode nodeId).sigShares = m.sigShares := by
  unfold banNode
  split
  · rfl
  · split <;> rfl

variable {shares : List CSigShare} {batch : List (Sigma fun _ : NodeId => List CSigShare)}

theorem pushSigShares_ok {v v' : ShareVerifier} {m' : CSigSharesManager} {nodeId : NodeId}
    (hsub : v.subBatchSize = 0) (hpush : pushSigShares ctx m v nodeId shares = some (m', v')) :
    m'.hasRecoveredSigForId = m.hasRecoveredSigForId ∧ m'.sigShares = m.sigShares ∧
      (∀ s ∈ m.sharesToVerify shares, (messageOf ctx s).isSome) ∧
      v' = v.storeAll (((m.sharesToVerify shares).map fun s => (nodeId, s)).filterMap
        (pushOf ctx)) := by
  induction shares generalizing v with
  | nil =>
    obtain ⟨rfl, rfl⟩ : m = m' ∧ v = v' := by simpa [pushSigShares] using hpush
    exact ⟨rfl, rfl, by simp [sharesToVerify], rfl⟩
  | cons s shares ih =>
    unfold pushSigShares at hpush
    split at hpush
    next hrec =>
      have hskip : m.sharesToVerify (s :: shares) = m.sharesToVerify shares := by
        simp [sharesToVerify, hrec]
      rw [hskip]
      exact ih hsub hpush
    next hrec =>
      rw [Bool.not_eq_true] at hrec
      cases hsig : s.sigShare with
      | none =>
        have hstop : m.sharesToVerify (s :: shares) = [] := by
          simp [sharesToVerify, hrec, hsig]
        rw [hsig] at hpush
        obtain ⟨rfl, rfl⟩ : m.banNode nodeId = m' ∧ v = v' := by simpa using hpush
        rw [hstop]
        exact ⟨hasRecoveredSigForId_banNode nodeId, sigShares_banNode nodeId, by simp, rfl⟩
      | some sig =>
        have hcons : m.sharesToVerify (s :: shares) = s :: m.sharesToVerify shares := by
          simp [sharesToVerify, hrec, hsig]
        rw [hsig] at hpush
        simp only at hpush
        split at hpush
        · cases hpush
        · rename_i msg hmsg
          rw [CBLSBatchVerifier.pushMessage_eq_store hsub] at hpush
          have hmessage : messageOf ctx s = some msg := by
            rw [messageOf, hsig]
            exact hmsg
          obtain ⟨hrecs, hkept, hsome, rfl⟩ := ih (v := v.store nodeId msg) hsub hpush
          rw [hcons]
          refine ⟨hrecs, hkept, ?_, ?_⟩
          · intro t ht
            rcases mem_cons.mp ht with rfl | ht
            · rw [hmessage]
              rfl
            · exact hsome t ht
          · simp [pushOf, hmessage, CBLSBatchVerifier.storeAll]

theorem push_batch_ok {v v' : ShareVerifier} {m' : CSigSharesManager} (hsub : v.subBatchSize = 0)
    (hpush : batch.foldlM (fun (st : CSigSharesManager × ShareVerifier) p =>
      pushSigShares ctx st.1 st.2 p.1 p.2) (m, v) = some (m', v')) :
    m'.hasRecoveredSigForId = m.hasRecoveredSigForId ∧ m'.sigShares = m.sigShares ∧
      (∀ q ∈ m.batchToVerify batch, (messageOf ctx q.2).isSome) ∧
      v' = v.storeAll ((m.batchToVerify batch).filterMap (pushOf ctx)) := by
  induction batch generalizing m v with
  | nil =>
    obtain ⟨rfl, rfl⟩ : m = m' ∧ v = v' := by simpa using hpush
    exact ⟨rfl, rfl, by simp [batchToVerify], rfl⟩
  | cons p batch ih =>
    rw [foldlM_cons] at hpush
    obtain ⟨⟨m₁, v₁⟩, hfirst, hrest⟩ := bind_eq_some_iff.mp hpush
    obtain ⟨hrecs₁, hkept₁, hsome₁, rfl⟩ := pushSigShares_ok hsub hfirst
    obtain ⟨hrecs, hkept, hsome, rfl⟩ :=
      ih ((CBLSBatchVerifier.subBatchSize_storeAll _).trans hsub) hrest
    have hsame (shares : List CSigShare) : m₁.sharesToVerify shares = m.sharesToVerify shares := by
      simp only [sharesToVerify, hrecs₁]
    have hbatch : m₁.batchToVerify batch = m.batchToVerify batch := by
      simp only [batchToVerify, hsame]
    have hcons : m.batchToVerify (p :: batch) =
        (m.sharesToVerify p.2).map (fun s => (p.1, s)) ++ m.batchToVerify batch := rfl
    rw [hbatch] at hsome ⊢
    rw [hcons]
    refine ⟨hrecs.trans hrecs₁, hkept.trans hkept₁, ?_, ?_⟩
    · intro q hq
      rcases mem_append.mp hq with hq | hq
      · obtain ⟨s, hs, rfl⟩ := mem_map.mp hq
        exact hsome₁ s hs
      · exact hsome q hq
    · rw [filterMap_append, CBLSBatchVerifier.storeAll_append]

theorem find_filterMap_pushOf {reached : List (NodeId × CSigShare)}
    (hsome : ∀ q ∈ reached, (messageOf ctx q.2).isSome) (k : SigShareKey) :
    (reached.filterMap (pushOf ctx)).find? (fun p => p.2.msgId = k) =
      (reached.find? fun q => ctx.getKey q.2 = k).bind (pushOf ctx) := by
  induction reached with
  | nil => rfl
  | cons q reached ih =>
    obtain ⟨msg, hmsg⟩ := isSome_iff_exists.mp (hsome q mem_cons_self)
    have hpush : pushOf ctx q = some (q.1, msg) := by
      rw [pushOf, hmsg]
      rfl
    have hid := (messageOf_spec hmsg).1
    rw [filterMap_cons_some hpush, find?_cons, find?_cons]
    by_cases hk : ctx.getKey q.2 = k
    · simp [hid, hk, hpush]
    · simp [hid, hk, ih fun q' hq' => hsome q' (mem_cons_of_mem _ hq')]

theorem holdsInvalid_iff_caught (hsome : ∀ q ∈ m.batchToVerify batch, (messageOf ctx q.2).isSome)
    (nodeId : NodeId) :
    (emptyVerifier.storeAll ((m.batchToVerify batch).filterMap (pushOf ctx))).HoldsInvalid ctx.bls
        nodeId ↔ m.Caught ctx batch nodeId := by
  rw [emptyVerifier, CBLSBatchVerifier.holdsInvalid_storeAll_iff]
  have hpush {q : NodeId × CSigShare} {p : NodeId × Message SigShareKey (BitVec 384) (BitVec 768)}
      (hq : pushOf ctx q = some p) : p.1 = q.1 ∧ messageOf ctx q.2 = some p.2 := by
    obtain ⟨msg, hmsg, rfl⟩ := map_eq_some_iff.mp hq
    exact ⟨rfl, hmsg⟩
  constructor
  · rintro ⟨msg, p, hmem, hfind, hinvalid⟩
    obtain ⟨q, hq, hqp⟩ := mem_filterMap.mp hmem
    obtain ⟨hnode, hmsg⟩ := hpush hqp
    rw [find_filterMap_pushOf hsome, (messageOf_spec hmsg).1] at hfind
    obtain ⟨first, hfirst, hp⟩ := bind_eq_some_iff.mp hfind
    refine ⟨q.2, first, ?_, hfirst, ?_⟩
    · rw [show nodeId = q.1 from hnode]
      exact hq
    · rw [← Bool.not_eq_true, ← (messageOf_spec (hpush hp).2).2]
      exact hinvalid
  · rintro ⟨s, first, hmem, hfirst, hbad⟩
    obtain ⟨msg, hmsg⟩ := isSome_iff_exists.mp (hsome _ hmem)
    obtain ⟨msg', hmsg'⟩ :=
      isSome_iff_exists.mp (hsome _ (mem_of_find?_eq_some hfirst))
    refine ⟨msg, (first.1, msg'), ?_, ?_, ?_⟩
    · refine mem_filterMap.mpr ⟨_, hmem, ?_⟩
      rw [pushOf, hmsg]
      rfl
    · rw [find_filterMap_pushOf hsome, (messageOf_spec hmsg).1, hfirst, bind_some, pushOf,
        hmsg']
      rfl
    · rw [(messageOf_spec hmsg').2, hbad]
      exact Bool.false_ne_true

/-! ### What is passed on -/

theorem passSigShare_ok {run run' : SharesRun} {s : CSigShare}
    (hpass : passSigShare ctx run s = some run') :
    ∃ quorum, ctx.getQuorum s.llmqType s.quorumHash = some quorum ∧
      run' = ⟨(run.manager.processSigShare ctx s quorum).1, run.passed ++ [s],
        run.recovered ++ (run.manager.processSigShare ctx s quorum).2.toList⟩ := by
  unfold passSigShare at hpass
  split at hpass
  · cases hpass
  · rename_i quorum hquorum
    exact ⟨quorum, hquorum, (some.inj hpass).symm⟩

theorem passed_foldlM_passSigShare {run run' : SharesRun}
    (hpass : shares.foldlM (passSigShare ctx) run = some run') :
    run'.passed = run.passed ++ shares := by
  induction shares generalizing run with
  | nil =>
    obtain rfl : run = run' := by simpa using hpass
    simp
  | cons s shares ih =>
    rw [foldlM_cons] at hpass
    obtain ⟨run₁, hfirst, hrest⟩ := bind_eq_some_iff.mp hpass
    obtain ⟨quorum, -, rfl⟩ := passSigShare_ok hfirst
    rw [ih hrest, append_assoc, singleton_append]

theorem passed_foldlM_processNode {badSources : Finset NodeId} {run run' : SharesRun}
    (hprocess : batch.foldlM (processNode ctx badSources) run = some run') :
    run'.passed = run.passed ++ (batch.filter fun p => p.1 ∉ badSources).flatMap Sigma.snd := by
  induction batch generalizing run with
  | nil =>
    obtain rfl : run = run' := by simpa using hprocess
    simp
  | cons p batch ih =>
    rw [foldlM_cons] at hprocess
    obtain ⟨run₁, hfirst, hrest⟩ := bind_eq_some_iff.mp hprocess
    unfold processNode at hfirst
    split at hfirst
    · rename_i hbad
      cases hfirst
      rw [ih hrest]
      simp [hbad]
    · rename_i hgood
      rw [ih hrest, passed_foldlM_passSigShare hfirst]
      simp [hgood]

end CSigSharesManager

end Defcon.Llmq
