import Defcon.Llmq.SigningVotes

/-!
# Votes on the inputs of a transaction

`CInstantSendManager::ProcessTx` asks the signing manager for one vote per input, under a request
id that is a hash of the outpoint. The votes are kept by quorum type, and the type is looked up
from the height of the tip at each call.
-/

namespace Defcon.InstantSend

open AList (Map)
open Lib (Run Computes Guarded)
open Llmq (LLMQType SigningState SignCall PendingSign)

def LLMQ_NONE : LLMQType := 255

/-- What the voting code reads and does not change: the chain parameters, and the two hashes that
make the ids of signing requests. -/
structure VoteContext where
  llmqTypeDIP0024InstantSend : LLMQType
  llmqTypeDIP0024InstantSendV2 : LLMQType
  nInstantSendV2ActivationHeight : Int
  /-- The hash of `INPUTLOCK_REQUESTID_PREFIX` and an outpoint. -/
  inputRequestId : COutPoint → Uint256
  lockRequestId : List COutPoint → Uint256

/-- What a call finds around it, which may be different at the next call. -/
structure VoteEnv where
  isMasternode : Bool
  isInstantSendEnabled : Bool
  isBlockchainSynced : Bool
  isInstantSendMempoolSigningEnabled : Bool
  height : Int
  checkCanLock : COutPoint → Bool
  hasConflictingLock : Bool
  isConflicting : COutPoint → Bool
  /-- The answers `AsyncSignIfMember` gets for the request of an input. -/
  isMember : COutPoint → Bool
  hasRecoveredSigForId : COutPoint → Bool
  /-- The height of the tip when `TrySignInstantSendLock` looks. -/
  lockHeight : Int
  hasRecoveredSig : COutPoint → Bool
  hasRecoveredLockSig : Bool
  hasLockQuorum : Bool
  isLockMember : Bool

structure VoteState where
  sigman : SigningState := {}
  inputRequestIds : Finset Uint256 := ∅
  creatingInstantSendLocks : Finset Uint256 := ∅

namespace VoteContext

variable (ctx : VoteContext)

def getInstantSendLLMQType (nHeight : Int) : LLMQType :=
  if ctx.llmqTypeDIP0024InstantSendV2 ≠ LLMQ_NONE ∧
      ctx.nInstantSendV2ActivationHeight ≤ nHeight then
    ctx.llmqTypeDIP0024InstantSendV2
  else ctx.llmqTypeDIP0024InstantSend

def inputCall (tx : CTransaction) (fRetroactive : Bool) (llmqType : LLMQType)
    (prevout : COutPoint) : SignCall where
  llmqType := llmqType
  id := ctx.inputRequestId prevout
  msgHash := tx.hash
  allowReSign := fRetroactive

/-- The first loop of `TrySignInputLocks`: how many inputs have the vote already, or `none` if one
of them is taken. -/
def countVotes (env : VoteEnv) (tx : CTransaction) (llmqType : LLMQType) (s : VoteState) :
    List COutPoint → Option Nat
  | [] => some 0
  | prevout :: rest =>
    match s.sigman.getVoteForId llmqType (ctx.inputRequestId prevout) with
    | some otherTxHash =>
      if otherTxHash ≠ tx.hash then none
      else if env.isConflicting prevout then none
      else (countVotes env tx llmqType s rest).map (· + 1)
    | none =>
      if env.isConflicting prevout then none
      else countVotes env tx llmqType s rest

variable (env : VoteEnv)

def voteOnInput (tx : CTransaction) (fRetroactive : Bool) (llmqType : LLMQType) (s : VoteState)
    (prevout : COutPoint) : VoteState :=
  { s with
    inputRequestIds := insert (ctx.inputRequestId prevout) s.inputRequestIds
    sigman := (s.sigman.asyncSignIfMember (env.isMember prevout) (env.hasRecoveredSigForId prevout)
      (ctx.inputCall tx fRetroactive llmqType prevout)).1 }

def trySignInputLocks (tx : CTransaction) (fRetroactive : Bool) (llmqType : LLMQType)
    (s : VoteState) : VoteState × Bool :=
  match ctx.countVotes env tx llmqType s tx.vin with
  | none => (s, false)
  | some alreadyVotedCount =>
    if !fRetroactive ∧ alreadyVotedCount = tx.vin.length then (s, true)
    else (tx.vin.foldl (ctx.voteOnInput env tx fRetroactive llmqType) s, true)

def trySignInstantSendLock (tx : CTransaction) (s : VoteState) : VoteState :=
  let id := ctx.lockRequestId tx.vin
  if tx.vin.any (fun prevout => !env.hasRecoveredSig prevout) then s
  else if env.hasRecoveredLockSig then s
  else if !env.hasLockQuorum then s
  else if id ∈ s.creatingInstantSendLocks then s
  else
    { s with
      creatingInstantSendLocks := insert id s.creatingInstantSendLocks
      sigman := (s.sigman.asyncSignIfMember env.isLockMember env.hasRecoveredLockSig
        { llmqType := ctx.getInstantSendLLMQType env.lockHeight
          id := id
          msgHash := tx.hash }).1 }

def processTx (tx : CTransaction) (fRetroactive : Bool) (s : VoteState) : VoteState :=
  if !env.isMasternode ∨ !env.isInstantSendEnabled ∨ !env.isBlockchainSynced then s
  else
    let llmqType := ctx.getInstantSendLLMQType env.height
    if llmqType = LLMQ_NONE then s
    else if tx.vin = [] ∨ !tx.vin.all env.checkCanLock then s
    else if env.hasConflictingLock then s
    else if !env.isInstantSendMempoolSigningEnabled ∧ !fRetroactive then s
    else
      let r := ctx.trySignInputLocks env tx fRetroactive llmqType s
      if !r.2 then r.1 else ctx.trySignInstantSendLock env tx r.1

inductive VoteOp where
  | processTx (env : VoteEnv) (tx : CTransaction) (fRetroactive : Bool)
  | trySignInputLocks (env : VoteEnv) (tx : CTransaction) (fRetroactive : Bool)
      (llmqType : LLMQType)

def VoteOp.tx : VoteOp → CTransaction
  | .processTx _ tx _ => tx
  | .trySignInputLocks _ tx _ _ => tx

def VoteOp.llmqType : VoteOp → LLMQType
  | .processTx env _ _ => ctx.getInstantSendLLMQType env.height
  | .trySignInputLocks _ _ _ llmqType => llmqType

def step (s : VoteState) : VoteOp → VoteState
  | .processTx env tx fRetroactive => ctx.processTx env tx fRetroactive s
  | .trySignInputLocks env tx fRetroactive llmqType =>
    (ctx.trySignInputLocks env tx fRetroactive llmqType s).1

def NoForeignVote (s : VoteState) (op : VoteOp) : Prop :=
  ∀ prevout ∈ op.tx.vin, ∀ e ∈ s.sigman.votes.entries,
    e.1.1 ≠ op.llmqType ctx → e.1.2 = ctx.inputRequestId prevout → e.2 = op.tx.hash

instance (s : VoteState) (op : VoteOp) : Decidable (ctx.NoForeignVote s op) :=
  -- over the lists, not over all outpoints and entries, which are finite types too
  @List.decidableBAll _ _ (fun _ => @List.decidableBAll _ _ (fun _ => inferInstance) _) _

/-- The two kinds of request ids are hashes with different prefixes. -/
def SeparateRequestIds : Prop :=
  ∀ prevout inputs, ctx.inputRequestId prevout ≠ ctx.lockRequestId inputs

variable {ctx} {s : VoteState}

variable (ctx) in
/-- Every queued vote is recorded, and the records of an input under the various quorum types are
for one transaction. -/
structure InputVotesAgree (sigman : SigningState) : Prop where
  recorded : ∀ p ∈ sigman.pendingSigns, sigman.getVoteForId p.llmqType p.id = some p.msgHash
  agree : ∀ {prevout llmqType llmqType' txid txid'},
    sigman.getVoteForId llmqType (ctx.inputRequestId prevout) = some txid →
    sigman.getVoteForId llmqType' (ctx.inputRequestId prevout) = some txid' → txid = txid'

def Admissible (ctx : VoteContext) (sigman : SigningState) (c : SignCall) : Prop :=
  ∀ {llmqType prevout txid}, llmqType ≠ c.llmqType → c.id = ctx.inputRequestId prevout →
    sigman.getVoteForId llmqType c.id = some txid → txid = c.msgHash

theorem InputVotesAgree.asyncSignIfMember {sigman : SigningState} {c : SignCall}
    (h : ctx.InputVotesAgree sigman) (hdiff : c.allowDiffMsgHashSigning = false)
    (hc : ctx.Admissible sigman c) (isMember hasRecoveredSigForId : Bool) :
    ctx.InputVotesAgree (sigman.asyncSignIfMember isMember hasRecoveredSigForId c).1 := by
  obtain hsame | ⟨hqueue, hvotes, hown⟩ :=
    SigningState.asyncSignIfMember_cases isMember hasRecoveredSigForId hdiff sigman
  · rw [hsame]
    exact h
  constructor
  · intro p hp
    rw [hqueue] at hp
    rw [hvotes]
    obtain hp | hp := List.mem_append.mp hp
    · split
      · rename_i hkey
        have hrecorded := h.recorded p hp
        rw [hkey.1, hkey.2] at hrecorded
        rw [hown hrecorded]
      · exact h.recorded p hp
    · rw [List.mem_singleton.mp hp, if_pos ⟨rfl, rfl⟩]
  · -- what this call voted for agrees with what was recorded, so the rest is as before
    have hagrees : ∀ {prevout llmqType txid},
        (sigman.asyncSignIfMember isMember hasRecoveredSigForId c).1.getVoteForId llmqType
          (ctx.inputRequestId prevout) = some txid →
        c.id = ctx.inputRequestId prevout → txid = c.msgHash := by
      intro prevout llmqType txid hvote hid
      rw [hvotes] at hvote
      split at hvote
      · exact (Option.some.inj hvote).symm
      · rename_i hkey
        rw [← hid] at hvote hkey
        exact hc (fun heq => hkey ⟨heq, rfl⟩) hid hvote
    intro prevout llmqType llmqType' txid txid' hvote hvote'
    by_cases hid : c.id = ctx.inputRequestId prevout
    · rw [hagrees hvote hid, hagrees hvote' hid]
    · rw [hvotes, if_neg fun hkey => hid hkey.2.symm] at hvote hvote'
      exact h.agree hvote hvote'

theorem getVoteForId_voteOnInput_of_ne (tx : CTransaction) (fRetroactive : Bool)
    {llmqType llmqType' : LLMQType} (hne : llmqType' ≠ llmqType) (s : VoteState)
    (prevout : COutPoint) (id : Uint256) :
    (ctx.voteOnInput env tx fRetroactive llmqType s prevout).sigman.getVoteForId llmqType' id =
      s.sigman.getVoteForId llmqType' id := by
  have hdiff : (ctx.inputCall tx fRetroactive llmqType prevout).allowDiffMsgHashSigning = false :=
    rfl
  obtain hsame | ⟨-, hvotes, -⟩ := SigningState.asyncSignIfMember_cases (env.isMember prevout)
    (env.hasRecoveredSigForId prevout) hdiff s.sigman
  · exact congrArg (·.getVoteForId llmqType' id) hsame
  · exact (hvotes llmqType' id).trans (if_neg fun hkey => hne hkey.1)

theorem inputVotesAgree_foldl_voteOnInput (tx : CTransaction) (fRetroactive : Bool)
    (llmqType : LLMQType) (inputs : List COutPoint) (s : VoteState)
    (h : ctx.InputVotesAgree s.sigman)
    (hforeign : ∀ prevout ∈ inputs, ∀ {llmqType' txid}, llmqType' ≠ llmqType →
      s.sigman.getVoteForId llmqType' (ctx.inputRequestId prevout) = some txid →
        txid = tx.hash) :
    ctx.InputVotesAgree (inputs.foldl (ctx.voteOnInput env tx fRetroactive llmqType) s).sigman := by
  induction inputs generalizing s with
  | nil => exact h
  | cons prevout inputs ih =>
    apply ih
    · refine h.asyncSignIfMember rfl ?_ _ _
      intro llmqType' _ txid hne _ hvote
      exact hforeign prevout List.mem_cons_self hne hvote
    · intro prevout' hmem llmqType' txid hne hvote
      rw [getVoteForId_voteOnInput_of_ne env tx fRetroactive hne] at hvote
      exact hforeign prevout' (List.mem_cons_of_mem _ hmem) hne hvote

theorem inputVotesAgree_trySignInputLocks (tx : CTransaction) (fRetroactive : Bool)
    (llmqType : LLMQType) (h : ctx.InputVotesAgree s.sigman)
    (hforeign : ∀ prevout ∈ tx.vin, ∀ {llmqType' txid}, llmqType' ≠ llmqType →
      s.sigman.getVoteForId llmqType' (ctx.inputRequestId prevout) = some txid →
        txid = tx.hash) :
    ctx.InputVotesAgree (ctx.trySignInputLocks env tx fRetroactive llmqType s).1.sigman := by
  unfold trySignInputLocks
  split
  · exact h
  · split
    · exact h
    · exact inputVotesAgree_foldl_voteOnInput env tx fRetroactive llmqType tx.vin s h hforeign

theorem inputVotesAgree_trySignInstantSendLock (hids : ctx.SeparateRequestIds) (env : VoteEnv)
    (tx : CTransaction) (h : ctx.InputVotesAgree s.sigman) :
    ctx.InputVotesAgree (ctx.trySignInstantSendLock env tx s).sigman := by
  unfold trySignInstantSendLock
  dsimp only
  split
  · exact h
  split
  · exact h
  split
  · exact h
  split
  · exact h
  refine h.asyncSignIfMember rfl ?_ _ _
  intro _ prevout _ _ hid _
  exact absurd hid.symm (hids prevout tx.vin)

theorem NoForeignVote.getVoteForId {op : VoteOp} (hop : ctx.NoForeignVote s op) :
    ∀ prevout ∈ op.tx.vin, ∀ {llmqType txid}, llmqType ≠ op.llmqType ctx →
      s.sigman.getVoteForId llmqType (ctx.inputRequestId prevout) = some txid →
        txid = op.tx.hash := by
  intro prevout hmem llmqType txid hne hvote
  exact hop prevout hmem ⟨(llmqType, ctx.inputRequestId prevout), txid⟩
    (AList.mem_lookup_iff.mp hvote) hne rfl

theorem inputVotesAgree_step (hids : ctx.SeparateRequestIds) {op : VoteOp}
    (hop : ctx.NoForeignVote s op) (h : ctx.InputVotesAgree s.sigman) :
    ctx.InputVotesAgree (ctx.step s op).sigman := by
  have hforeign := hop.getVoteForId
  cases op with
  | trySignInputLocks env tx fRetroactive llmqType =>
    exact inputVotesAgree_trySignInputLocks env tx fRetroactive llmqType h hforeign
  | processTx env tx fRetroactive =>
    have hinputs := inputVotesAgree_trySignInputLocks env tx fRetroactive
      (ctx.getInstantSendLLMQType env.height) h hforeign
    dsimp only [step, processTx]
    split
    · exact h
    split
    · exact h
    split
    · exact h
    split
    · exact h
    split
    · exact h
    split
    · exact hinputs
    · exact inputVotesAgree_trySignInstantSendLock hids env tx hinputs

end VoteContext

open VoteContext

/-- In every run whose calls find no vote under another quorum type, an outpoint gets votes for one
transaction. -/
theorem inputVotes_agree {ctx : VoteContext} (hids : ctx.SeparateRequestIds)
    {ops : List VoteOp} {t : VoteState}
    (hrun : Run (Guarded ctx.NoForeignVote (Computes ctx.step)) {} ops t) (prevout : COutPoint) :
    ∀ p ∈ t.sigman.pendingSigns, ∀ q ∈ t.sigman.pendingSigns,
      p.id = ctx.inputRequestId prevout → q.id = ctx.inputRequestId prevout →
        p.msgHash = q.msgHash := by
  have hinit : ctx.InputVotesAgree ({} : VoteState).sigman :=
    ⟨by simp, by simp [SigningState.getVoteForId]⟩
  have hagree : ctx.InputVotesAgree t.sigman := by
    refine hrun.invariant (I := fun s => ctx.InputVotesAgree s.sigman) ?_ hinit
    rintro s op _ hs ⟨hop, rfl⟩
    exact inputVotesAgree_step hids hop hs
  intro p hp q hq hpid hqid
  have hpvote := hagree.recorded p hp
  have hqvote := hagree.recorded q hq
  rw [hpid] at hpvote
  rw [hqid] at hqvote
  exact hagree.agree hpvote hqvote

namespace SampleVotes

def context : VoteContext where
  llmqTypeDIP0024InstantSend := 4
  llmqTypeDIP0024InstantSendV2 := 5
  nInstantSendV2ActivationHeight := 10
  inputRequestId prevout := BitVec.ofNat 256 (2 * prevout.n)
  lockRequestId inputs := BitVec.ofNat 256 (2 * inputs.length + 1)

def env (height : Int) : VoteEnv where
  isMasternode := true
  isInstantSendEnabled := true
  isBlockchainSynced := true
  isInstantSendMempoolSigningEnabled := true
  height := height
  checkCanLock _ := true
  hasConflictingLock := false
  isConflicting _ := false
  isMember _ := true
  hasRecoveredSigForId _ := false
  lockHeight := height
  hasRecoveredSig _ := false
  hasRecoveredLockSig := false
  hasLockQuorum := true
  isLockMember := true

def spend (txid : Uint256) : CTransaction := ⟨txid, [⟨7, 0⟩], []⟩

theorem separateRequestIds_context : context.SeparateRequestIds := by
  intro prevout inputs heq
  have hparity := congrArg (fun id : Uint256 => id.toNat % 2) heq
  simp only [context, BitVec.toNat_ofNat] at hparity
  omega

end SampleVotes

open SampleVotes

theorem inputVotes_agree_oneType :
    context.SeparateRequestIds ∧
      ∀ p ∈ ([VoteOp.processTx (env 8) (spend 1) false, .processTx (env 9) (spend 2) true].foldl
          context.step {}).sigman.pendingSigns,
        ∀ q ∈ ([VoteOp.processTx (env 8) (spend 1) false, .processTx (env 9) (spend 2) true].foldl
          context.step {}).sigman.pendingSigns,
        p.id = context.inputRequestId ⟨7, 0⟩ → q.id = context.inputRequestId ⟨7, 0⟩ →
          p.msgHash = q.msgHash :=
  ⟨separateRequestIds_context,
    inputVotes_agree separateRequestIds_context (Run.computes_guarded (by decide +kernel)) ⟨7, 0⟩⟩

/-- The tip passes the activation height between two transactions that spend one outpoint. -/
theorem inputVotes_conflict :
    context.SeparateRequestIds ∧
      ([VoteOp.processTx (env 9) (spend 1) false, .processTx (env 10) (spend 2) true].foldl
        context.step {}).sigman.pendingSigns =
        [⟨4, context.inputRequestId ⟨7, 0⟩, 1⟩, ⟨5, context.inputRequestId ⟨7, 0⟩, 2⟩] :=
  ⟨separateRequestIds_context, by decide +kernel⟩

end Defcon.InstantSend
