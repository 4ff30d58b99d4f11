import Mathlib.Data.Fintype.Basic
import Defcon.Lib.AssocMap
import Defcon.Lib.Run
import Defcon.Llmq.Params

/-!
# The votes of a signing member

`CSigningManager::AsyncSignIfMember` looks a vote up, writes it and queues the signature share. The
vote database and the queue have locks of their own, and no lock spans the three accesses. The
function is given twice: as one call that nothing interrupts, and as the sequence of its accesses,
for the calls of several threads.
-/

namespace Defcon.Llmq

open Function
open AList (Map)
open Lib (Run Computes Guarded)

/-- An entry of `pendingSigns`. Of the quorum only the type is kept. -/
structure PendingSign where
  llmqType : LLMQType
  id : Uint256
  msgHash : Uint256
  deriving DecidableEq, Repr

/-- The votes of `CRecoveredSigsDb`, and the queue of `CSigSharesManager`. -/
structure SigningState where
  votes : Map (LLMQType × Uint256) Uint256 := ∅
  pendingSigns : List PendingSign := []

structure SignCall where
  llmqType : LLMQType
  id : Uint256
  msgHash : Uint256
  allowReSign : Bool := false
  allowDiffMsgHashSigning : Bool := false
  deriving DecidableEq, Repr

namespace SigningState

variable (db : SigningState)

def getVoteForId (llmqType : LLMQType) (id : Uint256) : Option Uint256 :=
  db.votes.lookup (llmqType, id)

def writeVoteForId (c : SignCall) : SigningState :=
  { db with votes := db.votes.insert (c.llmqType, c.id) c.msgHash }

def asyncSign (c : SignCall) : SigningState :=
  { db with pendingSigns := db.pendingSigns ++ [⟨c.llmqType, c.id, c.msgHash⟩] }

/-- What an earlier vote means for a call: `none` ends it, and otherwise `hasVoted` is known. -/
def checkVote (c : SignCall) : Option Uint256 → Option Bool
  | none => some false
  | some prevMsgHash =>
    if c.msgHash ≠ prevMsgHash then
      if c.allowDiffMsgHashSigning then some false else none
    else if c.allowReSign then some true
    else none

/-- `AsyncSignIfMember` without interruption. `isMember` says that a quorum was selected and that
this node is a valid member of it. -/
def asyncSignIfMember (isMember hasRecoveredSigForId : Bool) (c : SignCall) (db : SigningState) :
    SigningState × Bool :=
  if !isMember then (db, false)
  else
    match checkVote c (db.getVoteForId c.llmqType c.id) with
    | none => (db, false)
    | some hasVoted =>
      if hasRecoveredSigForId then (db, true)
      else
        let db := if hasVoted then db else db.writeVoteForId c
        (db.asyncSign c, true)

variable {c : SignCall}

theorem checkVote_eq_some (hdiff : c.allowDiffMsgHashSigning = false) {vote : Option Uint256}
    {hasVoted : Bool} (hcheck : checkVote c vote = some hasVoted) :
    vote = none ∧ hasVoted = false ∨ vote = some c.msgHash ∧ hasVoted = true := by
  unfold checkVote at hcheck
  split at hcheck
  · exact .inl ⟨rfl, (Option.some.inj hcheck).symm⟩
  · rw [hdiff, if_neg Bool.false_ne_true] at hcheck
    split at hcheck
    · cases hcheck
    · rename_i hmsg
      split at hcheck
      · exact .inr ⟨congrArg some (not_not.mp hmsg).symm, (Option.some.inj hcheck).symm⟩
      · cases hcheck

theorem asyncSignIfMember_cases (isMember hasRecoveredSigForId : Bool)
    (hdiff : c.allowDiffMsgHashSigning = false) (db : SigningState) :
    (db.asyncSignIfMember isMember hasRecoveredSigForId c).1 = db ∨
    ((db.asyncSignIfMember isMember hasRecoveredSigForId c).1.pendingSigns =
        db.pendingSigns ++ [⟨c.llmqType, c.id, c.msgHash⟩] ∧
      (∀ llmqType id, (db.asyncSignIfMember isMember hasRecoveredSigForId c).1.getVoteForId
          llmqType id =
        if llmqType = c.llmqType ∧ id = c.id then some c.msgHash
        else db.getVoteForId llmqType id) ∧
      ∀ {txid}, db.getVoteForId c.llmqType c.id = some txid → txid = c.msgHash) := by
  unfold asyncSignIfMember
  split
  · exact .inl rfl
  · split
    · exact .inl rfl
    · rename_i hasVoted hcheck
      split
      · exact .inl rfl
      · refine .inr ⟨?_, ?_, ?_⟩
        · cases hasVoted <;> rfl
        · intro llmqType id
          obtain ⟨-, rfl⟩ | ⟨hvote, rfl⟩ := checkVote_eq_some hdiff hcheck
          · simp only [Bool.false_eq_true, if_false, asyncSign, writeVoteForId, getVoteForId,
              AList.lookup_insert_eq_ite, Prod.mk.injEq]
          · simp only [if_true, asyncSign, getVoteForId]
            split
            · rename_i hkey
              rw [hkey.1, hkey.2]
              exact hvote
            · rfl
        · intro txid htxid
          obtain ⟨hvote, -⟩ | ⟨hvote, -⟩ := checkVote_eq_some hdiff hcheck
          · rw [htxid] at hvote
            cases hvote
          · exact Option.some.inj (htxid.symm.trans hvote)

end SigningState

/-! ### The accesses of one call -/

inductive SignPc where
  | selectQuorum
  | hasVotedOnId
  | getVoteForId
  | hasRecoveredSigForId (hasVoted : Bool)
  | writeVoteForId
  | asyncSign
  | done (ret : Bool)
  deriving DecidableEq, Repr

/-- One access. `answer` is what the call learns about the quorum, or about a recovered signature. -/
def SignCall.access (c : SignCall) (answer : Bool) (db : SigningState) :
    SignPc → SigningState × SignPc
  | .selectQuorum => (db, if answer then .hasVotedOnId else .done false)
  | .hasVotedOnId =>
    (db, if (db.getVoteForId c.llmqType c.id).isSome then .getVoteForId
      else .hasRecoveredSigForId false)
  | .getVoteForId =>
    -- a read that fails leaves the null hash
    match SigningState.checkVote c (some ((db.getVoteForId c.llmqType c.id).getD 0)) with
    | none => (db, .done false)
    | some hasVoted => (db, .hasRecoveredSigForId hasVoted)
  | .hasRecoveredSigForId hasVoted =>
    (db, if answer then .done true else if hasVoted then .asyncSign else .writeVoteForId)
  | .writeVoteForId => (db.writeVoteForId c, .asyncSign)
  | .asyncSign => (db.asyncSign c, .done true)
  | .done ret => (db, .done ret)

/-- A call that runs alone makes its accesses one after another. -/
def SignCall.accessAlone (c : SignCall) (isMember hasRecoveredSigForId : Bool)
    (p : SigningState × SignPc) : SigningState × SignPc :=
  c.access (if p.2 = .selectQuorum then isMember else hasRecoveredSigForId) p.1 p.2

/-- The two descriptions of the function agree on a call that nothing interrupts. -/
theorem accessAlone_iterate (c : SignCall) (isMember hasRecoveredSigForId : Bool)
    (db : SigningState) :
    (c.accessAlone isMember hasRecoveredSigForId)^[6] (db, .selectQuorum) =
      ((SigningState.asyncSignIfMember isMember hasRecoveredSigForId c db).1,
        .done (SigningState.asyncSignIfMember isMember hasRecoveredSigForId c db).2) := by
  simp only [iterate_succ_apply', iterate_zero_apply]
  unfold SigningState.asyncSignIfMember
  cases isMember with
  | false => simp [SignCall.accessAlone, SignCall.access]
  | true =>
    cases hvote : db.getVoteForId c.llmqType c.id with
    | none =>
      cases hasRecoveredSigForId <;>
        simp [SignCall.accessAlone, SignCall.access, hvote, SigningState.checkVote]
    | some prevMsgHash =>
      cases hcheck : SigningState.checkVote c (some prevMsgHash) with
      | none => simp [SignCall.accessAlone, SignCall.access, hvote, hcheck]
      | some hasVoted =>
        cases hasRecoveredSigForId <;> cases hasVoted <;>
          simp [SignCall.accessAlone, SignCall.access, hvote, hcheck]

/-! ### Concurrent calls -/

/-- The calls of the threads `ι` over the shared database. -/
structure SignThreads (ι : Type) where
  db : SigningState
  pcs : ι → SignPc

def SignPc.Undecided (pc : SignPc) : Prop :=
  pc = .hasRecoveredSigForId false ∨ pc = .writeVoteForId

instance (pc : SignPc) : Decidable pc.Undecided :=
  inferInstanceAs (Decidable (_ ∨ _))

/-- The call is going to sign, or may still do so, because of a vote that is recorded. -/
def SignPc.Decided (pc : SignPc) : Prop :=
  pc = .hasRecoveredSigForId true ∨ pc = .asyncSign

namespace SignThreads

variable {ι : Type} [DecidableEq ι]

def step (calls : ι → SignCall) (s : SignThreads ι) (op : ι × Bool) : SignThreads ι :=
  let r := (calls op.1).access op.2 s.db (s.pcs op.1)
  { db := r.1, pcs := Function.update s.pcs op.1 r.2 }

/-- When a call looks for a vote, no call for another message is between its own look and the vote
that it writes. -/
def NoRace (calls : ι → SignCall) (s : SignThreads ι) (op : ι × Bool) : Prop :=
  s.pcs op.1 = .hasVotedOnId →
    ∀ j, (s.pcs j).Undecided → (calls j).msgHash = (calls op.1).msgHash

instance [Fintype ι] (calls : ι → SignCall) (s : SignThreads ι) (op : ι × Bool) :
    Decidable (NoRace calls s op) :=
  inferInstanceAs (Decidable (_ → ∀ _, _ → _))

variable {calls : ι → SignCall} {llmqType : LLMQType} {id : Uint256}

variable (calls llmqType id) in
def SameRequest : Prop :=
  ∀ i, (calls i).llmqType = llmqType ∧ (calls i).id = id ∧
    (calls i).allowDiffMsgHashSigning = false

variable (calls llmqType id) in
/-- What the accesses keep. Without a vote the undecided calls agree, and a vote binds everyone. -/
structure VoteBinds (s : SignThreads ι) : Prop where
  agree : s.db.getVoteForId llmqType id = none →
    ∀ i j, (s.pcs i).Undecided → (s.pcs j).Undecided → (calls i).msgHash = (calls j).msgHash
  unsigned : s.db.getVoteForId llmqType id = none →
    (∀ i, s.pcs i ≠ .getVoteForId ∧ ¬ (s.pcs i).Decided) ∧
      ∀ p ∈ s.db.pendingSigns, ¬ (p.llmqType = llmqType ∧ p.id = id)
  bound : ∀ {msgHash}, s.db.getVoteForId llmqType id = some msgHash →
    (∀ i, (s.pcs i).Undecided ∨ (s.pcs i).Decided → (calls i).msgHash = msgHash) ∧
      ∀ p ∈ s.db.pendingSigns, p.llmqType = llmqType ∧ p.id = id → p.msgHash = msgHash

variable {s : SignThreads ι} {i : ι}

omit [DecidableEq ι] in
theorem VoteBinds.init {db : SigningState}
    (hdb : ∀ p ∈ db.pendingSigns, ¬ (p.llmqType = llmqType ∧ p.id = id)) :
    VoteBinds calls llmqType id ⟨db, fun _ => .selectQuorum⟩ where
  agree _ _ _ hundecided := by
    rcases hundecided with h | h <;> cases h
  unsigned _ := by
    refine ⟨fun _ => ⟨by simp, ?_⟩, hdb⟩
    rintro (h | h) <;> cases h
  bound _ := by
    refine ⟨?_, fun p hp hkey => absurd hkey (hdb p hp)⟩
    rintro _ ((h | h) | (h | h)) <;> cases h

section

variable (h : VoteBinds calls llmqType id s)

include h

theorem VoteBinds.of_pc {pc : SignPc}
    (hnone : s.db.getVoteForId llmqType id = none → pc ≠ .getVoteForId ∧ ¬ pc.Decided ∧
      (pc.Undecided → ∀ j, (s.pcs j).Undecided → (calls j).msgHash = (calls i).msgHash))
    (hsome : ∀ {msgHash}, s.db.getVoteForId llmqType id = some msgHash →
      pc.Undecided ∨ pc.Decided → (calls i).msgHash = msgHash) :
    VoteBinds calls llmqType id ⟨s.db, Function.update s.pcs i pc⟩ where
  agree hvote j k hj hk := by
    obtain ⟨-, -, hagree⟩ := hnone hvote
    dsimp only at hj hk
    by_cases hji : j = i
    · by_cases hki : k = i
      · rw [hji, hki]
      · rw [hji, update_self] at hj
        rw [update_of_ne hki] at hk
        rw [hji]
        exact (hagree hj k hk).symm
    · rw [update_of_ne hji] at hj
      by_cases hki : k = i
      · rw [hki, update_self] at hk
        rw [hki]
        exact hagree hk j hj
      · rw [update_of_ne hki] at hk
        exact h.agree hvote j k hj hk
  unsigned hvote := by
    refine ⟨fun j => ?_, (h.unsigned hvote).2⟩
    dsimp only
    by_cases hji : j = i
    · rw [hji, update_self]
      exact ⟨(hnone hvote).1, (hnone hvote).2.1⟩
    · rw [update_of_ne hji]
      exact (h.unsigned hvote).1 j
  bound {msgHash} hvote := by
    refine ⟨fun j hj => ?_, (h.bound hvote).2⟩
    dsimp only at hj
    by_cases hji : j = i
    · rw [hji, update_self] at hj
      rw [hji]
      exact hsome hvote hj
    · rw [update_of_ne hji] at hj
      exact (h.bound hvote).1 j hj

theorem VoteBinds.of_idle {pc : SignPc} (hpc : pc = .hasVotedOnId ∨ ∃ ret, pc = .done ret) :
    VoteBinds calls llmqType id ⟨s.db, Function.update s.pcs i pc⟩ := by
  have hundecided : ¬ pc.Undecided := by
    rintro (rfl | rfl) <;> simp at hpc
  have hdecided : ¬ pc.Decided := by
    rintro (rfl | rfl) <;> simp at hpc
  apply h.of_pc
  · intro _
    refine ⟨?_, hdecided, fun hpc => absurd hpc hundecided⟩
    rintro rfl
    simp at hpc
  · intro _ _ hpc
    exact absurd hpc (not_or.mpr ⟨hundecided, hdecided⟩)

theorem VoteBinds.write (hsame : SameRequest calls llmqType id) (hpc : s.pcs i = .writeVoteForId) :
    VoteBinds calls llmqType id
      ⟨s.db.writeVoteForId (calls i), Function.update s.pcs i .asyncSign⟩ := by
  obtain ⟨htype, hid, -⟩ := hsame i
  have hundecided : (s.pcs i).Undecided := .inr hpc
  have hvote : (s.db.writeVoteForId (calls i)).getVoteForId llmqType id =
      some (calls i).msgHash := by
    simp [SigningState.writeVoteForId, SigningState.getVoteForId, htype, hid]
  refine ⟨fun hnone => ?_, fun hnone => ?_, fun {msgHash} hsome => ?_⟩
  · rw [hvote] at hnone
    cases hnone
  · rw [hvote] at hnone
    cases hnone
  obtain rfl := Option.some.inj (hvote.symm.trans hsome)
  cases hbefore : s.db.getVoteForId llmqType id with
  | none =>
    obtain ⟨hpcs, hqueue⟩ := h.unsigned hbefore
    refine ⟨fun j hj => ?_, fun p hp hkey => absurd hkey (hqueue p hp)⟩
    dsimp only at hj
    by_cases hji : j = i
    · rw [hji]
    · rw [update_of_ne hji] at hj
      exact h.agree hbefore j i (hj.resolve_right (hpcs j).2) hundecided
  | some prevMsgHash =>
    obtain ⟨hpcs, hqueue⟩ := h.bound hbefore
    rw [hpcs i (.inl hundecided)]
    refine ⟨fun j hj => ?_, hqueue⟩
    dsimp only at hj
    by_cases hji : j = i
    · rw [hji]
      exact hpcs i (.inl hundecided)
    · rw [update_of_ne hji] at hj
      exact hpcs j hj

theorem VoteBinds.sign (hpc : s.pcs i = .asyncSign) :
    VoteBinds calls llmqType id
      ⟨s.db.asyncSign (calls i), Function.update s.pcs i (.done true)⟩ := by
  have hidle : VoteBinds calls llmqType id ⟨s.db, update s.pcs i (.done true)⟩ :=
    h.of_idle (.inr ⟨true, rfl⟩)
  have hdecided : (s.pcs i).Decided := .inr hpc
  refine ⟨hidle.agree, fun hnone => ?_, fun {msgHash} hsome => ⟨(hidle.bound hsome).1, ?_⟩⟩
  · exact absurd hdecided ((h.unsigned hnone).1 i).2
  · intro p hp hkey
    obtain hp | hp := List.mem_append.mp hp
    · exact (h.bound hsome).2 p hp hkey
    · rw [List.mem_singleton.mp hp]
      exact (h.bound hsome).1 i (.inr hdecided)

theorem VoteBinds.step (hsame : SameRequest calls llmqType id) {op : ι × Bool}
    (hrace : NoRace calls s op) : VoteBinds calls llmqType id (s.step calls op) := by
  obtain ⟨i, answer⟩ := op
  obtain ⟨htype, hid, hdiff⟩ := hsame i
  unfold SignThreads.step
  cases hpc : s.pcs i with
  | selectQuorum =>
    apply h.of_idle
    cases answer <;> simp [SignCall.access]
  | hasVotedOnId =>
    dsimp only [SignCall.access]
    rw [htype, hid]
    cases hvote : s.db.getVoteForId llmqType id with
    | none =>
      apply h.of_pc
      · intro _
        refine ⟨by simp, ?_, fun _ => hrace hpc⟩
        rintro (h | h) <;> simp at h
      · intro msgHash hsome
        rw [hvote] at hsome
        cases hsome
    | some prevMsgHash =>
      apply h.of_pc
      · intro hnone
        rw [hvote] at hnone
        cases hnone
      · rintro _ _ ((h | h) | (h | h)) <;> cases h
  | getVoteForId =>
    dsimp only [SignCall.access]
    rw [htype, hid]
    cases hvote : s.db.getVoteForId llmqType id with
    | none => exact absurd hpc ((h.unsigned hvote).1 i).1
    | some prevMsgHash =>
      dsimp only [Option.getD_some, SigningState.checkVote]
      rw [hdiff, if_neg Bool.false_ne_true]
      by_cases hmsg : (calls i).msgHash ≠ prevMsgHash
      · rw [if_pos hmsg]
        exact h.of_idle (.inr ⟨false, rfl⟩)
      · rw [if_neg hmsg]
        by_cases hresign : (calls i).allowReSign
        · rw [if_pos hresign]
          apply h.of_pc
          · intro hnone
            rw [hvote] at hnone
            cases hnone
          · intro msgHash hsome _
            rw [hvote] at hsome
            exact (not_not.mp hmsg).trans (Option.some.inj hsome)
        · rw [if_neg hresign]
          exact h.of_idle (.inr ⟨false, rfl⟩)
  | hasRecoveredSigForId hasVoted =>
    dsimp only [SignCall.access]
    cases answer with
    | true => exact h.of_idle (.inr ⟨true, rfl⟩)
    | false =>
      cases hasVoted with
      | true =>
        have hdecided : (s.pcs i).Decided := .inl hpc
        apply h.of_pc
        · exact fun hnone => absurd hdecided ((h.unsigned hnone).1 i).2
        · exact fun hsome _ => (h.bound hsome).1 i (.inr hdecided)
      | false =>
        have hundecided : (s.pcs i).Undecided := .inl hpc
        apply h.of_pc
        · intro hnone
          refine ⟨by simp, ?_, fun _ j hj => h.agree hnone j i hj hundecided⟩
          rintro (h | h) <;> cases h
        · exact fun hsome _ => (h.bound hsome).1 i (.inl hundecided)
  | writeVoteForId => exact h.write hsame hpc
  | asyncSign => exact h.sign hpc
  | done ret => exact h.of_idle (.inr ⟨ret, rfl⟩)

end

end SignThreads

open SignThreads

/-- In every interleaving without a race between a look and a write, the calls for one request sign
for one message. -/
theorem one_msgHash_signed {ι : Type} [DecidableEq ι] {calls : ι → SignCall}
    {llmqType : LLMQType} {id : Uint256} (hsame : SameRequest calls llmqType id)
    {db : SigningState} (hdb : ∀ p ∈ db.pendingSigns, ¬ (p.llmqType = llmqType ∧ p.id = id))
    {ops : List (ι × Bool)} {t : SignThreads ι}
    (hrun : Run (Guarded (NoRace calls) (Computes (SignThreads.step calls)))
      ⟨db, fun _ => .selectQuorum⟩ ops t) :
    ∀ p ∈ t.db.pendingSigns, ∀ q ∈ t.db.pendingSigns,
      p.llmqType = llmqType ∧ p.id = id → q.llmqType = llmqType ∧ q.id = id →
        p.msgHash = q.msgHash := by
  have hbinds : VoteBinds calls llmqType id t := by
    refine hrun.invariant ?_ (VoteBinds.init hdb)
    rintro s op _ hs ⟨hrace, rfl⟩
    exact hs.step hsame hrace
  intro p hp q hq hpkey hqkey
  cases hvote : t.db.getVoteForId llmqType id with
  | none => exact absurd hpkey ((hbinds.unsigned hvote).2 p hp)
  | some msgHash =>
    rw [(hbinds.bound hvote).2 p hp hpkey, (hbinds.bound hvote).2 q hq hqkey]

def twoCalls (i : Fin 2) : SignCall where
  llmqType := 1
  id := 7
  msgHash := BitVec.ofNat 256 i

def oneAfterAnother : List (Fin 2 × Bool) :=
  [(0, true), (0, false), (0, false), (0, false), (0, false), (1, true), (1, false), (1, false)]

def sideBySide : List (Fin 2 × Bool) :=
  [(0, true), (1, true), (0, false), (1, false), (0, false), (1, false), (0, false), (1, false),
    (0, false), (1, false)]

theorem sameRequest_twoCalls : SameRequest twoCalls 1 7 := by
  unfold SameRequest
  decide

theorem one_msgHash_signed_oneAfterAnother :
    SameRequest twoCalls 1 7 ∧
      ∀ p ∈ (oneAfterAnother.foldl (SignThreads.step twoCalls)
          ⟨{}, fun _ => .selectQuorum⟩).db.pendingSigns,
        ∀ q ∈ (oneAfterAnother.foldl (SignThreads.step twoCalls)
          ⟨{}, fun _ => .selectQuorum⟩).db.pendingSigns,
        p.llmqType = 1 ∧ p.id = 7 → q.llmqType = 1 ∧ q.id = 7 → p.msgHash = q.msgHash :=
  ⟨sameRequest_twoCalls,
    one_msgHash_signed sameRequest_twoCalls (by simp) (Run.computes_guarded (by decide +kernel))⟩

theorem two_msgHashes_signed :
    SameRequest twoCalls 1 7 ∧
      (sideBySide.foldl (SignThreads.step twoCalls)
        ⟨{}, fun _ => .selectQuorum⟩).db.pendingSigns = [⟨1, 7, 0⟩, ⟨1, 7, 1⟩] :=
  ⟨sameRequest_twoCalls, by decide +kernel⟩

end Defcon.Llmq
