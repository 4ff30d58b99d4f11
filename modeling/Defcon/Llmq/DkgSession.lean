import Mathlib.Data.Fintype.Card
import Defcon.Lib.CappedLog
import Defcon.Llmq.Params

/-!
# A DKG session

`CDKGSession` at a member of the quorum, up to the end of `VerifyAndCommit`. A session has `n`
members. They are named by their index: `membersMap` is a bijection between the indexes and the
`proTxHash`es of the members, and a message that names another hash is refused before anything
else is done with it.
-/

namespace Defcon.Llmq

/-- `CBLSSecretKey`; `none` is an object for which `IsValid` is false. -/
abbrev CBLSSecretKey := Option (BitVec 256)

abbrev BLSVerificationVector := List CBLSPublicKey

structure CBLSIESMultiRecipientObjects where
  ephemeralPubKey : CBLSPublicKey
  ivSeed : Uint256
  blobs : List (List UInt8)
  deriving DecidableEq

structure CDKGContribution (n : Nat) where
  llmqType : LLMQType
  quorumHash : Uint256
  proTxHash : Fin n
  vvec : BLSVerificationVector
  contributions : CBLSIESMultiRecipientObjects
  sig : CBLSSignature
  deriving DecidableEq

structure CDKGComplaint (n : Nat) where
  llmqType : LLMQType
  quorumHash : Uint256
  proTxHash : Fin n
  badMembers : List Bool
  complainForMembers : List Bool
  sig : CBLSSignature
  deriving DecidableEq

structure CDKGJustification (n : Nat) where
  llmqType : LLMQType
  quorumHash : Uint256
  proTxHash : Fin n
  contributions : List (Nat × CBLSSecretKey)
  sig : CBLSSignature
  deriving DecidableEq

/-- `CDKGMember`: what the node knows about one member. The messages stand for their hashes. -/
structure CDKGMember (n : Nat) where
  contributions : List (CDKGContribution n) := []
  complaints : List (CDKGComplaint n) := []
  justifications : List (CDKGJustification n) := []
  badMemberVotes : Finset (Fin n) := ∅
  complaintsFromOthers : Finset (Fin n) := ∅
  bad : Bool := false
  badConnection : Bool := false
  weComplain : Bool := false
  someoneComplain : Bool := false

structure CDKGSession (n : Nat) where
  members : Fin n → CDKGMember n := fun _ => {}
  receivedVvecs : Fin n → Option BLSVerificationVector := fun _ => none
  receivedSkContributions : Fin n → CBLSSecretKey := fun _ => none
  vecEncryptedContributions : Fin n → Option CBLSIESMultiRecipientObjects := fun _ => none
  pendingContributionVerifications : List (Fin n) := []
  vvecContribution : BLSVerificationVector := []
  m_sk_contributions : Fin n → CBLSSecretKey := fun _ => none
  /-- What `CDKGSessionManager` has stored for this session. -/
  verifiedVvecContributions : Fin n → Option BLSVerificationVector := fun _ => none
  verifiedSkContributions : Fin n → Option CBLSSecretKey := fun _ => none
  encryptedContributions : Fin n → Option CBLSIESMultiRecipientObjects := fun _ => none

/-- One of the kinds of messages of which a member may send one: where the messages of a member
are recorded. -/
structure MessageKind (n : Nat) (Msg : Type) where
  proTxHash : Msg → Fin n
  messages : CDKGMember n → List Msg
  setMessages : List Msg → CDKGMember n → CDKGMember n
  messages_setMessages : ∀ l m, messages (setMessages l m) = l
  messages_bad : ∀ m b, messages { m with bad := b } = messages m
  bad_setMessages : ∀ l m, (setMessages l m).bad = m.bad

def contributionKind (n : Nat) : MessageKind n (CDKGContribution n) where
  proTxHash := (·.proTxHash)
  messages := (·.contributions)
  setMessages l m := { m with contributions := l }
  messages_setMessages _ _ := rfl
  messages_bad _ _ := rfl
  bad_setMessages _ _ := rfl

def complaintKind (n : Nat) : MessageKind n (CDKGComplaint n) where
  proTxHash := (·.proTxHash)
  messages := (·.complaints)
  setMessages l m := { m with complaints := l }
  messages_setMessages _ _ := rfl
  messages_bad _ _ := rfl
  bad_setMessages _ _ := rfl

def justificationKind (n : Nat) : MessageKind n (CDKGJustification n) where
  proTxHash := (·.proTxHash)
  messages := (·.justifications)
  setMessages l m := { m with justifications := l }
  messages_setMessages _ _ := rfl
  messages_bad _ _ := rfl
  bad_setMessages _ _ := rfl

/-- The quorum, and the cryptography that its members use. What a member draws at random is a
function of the member. -/
structure DkgContext (n : Nat) where
  params : LLMQParams
  size_le : n ≤ params.size
  quorumHash : Uint256
  nHeight : Int
  nDkgBadVotesV2ActivationHeight : Int
  pubKeyOperator : Fin n → CBLSPublicKey
  /-- The verification vector a member generates, and the share of each recipient. -/
  generateContributions : Fin n → Option (BLSVerificationVector × (Fin n → CBLSSecretKey))
  initEncrypt : Fin n → CBLSPublicKey × Uint256
  encrypt : Fin n → Fin n → CBLSPublicKey → CBLSSecretKey → Option (List UInt8)
  decrypt : Fin n → CBLSIESMultiRecipientObjects → Option CBLSSecretKey
  publicKeyShare : BLSVerificationVector → Fin n → CBLSPublicKey
  getPublicKey : CBLSSecretKey → CBLSPublicKey
  verifyContributionShares :
    Fin n → List (Option BLSVerificationVector) → List CBLSSecretKey → List Bool
  sign : Fin n → Uint256 → CBLSSignature
  contributionSignHash : CDKGContribution n → Uint256
  complaintSignHash : CDKGComplaint n → Uint256
  justificationSignHash : CDKGJustification n → Uint256

/-- What `VerifyConnectionAndMinProtoVersions` finds out about the peers. -/
structure ConnectionInfo (n : Nat) where
  isQuorumPoseEnabled : Bool
  isAllMembersConnectedEnabled : Bool
  /-- The protocol version of the connection to a member, if there is one. -/
  protoMap : Fin n → Option Int
  outboundFailedTooManyTimes : Fin n → Bool

def MIN_MASTERNODE_PROTO_VERSION : Int := 70235

def verifyVerificationVector (vvec : BLSVerificationVector) : Bool :=
  vvec.all (·.isSome) && decide vvec.Nodup

namespace DkgContext

variable {n : Nat} (ctx : DkgContext n)

def getDkgBadVotesThreshold : Nat :=
  if 0 < ctx.params.dkgBadVotesThresholdV2 ∧ ctx.nDkgBadVotesV2ActivationHeight ≤ ctx.nHeight then
    ctx.params.dkgBadVotesThresholdV2
  else ctx.params.dkgBadVotesThreshold

def verifyContributionShare (forId : Fin n) (vvec : Option BLSVerificationVector)
    (skContribution : CBLSSecretKey) : Bool :=
  match vvec with
  | none => false
  | some vvec =>
    verifyVerificationVector vvec &&
      match ctx.publicKeyShare vvec forId with
      | none => false
      | some pk => some pk = ctx.getPublicKey skContribution

end DkgContext

namespace CDKGSession

variable {n : Nat} (ctx : DkgContext n) (me : Fin n)

def getMemberAtIndex (index : Nat) : Option (Fin n) :=
  if h : index < n then some ⟨index, h⟩ else none

def bit (bits : List Bool) (i : Fin n) : Bool :=
  bits.getD i false

variable (s : CDKGSession n)

def modifyMember (i : Fin n) (f : CDKGMember n → CDKGMember n) : CDKGSession n :=
  { s with members := Function.update s.members i (f (s.members i)) }

def markBadMember (i : Fin n) : CDKGSession n :=
  s.modifyMember i fun m => { m with bad := true }

section Messages

variable {Msg : Type} [DecidableEq Msg] (kind : MessageKind n Msg)

/-- `PreVerifyMessage`; `wellFormed` are the checks that do not depend on what was received
before. -/
def preVerifyMessage (wellFormed : Msg → Bool) (s : CDKGSession n) (msg : Msg) : Bool :=
  wellFormed msg && decide ((kind.messages (s.members (kind.proTxHash msg))).length < 2)

def recordMessage (s : CDKGSession n) (msg : Msg) : CDKGSession n :=
  s.modifyMember (kind.proTxHash msg) fun m => kind.setMessages ((kind.messages m).insert msg) m

/-- `ReceiveMessage`: two messages of one member are recorded, the second one makes it bad, and
only the first one is looked into. -/
def receiveMessage (accept : CDKGSession n → Msg → CDKGSession n) (s : CDKGSession n) (msg : Msg) :
    CDKGSession n :=
  if 2 ≤ (kind.messages (s.members (kind.proTxHash msg))).length then s
  else
    let s := recordMessage kind s msg
    if 1 < (kind.messages (s.members (kind.proTxHash msg))).length then
      s.markBadMember (kind.proTxHash msg)
    else accept s msg

end Messages

/-! ### Contributions -/

/-- The ciphertexts of `SendContributions`; one recipient that cannot be encrypted to spoils all. -/
def encryptContributions (sks : Fin n → CBLSSecretKey) : Option (List (List UInt8)) :=
  (List.finRange n).mapM fun i => ctx.encrypt me i (ctx.pubKeyOperator i) (sks i)

def sendContributions : Option (CDKGContribution n) :=
  match encryptContributions ctx me s.m_sk_contributions with
  | none => none
  | some blobs =>
    let qc : CDKGContribution n :=
      { llmqType := ctx.params.type
        quorumHash := ctx.quorumHash
        proTxHash := me
        vvec := s.vvecContribution
        contributions := ⟨(ctx.initEncrypt me).1, (ctx.initEncrypt me).2, blobs⟩
        sig := none }
    some { qc with sig := ctx.sign me (ctx.contributionSignHash qc) }

def contribute : CDKGSession n × Option (CDKGContribution n) :=
  match ctx.generateContributions me with
  | none => (s, none)
  | some (vvec, sks) =>
    let s := { s with vvecContribution := vvec, m_sk_contributions := sks }
    (s, sendContributions ctx me s)

def wellFormedContribution (qc : CDKGContribution n) : Bool :=
  qc.quorumHash = ctx.quorumHash && qc.sig.isSome && qc.contributions.blobs.length == n &&
    qc.vvec.length == ctx.params.threshold && verifyVerificationVector qc.vvec

def preVerifyContribution : CDKGSession n → CDKGContribution n → Bool :=
  preVerifyMessage (contributionKind n) (wellFormedContribution ctx)

def applyShareResults (results : List (Fin n × Bool)) : CDKGSession n :=
  results.foldl
    (fun s r =>
      if r.2 then
        { s with
          verifiedSkContributions := Function.update s.verifiedSkContributions r.1
            (some (s.receivedSkContributions r.1)) }
      else s.modifyMember r.1 fun m => { m with weComplain := true })
    s

def storeEncryptedContributions (idxs : List (Fin n)) : CDKGSession n :=
  { s with
    encryptedContributions := fun i =>
      if i ∈ idxs then s.vecEncryptedContributions i else s.encryptedContributions i }

def verifyPendingContributions : CDKGSession n :=
  if s.pendingContributionVerifications = [] then s
  else
    let memberIndexes := s.pendingContributionVerifications.filter fun i =>
      !((s.members i).bad || (s.members i).weComplain)
    let s := s.storeEncryptedContributions memberIndexes
    if memberIndexes = [] then { s with pendingContributionVerifications := [] }
    else
      let result := ctx.verifyContributionShares me (memberIndexes.map s.receivedVvecs)
        (memberIndexes.map s.receivedSkContributions)
      if result.length ≠ memberIndexes.length then s
      else
        { s.applyShareResults (memberIndexes.zip result) with
          pendingContributionVerifications := [] }

def acceptContribution (qc : CDKGContribution n) : CDKGSession n :=
  let s := { s with
    receivedVvecs := Function.update s.receivedVvecs qc.proTxHash (some qc.vvec)
    verifiedVvecContributions :=
      Function.update s.verifiedVvecContributions qc.proTxHash (some qc.vvec) }
  match ctx.decrypt me qc.contributions with
  | none => s.modifyMember qc.proTxHash fun m => { m with weComplain := true }
  | some skContribution =>
    let s := { s with
      receivedSkContributions :=
        Function.update s.receivedSkContributions qc.proTxHash skContribution
      vecEncryptedContributions :=
        Function.update s.vecEncryptedContributions qc.proTxHash (some qc.contributions)
      pendingContributionVerifications := s.pendingContributionVerifications ++ [qc.proTxHash] }
    if 32 ≤ s.pendingContributionVerifications.length then verifyPendingContributions ctx me s
    else s

def receiveContribution : CDKGSession n → CDKGContribution n → CDKGSession n :=
  receiveMessage (contributionKind n) (acceptContribution ctx me)

/-! ### Complaints -/

def verifyConnectionAndMinProtoVersions (conn : ConnectionInfo n) (s : CDKGSession n) :
    CDKGSession n :=
  if !conn.isQuorumPoseEnabled then s
  else
    { s with
      members := fun i =>
        let m := s.members i
        if i = me then m
        else
          let m := match conn.protoMap i with
            | none => { m with badConnection := conn.isAllMembersConnectedEnabled }
            | some nVersion =>
              if nVersion < MIN_MASTERNODE_PROTO_VERSION then { m with badConnection := true }
              else m
          if conn.outboundFailedTooManyTimes i then { m with badConnection := true } else m }

def bitset (p : Fin n → Bool) : List Bool :=
  (List.range ctx.params.size).map fun index => (getMemberAtIndex index).any p

def sendComplaint : Option (CDKGComplaint n) :=
  let isBad := fun i => (s.members i).bad || (s.members i).badConnection
  let complain := fun i => !isBad i && (s.members i).weComplain
  if ∀ i, isBad i = false ∧ complain i = false then none
  else
    let qc : CDKGComplaint n :=
      { llmqType := ctx.params.type
        quorumHash := ctx.quorumHash
        proTxHash := me
        badMembers := bitset ctx isBad
        complainForMembers := bitset ctx complain
        sig := none }
    some { qc with sig := ctx.sign me (ctx.complaintSignHash qc) }

def markSilentMembers : CDKGSession n :=
  { s with
    members := fun i =>
      let m := s.members i
      if m.bad then m else if m.contributions = [] then { m with bad := true } else m }

def verifyAndComplain (conn : ConnectionInfo n) (s : CDKGSession n) :
    CDKGSession n × Option (CDKGComplaint n) :=
  let s := verifyPendingContributions ctx me s
  let s := s.markSilentMembers
  let s := verifyConnectionAndMinProtoVersions me conn s
  (s, sendComplaint ctx me s)

def wellFormedComplaint (qc : CDKGComplaint n) : Bool :=
  qc.quorumHash = ctx.quorumHash && qc.sig.isSome &&
    qc.badMembers.length == ctx.params.size && qc.complainForMembers.length == ctx.params.size

def preVerifyComplaint : CDKGSession n → CDKGComplaint n → Bool :=
  preVerifyMessage (complaintKind n) (wellFormedComplaint ctx)

def acceptComplaint (qc : CDKGComplaint n) : CDKGSession n :=
  { s with
    members := fun i =>
      let m := s.members i
      { m with
        badMemberVotes :=
          if bit qc.badMembers i then insert qc.proTxHash m.badMemberVotes else m.badMemberVotes
        complaintsFromOthers :=
          if bit qc.complainForMembers i then insert qc.proTxHash m.complaintsFromOthers
          else m.complaintsFromOthers
        someoneComplain := bit qc.complainForMembers i || m.someoneComplain } }

def receiveComplaint : CDKGSession n → CDKGComplaint n → CDKGSession n :=
  receiveMessage (complaintKind n) acceptComplaint

/-! ### Justifications -/

/-- The body of the loop of `VerifyAndJustify`: the member afterwards, and the hash it adds to
`justifyFor`. -/
def judge (m : CDKGMember n) : CDKGMember n × Option (Fin n) :=
  if m.bad then (m, none)
  else if ctx.getDkgBadVotesThreshold ≤ m.badMemberVotes.card then ({ m with bad := true }, none)
  else
    match m.complaints with
    | [] => (m, none)
    | [qc] => (m, if bit qc.complainForMembers me then some qc.proTxHash else none)
    | _ => ({ m with bad := true }, none)

def justifyFor : List (Fin n) :=
  (List.finRange n).filterMap fun i => (judge ctx me (s.members i)).2

def sendJustification (forMembers : List (Fin n)) : CDKGJustification n :=
  let qj : CDKGJustification n :=
    { llmqType := ctx.params.type
      quorumHash := ctx.quorumHash
      proTxHash := me
      contributions := ((List.finRange n).filter fun i => i ∈ forMembers).map fun i =>
        (i.val, s.m_sk_contributions i)
      sig := none }
  { qj with sig := ctx.sign me (ctx.justificationSignHash qj) }

def verifyAndJustify : CDKGSession n × Option (CDKGJustification n) :=
  ({ s with members := fun i => (judge ctx me (s.members i)).1 },
    if justifyFor ctx me s = [] then none
    else some (sendJustification ctx me s (justifyFor ctx me s)))

variable (qj : CDKGJustification n)

def wellFormedJustification : Bool :=
  qj.quorumHash = ctx.quorumHash && qj.sig.isSome && !qj.contributions.isEmpty &&
    qj.contributions.all (fun c => decide (c.1 < n) && c.2.isSome) &&
    decide (qj.contributions.map (·.1)).Nodup

def preVerifyJustification : CDKGSession n → CDKGJustification n → Bool :=
  preVerifyMessage (justificationKind n) (wellFormedJustification ctx)

/-- The contributions of a justification with their members; `PreVerifyMessage` has made sure that
every index has one. -/
def justifiedMembers : List (Fin n × CBLSSecretKey) :=
  qj.contributions.filterMap fun c => (getMemberAtIndex c.1).map fun member2 => (member2, c.2)

def applyJustified (member : Fin n) (s : CDKGSession n) (c : Fin n × CBLSSecretKey) :
    CDKGSession n :=
  if !ctx.verifyContributionShare c.1 (s.receivedVvecs member) c.2 then s.markBadMember member
  else
    let s :=
      if c.1 = me then
        { s.modifyMember member fun m => { m with weComplain := false } with
          receivedSkContributions := Function.update s.receivedSkContributions member c.2
          verifiedSkContributions := Function.update s.verifiedSkContributions member (some c.2) }
      else s
    s.modifyMember member fun m =>
      { m with complaintsFromOthers := m.complaintsFromOthers.erase c.1 }

def acceptJustification : CDKGSession n :=
  if (s.members qj.proTxHash).bad then s
  else if ∃ c ∈ justifiedMembers qj, c.1 ∉ (s.members qj.proTxHash).complaintsFromOthers then
    s.markBadMember qj.proTxHash
  else (justifiedMembers qj).foldl (applyJustified ctx me qj.proTxHash) s

def receiveJustification : CDKGSession n → CDKGJustification n → CDKGSession n :=
  receiveMessage (justificationKind n) (acceptJustification ctx me)

/-! ### The commitment phase -/

/-- `VerifyAndCommit` up to the call of `SendCommitment`, which changes no member. -/
def verifyAndCommit : CDKGSession n :=
  { s with
    members := fun i =>
      let m := s.members i
      if m.bad then m else if m.complaintsFromOthers ≠ ∅ then { m with bad := true } else m }

/-! ### The phases -/

/-- `ProcessPendingMessageBatch`, on messages with valid signatures. -/
def processPendingMessageBatch {Msg : Type} (preVerifyMessage : CDKGSession n → Msg → Bool)
    (receiveMessage : CDKGSession n → Msg → CDKGSession n) (s : CDKGSession n) (msgs : List Msg) :
    CDKGSession n :=
  (msgs.filter (preVerifyMessage s)).foldl receiveMessage s

def processContributions (batches : List (List (CDKGContribution n))) : CDKGSession n :=
  batches.foldl
    (processPendingMessageBatch (preVerifyContribution ctx) (receiveContribution ctx me)) s

def processComplaints (batches : List (List (CDKGComplaint n))) : CDKGSession n :=
  batches.foldl (processPendingMessageBatch (preVerifyComplaint ctx) receiveComplaint) s

def processJustifications (batches : List (List (CDKGJustification n))) : CDKGSession n :=
  batches.foldl
    (processPendingMessageBatch (preVerifyJustification ctx) (receiveJustification ctx me)) s

end CDKGSession

/-- The batches of one phase, before and after its start function. `CDKGPendingMessages` lets a
message through once. -/
structure PhaseInput (Msg : Type) where
  early : List (List Msg) := []
  late : List (List Msg) := []
  nodup : (early.flatten ++ late.flatten).Nodup := by simp

def PhaseInput.messages {Msg : Type} (input : PhaseInput Msg) : List Msg :=
  input.early.flatten ++ input.late.flatten

structure MemberInput (n : Nat) where
  contributions : PhaseInput (CDKGContribution n) := {}
  complaints : PhaseInput (CDKGComplaint n) := {}
  justifications : PhaseInput (CDKGJustification n) := {}
  connections : ConnectionInfo n

/-! The session of the member `me`, as `HandleDKGRound` runs it: each `start` is the state in which
the start function of a phase is called, and each `end` the state when the phase ends. -/

namespace MemberInput

variable {n : Nat} (ctx : DkgContext n) (me : Fin n) (input : MemberInput n)

open CDKGSession

def contributeStart : CDKGSession n :=
  processContributions ctx me {} input.contributions.early

def sentContribution : Option (CDKGContribution n) :=
  (contribute ctx me (input.contributeStart ctx me)).2

def contributeEnd : CDKGSession n :=
  processContributions ctx me (contribute ctx me (input.contributeStart ctx me)).1
    input.contributions.late

def complainStart : CDKGSession n :=
  processComplaints ctx (input.contributeEnd ctx me) input.complaints.early

def sentComplaint : Option (CDKGComplaint n) :=
  (verifyAndComplain ctx me input.connections (input.complainStart ctx me)).2

def complainEnd : CDKGSession n :=
  processComplaints ctx
    (verifyAndComplain ctx me input.connections (input.complainStart ctx me)).1
    input.complaints.late

def justifyStart : CDKGSession n :=
  processJustifications ctx me (input.complainEnd ctx me) input.justifications.early

def sentJustification : Option (CDKGJustification n) :=
  (verifyAndJustify ctx me (input.justifyStart ctx me)).2

def justifyEnd : CDKGSession n :=
  processJustifications ctx me (verifyAndJustify ctx me (input.justifyStart ctx me)).1
    input.justifications.late

def committed : CDKGSession n :=
  (input.justifyEnd ctx me).verifyAndCommit

end MemberInput

end Defcon.Llmq
