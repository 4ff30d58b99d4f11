import Defcon.Evo.MasternodeList

/-!
# The service probe's epoch state

`CPoSeServiceManager` keeps, per epoch, which masternodes have announced that they are alive.
`BeginEpoch` moves to another epoch or to another base block of the same epoch, and drops what was
gathered on an abandoned chain. `ProcessResponse` checks an announcement in three parts: a first
critical section, the signature check without the lock, and a second critical section that records
the responder. Calls of several threads interleave at these boundaries.
-/

namespace Defcon.Dsl

open AList
open AList (Map)
open Evo (CDeterministicMNList CPoSeServiceCommitment)
open Llmq (CBLSPublicKey CBLSSignature)

/-! ### The manager -/

@[ext]
structure CPoSeServiceResponse where
  nEpoch : UInt32
  proTxHash : Uint256
  sig : CBLSSignature

structure EpochCommitments where
  candidates : List (Uint256 × CPoSeServiceCommitment) := []
  signedCommitments : List (Uint256 × CPoSeServiceCommitment) := []

inductive EpochChange where
  | none
  | entered
  | rebased
  | rewound
  deriving DecidableEq, Repr

/-- `CPoSeServiceManager` without its report store. -/
structure CPoSeServiceManager where
  m_keepEpochs : UInt32
  m_epoch : UInt32 := 0
  m_epochBlockHash : Uint256 := 0
  m_responded : Map UInt32 (List Uint256) := ∅
  m_commitments : Map UInt32 EpochCommitments := ∅

namespace CPoSeServiceManager

variable (m : CPoSeServiceManager) (nEpoch : UInt32)

/-- How `BeginEpoch` classifies a call, with the epochs whose reports it drops and the announcement
sets that it keeps. -/
def epochChange : EpochChange × List UInt32 × Map UInt32 (List Uint256) :=
  if nEpoch < m.m_epoch then
    (.rewound, m.m_responded.keys.filter (nEpoch ≤ ·), m.m_responded.eraseIf (nEpoch ≤ ·))
  else if nEpoch = m.m_epoch then (.rebased, [nEpoch], m.m_responded.erase nEpoch)
  else (.entered, [], m.m_responded)

def oldest : UInt32 :=
  if m.m_keepEpochs ≤ nEpoch then nEpoch - m.m_keepEpochs + 1 else 0

def keptCommitments (result : EpochChange) (nEpoch : UInt32) (epochBlockHash : Uint256) :
    Map UInt32 EpochCommitments :=
  let kept := m.m_commitments.eraseIf fun epoch =>
    epoch + 1 < nEpoch ∨ result = .rewound ∧ nEpoch < epoch
  if result = .rewound ∨ result = .rebased then
    match kept.lookup nEpoch with
    | none => kept
    | some entry =>
      let sameBase := fun e : Uint256 × CPoSeServiceCommitment =>
        decide (e.2.epochBlockHash = epochBlockHash)
      kept.insert nEpoch
        { candidates := entry.candidates.filter sameBase
          signedCommitments := entry.signedCommitments.filter sameBase }
  else kept

def beginEpoch (epochBlockHash : Uint256) :
    EpochChange × List UInt32 × CPoSeServiceManager :=
  if nEpoch = m.m_epoch ∧ epochBlockHash = m.m_epochBlockHash then (.none, [], m)
  else
    let (result, stale, responded) := m.epochChange nEpoch
    (result, stale,
      { m with
        m_epoch := nEpoch
        m_epochBlockHash := epochBlockHash
        m_responded := responded.eraseIf (· < m.oldest nEpoch)
        m_commitments := m.keptCommitments result nEpoch epochBlockHash })

/-- The first critical section of `ProcessResponse`. The additions are those of `uint32_t`. -/
def responseExpected (resp : CPoSeServiceResponse) : Bool :=
  if resp.nEpoch + m.m_keepEpochs ≤ m.m_epoch then false
  else if m.m_epoch + m.m_keepEpochs < resp.nEpoch then false
  else resp.proTxHash ∉ (m.m_responded.lookup resp.nEpoch).getD []

def recordResponse (resp : CPoSeServiceResponse) : Bool × CPoSeServiceManager :=
  let responded := (m.m_responded.lookup resp.nEpoch).getD []
  let fresh : Bool := resp.proTxHash ∉ responded
  (fresh, { m with
    m_responded := m.m_responded.insert resp.nEpoch
      (if fresh then resp.proTxHash :: responded else responded) })

def responders : List Uint256 :=
  (m.m_responded.lookup nEpoch).getD []

variable {m} {nEpoch epoch : UInt32} {epochBlockHash proTxHash : Uint256}

theorem mem_responders_of_beginEpoch
    (hmem : proTxHash ∈ (m.beginEpoch nEpoch epochBlockHash).2.2.responders epoch) :
    proTxHash ∈ m.responders epoch := by
  have hkept (responded : Map UInt32 (List Uint256))
      (hle : ∀ set, responded.lookup epoch = some set → m.m_responded.lookup epoch = some set)
      (hmem : proTxHash ∈ ((responded.eraseIf (· < m.oldest nEpoch)).lookup epoch).getD []) :
      proTxHash ∈ (m.m_responded.lookup epoch).getD [] := by
    cases hlookup : (responded.eraseIf (· < m.oldest nEpoch)).lookup epoch with
    | none => simp [hlookup] at hmem
    | some set =>
      rw [hle set (lookup_of_eraseIf hlookup)]
      rwa [hlookup] at hmem
  unfold beginEpoch responders at *
  split at hmem
  · exact hmem
  · refine hkept _ ?_ hmem
    intro set hlookup
    unfold epochChange at hlookup
    split at hlookup
    · exact lookup_of_eraseIf hlookup
    split at hlookup
    · exact lookup_of_erase hlookup
    · exact hlookup

theorem lt_of_mem_responders_beginEpoch
    (hchange : ¬(nEpoch = m.m_epoch ∧ epochBlockHash = m.m_epochBlockHash))
    (hmem : proTxHash ∈ (m.beginEpoch nEpoch epochBlockHash).2.2.responders nEpoch) :
    m.m_epoch < nEpoch := by
  by_contra hle
  have hle : nEpoch ≤ m.m_epoch := UInt32.not_lt.mp hle
  have hdropped : (m.epochChange nEpoch).2.2.lookup nEpoch = none := by
    unfold epochChange
    split
    · rw [lookup_eraseIf, if_pos (by simp)]
    · rename_i hlt
      have heq : nEpoch = m.m_epoch := UInt32.le_antisymm hle (UInt32.not_lt.mp hlt)
      rw [if_pos heq, lookup_erase]
  rw [beginEpoch, if_neg hchange, responders] at hmem
  simp [lookup_eraseIf, hdropped] at hmem

theorem beginEpoch_base (m : CPoSeServiceManager) (nEpoch : UInt32) (epochBlockHash : Uint256) :
    ((m.beginEpoch nEpoch epochBlockHash).2.2.m_epoch,
      (m.beginEpoch nEpoch epochBlockHash).2.2.m_epochBlockHash) = (nEpoch, epochBlockHash) := by
  unfold beginEpoch
  split
  · rename_i hsame
    rw [← hsame.1, ← hsame.2]
  · rfl

theorem mem_responders_recordResponse {resp : CPoSeServiceResponse}
    (hmem : proTxHash ∈ (m.recordResponse resp).2.responders epoch) :
    proTxHash ∈ m.responders epoch ∨ epoch = resp.nEpoch ∧ proTxHash = resp.proTxHash := by
  unfold recordResponse responders at *
  simp only [lookup_insert_eq_ite] at hmem
  split at hmem
  · rename_i hepoch
    rw [hepoch]
    rw [Option.getD_some] at hmem
    split at hmem
    · rcases List.mem_cons.mp hmem with hnew | hold
      · exact Or.inr ⟨rfl, hnew⟩
      · exact Or.inl hold
    · exact Or.inl hmem
  · exact Or.inl hmem

end CPoSeServiceManager

/-! ### Threads -/

structure ResponseCall where
  resp : CPoSeServiceResponse
  list : CDeterministicMNList
  epochBaseHash : Uint256

inductive Stage where
  | checked
  | verified
  deriving DecidableEq

/-- What the signature check rests on: the challenge of a base block and a masternode, and the
scheme's verification. -/
structure Signatures where
  serviceChallengeNonce : Uint256 → Uint256 → Uint256
  verifyInsecure : CBLSSignature → CBLSPublicKey → Uint256 → Bool

namespace Signatures

variable (sigs : Signatures)

def verifyChallengeResponse (sig : CBLSSignature) (targetOperatorKey : CBLSPublicKey)
    (epochBlockHash targetProTxHash : Uint256) : Bool :=
  sigs.verifyInsecure sig targetOperatorKey
    (sigs.serviceChallengeNonce epochBlockHash targetProTxHash)

def responseVerifies (call : ResponseCall) : Bool :=
  match call.list.getMN call.resp.proTxHash with
  | none => false
  | some dmn => sigs.verifyChallengeResponse call.resp.sig dmn.pdmnState.pubKeyOperator.get
      call.epochBaseHash call.resp.proTxHash

end Signatures

/-- The manager with the threads that use it. `calls` is the history of all calls of
`ProcessResponse`. -/
structure System where
  manager : CPoSeServiceManager
  threads : Map Nat (ResponseCall × Stage) := ∅
  calls : List ResponseCall := []

inductive Op where
  | beginEpoch (nEpoch : UInt32) (epochBlockHash : Uint256)
  /-- A thread calls `ProcessResponse` and passes its first critical section, or is refused. -/
  | enter (thread : Nat) (call : ResponseCall)
  | verify (thread : Nat)
  /-- A thread passes the second critical section and returns. -/
  | record (thread : Nat)

variable (sigs : Signatures)

def System.step (s : System) : Op → System
  | .beginEpoch nEpoch epochBlockHash =>
    { s with manager := (s.manager.beginEpoch nEpoch epochBlockHash).2.2 }
  | .enter thread call =>
    if thread ∈ s.threads then s
    else if s.manager.responseExpected call.resp then
      { s with
        threads := s.threads.insert thread (call, .checked)
        calls := call :: s.calls }
    else { s with calls := call :: s.calls }
  | .verify thread =>
    match s.threads.lookup thread with
    | some (call, .checked) =>
      if sigs.responseVerifies call then
        { s with threads := s.threads.insert thread (call, .verified) }
      else { s with threads := s.threads.erase thread }
    | _ => s
  | .record thread =>
    match s.threads.lookup thread with
    | some (call, .verified) =>
      { s with
        manager := (s.manager.recordResponse call.resp).2
        threads := s.threads.erase thread }
    | _ => s

def System.initial (m_keepEpochs : UInt32) : System :=
  { manager := { m_keepEpochs } }

/-! ### Responders and their base -/

def Signatures.Proves (nEpoch : UInt32) (epochBlockHash proTxHash : Uint256)
    (call : ResponseCall) : Prop :=
  call.resp.nEpoch = nEpoch ∧ call.resp.proTxHash = proTxHash ∧
    call.epochBaseHash = epochBlockHash ∧ sigs.responseVerifies call = true

def System.RespondersProved (s : System) : Prop :=
  ∀ proTxHash ∈ s.manager.responders s.manager.m_epoch,
    ∃ call ∈ s.calls, sigs.Proves s.manager.m_epoch s.manager.m_epochBlockHash proTxHash call

/-- What the step must find: the base of the epoch that is entered, or of the responder that is
recorded, is the base of the calls for it. -/
def System.BaseCurrent (s : System) : Op → Prop
  | .beginEpoch nEpoch epochBlockHash =>
    s.manager.m_epoch < nEpoch →
      s.manager.responders nEpoch = [] ∨
        ∀ call ∈ s.calls, call.resp.nEpoch = nEpoch → call.epochBaseHash = epochBlockHash
  | .record thread =>
    ∀ entry ∈ s.threads.lookup thread, entry.1.resp.nEpoch = s.manager.m_epoch →
      entry.1.epochBaseHash = s.manager.m_epochBlockHash
  | _ => True

instance (s : System) : (op : Op) → Decidable (s.BaseCurrent op)
  | .beginEpoch _ _ => inferInstanceAs (Decidable (_ → _))
  | .enter _ _ => inferInstanceAs (Decidable True)
  | .verify _ => inferInstanceAs (Decidable True)
  | .record thread => inferInstanceAs (Decidable (∀ entry ∈ s.threads.lookup thread, _))

structure System.Sound (sigs : Signatures) (s : System) : Prop where
  recorded : ∀ {nEpoch proTxHash}, proTxHash ∈ s.manager.responders nEpoch →
    ∃ call ∈ s.calls, sigs.Proves nEpoch call.epochBaseHash proTxHash call
  current : s.RespondersProved sigs
  pending : ∀ {thread call stage}, s.threads.lookup thread = some (call, stage) →
    call ∈ s.calls ∧ (stage = .verified → sigs.responseVerifies call = true)

variable {sigs : Signatures} {s : System}

theorem System.sound_initial (m_keepEpochs : UInt32) : (System.initial m_keepEpochs).Sound sigs where
  recorded hmem := nomatch hmem
  current _ hmem := nomatch hmem
  pending hlookup := nomatch hlookup

section

variable (hsound : s.Sound sigs)

include hsound

theorem System.Sound.beginEpoch {nEpoch : UInt32} {epochBlockHash : Uint256}
    (hbase : s.BaseCurrent (.beginEpoch nEpoch epochBlockHash)) :
    (s.step sigs (.beginEpoch nEpoch epochBlockHash)).Sound sigs := by
  obtain ⟨hepoch, hhash⟩ := Prod.mk.inj (s.manager.beginEpoch_base nEpoch epochBlockHash)
  refine ⟨?_, ?_, hsound.pending⟩
  · intro epoch proTxHash hmem
    exact hsound.recorded (CPoSeServiceManager.mem_responders_of_beginEpoch hmem)
  · intro proTxHash hmem
    simp only [System.step] at hmem ⊢
    rw [hepoch] at hmem ⊢
    rw [hhash]
    have hold := CPoSeServiceManager.mem_responders_of_beginEpoch hmem
    by_cases hsame : nEpoch = s.manager.m_epoch ∧ epochBlockHash = s.manager.m_epochBlockHash
    · obtain ⟨rfl, rfl⟩ := hsame
      exact hsound.current proTxHash hold
    · -- the epoch went up, so the responder was recorded ahead of it
      have hlt := CPoSeServiceManager.lt_of_mem_responders_beginEpoch hsame hmem
      rcases hbase hlt with hnone | hcalls
      · rw [hnone] at hold
        cases hold
      · obtain ⟨call, hcall, hproves⟩ := hsound.recorded hold
        refine ⟨call, hcall, ?_⟩
        rwa [hcalls call hcall hproves.1] at hproves

theorem System.Sound.record {thread : Nat} (hbase : s.BaseCurrent (.record thread)) :
    (s.step sigs (.record thread)).Sound sigs := by
  simp only [System.step]
  split
  · rename_i call hthread
    have hbase := hbase (call, .verified) hthread
    obtain ⟨hcall, hverifies⟩ := hsound.pending hthread
    refine ⟨?_, ?_, ?_⟩
    · intro epoch proTxHash hmem
      rcases CPoSeServiceManager.mem_responders_recordResponse hmem with hold | ⟨rfl, rfl⟩
      · exact hsound.recorded hold
      · exact ⟨call, hcall, rfl, rfl, rfl, hverifies rfl⟩
    · intro proTxHash hmem
      rcases CPoSeServiceManager.mem_responders_recordResponse hmem with hold | ⟨hepoch, rfl⟩
      · exact hsound.current proTxHash hold
      · exact ⟨call, hcall, hepoch.symm, rfl, hbase hepoch.symm, hverifies rfl⟩
    · exact fun hthread' => hsound.pending (lookup_of_erase hthread')
  · exact hsound

theorem System.Sound.of_manager {t : System} (hmanager : t.manager = s.manager)
    (hcalls : ∀ call ∈ s.calls, call ∈ t.calls)
    (hpending : ∀ {thread call stage}, t.threads.lookup thread = some (call, stage) →
      call ∈ t.calls ∧ (stage = .verified → sigs.responseVerifies call = true)) : t.Sound sigs where
  recorded hmem := by
    rw [hmanager] at hmem
    obtain ⟨call, hcall, hproves⟩ := hsound.recorded hmem
    exact ⟨call, hcalls call hcall, hproves⟩
  current proTxHash hmem := by
    rw [hmanager] at hmem ⊢
    obtain ⟨call, hcall, hproves⟩ := hsound.current proTxHash hmem
    exact ⟨call, hcalls call hcall, hproves⟩
  pending := hpending

theorem System.Sound.enter (thread : Nat) (call : ResponseCall) :
    (s.step sigs (.enter thread call)).Sound sigs := by
  simp only [System.step]
  split
  · exact hsound
  have hold {thread' : Nat} {call' : ResponseCall} {stage : Stage}
      (hthread : s.threads.lookup thread' = some (call', stage)) :
      call' ∈ call :: s.calls ∧ (stage = .verified → sigs.responseVerifies call' = true) :=
    ⟨List.mem_cons_of_mem _ (hsound.pending hthread).1, (hsound.pending hthread).2⟩
  split
  · refine hsound.of_manager rfl (fun _ => List.mem_cons_of_mem _) ?_
    intro thread' call' stage hthread
    rcases lookup_of_insert hthread with ⟨_, ⟨⟩⟩ | hthread
    · exact ⟨List.mem_cons_self, (nomatch ·)⟩
    · exact hold hthread
  · exact hsound.of_manager rfl (fun _ => List.mem_cons_of_mem _) hold

theorem System.Sound.verify (thread : Nat) : (s.step sigs (.verify thread)).Sound sigs := by
  simp only [System.step]
  split
  · rename_i call hthread
    split
    · rename_i hverifies
      refine hsound.of_manager rfl (fun _ => id) ?_
      intro thread' call' stage hthread'
      rcases lookup_of_insert hthread' with ⟨_, ⟨⟩⟩ | hthread'
      · exact ⟨(hsound.pending hthread).1, fun _ => hverifies⟩
      · exact hsound.pending hthread'
    · refine hsound.of_manager rfl (fun _ => id) ?_
      exact fun hthread' => hsound.pending (lookup_of_erase hthread')
  · exact hsound

theorem System.Sound.step {op : Op} (hbase : s.BaseCurrent op) : (s.step sigs op).Sound sigs := by
  cases op with
  | beginEpoch nEpoch epochBlockHash => exact hsound.beginEpoch hbase
  | enter thread call => exact hsound.enter thread call
  | verify thread => exact hsound.verify thread
  | record thread => exact hsound.record hbase

end

/-- **Responders have proved liveness on the current base**, in every interleaving whose steps find
the base they were made for. -/
theorem responders_proved {m_keepEpochs : UInt32} {ops : List Op}
    (hrun : Lib.Run (Lib.Guarded System.BaseCurrent (Lib.Computes (System.step sigs)))
      (System.initial m_keepEpochs) ops s) : s.RespondersProved sigs := by
  have hsound : s.Sound sigs := by
    refine hrun.invariant (I := System.Sound sigs) ?_ (System.sound_initial m_keepEpochs)
    rintro s op _ hsound ⟨hbase, rfl⟩
    exact hsound.step hbase
  exact hsound.current

/-! ### Runs of one thread -/

namespace Sample

def scheme : Signatures where
  serviceChallengeNonce epochBlockHash targetProTxHash := epochBlockHash + 256 * targetProTxHash
  verifyInsecure sig _ nonce := sig = some (nonce.setWidth 768)

def masternode : Evo.CDeterministicMN where
  internalId := 0
  proTxHash := 1
  collateralOutpoint := ⟨1, 0⟩
  nOperatorReward := 0
  nType := .regular
  pdmnState := { keyIDOwner := 1, pubKeyOperator := ⟨some 1, false⟩, addr := ⟨1, 1⟩ }

def list : CDeterministicMNList :=
  match CDeterministicMNList.addMN {} masternode with
  | .ok list => list
  | .error _ => {}

def announcement (nEpoch : UInt32) (epochBaseHash : Uint256) : ResponseCall where
  resp := ⟨nEpoch, 1, some ((scheme.serviceChallengeNonce epochBaseHash 1).setWidth 768)⟩
  list := list
  epochBaseHash := epochBaseHash

def after (ops : List Op) : System :=
  ops.foldl (System.step scheme) (System.initial 8)

def rebasedMeanwhile : List Op :=
  [.beginEpoch 5 7, .enter 0 (announcement 5 7), .verify 0, .beginEpoch 5 8, .record 0]

def announcedAhead : List Op :=
  [.beginEpoch 5 7, .enter 0 (announcement 6 9), .verify 0, .record 0, .beginEpoch 6 10]

def announcedAheadInTime : List Op :=
  [.beginEpoch 5 7, .enter 0 (announcement 6 9), .verify 0, .record 0, .beginEpoch 6 9]

end Sample

open Sample

theorem not_respondersProved (proTxHash : Uint256)
    (hmem : proTxHash ∈ s.manager.responders s.manager.m_epoch)
    (hbase : ∀ call ∈ s.calls, call.epochBaseHash ≠ s.manager.m_epochBlockHash) :
    ¬s.RespondersProved sigs := by
  intro hproved
  obtain ⟨call, hcall, -, -, hcallBase, -⟩ := hproved proTxHash hmem
  exact hbase call hcall hcallBase

/-- A responder stays recorded for a base it never signed. -/
theorem responders_not_proved :
    ¬(after rebasedMeanwhile).RespondersProved scheme ∧
      ¬(after announcedAhead).RespondersProved scheme := by
  constructor
  · apply not_respondersProved 1
    · decide +kernel
    · decide +kernel
  · apply not_respondersProved 1
    · decide +kernel
    · decide +kernel

theorem responders_proved_ahead :
    (after announcedAheadInTime).manager.responders 6 = [1] ∧
      (after announcedAheadInTime).RespondersProved scheme := by
  refine ⟨by decide +kernel, ?_⟩
  have hadmits : Lib.Admits System.BaseCurrent (System.step scheme) (System.initial 8)
      announcedAheadInTime := by
    decide +kernel
  exact responders_proved (Lib.Run.computes_guarded hadmits)

end Defcon.Dsl
