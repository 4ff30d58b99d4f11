import Defcon.Dsl.ServiceCommitment

/-!
# The report store

`CServiceReportStore` keeps the signed reports of a window of epochs, one for each epoch, target and
sentinel, and remembers the sentinels it has derived for a target. `CPoSeServiceManager` moves the
window and drops the epochs that a reorganisation has invalidated; which epochs these are it reads
off its own record of announcements.
-/

namespace Defcon.Dsl

open AList (Map)
open Evo (CDeterministicMNList ProTxEnv)
open Llmq (CBLSSignature)

/-! ### The store -/

structure ReportRules where
  env : ProTxEnv
  hashes : ServiceHashes

namespace ReportRules

variable (rules : ReportRules)

def calcSentinelsForMN (list : CDeterministicMNList) (targetProTxHash epochBlockHash : Uint256)
    (count : Nat) : List Uint256 :=
  list.calcSentinelsForMN rules.env.sha256 targetProTxHash
    (rules.hashes.sentinelModifier targetProTxHash epochBlockHash) count

def verifySig (report : CPoSeServiceReport) (operatorPubKey : Llmq.CBLSPublicKey)
    (epochBlockHash : Uint256) : Bool :=
  rules.env.verifyInsecure report.sig operatorPubKey (rules.hashes.getSignHash report epochBlockHash)

end ReportRules

abbrev ReportKey := Nat × Uint256 × Uint256

def CPoSeServiceReport.key (report : CPoSeServiceReport) : ReportKey :=
  (report.nEpoch, report.targetProTxHash, report.sentinelProTxHash)

structure AssignmentEpoch where
  base : Uint256 := 0
  count : Nat := 0
  targets : Map Uint256 (List Uint256) := ∅

structure CServiceReportStore where
  m_keepEpochs : Nat
  m_reports : Map ReportKey CPoSeServiceReport := ∅
  m_currentEpoch : Nat := 0
  m_assignCache : Map Nat AssignmentEpoch := ∅

/-- The outcome of `AddReport`: the texts of its refusals, and the two silent ones. -/
inductive AddVerdict where
  | futureEpoch
  | agedOut
  | duplicate
  | unknownTarget
  | unknownSentinel
  | notAssigned
  | badSignature
  | kept
  deriving DecidableEq, Repr

/-- The arguments of a call of `AddReport`; of the parameters it reads `nDSLSentinelCount`. -/
structure ReportCall where
  report : CPoSeServiceReport
  epochList : CDeterministicMNList
  epochBlockHash : Uint256
  nDSLSentinelCount : Nat

namespace CServiceReportStore

variable (store : CServiceReportStore)

/-- The arithmetic is that of `uint32_t`. -/
def oldestKeptEpoch : Nat :=
  if store.m_currentEpoch < store.m_keepEpochs then 0
  else (store.m_currentEpoch - store.m_keepEpochs + 1) % 2 ^ 32

variable (nEpoch : Nat)

def assignments (epochBlockHash : Uint256) (count : Nat) : AssignmentEpoch :=
  let cache := (store.m_assignCache.lookup nEpoch).getD {}
  if cache.base ≠ epochBlockHash ∨ cache.count ≠ count then ⟨epochBlockHash, count, ∅⟩ else cache

def sentinelsFor (rules : ReportRules) (nEpoch : Nat) (epochList : CDeterministicMNList)
    (targetProTxHash epochBlockHash : Uint256) (count : Nat) :
    List Uint256 × CServiceReportStore :=
  let cache := store.assignments nEpoch epochBlockHash count
  let sentinels := match cache.targets.lookup targetProTxHash with
    | some sentinels => sentinels
    | none => rules.calcSentinelsForMN epochList targetProTxHash epochBlockHash count
  (sentinels, { store with
    m_assignCache := store.m_assignCache.insert nEpoch
      { cache with targets := cache.targets.emplace targetProTxHash sentinels } })

def assigned (rules : ReportRules) (call : ReportCall) : List Uint256 × CServiceReportStore :=
  store.sentinelsFor rules call.report.nEpoch call.epochList call.report.targetProTxHash
    call.epochBlockHash call.nDSLSentinelCount

def addReport (rules : ReportRules) (call : ReportCall) : AddVerdict × CServiceReportStore :=
  let report := call.report
  if store.m_currentEpoch < report.nEpoch then (.futureEpoch, store)
  else if report.nEpoch < store.oldestKeptEpoch then (.agedOut, store)
  else if report.key ∈ store.m_reports then (.duplicate, store)
  else if (call.epochList.getMN report.targetProTxHash).isNone then (.unknownTarget, store)
  else
    match call.epochList.getMN report.sentinelProTxHash with
    | none => (.unknownSentinel, store)
    | some sdmn =>
      let (sentinels, store) := store.assigned rules call
      if report.sentinelProTxHash ∉ sentinels then (.notAssigned, store)
      else if !rules.verifySig report sdmn.pdmnState.pubKeyOperator.get call.epochBlockHash then
        (.badSignature, store)
      else (.kept, { store with m_reports := store.m_reports.insert report.key report })

def setCurrentEpoch : CServiceReportStore :=
  let m_assignCache := if nEpoch < store.m_currentEpoch then ∅ else store.m_assignCache
  let store := { store with m_currentEpoch := nEpoch }
  { store with
    m_assignCache := m_assignCache.eraseIf (· < store.oldestKeptEpoch)
    m_reports := store.m_reports.eraseIf fun key => key.1 < store.oldestKeptEpoch }

def dropEpoch : CServiceReportStore :=
  { store with
    m_assignCache := store.m_assignCache.erase nEpoch
    m_reports := store.m_reports.eraseIf fun key => key.1 = nEpoch }

def getReportsForEpoch : List CPoSeServiceReport :=
  (store.m_reports.entries.filter fun entry => entry.1.1 = nEpoch).map Sigma.snd

variable {store} {rules : ReportRules} {call : ReportCall} {key : ReportKey}
  {report : CPoSeServiceReport}

/-! ### What the calls do to the reports -/

inductive Added (rules : ReportRules) (store : CServiceReportStore) (call : ReportCall) :
    AddVerdict × CServiceReportStore → Prop where
  | futureEpoch (hfuture : store.m_currentEpoch < call.report.nEpoch) :
      Added rules store call (.futureEpoch, store)
  | agedOut (hold : call.report.nEpoch < store.oldestKeptEpoch) :
      Added rules store call (.agedOut, store)
  | duplicate (hheld : call.report.key ∈ store.m_reports) : Added rules store call (.duplicate, store)
  | unknownTarget (htarget : call.epochList.getMN call.report.targetProTxHash = none) :
      Added rules store call (.unknownTarget, store)
  | unknownSentinel (hsentinel : call.epochList.getMN call.report.sentinelProTxHash = none) :
      Added rules store call (.unknownSentinel, store)
  | notAssigned (hassigned : call.report.sentinelProTxHash ∉ (store.assigned rules call).1) :
      Added rules store call (.notAssigned, (store.assigned rules call).2)
  | badSignature {sdmn : Evo.CDeterministicMN}
      (hsdmn : call.epochList.getMN call.report.sentinelProTxHash = some sdmn)
      (hassigned : call.report.sentinelProTxHash ∈ (store.assigned rules call).1)
      (hsig : rules.verifySig call.report sdmn.pdmnState.pubKeyOperator.get call.epochBlockHash =
        false) :
      Added rules store call (.badSignature, (store.assigned rules call).2)
  | kept (hcurrent : call.report.nEpoch ≤ store.m_currentEpoch)
      (hassigned : call.report.sentinelProTxHash ∈ (store.assigned rules call).1) :
      Added rules store call (.kept, { (store.assigned rules call).2 with
        m_reports := store.m_reports.insert call.report.key call.report })

theorem added_addReport (rules : ReportRules) (store : CServiceReportStore) (call : ReportCall) :
    Added rules store call (store.addReport rules call) := by
  unfold addReport
  simp only
  split
  · rename_i hfuture
    exact .futureEpoch hfuture
  rename_i hcurrent
  split
  · rename_i hold
    exact .agedOut hold
  split
  · rename_i hheld
    exact .duplicate hheld
  split
  · rename_i htarget
    exact .unknownTarget (Option.isNone_iff_eq_none.mp htarget)
  cases hsdmn : call.epochList.getMN call.report.sentinelProTxHash with
  | none => exact .unknownSentinel hsdmn
  | some sdmn =>
    simp only
    split
    · rename_i hassigned
      exact .notAssigned hassigned
    rename_i hassigned
    split
    · rename_i hsig
      exact .badSignature hsdmn (not_not.mp hassigned) (by simpa using hsig)
    · exact .kept (Nat.not_lt.mp hcurrent) (not_not.mp hassigned)

theorem lookup_addReport (hheld : (store.addReport rules call).2.m_reports.lookup key = some report) :
    store.m_reports.lookup key = some report ∨
      (store.addReport rules call).1 = .kept ∧ key = call.report.key ∧ report = call.report ∧
        call.report.nEpoch ≤ store.m_currentEpoch := by
  have hadded := added_addReport rules store call
  generalize store.addReport rules call = result at hadded hheld
  cases hadded with
  | kept hcurrent _ =>
    rcases AList.lookup_of_insert hheld with ⟨hkey, hreport⟩ | hheld
    · exact Or.inr ⟨rfl, hkey, hreport, hcurrent⟩
    · exact Or.inl hheld
  | _ => exact Or.inl hheld

theorem m_currentEpoch_addReport : (store.addReport rules call).2.m_currentEpoch =
    store.m_currentEpoch := by
  have hadded := added_addReport rules store call
  generalize store.addReport rules call = result at hadded
  cases hadded <;> rfl

theorem lookup_dropEpoch {nEpoch : Nat} :
    (store.dropEpoch nEpoch).m_reports.lookup key =
      if key.1 = nEpoch then none else store.m_reports.lookup key := by
  simp only [dropEpoch, AList.lookup_eraseIf, decide_eq_true_eq]

theorem lookup_foldl_dropEpoch {stale : List Nat} :
    (stale.foldl dropEpoch store).m_reports.lookup key =
      if key.1 ∈ stale then none else store.m_reports.lookup key := by
  induction stale generalizing store with
  | nil => simp
  | cons nEpoch stale ih =>
    rw [List.foldl_cons, ih, lookup_dropEpoch]
    by_cases hkey : key.1 = nEpoch
    · simp [hkey]
    · simp [hkey]

theorem lookup_setCurrentEpoch {nEpoch : Nat}
    (hheld : (store.setCurrentEpoch nEpoch).m_reports.lookup key = some report) :
    store.m_reports.lookup key = some report :=
  AList.lookup_of_eraseIf hheld

theorem mem_of_duplicate (hduplicate : (store.addReport rules call).1 = .duplicate) :
    call.report.key ∈ store.m_reports := by
  have hadded := added_addReport rules store call
  generalize store.addReport rules call = result at hadded hduplicate
  cases hadded with
  | duplicate hheld => exact hheld
  | _ => cases hduplicate

end CServiceReportStore

/-! ### The manager and its store -/

def CPoSeServiceManager.processResponse (sigs : Signatures) (m : CPoSeServiceManager)
    (call : ResponseCall) : Bool × CPoSeServiceManager :=
  if !m.responseExpected call.resp then (false, m)
  else if !sigs.responseVerifies call then (false, m)
  else m.recordResponse call.resp

theorem CPoSeServiceManager.beginEpoch_cases (m : CPoSeServiceManager) (nEpoch : UInt32)
    (epochBlockHash : Uint256) :
    (m.beginEpoch nEpoch epochBlockHash).1 = .none ∨
      (m.beginEpoch nEpoch epochBlockHash).1 = .entered ∧ m.m_epoch < nEpoch ∨
      ((m.beginEpoch nEpoch epochBlockHash).1 = .rebased ∧ nEpoch = m.m_epoch ∧
        (m.beginEpoch nEpoch epochBlockHash).2.1 = [nEpoch]) ∨
      ((m.beginEpoch nEpoch epochBlockHash).1 = .rewound ∧ nEpoch < m.m_epoch ∧
        (m.beginEpoch nEpoch epochBlockHash).2.1 = m.m_responded.keys.filter (nEpoch ≤ ·)) := by
  unfold beginEpoch
  split
  · exact Or.inl rfl
  unfold epochChange
  by_cases hlt : nEpoch < m.m_epoch
  · rw [if_pos hlt]
    exact Or.inr (Or.inr (Or.inr ⟨rfl, hlt, rfl⟩))
  · rw [if_neg hlt]
    by_cases heq : nEpoch = m.m_epoch
    · rw [if_pos heq]
      exact Or.inr (Or.inr (Or.inl ⟨rfl, heq, rfl⟩))
    · rw [if_neg heq]
      refine Or.inr (Or.inl ⟨rfl, ?_⟩)
      exact UInt32.lt_of_le_of_ne (UInt32.not_lt.mp hlt) (Ne.symm heq)

/-- The manager with its report store. `verifiedBase` is the base block that the report held for a
key was verified against. -/
structure Probe where
  manager : CPoSeServiceManager
  store : CServiceReportStore
  verifiedBase : ReportKey → Uint256 := fun _ => 0

inductive ProbeCall where
  | beginEpoch (nEpoch : UInt32) (epochBlockHash : Uint256)
  | processResponse (call : ResponseCall)
  | processReport (call : ReportCall)

namespace Probe

def initial (keepEpochs : UInt32) : Probe where
  manager := { m_keepEpochs := keepEpochs }
  store := { m_keepEpochs := keepEpochs.toNat }

def beginEpoch (s : Probe) (nEpoch : UInt32) (epochBlockHash : Uint256) : EpochChange × Probe :=
  let (change, stale, manager) := s.manager.beginEpoch nEpoch epochBlockHash
  if change = .none then (change, s)
  else
    (change, { s with
      manager := manager
      store := ((stale.map UInt32.toNat).foldl CServiceReportStore.dropEpoch s.store).setCurrentEpoch
        nEpoch.toNat })

def processReport (rules : ReportRules) (s : Probe) (call : ReportCall) : AddVerdict × Probe :=
  let (verdict, store) := s.store.addReport rules call
  (verdict, { s with
    store := store
    verifiedBase := if verdict = .kept then
        Function.update s.verifiedBase call.report.key call.epochBlockHash
      else s.verifiedBase })

def step (sigs : Signatures) (rules : ReportRules) (s : Probe) : ProbeCall → Probe
  | .beginEpoch nEpoch epochBlockHash => (s.beginEpoch nEpoch epochBlockHash).2
  | .processResponse call => { s with manager := (s.manager.processResponse sigs call).2 }
  | .processReport call => (s.processReport rules call).2

def Holds (s : Probe) (report : CPoSeServiceReport) : Prop :=
  ∃ key, s.store.m_reports.lookup key = some report

/-- What a step back must find: the epochs above the new one that have reports have announcements
too. -/
def ReportsAnnounced (s : Probe) : ProbeCall → Prop
  | .beginEpoch nEpoch epochBlockHash => nEpoch < s.manager.m_epoch →
      ∀ key ∈ s.store.m_reports.keys,
        nEpoch.toNat < key.1 ∨ key.1 = nEpoch.toNat ∧ s.verifiedBase key ≠ epochBlockHash →
          key.1 ∈ s.manager.m_responded.keys.map UInt32.toNat
  | _ => True

instance (s : Probe) : (call : ProbeCall) → Decidable (s.ReportsAnnounced call)
  | .beginEpoch nEpoch _ => inferInstanceAs (Decidable (nEpoch < s.manager.m_epoch → _))
  | .processResponse _ => inferInstanceAs (Decidable True)
  | .processReport _ => inferInstanceAs (Decidable True)

structure Ok (s : Probe) : Prop where
  current : s.store.m_currentEpoch = s.manager.m_epoch.toNat
  held : ∀ {key report}, s.store.m_reports.lookup key = some report →
    key = report.key ∧ key.1 ≤ s.store.m_currentEpoch

variable {sigs : Signatures} {rules : ReportRules} {s : Probe} {nEpoch : UInt32}
  {epochBlockHash : Uint256} {key : ReportKey} {report : CPoSeServiceReport}

theorem ok_initial (keepEpochs : UInt32) : (initial keepEpochs).Ok where
  current := rfl
  held hheld := nomatch hheld

theorem m_epoch_processResponse (m : CPoSeServiceManager) (call : ResponseCall) :
    (m.processResponse sigs call).2.m_epoch = m.m_epoch := by
  unfold CPoSeServiceManager.processResponse
  split
  · rfl
  split <;> rfl

theorem lookup_beginEpoch
    (hchange : (s.beginEpoch nEpoch epochBlockHash).1 ≠ .none)
    (hheld : (s.beginEpoch nEpoch epochBlockHash).2.store.m_reports.lookup key = some report) :
    s.store.m_reports.lookup key = some report ∧
      key.1 ∉ (s.manager.beginEpoch nEpoch epochBlockHash).2.1.map UInt32.toNat := by
  unfold beginEpoch at hchange hheld
  simp only at hchange hheld
  split at hchange
  · rename_i hnone
    exact absurd hnone hchange
  · rename_i hsome
    rw [if_neg hsome] at hheld
    have hheld := CServiceReportStore.lookup_setCurrentEpoch hheld
    rw [CServiceReportStore.lookup_foldl_dropEpoch] at hheld
    split at hheld
    · cases hheld
    · rename_i hkept
      exact ⟨hheld, hkept⟩

theorem change_beginEpoch : (s.beginEpoch nEpoch epochBlockHash).1 =
    (s.manager.beginEpoch nEpoch epochBlockHash).1 := by
  unfold beginEpoch
  simp only
  split <;> rfl

theorem verifiedBase_beginEpoch :
    (s.beginEpoch nEpoch epochBlockHash).2.verifiedBase = s.verifiedBase := by
  unfold beginEpoch
  simp only
  split <;> rfl

theorem Ok.held_beginEpoch (hok : s.Ok)
    (hannounced : s.ReportsAnnounced (.beginEpoch nEpoch epochBlockHash))
    (hchange : (s.beginEpoch nEpoch epochBlockHash).1 ≠ .none)
    (hheld : (s.beginEpoch nEpoch epochBlockHash).2.store.m_reports.lookup key = some report) :
    key = report.key ∧ key.1 ≤ nEpoch.toNat ∧
      (key.1 = nEpoch.toNat →
        (s.beginEpoch nEpoch epochBlockHash).1 ≠ .rebased ∧
        ((s.beginEpoch nEpoch epochBlockHash).1 = .rewound →
          s.verifiedBase key = epochBlockHash)) := by
  obtain ⟨hbefore, hkept⟩ := lookup_beginEpoch hchange hheld
  obtain ⟨hkey, hcurrent⟩ := hok.held hbefore
  rw [hok.current] at hcurrent
  refine ⟨hkey, ?_⟩
  rw [change_beginEpoch] at hchange ⊢
  rcases s.manager.beginEpoch_cases nEpoch epochBlockHash with
    hnone | ⟨hentered, hlt⟩ | ⟨hrebased, heq, hstale⟩ | ⟨hrewound, hlt, hstale⟩
  · exact absurd hnone hchange
  · refine ⟨hcurrent.trans (UInt32.lt_iff_toNat_lt.mp hlt).le, ?_⟩
    rw [hentered]
    exact fun _ => ⟨by simp, by simp⟩
  · rw [← heq] at hcurrent
    refine ⟨hcurrent, ?_⟩
    intro hepoch
    rw [hstale] at hkept
    exact absurd (by rw [hepoch]; exact List.mem_singleton_self _) hkept
  · -- the epochs that are dropped are those with announcements
    have hfine : ¬(nEpoch.toNat < key.1 ∨
        key.1 = nEpoch.toNat ∧ s.verifiedBase key ≠ epochBlockHash) := by
      intro hstaleKey
      have hmem : key ∈ s.store.m_reports.keys :=
        AList.mem_keys.mp (AList.lookup_isSome.mp (by rw [hbefore]; rfl))
      obtain ⟨epoch, hepoch, hkeyEpoch⟩ := List.mem_map.mp (hannounced hlt key hmem hstaleKey)
      apply hkept
      rw [hstale, List.mem_map]
      refine ⟨epoch, List.mem_filter.mpr ⟨hepoch, decide_eq_true ?_⟩, hkeyEpoch⟩
      rw [UInt32.le_iff_toNat_le, hkeyEpoch]
      omega
    obtain ⟨hle, hbase⟩ := not_or.mp hfine
    refine ⟨Nat.not_lt.mp hle, ?_⟩
    intro hepoch
    rw [hrewound]
    refine ⟨by simp, fun _ => ?_⟩
    by_contra hother
    exact hbase ⟨hepoch, hother⟩

theorem Ok.beginEpoch (hok : s.Ok)
    (hannounced : s.ReportsAnnounced (.beginEpoch nEpoch epochBlockHash)) :
    (s.beginEpoch nEpoch epochBlockHash).2.Ok := by
  by_cases hchange : (s.beginEpoch nEpoch epochBlockHash).1 = .none
  · have hsame : (s.beginEpoch nEpoch epochBlockHash).2 = s := by
      rw [change_beginEpoch] at hchange
      unfold Probe.beginEpoch
      simp only
      rw [if_pos hchange]
    rw [hsame]
    exact hok
  have hcurrent : (s.beginEpoch nEpoch epochBlockHash).2.store.m_currentEpoch = nEpoch.toNat ∧
      (s.beginEpoch nEpoch epochBlockHash).2.manager.m_epoch = nEpoch := by
    rw [change_beginEpoch] at hchange
    unfold Probe.beginEpoch
    simp only
    rw [if_neg hchange]
    exact ⟨rfl, (Prod.mk.inj (s.manager.beginEpoch_base nEpoch epochBlockHash)).1⟩
  refine ⟨by rw [hcurrent.1, hcurrent.2], ?_⟩
  intro key report hheld
  obtain ⟨hkey, hle, -⟩ := hok.held_beginEpoch hannounced hchange hheld
  rw [hcurrent.1]
  exact ⟨hkey, hle⟩

theorem Ok.step (hok : s.Ok) {call : ProbeCall} (hannounced : s.ReportsAnnounced call) :
    (s.step sigs rules call).Ok := by
  cases call with
  | beginEpoch nEpoch epochBlockHash => exact hok.beginEpoch hannounced
  | processResponse call =>
    refine ⟨hok.current.trans ?_, hok.held⟩
    exact congrArg UInt32.toNat (m_epoch_processResponse s.manager call).symm
  | processReport call =>
    refine ⟨?_, ?_⟩
    · exact (CServiceReportStore.m_currentEpoch_addReport).trans hok.current
    · intro key report hheld
      change key = report.key ∧ key.1 ≤ (s.store.addReport rules call).2.m_currentEpoch
      rw [CServiceReportStore.m_currentEpoch_addReport]
      rcases CServiceReportStore.lookup_addReport hheld with hold | ⟨-, rfl, rfl, hcurrent⟩
      · exact hok.held hold
      · exact ⟨rfl, hcurrent⟩

theorem not_held_run {s' : Probe} {calls : List ProbeCall}
    (hrun : Lib.Run (Lib.Computes (step sigs rules)) s calls s')
    (hother : ∀ call, .processReport call ∈ calls → call.report.key ≠ key)
    (hfree : s.store.m_reports.lookup key = none) : s'.store.m_reports.lookup key = none := by
  refine hrun.invariant_of_mem (I := fun s => s.store.m_reports.lookup key = none) ?_ hfree
  rintro s call _ hcall hfree rfl
  by_contra hheld
  obtain ⟨report, hheld⟩ := Option.ne_none_iff_exists'.mp hheld
  have hbefore : s.store.m_reports.lookup key = some report := by
    cases call with
    | beginEpoch nEpoch epochBlockHash =>
      by_cases hchange : (s.beginEpoch nEpoch epochBlockHash).1 = .none
      · rw [change_beginEpoch] at hchange
        simp only [Probe.step, Probe.beginEpoch, if_pos hchange] at hheld
        exact hheld
      · exact (lookup_beginEpoch hchange hheld).1
    | processResponse call => exact hheld
    | processReport call =>
      rcases CServiceReportStore.lookup_addReport hheld with hold | ⟨-, hkey, -⟩
      · exact hold
      · exact absurd hkey.symm (hother call hcall)
  rw [hfree] at hbefore
  cases hbefore

/-- **A reorganisation leaves no stale reports**, where the epochs with reports have announcements.
-/
theorem no_stale_reports {keepEpochs : UInt32} {calls : List ProbeCall}
    (hrun : Lib.Run (Lib.Guarded ReportsAnnounced (Lib.Computes (step sigs rules)))
      (initial keepEpochs) calls s)
    (hannounced : s.ReportsAnnounced (.beginEpoch nEpoch epochBlockHash))
    (hchange : (s.beginEpoch nEpoch epochBlockHash).1 = .rewound ∨
      (s.beginEpoch nEpoch epochBlockHash).1 = .rebased) :
    (∀ report, (s.beginEpoch nEpoch epochBlockHash).2.Holds report →
      report.nEpoch < nEpoch.toNat ∨ report.nEpoch = nEpoch.toNat ∧
        (s.beginEpoch nEpoch epochBlockHash).2.verifiedBase report.key = epochBlockHash) ∧
    ∀ key : ReportKey, nEpoch.toNat < key.1 ∨
        key.1 = nEpoch.toNat ∧ (s.beginEpoch nEpoch epochBlockHash).1 = .rebased →
      ∀ later s', Lib.Run (Lib.Computes (step sigs rules)) (s.beginEpoch nEpoch epochBlockHash).2
          later s' →
        (∀ call, .processReport call ∈ later → call.report.key ≠ key) →
        ∀ call : ReportCall, call.report.key = key →
          (s'.store.addReport rules call).1 ≠ .duplicate := by
  have hok : s.Ok := by
    refine hrun.invariant (I := Ok) ?_ (ok_initial keepEpochs)
    rintro s call _ hok ⟨hannounced, rfl⟩
    exact hok.step hannounced
  have hnone : (s.beginEpoch nEpoch epochBlockHash).1 ≠ .none := by
    rcases hchange with hchange | hchange <;> simp [hchange]
  constructor
  · rintro report ⟨key, hheld⟩
    obtain ⟨rfl, hle, hsame⟩ := hok.held_beginEpoch hannounced hnone hheld
    rcases Nat.lt_or_eq_of_le hle with hlt | heq
    · exact Or.inl hlt
    · obtain ⟨hrebased, hbase⟩ := hsame heq
      rw [verifiedBase_beginEpoch]
      exact Or.inr ⟨heq, hbase (hchange.resolve_right hrebased)⟩
  · rintro key hkey later s' hlater hother call rfl hduplicate
    have hfree : (s.beginEpoch nEpoch epochBlockHash).2.store.m_reports.lookup call.report.key =
        none := by
      by_contra hheld
      obtain ⟨report, hheld⟩ := Option.ne_none_iff_exists'.mp hheld
      obtain ⟨-, hle, hsame⟩ := hok.held_beginEpoch hannounced hnone hheld
      rcases hkey with hlt | ⟨heq, hrebased⟩
      · omega
      · exact (hsame heq).1 hrebased
    have hheld := CServiceReportStore.mem_of_duplicate hduplicate
    rw [← AList.lookup_isSome, not_held_run hlater hother hfree] at hheld
    cases hheld

end Probe

/-! ### A rewind -/

namespace Sample

def signature (key : Nat) (hash : Uint256) : CBLSSignature :=
  some (BitVec.ofNat 768 key + hash.setWidth 768)

def reportRules : ReportRules where
  env := { Evo.Sample.env with
    blsVerify := fun key hash sig => sig = key.setWidth 768 + hash.setWidth 768 }
  hashes := node.hashes

def confirmed (i : Nat) : Evo.CDeterministicMN where
  internalId := i
  proTxHash := BitVec.ofNat 256 i
  collateralOutpoint := ⟨BitVec.ofNat 256 i, 0⟩
  nOperatorReward := 0
  nType := .regular
  pdmnState :=
    { keyIDOwner := BitVec.ofNat 160 i
      pubKeyOperator := ⟨some (BitVec.ofNat 384 i), false⟩
      addr := ⟨BitVec.ofNat 128 i, 1⟩
      confirmedHash := 1
      confirmedHashWithProRegTxHash := BitVec.ofNat 256 i }

def confirmedList (is : List Nat) : CDeterministicMNList :=
  match is.foldlM (fun list i => list.addMN (confirmed i)) ({} : CDeterministicMNList) with
  | .ok list => list
  | .error _ => {}

def report (nEpoch target sentinel : Nat) (epochBlockHash : Uint256) : CPoSeServiceReport where
  nEpoch := nEpoch
  targetProTxHash := BitVec.ofNat 256 target
  sentinelProTxHash := BitVec.ofNat 256 sentinel
  status := ONLINE
  sig := signature sentinel (BitVec.ofNat 256 target + epochBlockHash)

def reportCall (nEpoch target sentinel : Nat) (epochBlockHash : Uint256)
    (epochList : CDeterministicMNList) : ReportCall :=
  ⟨report nEpoch target sentinel epochBlockHash, epochList, epochBlockHash, 1⟩

def probeAfter (calls : List ProbeCall) : Probe :=
  calls.foldl (Probe.step scheme reportRules) (Probe.initial 8)

def reportOnly : List ProbeCall :=
  [.beginEpoch 5 7, .processReport (reportCall 5 1 2 7 (confirmedList [1, 2]))]

def announcedReport : List ProbeCall :=
  .beginEpoch 5 7 :: .processResponse (announcement 5 7) :: reportOnly.tail

end Sample

open Sample

namespace Probe

/-- Without an announcement the report of epoch 5 outlives the rewind. -/
theorem stale_report_after_rewind :
    ((probeAfter reportOnly).beginEpoch 4 9).1 = .rewound ∧
      ((probeAfter reportOnly).beginEpoch 4 9).2.Holds (report 5 1 2 7) ∧
      ((probeAfter (reportOnly ++ [.beginEpoch 4 9, .beginEpoch 5 8])).store.addReport
        reportRules (reportCall 5 1 2 8 (confirmedList [1, 2]))).1 =
          .duplicate ∧
      ((probeAfter [.beginEpoch 5 8]).store.addReport reportRules
        (reportCall 5 1 2 8 (confirmedList [1, 2]))).1 = .kept := by
  refine ⟨by decide +kernel, ⟨(5, 1, 2), by decide +kernel⟩, by decide +kernel, by decide +kernel⟩

theorem no_stale_reports_announced :
    (probeAfter announcedReport).Holds (report 5 1 2 7) ∧
      ((probeAfter announcedReport).beginEpoch 4 9).1 = .rewound ∧
      ¬((probeAfter announcedReport).beginEpoch 4 9).2.Holds
        (report 5 1 2 7) := by
  have hadmits : Lib.Admits ReportsAnnounced (step scheme reportRules) (initial 8)
      announcedReport := by
    decide +kernel
  have hrewound : ((probeAfter announcedReport).beginEpoch 4 9).1 = .rewound := by
    decide +kernel
  have hnone := (no_stale_reports (Lib.Run.computes_guarded hadmits) (by decide +kernel)
    (Or.inl hrewound)).1
  refine ⟨⟨(5, 1, 2), by decide +kernel⟩, hrewound, ?_⟩
  intro hholds
  rcases hnone _ hholds with hlt | ⟨heq, -⟩
  · exact absurd hlt (by decide)
  · exact absurd heq (by decide)

end Probe

end Defcon.Dsl
