import Mathlib.Data.Prod.Lex
import Defcon.Lib.Sorting
import Defcon.Dsl.ReportStore

/-!
# Sentinel reports from the tick to the commitment

A sentinel derives its targets from the masternode list of the chain tip, other nodes check its
reports against the list of the epoch's base block, and all of them remember the sentinels of a
target once they have derived them. The assignment depends on a list through its confirmed and
unbanned masternodes only, so what goes wrong between the two lists is what changes those.
-/

namespace Defcon.Evo.CDeterministicMNList

variable (l : CDeterministicMNList)

/-- The masternodes that are confirmed and not banned, each with the hash it was confirmed with. -/
def electable : List (Uint256 × Uint256) :=
  ((l.mns true).filter fun dmn => dmn.pdmnState.confirmedHash ≠ 0).map fun dmn =>
    (dmn.proTxHash, dmn.pdmnState.confirmedHashWithProRegTxHash)

def scoreBefore (a b : Uint256 × Uint256) : Prop :=
  if a.1 ≠ b.1 then a.1 < b.1 else a.2 < b.2

instance : DecidableRel scoreBefore := fun a b => by
  unfold scoreBefore
  infer_instance

theorem strictComparison_scoreBefore : Lib.StrictComparison scoreBefore := by
  refine Lib.StrictComparison.of_key (fun a => toLex (a.1.toNat, a.2.toNat)) ?_ ?_
  · intro a b heq
    obtain ⟨hscore, hhash⟩ := Prod.mk.inj (toLex.injective heq)
    exact Prod.ext (BitVec.eq_of_toNat_eq hscore) (BitVec.eq_of_toNat_eq hhash)
  · intro a b
    unfold scoreBefore
    rw [Prod.Lex.toLex_lt_toLex]
    split
    next hne => simp [BitVec.lt_def, mt BitVec.eq_of_toNat_eq hne]
    next heq => simp [BitVec.lt_def, not_not.mp heq]

/-- The scores of the masternodes that can be elected, with their hashes, in ascending order. -/
def scoreOrder (sha256 : Uint256 → Uint256 → Uint256) (modifier : Uint256) :
    List (Uint256 × Uint256) :=
  (l.electable.map fun e => (sha256 e.2 modifier, e.1)).insertionSort scoreBefore

variable {l} {l' : CDeterministicMNList} {sha256 : Uint256 → Uint256 → Uint256}
  {targetProTxHash modifier : Uint256} {count : Nat}

theorem map_calculateScores : (l.calculateScores sha256 modifier).map
    (fun score => (score.1, score.2.proTxHash)) =
      l.electable.map fun e => (sha256 e.2 modifier, e.1) := by
  unfold calculateScores electable
  rw [List.map_map, List.map_map]
  rfl

variable (l) in
theorem hashes_sorted :
    ((l.calculateScores sha256 modifier).insertionSort fun a b => sentinelBefore a b).map
      (fun score => score.2.proTxHash) = (l.scoreOrder sha256 modifier).map Prod.snd := by
  have hbefore : ∀ a ∈ l.calculateScores sha256 modifier,
      ∀ b ∈ l.calculateScores sha256 modifier, sentinelBefore a b = true ↔
        scoreBefore (a.1, a.2.proTxHash) (b.1, b.2.proTxHash) := by
    intro a _ b _
    unfold sentinelBefore scoreBefore
    split <;> simp
  have hpairs := List.map_insertionSort _ scoreBefore _ _ hbefore
  rw [map_calculateScores] at hpairs
  rw [scoreOrder, ← hpairs, List.map_map]
  rfl

theorem calcSentinelsForMN_eq_of_perm (hperm : l.electable.Perm l'.electable) :
    l.calcSentinelsForMN sha256 targetProTxHash modifier count =
      l'.calcSentinelsForMN sha256 targetProTxHash modifier count := by
  unfold calcSentinelsForMN
  rw [takeSentinels_eq, takeSentinels_eq, List.map_take, List.map_take, hashes_sorted,
    hashes_sorted, scoreOrder, scoreOrder,
    strictComparison_scoreBefore.insertionSort_eq_of_perm (hperm.map _)]

end Defcon.Evo.CDeterministicMNList

namespace Defcon.Dsl

open AList (Map)
open Evo (CDeterministicMNList)
open Llmq (CBLSSignature)

/-! ### The callers of the store -/

/-- The calls that reach the store. -/
inductive StoreCall (B : Type) where
  | network (report : CPoSeServiceReport) (base : B)
  | own (report : CPoSeServiceReport) (base tip : B)
  | setCurrentEpoch (nEpoch : Nat)
  | dropEpoch (nEpoch : Nat)

namespace ServiceNode

variable {B : Type} (node : ServiceNode B)

def reportRules : ReportRules :=
  ⟨node.env, node.hashes⟩

def sentinelsAt (base : B) (target : Uint256) : List Uint256 :=
  node.reportRules.calcSentinelsForMN (node.getListForBlock base) target
    (node.index.getBlockHash base) node.consensus.nDSLSentinelCount

def reportCall (report : CPoSeServiceReport) (base listed : B) : ReportCall where
  report := report
  epochList := node.getListForBlock listed
  epochBlockHash := node.index.getBlockHash base
  nDSLSentinelCount := node.consensus.nDSLSentinelCount

def storeStep (store : CServiceReportStore) : StoreCall B → CServiceReportStore
  | .network report base => (store.addReport node.reportRules (node.reportCall report base base)).2
  | .own report base tip => (store.addReport node.reportRules (node.reportCall report base tip)).2
  | .setCurrentEpoch nEpoch => store.setCurrentEpoch nEpoch
  | .dropEpoch nEpoch => store.dropEpoch nEpoch

/-- The masternodes that can be elected are those of the epoch's base block. -/
def SameElectable (base tip : B) : Prop :=
  (node.getListForBlock tip).electable.Perm (node.getListForBlock base).electable

instance (base tip : B) : Decidable (node.SameElectable base tip) :=
  inferInstanceAs (Decidable (List.Perm _ _))

def Settled (_ : CServiceReportStore) : StoreCall B → Prop
  | .own _ base tip => node.SameElectable base tip
  | _ => True

instance (store : CServiceReportStore) : (call : StoreCall B) → Decidable (node.Settled store call)
  | .own _ base tip => inferInstanceAs (Decidable (node.SameElectable base tip))
  | .network _ _ => inferInstanceAs (Decidable True)
  | .setCurrentEpoch _ => inferInstanceAs (Decidable True)
  | .dropEpoch _ => inferInstanceAs (Decidable True)

variable {node} {store : CServiceReportStore} {base listed : B} {report : CPoSeServiceReport}

/-! ### The memo -/

variable (node) in
/-- What is remembered for a target was derived for the electable masternodes of the base block. -/
def MemoOk (store : CServiceReportStore) : Prop :=
  ∀ ⦃nEpoch cache target sentinels⦄, store.m_assignCache.lookup nEpoch = some cache →
    cache.targets.lookup target = some sentinels → ∀ base, node.index.getBlockHash base = cache.base →
      sentinels = node.reportRules.calcSentinelsForMN (node.getListForBlock base) target cache.base
        cache.count

theorem memoOk_initial (m_keepEpochs : Nat) : node.MemoOk { m_keepEpochs } := by
  intro nEpoch cache target sentinels hcache
  cases hcache

theorem calcSentinelsForMN_eq (hsame : node.SameElectable base listed) (target : Uint256) :
    node.reportRules.calcSentinelsForMN (node.getListForBlock listed) target
      (node.index.getBlockHash base) node.consensus.nDSLSentinelCount =
    node.sentinelsAt base target :=
  CDeterministicMNList.calcSentinelsForMN_eq_of_perm hsame

theorem MemoOk.assignments (hmemo : node.MemoOk store) {nEpoch count : Nat} {hash target : Uint256}
    {sentinels : List Uint256}
    (hlookup : (store.assignments nEpoch hash count).targets.lookup target = some sentinels) :
    ∀ base, node.index.getBlockHash base = hash →
      sentinels = node.reportRules.calcSentinelsForMN (node.getListForBlock base) target hash
        count := by
  intro base hbase
  unfold CServiceReportStore.assignments at hlookup
  simp only at hlookup
  split at hlookup
  · cases hlookup
  · rename_i hsame
    obtain ⟨hhash, hcount⟩ := not_or.mp hsame
    have hhash := not_not.mp hhash
    have hcount := not_not.mp hcount
    cases hcache : store.m_assignCache.lookup nEpoch with
    | none =>
      rw [hcache] at hlookup
      cases hlookup
    | some cache =>
      rw [hcache, Option.getD_some] at hlookup hhash hcount
      have hvalue := hmemo hcache hlookup base (hbase.trans hhash.symm)
      rwa [hhash, hcount] at hvalue

theorem base_assignments (store : CServiceReportStore) (nEpoch count : Nat) (hash : Uint256) :
    (store.assignments nEpoch hash count).base = hash ∧
      (store.assignments nEpoch hash count).count = count := by
  unfold CServiceReportStore.assignments
  simp only
  split
  · exact ⟨rfl, rfl⟩
  · rename_i hsame
    obtain ⟨hhash, hcount⟩ := not_or.mp hsame
    exact ⟨not_not.mp hhash, not_not.mp hcount⟩

section

variable (hmemo : node.MemoOk store) (hsame : node.SameElectable base listed)

include hmemo hsame

theorem MemoOk.assigned_fst :
    (store.assigned node.reportRules (node.reportCall report base listed)).1 =
      node.sentinelsAt base report.targetProTxHash := by
  unfold CServiceReportStore.assigned CServiceReportStore.sentinelsFor
  simp only
  split
  · rename_i sentinels hlookup
    exact hmemo.assignments hlookup base rfl
  · exact calcSentinelsForMN_eq hsame _

theorem MemoOk.assigned_snd :
    node.MemoOk (store.assigned node.reportRules (node.reportCall report base listed)).2 := by
  obtain ⟨hbase, hcount⟩ := base_assignments store report.nEpoch node.consensus.nDSLSentinelCount
    (node.index.getBlockHash base)
  intro nEpoch cache target sentinels hcache htarget base' hbase'
  simp only [CServiceReportStore.assigned, CServiceReportStore.sentinelsFor, reportCall,
    AList.lookup_insert_eq_ite] at hcache
  split at hcache
  · cases hcache
    simp only [hbase, hcount] at hbase' htarget ⊢
    obtain rfl : base' = base := Llmq.getBlockHash_injective hbase'
    rcases AList.lookup_of_emplace htarget with ⟨rfl, rfl⟩ | htarget
    · split
      next hheld => exact hmemo.assignments hheld base' rfl
      · exact calcSentinelsForMN_eq hsame _
    · exact hmemo.assignments htarget base' rfl
  · exact hmemo hcache htarget base' hbase'

theorem MemoOk.addReport :
    node.MemoOk (store.addReport node.reportRules (node.reportCall report base listed)).2 := by
  have hassigned : node.MemoOk
      (store.assigned node.reportRules (node.reportCall report base listed)).2 :=
    hmemo.assigned_snd hsame
  have hadded := CServiceReportStore.added_addReport node.reportRules store
    (node.reportCall report base listed)
  generalize store.addReport node.reportRules (node.reportCall report base listed) = result at hadded
  cases hadded with
  | notAssigned _ | badSignature _ _ _ | kept _ _ => exact hassigned
  | _ => exact hmemo

end

theorem MemoOk.step (hmemo : node.MemoOk store) {call : StoreCall B}
    (hsettled : node.Settled store call) : node.MemoOk (node.storeStep store call) := by
  cases call with
  | network report base => exact hmemo.addReport (List.Perm.refl _)
  | own report base tip => exact hmemo.addReport hsettled
  | setCurrentEpoch nEpoch =>
    intro epoch cache target sentinels hcache
    simp only [storeStep, CServiceReportStore.setCurrentEpoch] at hcache
    split at hcache
    · cases hcache
    · exact hmemo (AList.lookup_of_eraseIf hcache)
  | dropEpoch nEpoch =>
    intro epoch cache target sentinels hcache
    exact hmemo (AList.lookup_of_erase hcache)

theorem MemoOk.run {m_keepEpochs : Nat} {calls : List (StoreCall B)}
    (hrun : Lib.Run (Lib.Guarded node.Settled (Lib.Computes node.storeStep)) { m_keepEpochs } calls
      store) : node.MemoOk store := by
  refine hrun.invariant (I := node.MemoOk) ?_ (memoOk_initial m_keepEpochs)
  rintro store call _ hmemo ⟨hsettled, rfl⟩
  exact hmemo.step hsettled

end ServiceNode

def AddVerdict.assignmentChecked : AddVerdict → Bool
  | .notAssigned | .badSignature | .kept => true
  | _ => false

namespace ServiceNode

variable {B : Type} {node : ServiceNode B} {store : CServiceReportStore} {base listed : B}
  {report : CPoSeServiceReport}

/-- **The assignment memo is transparent**, in every run whose own reports are made while the
electable masternodes are those of the epoch's base block. -/
theorem memo_transparent {m_keepEpochs : Nat} {calls : List (StoreCall B)}
    (hrun : Lib.Run (Lib.Guarded node.Settled (Lib.Computes node.storeStep)) { m_keepEpochs } calls
      store)
    (hlisted : listed = base ∨ node.SameElectable base listed)
    (hchecked : (store.addReport node.reportRules
      (node.reportCall report base listed)).1.assignmentChecked = true) :
    (store.addReport node.reportRules (node.reportCall report base listed)).1 = .notAssigned ↔
      report.sentinelProTxHash ∉ node.sentinelsAt base report.targetProTxHash := by
  have hsame : node.SameElectable base listed := by
    rcases hlisted with rfl | hsame
    · exact List.Perm.refl _
    · exact hsame
  have hassigned : (store.assigned node.reportRules (node.reportCall report base listed)).1 =
      node.sentinelsAt base report.targetProTxHash := (MemoOk.run hrun).assigned_fst hsame
  rw [← hassigned]
  have hadded := CServiceReportStore.added_addReport node.reportRules store
    (node.reportCall report base listed)
  generalize store.addReport node.reportRules (node.reportCall report base listed) = result
    at hadded hchecked ⊢
  cases hadded with
  | notAssigned hnot => exact iff_of_true rfl hnot
  | badSignature _ hmem _ | kept _ hmem => exact iff_of_false (by simp) (not_not.mpr hmem)
  | _ => cases hchecked

end ServiceNode

namespace Sample

def changingNode (before after : CDeterministicMNList) : ServiceNode (Fin 24) :=
  { node with env := reportRules.env, getListForBlock := fun b => if b ≤ 16 then before else after }

def listOf (dmns : List Evo.CDeterministicMN) : CDeterministicMNList :=
  match dmns.foldlM (fun list dmn => list.addMN dmn) ({} : CDeterministicMNList) with
  | .ok list => list
  | .error _ => {}

def settledNode (is : List Nat) : ServiceNode (Fin 24) :=
  changingNode (confirmedList is) (confirmedList is)

def revivedNode : ServiceNode (Fin 24) :=
  changingNode (listOf [{ confirmed 1 with
    pdmnState := { (confirmed 1).pdmnState with nPoSeBanHeight := 9 } }, confirmed 2, confirmed 3])
    (confirmedList [1, 2, 3])

def ownReport : List (StoreCall (Fin 24)) :=
  [.setCurrentEpoch 2, .own (report 2 3 1 17) 16 22]

end Sample

open Sample List Lib

namespace ServiceNode

/-- After the own report of the revived masternode the assigned sentinel's report is refused. -/
theorem memo_of_tip_list :
    revivedNode.SameElectable 16 22 = False ∧
      2 ∈ revivedNode.sentinelsAt 16 3 ∧
      ((ownReport.foldl revivedNode.storeStep { m_keepEpochs := 8 }).addReport
        revivedNode.reportRules
        (revivedNode.reportCall (report 2 3 2 17) 16 16)).1 = .notAssigned ∧
      (((ownReport.take 1).foldl revivedNode.storeStep { m_keepEpochs := 8 }).addReport
        revivedNode.reportRules
        (revivedNode.reportCall (report 2 3 2 17) 16 16)).1 = .kept := by
  refine ⟨eq_false (by decide +kernel), by decide +kernel, by decide +kernel, by decide +kernel⟩

theorem memo_transparent_settled :
    ((ownReport.foldl (settledNode [1, 2, 3]).storeStep { m_keepEpochs := 8 }).addReport
        (settledNode [1, 2, 3]).reportRules
        ((settledNode [1, 2, 3]).reportCall (report 2 3 2 17) 16 16)).1 =
          .notAssigned ∧
      2 ∉ (settledNode [1, 2, 3]).sentinelsAt 16 3 := by
  have hadmits : Admits (settledNode [1, 2, 3]).Settled
      (settledNode [1, 2, 3]).storeStep { m_keepEpochs := 8 } ownReport := by
    decide +kernel
  have hverdict : ((ownReport.foldl (settledNode [1, 2, 3]).storeStep
      { m_keepEpochs := 8 }).addReport (settledNode [1, 2, 3]).reportRules
      ((settledNode [1, 2, 3]).reportCall (report 2 3 2 17) 16 16)).1 =
        .notAssigned := by
    decide +kernel
  have hnot := (memo_transparent (Run.computes_guarded hadmits) (Or.inl rfl)
    ((congrArg AddVerdict.assignmentChecked hverdict).trans rfl)).mp hverdict
  exact ⟨hverdict, hnot⟩

end ServiceNode

/-! ### Emission -/

def ReportRules.getProbeTargetsForSentinel (rules : ReportRules) (list : CDeterministicMNList)
    (sentinelProTxHash epochBlockHash : Uint256) (count : Nat) : List Uint256 :=
  ((list.mns false).map Evo.CDeterministicMN.proTxHash).filter fun target =>
    target ≠ sentinelProTxHash ∧
      sentinelProTxHash ∈ rules.calcSentinelsForMN list target epochBlockHash count

variable (m : CPoSeServiceManager)

def CPoSeServiceManager.unsignedReport (myProTxHash target : Uint256) :
    CPoSeServiceReport where
  nEpoch := m.m_epoch.toNat
  targetProTxHash := target
  sentinelProTxHash := myProTxHash
  status := if target ∈ m.responders m.m_epoch then ONLINE else MISSED
  sig := none

def CPoSeServiceManager.signedReport (rules : ReportRules)
    (myProTxHash : Uint256) (signer : Uint256 → CBLSSignature) (target : Uint256) :
    CPoSeServiceReport :=
  let r := m.unsignedReport myProTxHash target
  { r with sig := signer (rules.hashes.getSignHash r m.m_epochBlockHash) }

def CPoSeServiceManager.emitReports (rules : ReportRules)
    (list : CDeterministicMNList) (myProTxHash : Uint256) (signer : Uint256 → CBLSSignature)
    (count : Nat) : List CPoSeServiceReport :=
  (rules.getProbeTargetsForSentinel list myProTxHash m.m_epochBlockHash count).map
    (m.signedReport rules myProTxHash signer)

/-- What a masternode brings to the emission step of `ProcessDSLTick`. -/
structure Sentinel where
  manager : CPoSeServiceManager
  myProTxHash : Uint256
  signer : Uint256 → CBLSSignature
  m_dsl_first_tick : Bool
  m_dsl_warmup_epoch : Int
  m_dsl_last_emitted_epoch : Int

namespace ServiceNode

variable {B : Type} (node : ServiceNode B)

def epochOf (pindex : B) : Nat :=
  node.index.tree.height pindex / node.consensus.nDSLEpochInterval.toNat

def baseOf (pindex : B) : Option B :=
  node.getAncestor pindex (node.epochOf pindex * node.consensus.nDSLEpochInterval.toNat : Nat)

def emittedReports [DecidableEq B] (sentinel : Sentinel) (tip pindexNew : B) :
    Option (List CPoSeServiceReport) := do
  let height := node.index.tree.height pindexNew
  let interval := node.consensus.nDSLEpochInterval.toNat
  let epoch := node.epochOf pindexNew
  let pos := height % interval
  guard (node.consensus.nDSLActivationHeight ≤ height)
  let pindexBase ← node.baseOf pindexNew
  guard (node.getAncestor tip (node.nHeight pindexBase) = some pindexBase)
  let (change, _, manager) :=
    sentinel.manager.beginEpoch (UInt32.ofNat epoch) (node.index.getBlockHash pindexBase)
  let reorganised : Bool := change = .rebased ∨ change = .rewound
  let last_emitted := if reorganised then -1 else sentinel.m_dsl_last_emitted_epoch
  let warmup := if reorganised then (epoch : Int) else sentinel.m_dsl_warmup_epoch
  let warmup := if sentinel.m_dsl_first_tick ∧ pos ≠ 0 then (epoch : Int) else warmup
  let mn_list := node.getListForBlock tip
  guard (mn_list.hasMN sentinel.myProTxHash)
  guard (interval - interval / 4 ≤ pos ∧ (epoch : Int) ≠ warmup ∧ last_emitted ≠ epoch)
  return manager.emitReports node.reportRules mn_list sentinel.myProTxHash sentinel.signer
    node.consensus.nDSLSentinelCount

/-- The reports on a target that count with a status: by an assigned sentinel, with a signature of
its key. -/
def countedReports (nEpoch : Nat) (epochBlockHash : Uint256) (reports : List CPoSeServiceReport)
    (epochBaseList : CDeterministicMNList) (target : Uint256) (status : UInt8) :
    List CPoSeServiceReport :=
  reports.filter fun r =>
    (r.nEpoch = nEpoch ∧ r.targetProTxHash = target) ∧
    (r.sentinelProTxHash ∈ node.reportRules.calcSentinelsForMN epochBaseList target epochBlockHash
      node.consensus.nDSLSentinelCount ∧
    (epochBaseList.getMN r.sentinelProTxHash).any fun sdmn =>
      node.reportRules.verifySig r sdmn.pdmnState.pubKeyOperator.get epochBlockHash) ∧
    r.status = status

variable {node} {epochBlockHash : Uint256} {epochBaseList : CDeterministicMNList}
  {assigned : List Uint256}

/-! ### Counting -/

def Valid (node : ServiceNode B) (epochBlockHash : Uint256) (epochBaseList : CDeterministicMNList)
    (assigned : List Uint256) (r : CPoSeServiceReport) : Bool :=
  r.sentinelProTxHash ∈ assigned ∧ (epochBaseList.getMN r.sentinelProTxHash).any fun sdmn =>
    node.reportRules.verifySig r sdmn.pdmnState.pubKeyOperator.get epochBlockHash

theorem tallyReport_eq (tally : Tally) {r : CPoSeServiceReport}
    (hnew : r.sentinelProTxHash ∉ tally.counted) :
    (node.tallyReport epochBlockHash epochBaseList assigned tally r).missedCount =
        tally.missedCount + (if node.Valid epochBlockHash epochBaseList assigned r ∧
          r.status = MISSED then 1 else 0) ∧
      (node.tallyReport epochBlockHash epochBaseList assigned tally r).onlineCount =
        tally.onlineCount + (if node.Valid epochBlockHash epochBaseList assigned r ∧
          r.status = ONLINE then 1 else 0) ∧
      ∀ h ∈ (node.tallyReport epochBlockHash epochBaseList assigned tally r).counted,
        h = r.sentinelProTxHash ∨ h ∈ tally.counted := by
  unfold tallyReport Valid
  by_cases hassigned : r.sentinelProTxHash ∈ assigned
  · rw [if_neg (not_not.mpr hassigned), if_neg hnew]
    cases hsdmn : epochBaseList.getMN r.sentinelProTxHash with
    | none => simp
    | some sdmn =>
      simp only [ReportRules.verifySig, reportRules, hassigned, true_and, Option.any_some]
      cases hverify : node.env.verifyInsecure r.sig sdmn.pdmnState.pubKeyOperator.get
          (node.hashes.getSignHash r epochBlockHash) with
      | false => simp
      | true =>
        by_cases hmissed : r.status = MISSED
        · simp [hmissed, MISSED, ONLINE]
        · by_cases honline : r.status = ONLINE
          · simp [honline, MISSED, ONLINE]
          · simp [hmissed, honline]
  · rw [if_pos hassigned]
    simp only [hassigned, false_and, decide_false, Bool.false_eq_true, if_false, add_zero, true_and]
    exact fun h hmem => Or.inr hmem

theorem foldl_tallyReport {rs : List CPoSeServiceReport} {tally : Tally}
    (hnodup : (rs.map CPoSeServiceReport.sentinelProTxHash).Nodup)
    (hnew : ∀ r ∈ rs, r.sentinelProTxHash ∉ tally.counted) :
    (rs.foldl (node.tallyReport epochBlockHash epochBaseList assigned) tally).missedCount =
        tally.missedCount + (rs.filter fun r =>
          node.Valid epochBlockHash epochBaseList assigned r ∧ r.status = MISSED).length ∧
      (rs.foldl (node.tallyReport epochBlockHash epochBaseList assigned) tally).onlineCount =
        tally.onlineCount + (rs.filter fun r =>
          node.Valid epochBlockHash epochBaseList assigned r ∧ r.status = ONLINE).length := by
  induction rs generalizing tally with
  | nil => simp
  | cons r rs ih =>
    rw [map_cons, nodup_cons] at hnodup
    obtain ⟨hmissed, honline, hcounted⟩ := @tallyReport_eq B node epochBlockHash epochBaseList
      assigned tally r (hnew r mem_cons_self)
    have hnew' : ∀ r' ∈ rs, r'.sentinelProTxHash ∉
        (node.tallyReport epochBlockHash epochBaseList assigned tally r).counted := by
      intro r' hr' hmem
      rcases hcounted _ hmem with heq | hold
      · exact hnodup.1 (mem_map.mpr ⟨r', hr', heq⟩)
      · exact hnew r' (mem_cons_of_mem _ hr') hold
    obtain ⟨ihMissed, ihOnline⟩ := ih hnodup.2 hnew'
    have hlength (p : CPoSeServiceReport → Prop) [DecidablePred p] :
        (((r :: rs).filter fun r => p r).length : Int) =
          (if p r then 1 else 0) + (rs.filter fun r => p r).length := by
      by_cases hp : p r
      · simp [hp]
        ring
      · simp [hp]
    rw [foldl_cons, ihMissed, ihOnline, hmissed, honline, hlength, hlength, add_assoc,
      add_assoc]
    exact ⟨rfl, rfl⟩

theorem targetBits_eq {nEpoch : Nat} {reports : List CPoSeServiceReport} {target : Uint256}
    (hnodup : ((reports.filter fun r => r.nEpoch = nEpoch ∧ r.targetProTxHash = target).map
      CPoSeServiceReport.sentinelProTxHash).Nodup) :
    node.targetBits nEpoch epochBlockHash reports epochBaseList target =
      (let missed : Int := (node.countedReports nEpoch epochBlockHash reports epochBaseList target
        MISSED).length
      let online : Int := (node.countedReports nEpoch epochBlockHash reports epochBaseList target
        ONLINE).length
      (decide (node.consensus.nDSLSentinelAgree ≤ missed),
        decide (node.consensus.nDSLSentinelAgree ≤ missed) ||
          (!decide (node.consensus.nDSLSentinelAgree ≤ missed) &&
            decide (node.consensus.nDSLSentinelAgree ≤ online)))) := by
  have hcounted (status : UInt8) :
      (reports.filter fun r => r.nEpoch = nEpoch ∧ r.targetProTxHash = target).filter (fun r =>
        node.Valid epochBlockHash epochBaseList (epochBaseList.calcSentinelsForMN node.env.sha256
          target (node.hashes.sentinelModifier target epochBlockHash)
          node.consensus.nDSLSentinelCount) r ∧ r.status = status) =
        node.countedReports nEpoch epochBlockHash reports epochBaseList target status := by
    unfold countedReports Valid
    rw [filter_filter]
    refine filter_congr ?_
    intro r _
    rw [Bool.eq_iff_iff]
    simp only [Bool.and_eq_true, decide_eq_true_eq]
    exact ⟨fun ⟨⟨hvalid, hstatus⟩, htarget⟩ => ⟨htarget, hvalid, hstatus⟩,
      fun ⟨htarget, hvalid, hstatus⟩ => ⟨⟨hvalid, hstatus⟩, htarget⟩⟩
  obtain ⟨hmissed, honline⟩ := @foldl_tallyReport B node epochBlockHash epochBaseList
    (epochBaseList.calcSentinelsForMN node.env.sha256 target
      (node.hashes.sentinelModifier target epochBlockHash) node.consensus.nDSLSentinelCount) _ {}
    hnodup (by simp)
  rw [hcounted] at hmissed honline
  unfold targetBits
  simp only [hmissed, honline, zero_add]

/-! ### The pool of a store -/

variable {store : CServiceReportStore}

/-- A report is held under its own key, and the window is the one the store was set up with. -/
structure StoreOk (m_keepEpochs : Nat) (store : CServiceReportStore) : Prop where
  keyed : ∀ {key report}, store.m_reports.lookup key = some report → key = report.key
  window : store.m_keepEpochs = m_keepEpochs

variable {m_keepEpochs : Nat}

theorem StoreOk.addReport (hok : StoreOk m_keepEpochs store) {rules : ReportRules}
    {call : ReportCall} : StoreOk m_keepEpochs (store.addReport rules call).2 := by
  refine ⟨?_, ?_⟩
  · intro key report hheld
    rcases CServiceReportStore.lookup_addReport hheld with hold | ⟨-, rfl, rfl, -⟩
    · exact hok.keyed hold
    · rfl
  · have hadded := CServiceReportStore.added_addReport rules store call
    generalize store.addReport rules call = result at hadded
    cases hadded <;> exact hok.window

theorem StoreOk.step (hok : StoreOk m_keepEpochs store) (call : StoreCall B) :
    StoreOk m_keepEpochs (node.storeStep store call) := by
  cases call with
  | network report base => exact hok.addReport
  | own report base tip => exact hok.addReport
  | setCurrentEpoch nEpoch =>
    exact ⟨fun hheld => hok.keyed (CServiceReportStore.lookup_setCurrentEpoch hheld), hok.window⟩
  | dropEpoch nEpoch =>
    refine ⟨?_, hok.window⟩
    intro key report hheld
    rw [storeStep, CServiceReportStore.lookup_dropEpoch] at hheld
    split at hheld
    · cases hheld
    · exact hok.keyed hheld

theorem StoreOk.run {calls : List (StoreCall B)}
    (hrun : Run (Computes node.storeStep) { m_keepEpochs } calls store) :
    StoreOk m_keepEpochs store := by
  refine hrun.invariant (I := StoreOk m_keepEpochs) ?_ ⟨fun hheld => (nomatch hheld), rfl⟩
  rintro store call _ hok rfl
  exact hok.step call

theorem mem_getReportsForEpoch {r : CPoSeServiceReport}
    (hheld : store.m_reports.lookup r.key = some r) :
    r ∈ store.getReportsForEpoch r.nEpoch := by
  refine mem_map.mpr ⟨⟨r.key, r⟩, ?_, rfl⟩
  exact mem_filter.mpr ⟨AList.mem_lookup_iff.mp hheld, decide_eq_true rfl⟩

theorem StoreOk.nodup (hok : StoreOk m_keepEpochs store) (nEpoch : Nat) (target : Uint256) :
    (((store.getReportsForEpoch nEpoch).filter fun r =>
      r.nEpoch = nEpoch ∧ r.targetProTxHash = target).map
        CPoSeServiceReport.sentinelProTxHash).Nodup := by
  unfold CServiceReportStore.getReportsForEpoch
  rw [filter_map, filter_filter, map_map]
  refine Nodup.map_on ?_ (store.m_reports.nodupKeys.nodup.filter _)
  intro e he e' he' hsentinel
  obtain ⟨hmem, hp⟩ := mem_filter.mp he
  obtain ⟨hmem', hp'⟩ := mem_filter.mp he'
  simp only [Function.comp_apply, Bool.and_eq_true, decide_eq_true_eq] at hp hp'
  refine store.m_reports.nodupKeys.eq_of_fst_eq hmem hmem' ?_
  rw [hok.keyed (AList.mem_lookup_iff.mpr hmem), hok.keyed (AList.mem_lookup_iff.mpr hmem')]
  refine Prod.ext (hp.1.1.trans hp'.1.1.symm) (Prod.ext (hp.1.2.trans hp'.1.2.symm) hsentinel)

/-! ### Reports of an honest sentinel -/

def SignsFields (node : ServiceNode B) : Prop :=
  ∀ r sig epochBlockHash,
    node.hashes.getSignHash { r with sig := sig } epochBlockHash =
      node.hashes.getSignHash r epochBlockHash

def Honest (node : ServiceNode B) (sentinel : Sentinel) (base : B) : Prop :=
  ∃ sdmn, (node.getListForBlock base).getMN sentinel.myProTxHash = some sdmn ∧
    ∀ hash, node.env.verifyInsecure (sentinel.signer hash) sdmn.pdmnState.pubKeyOperator.get hash =
      true

def NoRegistration (node : ServiceNode B) (base tip : B) : Prop :=
  ∀ dmn ∈ (node.getListForBlock tip).mns false,
    ((node.getListForBlock base).getMN dmn.proTxHash).isSome = true

instance (base tip : B) : Decidable (node.NoRegistration base tip) :=
  inferInstanceAs (Decidable (∀ dmn ∈ _, _))

variable {sentinel : Sentinel} {tip pindexNew base : B} {reports : List CPoSeServiceReport}
  {r : CPoSeServiceReport}

theorem epochOf_lt (pindex : B) : node.epochOf pindex < 2 ^ 32 := by
  have hheight := node.height_lt pindex
  have hle : node.epochOf pindex ≤ node.index.tree.height pindex := Nat.div_le_self _ _
  unfold INT_MAX at hheight
  omega

theorem mem_emittedReports [DecidableEq B]
    (hemit : node.emittedReports sentinel tip pindexNew = some reports)
    (hbase : node.baseOf pindexNew = some base) (hr : r ∈ reports) :
    r.nEpoch = node.epochOf pindexNew ∧ r.sentinelProTxHash = sentinel.myProTxHash ∧
      (∃ dmn ∈ (node.getListForBlock tip).mns false, dmn.proTxHash = r.targetProTxHash) ∧
      sentinel.myProTxHash ∈ node.reportRules.calcSentinelsForMN (node.getListForBlock tip)
        r.targetProTxHash (node.index.getBlockHash base) node.consensus.nDSLSentinelCount ∧
      (r.status = ONLINE ∨ r.status = MISSED) ∧
      ∃ unsigned : CPoSeServiceReport, r = { unsigned with
        sig := sentinel.signer (node.hashes.getSignHash unsigned (node.index.getBlockHash base)) } := by
  unfold emittedReports at hemit
  simp only [hbase, Option.bind_eq_bind, Option.bind_eq_some_iff, Option.pure_def,
    Option.some.injEq] at hemit
  obtain ⟨_, -, _, rfl, _, -, _, -, _, -, rfl⟩ := hemit
  obtain ⟨target, htarget, rfl⟩ := mem_map.mp hr
  obtain ⟨hepoch, hhash⟩ := Prod.mk.inj (sentinel.manager.beginEpoch_base
    (UInt32.ofNat (node.epochOf pindexNew)) (node.index.getBlockHash base))
  generalize (sentinel.manager.beginEpoch (UInt32.ofNat (node.epochOf pindexNew))
    (node.index.getBlockHash base)).2.2 = manager at hepoch hhash htarget ⊢
  rw [ReportRules.getProbeTargetsForSentinel, hhash] at htarget
  obtain ⟨hmem, hassigned⟩ := mem_filter.mp htarget
  refine ⟨?_, rfl, ?_, (of_decide_eq_true hassigned).2, ?_,
    manager.unsignedReport sentinel.myProTxHash target, ?_⟩
  · refine (congrArg UInt32.toNat hepoch).trans ?_
    exact UInt32.toNat_ofNat_of_lt' (epochOf_lt pindexNew)
  · obtain ⟨dmn, hdmn, heq⟩ := mem_map.mp hmem
    exact ⟨dmn, hdmn, heq⟩
  · unfold CPoSeServiceManager.signedReport CPoSeServiceManager.unsignedReport
    split
    · exact Or.inl rfl
    · exact Or.inr rfl
  · rw [CPoSeServiceManager.signedReport, hhash]
    rfl

theorem oldestKeptEpoch_le (hkeep : 0 < store.m_keepEpochs) :
    store.oldestKeptEpoch ≤ store.m_currentEpoch := by
  unfold CServiceReportStore.oldestKeptEpoch
  split
  · exact Nat.zero_le _
  · exact (Nat.mod_le _ _).trans (by omega)

end ServiceNode

namespace Sample

def registeredNode : ServiceNode (Fin 24) :=
  changingNode (confirmedList [1, 2]) (listOf [confirmed 1, confirmed 2, { confirmed 3 with
    pdmnState := { (confirmed 3).pdmnState with confirmedHash := 0 } }])

def firstSentinel : Sentinel where
  manager := { m_keepEpochs := 8 }
  myProTxHash := 1
  signer := signature 1
  m_dsl_first_tick := false
  m_dsl_warmup_epoch := -1
  m_dsl_last_emitted_epoch := -1

def missedReport (target : Nat) : CPoSeServiceReport :=
  { report 2 target 1 17 with status := MISSED }

def inEpoch : List (StoreCall (Fin 24)) :=
  [.setCurrentEpoch 2]

def poolAfter (node : ServiceNode (Fin 24)) (calls : List (StoreCall (Fin 24))) :
    CServiceReportStore :=
  calls.foldl node.storeStep { m_keepEpochs := 8 }

end Sample

namespace ServiceNode

end ServiceNode

end Defcon.Dsl
