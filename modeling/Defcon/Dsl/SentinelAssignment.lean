import Mathlib.Algebra.BigOperators.Group.Finset.Basic
import Defcon.Dsl.SentinelReports

/-!
# Sentinel assignment and service verdicts

The sentinels of a target are the first of the score order without the target, and a sentinel probes
the targets it is assigned to. A verdict counts one report of each assigned sentinel; the report that
comes first takes the place of its sentinel before its signature is looked at.
-/

namespace Defcon.Evo.CDeterministicMNList

open List

variable {l : CDeterministicMNList} {sha256 : Uint256 → Uint256 → Uint256}
  {target modifier : Uint256} {count : Nat}

theorem nodup_electable (l : CDeterministicMNList) : (l.electable.map Prod.fst).Nodup := by
  rw [electable, map_map]
  exact (nodup_mns true).sublist (filter_sublist.map _)

theorem perm_scoreOrder :
    (l.scoreOrder sha256 modifier).Perm (l.electable.map fun e => (sha256 e.2 modifier, e.1)) :=
  perm_insertionSort _ _

theorem perm_hashes_scoreOrder :
    ((l.scoreOrder sha256 modifier).map Prod.snd).Perm (l.electable.map Prod.fst) := by
  have hperm := (@perm_scoreOrder l sha256 modifier).map Prod.snd
  rwa [map_map] at hperm

theorem nodup_hashes_scoreOrder : ((l.scoreOrder sha256 modifier).map Prod.snd).Nodup :=
  perm_hashes_scoreOrder.nodup_iff.mpr (nodup_electable l)

theorem pairwise_scoreOrder : (l.scoreOrder sha256 modifier).Pairwise scoreBefore := by
  refine strictComparison_scoreBefore.pairwise_insertionSort_of_nodup (List.Nodup.of_map Prod.snd ?_)
  rw [map_map]
  exact nodup_electable l

theorem sublist_scoreOrder : (l.calcSentinelsForMN sha256 target modifier count).Sublist
    (((l.scoreOrder sha256 modifier).map Prod.snd).filter (· ≠ target)) := by
  refine sublist_calcSentinelsForMN.trans (List.Sublist.filter _ ?_)
  rw [map_take, hashes_sorted]
  exact take_sublist _ _

theorem calcSentinelsForMN_eq_take (hcount : 0 < count) :
    l.calcSentinelsForMN sha256 target modifier count =
      (((l.scoreOrder sha256 modifier).map Prod.snd).filter (· ≠ target)).take count := by
  rw [calcSentinelsForMN, takeSentinels_eq, nil_append, map_take, hashes_sorted]
  exact (if_pos hcount).trans (Lib.take_filter_take_succ nodup_hashes_scoreOrder _ _)

theorem length_calcSentinelsForMN_le :
    (l.calcSentinelsForMN sha256 target modifier count).length ≤ max count 1 := by
  rcases Nat.eq_zero_or_pos count with rfl | hcount
  · refine sublist_calcSentinelsForMN.length_le.trans ((length_filter_le _ _).trans ?_)
    rw [length_map]
    exact length_take_le _ _
  · rw [calcSentinelsForMN_eq_take hcount]
    exact (length_take_le _ _).trans (le_max_left _ _)

end Defcon.Evo.CDeterministicMNList

namespace Defcon.Dsl

open Evo (CDeterministicMNList)
open Evo.CDeterministicMNList

/-- **Probe targets are the inverse of the assignment**, and the assignment is the head of the score
order without the target. -/
theorem sentinel_assignment (rules : ReportRules) (list : CDeterministicMNList)
    (epochBlockHash : Uint256) {count : Nat} (hcount : 0 < count) :
    (∀ s, (rules.getProbeTargetsForSentinel list s epochBlockHash count).Nodup ∧
      ∀ t, t ∈ rules.getProbeTargetsForSentinel list s epochBlockHash count ↔
        list.hasMN t = true ∧ t ≠ s ∧ s ∈ rules.calcSentinelsForMN list t epochBlockHash count) ∧
    ∀ t, let sentinels := rules.calcSentinelsForMN list t epochBlockHash count
      sentinels.Nodup ∧ t ∉ sentinels ∧
      (∀ h ∈ sentinels, ∃ dmn, list.getMN h = some dmn ∧ isMNValid dmn = true ∧
        dmn.pdmnState.confirmedHash ≠ 0) ∧
      ∃ order : List (Uint256 × Uint256),
        order.Perm ((list.calculateScores rules.env.sha256 (rules.hashes.sentinelModifier t
          epochBlockHash)).map fun score => (score.1, score.2.proTxHash)) ∧
        order.Pairwise scoreBefore ∧ sentinels =
          ((order.map Prod.snd).filter (· ≠ t)).take (min count (order.filter (·.2 ≠ t)).length) := by
  refine ⟨fun s => ⟨(nodup_mns false).filter _, fun t => ?_⟩, fun t => ?_⟩
  · have hlisted : t ∈ (list.mns false).map Evo.CDeterministicMN.proTxHash ↔
        list.hasMN t = true := by
      rw [List.mem_map, hasMN, Option.isSome_iff_exists]
      constructor
      · rintro ⟨dmn, hdmn, rfl⟩
        exact ⟨dmn, (mem_mns_iff.mp hdmn).1⟩
      · rintro ⟨dmn, hget⟩
        obtain rfl := list.mnMap_keyed hget
        exact ⟨dmn, mem_mns_of_getMN hget, rfl⟩
    rw [ReportRules.getProbeTargetsForSentinel, List.mem_filter, hlisted, decide_eq_true_eq]
  · have hmem {h : Uint256} (hh : h ∈ rules.calcSentinelsForMN list t epochBlockHash count) :=
      List.mem_filter.mp (sublist_scoreOrder.subset hh)
    refine ⟨(nodup_hashes_scoreOrder.filter _).sublist sublist_scoreOrder,
      fun ht => of_decide_eq_true (hmem ht).2 rfl, fun h hh => ?_,
      list.scoreOrder rules.env.sha256 (rules.hashes.sentinelModifier t epochBlockHash), ?_,
      pairwise_scoreOrder, ?_⟩
    · obtain ⟨e, he, rfl⟩ := List.mem_map.mp (perm_hashes_scoreOrder.mem_iff.mp (hmem hh).1)
      obtain ⟨dmn, hdmn, rfl⟩ := List.mem_map.mp he
      obtain ⟨hdmn, hconfirmed⟩ := List.mem_filter.mp hdmn
      obtain ⟨hget, hvalid⟩ := mem_mns_iff.mp hdmn
      exact ⟨dmn, hget, hvalid rfl, of_decide_eq_true hconfirmed⟩
    · rw [map_calculateScores]
      exact perm_scoreOrder
    · generalize horder : list.scoreOrder rules.env.sha256
        (rules.hashes.sentinelModifier t epochBlockHash) = order
      have hlength : (order.filter (·.2 ≠ t)).length =
          ((order.map Prod.snd).filter (· ≠ t)).length := by
        rw [List.filter_map, List.length_map]
        rfl
      rw [hlength, ← List.take_eq_take_min, ← horder]
      exact calcSentinelsForMN_eq_take hcount

namespace Sample

def node₃ : ServiceNode (Fin 24) := settledNode [1, 2, 3]

def list₃ : CDeterministicMNList := confirmedList [1, 2, 3]

end Sample

open Sample

theorem sentinel_assignment_sample :
    2 ∈ node₃.reportRules.getProbeTargetsForSentinel list₃ 1 17 1 ∧
      2 ∉ node₃.reportRules.calcSentinelsForMN list₃ 2 17 1 := by
  obtain ⟨htargets, hsentinels⟩ := sentinel_assignment node₃.reportRules list₃ 17
    (show 0 < 1 by decide)
  refine ⟨((htargets 1).2 2).mpr ⟨?_, ?_, ?_⟩, (hsentinels 2).2.1⟩ <;> decide +kernel

/-! ### Missing reports -/

/-- What the reports on an epoch are judged with. -/
structure EpochJudge (B : Type) where
  node : ServiceNode B
  nEpoch : Nat
  epochBlockHash : Uint256
  epochBaseList : CDeterministicMNList

namespace EpochJudge

variable {B : Type} (j : EpochJudge B) (reports : List CPoSeServiceReport) (target : Uint256)

def commitment (llmqType : Llmq.LLMQType) (quorumHash : Uint256) : AttestedCommitment :=
  j.node.buildServiceCommitment j.nEpoch j.epochBlockHash llmqType quorumHash reports
    j.epochBaseList

def targetBits : Bool × Bool :=
  j.node.targetBits j.nEpoch j.epochBlockHash reports j.epochBaseList target

/-- What the reports say about a masternode: missed, online, or nothing. -/
def judged : Option Bool :=
  match j.targetBits reports target with
  | (true, _) => some true
  | (false, true) => some false
  | (false, false) => none

def assignedTo : List Uint256 :=
  j.node.reportRules.calcSentinelsForMN j.epochBaseList target j.epochBlockHash
    j.node.consensus.nDSLSentinelCount

def reportsOn : List CPoSeServiceReport :=
  reports.filter fun r => r.nEpoch = j.nEpoch ∧ r.targetProTxHash = target

/-- No sentinel reports twice on a target in the epoch. -/
def Single : Prop :=
  ∀ target, ((j.reportsOn reports target).map CPoSeServiceReport.sentinelProTxHash).Nodup

def counted (status : UInt8) : List CPoSeServiceReport :=
  j.node.countedReports j.nEpoch j.epochBlockHash reports j.epochBaseList target status

variable {j} {reports reports' pool sub : List CPoSeServiceReport} {target}

theorem targetBits_eq_judged : j.targetBits reports target =
    (decide (j.judged reports target = some true), (j.judged reports target).isSome) := by
  have himp : (j.targetBits reports target).1 = true → (j.targetBits reports target).2 = true :=
    ServiceNode.targetBits_imp
  unfold judged
  generalize j.targetBits reports target = bits at himp ⊢
  rcases bits with ⟨_ | _, _ | _⟩
  · rfl
  · rfl
  · exact absurd (himp rfl) Bool.false_ne_true
  · rfl

theorem judged_eq (hsingle : j.Single pool) : j.judged pool target =
    if j.node.consensus.nDSLSentinelAgree ≤ ((j.counted pool target MISSED).length : Int) then
      some true
    else if j.node.consensus.nDSLSentinelAgree ≤ ((j.counted pool target ONLINE).length : Int) then
      some false
    else none := by
  unfold judged targetBits
  rw [ServiceNode.targetBits_eq (hsingle target)]
  unfold counted
  split_ifs <;> simp [*]

theorem length_counted_le (hsingle : j.Single pool) :
    (j.counted pool target MISSED).length + (j.counted pool target ONLINE).length ≤
      (j.assignedTo target).length := by
  have hsublist (status : UInt8) :
      (j.counted pool target status).Sublist (j.reportsOn pool target) :=
    List.monotone_filter_right pool fun r hr => decide_eq_true (of_decide_eq_true hr).1
  have hassigned (status : UInt8) : ∀ r ∈ j.counted pool target status,
      r.sentinelProTxHash ∈ j.assignedTo target :=
    fun r hr => (of_decide_eq_true (List.mem_filter.mp hr).2).2.1.1
  have hstatus (status : UInt8) : ∀ r ∈ j.counted pool target status, r.status = status :=
    fun r hr => (of_decide_eq_true (List.mem_filter.mp hr).2).2.2
  -- the sentinels of both kinds of reports are different assigned ones
  have hdistinct : ((j.counted pool target MISSED ++ j.counted pool target ONLINE).map
      CPoSeServiceReport.sentinelProTxHash).Nodup := by
    rw [List.map_append]
    refine ((hsingle target).sublist ((hsublist MISSED).map _)).append
      ((hsingle target).sublist ((hsublist ONLINE).map _)) fun h hmissed honline => ?_
    obtain ⟨r, hr, rfl⟩ := List.mem_map.mp hmissed
    obtain ⟨r', hr', heq⟩ := List.mem_map.mp honline
    have hsame := List.inj_on_of_nodup_map (hsingle target) ((hsublist ONLINE).subset hr')
      ((hsublist MISSED).subset hr) heq
    exact absurd ((hstatus MISSED r hr).symm.trans (hsame ▸ hstatus ONLINE r' hr')) (by decide)
  have hsubset : (j.counted pool target MISSED ++ j.counted pool target ONLINE).map
      CPoSeServiceReport.sentinelProTxHash ⊆ j.assignedTo target := by
    intro h hh
    obtain ⟨r, hr, rfl⟩ := List.mem_map.mp hh
    exact (List.mem_append.mp hr).elim (hassigned MISSED r) (hassigned ONLINE r)
  have hle := (List.subperm_of_subset hdistinct hsubset).length_le
  rwa [List.length_map, List.length_append] at hle

/-- A verdict from some of the reports is the verdict from all, and what is committed are the
verdicts. -/
theorem service_verdicts_stable
    (hagree : (j.node.consensus.nDSLSentinelCount : Int) < 2 * j.node.consensus.nDSLSentinelAgree)
    (hsingle : j.Single pool) (hsub : sub.Subperm pool) :
    (∀ target verdict, j.judged sub target = some verdict → j.judged pool target = some verdict) ∧
    ∀ reports llmqType quorumHash, let c := j.commitment reports llmqType quorumHash
      c.nVersion = requiredServiceCommitmentVersion j.node.consensus
        (if 0 < j.node.consensus.nDSLEpochInterval then
          min (((j.nEpoch : Int) + 1) * j.node.consensus.nDSLEpochInterval) INT_MAX else INT_MAX) ∧
      c.missed = j.epochBaseList.canonicalOrder.map (fun target =>
        decide (j.judged reports target = some true)) ∧
      (Evo.CPoSeServiceCommitment.OBSERVED_VERSION ≤ c.nVersion → c.observed =
        j.epochBaseList.canonicalOrder.map fun target => (j.judged reports target).isSome) ∧
      Evo.BlockContext.checkServiceCommitmentBitfields c.toCPoSeServiceCommitment = .ok () := by
  refine ⟨fun target verdict hverdict => ?_, fun reports llmqType quorumHash => ?_⟩
  · have hsubSingle : j.Single sub := by
      intro target
      obtain ⟨l, hperm, hsublist⟩ := hsub
      refine ((hperm.filter _).map _).nodup_iff.mp ?_
      exact (hsingle target).sublist ((hsublist.filter _).map _)
    have hmono (status : UInt8) :
        (j.counted sub target status).length ≤ (j.counted pool target status).length :=
      (hsub.filter _).length_le
    have hmissed := hmono MISSED
    have honline := hmono ONLINE
    have hboth := @length_counted_le _ _ target _ hsingle
    have hfew : (j.assignedTo target).length ≤ max j.node.consensus.nDSLSentinelCount 1 :=
      length_calcSentinelsForMN_le
    rw [judged_eq hsubSingle] at hverdict
    rw [judged_eq hsingle]
    split_ifs at hverdict with hsubMissed hsubOnline
    · rwa [if_pos (by omega)]
    · rwa [if_neg (by omega), if_pos (by omega)]
  · refine ⟨rfl, ?_, fun hversion => (if_pos hversion).trans ?_,
      ServiceNode.checkBitfields_build _ _⟩
    · refine (List.map_map ..).trans (List.map_congr_left fun target _ => ?_)
      exact congrArg Prod.fst targetBits_eq_judged
    · refine (List.map_map ..).trans (List.map_congr_left fun target _ => ?_)
      exact congrArg Prod.snd targetBits_eq_judged

end EpochJudge

def Sample.judge : EpochJudge (Fin 24) := ⟨node₃, 2, 17, list₃⟩

namespace EpochJudge

/-- The report on the second masternode settles it, whatever else is in the pool. -/
theorem service_verdicts_stable_sample :
    judge.judged [] 2 = none ∧
      judge.judged [missedReport 3, missedReport 2] 2 = some true := by
  have hsingle : judge.Single [missedReport 3, missedReport 2] := by
    intro target
    simp only [reportsOn, List.filter_cons, List.filter_nil]
    split_ifs with h3 h2
    · have heq := (of_decide_eq_true h3).2.trans (of_decide_eq_true h2).2.symm
      exact absurd heq (by decide)
    all_goals simp
  refine ⟨by decide +kernel, (service_verdicts_stable (by decide) hsingle
    (List.sublist_cons_self _ _).subperm).1 2 true ?_⟩
  decide +kernel

/-! ### Invalid reports -/

section Invalid

variable {B : Type} (j : EpochJudge B) (reports : List CPoSeServiceReport) (target : Uint256)

def Valid (r : CPoSeServiceReport) : Bool :=
  j.node.Valid j.epochBlockHash j.epochBaseList (j.assignedTo target) r

/-- The first report on the target by an assigned sentinel, among those with its signature. -/
def firstValid (sentinel : Uint256) : Option CPoSeServiceReport :=
  (j.reportsOn reports target).find? fun r => r.sentinelProTxHash = sentinel ∧ j.Valid target r

/-- No report of an assigned sentinel with a wrong signature comes before one with its signature on
the same target. -/
def ValidFirst : Prop :=
  ∀ target, (j.reportsOn reports target).Pairwise fun r r' =>
    r.sentinelProTxHash = r'.sentinelProTxHash → j.Valid target r' = true → j.Valid target r = true

variable {j} {reports reports' rs : List CPoSeServiceReport} {target} {tally : ServiceNode.Tally}
  {r : CPoSeServiceReport} {status : UInt8}

def tallyReport (j : EpochJudge B) (target : Uint256) :
    ServiceNode.Tally → CPoSeServiceReport → ServiceNode.Tally :=
  j.node.tallyReport j.epochBlockHash j.epochBaseList (j.assignedTo target)

theorem tallyReport_eq_self
    (hskip : r.sentinelProTxHash ∉ j.assignedTo target ∨ r.sentinelProTxHash ∈ tally.counted) :
    j.tallyReport target tally r = tally := by
  unfold tallyReport ServiceNode.tallyReport
  by_cases hassigned : r.sentinelProTxHash ∈ j.assignedTo target
  · rw [if_neg (not_not.mpr hassigned), if_pos (hskip.resolve_left (not_not.mpr hassigned))]
  · rw [if_pos hassigned]

theorem counted_tallyReport (hassigned : r.sentinelProTxHash ∈ j.assignedTo target)
    (hnew : r.sentinelProTxHash ∉ tally.counted) :
    (j.tallyReport target tally r).counted = r.sentinelProTxHash :: tally.counted := by
  unfold tallyReport ServiceNode.tallyReport
  rw [if_neg (not_not.mpr hassigned), if_neg hnew]
  cases j.epochBaseList.getMN r.sentinelProTxHash with
  | none => rfl
  | some sdmn =>
    dsimp only
    split_ifs <;> rfl

/-- `count` counts the valid reports with `status`, each when it takes the place of its sentinel. -/
def Counts (j : EpochJudge B) (target : Uint256) (status : UInt8)
    (count : ServiceNode.Tally → Int) : Prop :=
  ∀ {tally r}, r.sentinelProTxHash ∉ tally.counted → count (j.tallyReport target tally r) =
    count tally + if j.Valid target r ∧ r.status = status then 1 else 0

/-- Whatever comes after the first report of a sentinel makes no difference. -/
theorem Counts.foldl {count : ServiceNode.Tally → Int} (hcount : j.Counts target status count) :
    count (rs.foldl (j.tallyReport target) tally) = count tally +
      ∑ s ∈ (j.assignedTo target).toFinset with s ∉ tally.counted,
        if (rs.find? (·.sentinelProTxHash = s)).any (fun r =>
          j.Valid target r ∧ r.status = status) then 1 else 0 := by
  induction rs generalizing tally with
  | nil => simp
  | cons r rs ih =>
    rw [List.foldl_cons, ih]
    have hlater {s : Uint256} (hs : s ≠ r.sentinelProTxHash) :
        (r :: rs).find? (·.sentinelProTxHash = s) = rs.find? (·.sentinelProTxHash = s) :=
      List.find?_cons_of_neg (by simpa using Ne.symm hs)
    by_cases hskip : r.sentinelProTxHash ∉ j.assignedTo target ∨ r.sentinelProTxHash ∈ tally.counted
    · rw [tallyReport_eq_self hskip]
      refine congrArg _ (Finset.sum_congr rfl fun s hs => ?_)
      obtain ⟨hmem, hnew⟩ := Finset.mem_filter.mp hs
      rw [hlater fun heq => hskip.elim (heq ▸ not_not.mpr (List.mem_toFinset.mp hmem))
        (heq ▸ hnew)]
    · obtain ⟨hassigned, hnew⟩ := not_or.mp hskip
      have hassigned := not_not.mp hassigned
      have hfirst : r.sentinelProTxHash ∈ (j.assignedTo target).toFinset.filter
          (· ∉ tally.counted) := Finset.mem_filter.mpr ⟨List.mem_toFinset.mpr hassigned, hnew⟩
      have herase :
          ((j.assignedTo target).toFinset.filter (· ∉ tally.counted)).erase r.sentinelProTxHash =
            (j.assignedTo target).toFinset.filter (· ∉ r.sentinelProTxHash :: tally.counted) := by
        ext s
        simp only [Finset.mem_erase, Finset.mem_filter, List.mem_cons, not_or]
        tauto
      rw [hcount hnew, counted_tallyReport hassigned hnew, ← Finset.add_sum_erase _ _ hfirst, herase,
        add_assoc]
      congr 2
      · simp
      · refine Finset.sum_congr rfl fun s hs => ?_
        rw [hlater fun heq => (Finset.mem_filter.mp hs).2 (heq ▸ List.mem_cons_self)]

theorem any_find?_eq_any_firstValid (hfirst : j.ValidFirst reports) (s : Uint256) :
    ((j.reportsOn reports target).find? (·.sentinelProTxHash = s)).any (fun r =>
        j.Valid target r ∧ r.status = status) =
      (j.firstValid reports target s).any (·.status = status) := by
  unfold firstValid
  have hfirst := hfirst target
  generalize j.reportsOn reports target = rs at hfirst ⊢
  induction rs with
  | nil => rfl
  | cons r rs ih =>
    obtain ⟨hhead, htail⟩ := List.pairwise_cons.mp hfirst
    by_cases hs : r.sentinelProTxHash = s
    · rw [List.find?_cons_of_pos (by simpa using hs)]
      cases hvalid : j.Valid target r with
      | true =>
        rw [List.find?_cons_of_pos (by simp [hs, hvalid])]
        simp [hvalid]
      | false =>
        -- the wrong signature comes first, so no later report is valid
        have hnone : rs.find? (fun r => r.sentinelProTxHash = s ∧ j.Valid target r) = none := by
          refine List.find?_eq_none.mpr fun r' hr' hp => ?_
          obtain ⟨hs', hvalid'⟩ := of_decide_eq_true hp
          have hcontra := hhead r' hr' (hs.trans hs'.symm) hvalid'
          exact absurd (hvalid.symm.trans hcontra) Bool.false_ne_true
        rw [List.find?_cons_of_neg (by simp [hvalid]), hnone]
        simp [hvalid]
    · rw [List.find?_cons_of_neg (by simpa using hs), List.find?_cons_of_neg (by simp [hs])]
      exact ih htail

theorem targetBits_eq_of_firstValid (hfirst : j.ValidFirst reports)
    (hfirst' : j.ValidFirst reports')
    (hsame : ∀ sentinel, j.firstValid reports target sentinel =
      j.firstValid reports' target sentinel) :
    j.targetBits reports target = j.targetBits reports' target := by
  have hcounts {count : ServiceNode.Tally → Int} {status : UInt8}
      (hcount : j.Counts target status count) :
      count ((j.reportsOn reports target).foldl (j.tallyReport target) {}) =
        count ((j.reportsOn reports' target).foldl (j.tallyReport target) {}) := by
    rw [hcount.foldl, hcount.foldl]
    refine congrArg _ (Finset.sum_congr rfl fun s _ => ?_)
    rw [any_find?_eq_any_firstValid hfirst, any_find?_eq_any_firstValid hfirst', hsame s]
  have hmissed := @hcounts ServiceNode.Tally.missedCount MISSED fun hnew =>
    (ServiceNode.tallyReport_eq _ hnew).1
  have honline := @hcounts ServiceNode.Tally.onlineCount ONLINE fun hnew =>
    (ServiceNode.tallyReport_eq _ hnew).2.1
  unfold tallyReport reportsOn assignedTo ReportRules.calcSentinelsForMN at hmissed honline
  unfold targetBits ServiceNode.targetBits
  simp only [ServiceNode.reportRules] at hmissed honline
  simp only [hmissed, honline]

end Invalid

end EpochJudge

def Sample.unsignedReport : CPoSeServiceReport :=
  { missedReport 2 with sig := none }

namespace EpochJudge

theorem not_valid_unsigned (target : Uint256) :
    judge.Valid target unsignedReport = false := by
  have hunsigned : (judge.epochBaseList.getMN unsignedReport.sentinelProTxHash).any
      (fun sdmn => judge.node.reportRules.verifySig unsignedReport
        sdmn.pdmnState.pubKeyOperator.get judge.epochBlockHash) = false := by
    decide +kernel
  unfold Valid ServiceNode.Valid
  rw [hunsigned]
  simp only [Bool.false_eq_true, and_false, decide_false]

theorem firstValid_unsigned (pre post : List CPoSeServiceReport) (target sentinel : Uint256) :
    judge.firstValid (pre ++ unsignedReport :: post) target sentinel =
      judge.firstValid (pre ++ post) target sentinel := by
  unfold firstValid reportsOn
  rw [List.filter_append, List.filter_append, List.find?_append, List.find?_append,
    List.filter_cons]
  split
  · rw [List.find?_cons_of_neg fun hp => ?_]
    exact absurd ((not_valid_unsigned target).symm.trans (of_decide_eq_true hp).2)
      Bool.false_ne_true
  · rfl

end EpochJudge

end Defcon.Dsl
