import Mathlib.Combinatorics.Pigeonhole
import Defcon.Lib.Tally
import Defcon.Dsl.ServiceManager

/-!
# The hold for early announcements

An announcement that arrives before its epoch can be judged is held. Every live peer that delivered
a copy vouches for it; when the hold of an epoch is full, the entry whose lightest voucher has most
entries in the hold gives way to a newcomer that would have fewer. The tally of the vouchers is
exact after every sequence of arrivals and disconnects. Since each honest peer vouches for the same
few announcements, a full hold has an entry that weighs more than any of theirs, so that a few
hostile peers only displace each other.
-/

namespace Defcon.Dsl

open List Lib
open AList (Map)
open Llmq (CBLSPublicKey CBLSSignature)

/-! ### The code -/

abbrev NodeId := Int

def DSL_MSG_BUDGET_MIN_MNS : Int := 64
def DSL_EARLY_RESPONSES_PER_MN : Nat := 28
def DSL_EARLY_RESPONSES_MIN : Nat := 4096
def DSL_EARLY_RESPONSES_MAX : Nat := 16384
def DSL_EARLY_VOUCHERS_MAX : Nat := 32

def dslEarlyResponsesMax (mn_count : Int) : Nat :=
  let sized := (max mn_count DSL_MSG_BUDGET_MIN_MNS).toNat * DSL_EARLY_RESPONSES_PER_MN % 2 ^ 64
  max DSL_EARLY_RESPONSES_MIN (min sized DSL_EARLY_RESPONSES_MAX)

structure DSLEarlyResponse where
  resp : CPoSeServiceResponse
  connected_base : Uint256
  vouchers : List NodeId := []
  departed : List NodeId := []
  departed_shared : Bool := false

structure DSLEarlyEpoch where
  held : List DSLEarlyResponse := []
  vouchers : Map NodeId Nat := ∅

/-- The arguments of `HoldDSLEarlyResponse`, with the peer (`from`) and what the manager answers
about the current epoch. -/
structure HoldCall where
  peer : NodeId
  resp : CPoSeServiceResponse
  tip_epoch : UInt32
  hold_max : Nat
  connected_base : Uint256
  connected_operator : Option CBLSPublicKey
  currentEpoch : UInt32
  currentEpochHash : Uint256

def DSLEarlyResponse.isCopy (resp : CPoSeServiceResponse) (entry : DSLEarlyResponse) : Bool :=
  entry.resp.proTxHash = resp.proTxHash ∧ entry.resp.sig = resp.sig

def HoldCall.verifies (sigs : Signatures) (call : HoldCall) : Bool :=
  match call.connected_operator with
  | none => false
  | some operator => sigs.verifyChallengeResponse call.resp.sig operator call.connected_base
      call.resp.proTxHash

def vouch (peer : NodeId) (entry : DSLEarlyResponse) (vouchers : Map NodeId Nat) :
    DSLEarlyResponse × Map NodeId Nat :=
  if peer ∈ entry.vouchers then (entry, vouchers)
  else if DSL_EARLY_VOUCHERS_MAX ≤ entry.vouchers.length then (entry, vouchers)
  else ({ entry with vouchers := entry.vouchers ++ [peer] }, increment vouchers peer)

def shareOf (in_set : Map NodeId Nat) (ids : List NodeId) : Option Nat :=
  (ids.filterMap in_set.lookup).min?

def weaker : Option Nat → Option Nat → Bool
  | none, b => b.isSome
  | some _, none => false
  | some a, some b => b < a

namespace DSLEarlyEpoch

variable (epoch : DSLEarlyEpoch)

def inSet : Map NodeId Nat :=
  ((epoch.held.flatMap DSLEarlyResponse.vouchers).filter (· ∈ epoch.vouchers)).foldl
    increment ∅

def weakest (in_set : Map NodeId Nat) : Nat × Option Nat :=
  match epoch.held with
  | [] => (0, none)
  | front :: _ =>
    epoch.held.zipIdx.foldl (fun weakest entry =>
      let s := shareOf in_set entry.1.vouchers
      if weaker s weakest.2 then (entry.2, s) else weakest) (0, shareOf in_set front.vouchers)

def push (call : HoldCall) : DSLEarlyEpoch :=
  let vouched := vouch call.peer ⟨call.resp, call.connected_base, [], [], false⟩ epoch.vouchers
  { held := epoch.held ++ [vouched.1], vouchers := vouched.2 }

def giveWay (i : Nat) : DSLEarlyEpoch where
  held := epoch.held.eraseIdx i
  vouchers := match epoch.held[i]? with
    | none => epoch.vouchers
    | some entry => entry.vouchers.foldl decrement epoch.vouchers

def contest (call : HoldCall) : DSLEarlyEpoch :=
  let in_set := epoch.inSet
  let (weakest, weakest_share) := epoch.weakest in_set
  let newcomer := some ((in_set.lookup call.peer).getD 0 + 1)
  if weaker weakest_share newcomer then (epoch.giveWay weakest).push call else epoch

def copied (sigs : Signatures) (call : HoldCall) (i : Nat) (same : DSLEarlyResponse) :
    DSLEarlyEpoch :=
  let promote : Bool := call.connected_base ≠ 0 ∧ same.connected_base ≠ call.connected_base
  if promote ∧ ¬call.verifies sigs then epoch
  else
    let vouched := vouch call.peer
      (if promote then { same with connected_base := call.connected_base } else same) epoch.vouchers
    { held := epoch.held.set i vouched.1, vouchers := vouched.2 }

def hold (sigs : Signatures) (call : HoldCall) : DSLEarlyEpoch :=
  match epoch.held.zipIdx.find? (fun entry => entry.1.isCopy call.resp) with
  | some (same, i) => epoch.copied sigs call i same
  | none =>
    if call.connected_base ≠ 0 ∧ ¬call.verifies sigs then epoch
    else if epoch.held.length < call.hold_max then epoch.push call
    else epoch.contest call

end DSLEarlyEpoch

abbrev EarlyResponses := Map UInt32 DSLEarlyEpoch

def holdDSLEarlyResponse (sigs : Signatures) (m : EarlyResponses) (call : HoldCall) :
    Bool × EarlyResponses :=
  if call.connected_base ≠ 0 ∧ call.currentEpoch = call.resp.nEpoch ∧
      call.currentEpochHash = call.connected_base then (false, m)
  else
    let m := m.eraseIf fun nEpoch => nEpoch < call.tip_epoch ∨ call.tip_epoch + 1 < nEpoch
    (true, m.modifyD call.resp.nEpoch {} (·.hold sigs call))

/-- The peer has left: its vouching goes, and the entry remembers the id of a connection that lived
an epoch. -/
def DSLEarlyResponse.forget (id : NodeId) (lived_an_epoch : Bool) (entry : DSLEarlyResponse) :
    DSLEarlyResponse :=
  if id ∈ entry.vouchers then
    let vouchers := entry.vouchers.filter (· ≠ id)
    if lived_an_epoch ∧ entry.departed.length < DSL_EARLY_VOUCHERS_MAX then
      { entry with vouchers, departed := entry.departed ++ [id] }
    else { entry with vouchers, departed_shared := true }
  else entry

def DSLEarlyEpoch.forget (id : NodeId) (lived_an_epoch : Bool) (epoch : DSLEarlyEpoch) :
    DSLEarlyEpoch :=
  if id ∈ epoch.vouchers then
    { held := epoch.held.map (·.forget id lived_an_epoch), vouchers := epoch.vouchers.erase id }
  else epoch

def forgetDSLEarlyVoucher (nDSLEpochInterval m_best_height : Int) (m : EarlyResponses) (id : NodeId)
    (connected_height : Int) : EarlyResponses :=
  let interval := max nDSLEpochInterval 1
  let lived_an_epoch : Bool := 0 ≤ connected_height ∧ interval ≤ m_best_height - connected_height
  m.mapVal (·.forget id lived_an_epoch)

inductive EarlyCall where
  | hold (call : HoldCall)
  | forget (m_best_height : Int) (id : NodeId) (connected_height : Int)

def earlyStep (sigs : Signatures) (nDSLEpochInterval : Int) (m : EarlyResponses) :
    EarlyCall → EarlyResponses
  | .hold call => (holdDSLEarlyResponse sigs m call).2
  | .forget m_best_height id connected_height =>
    forgetDSLEarlyVoucher nDSLEpochInterval m_best_height m id connected_height

/-! ### What a call does to its epoch -/

def weight (share : Option Nat) : WithTop Nat := share

theorem weaker_iff {a b : Option Nat} : weaker a b = true ↔ weight b < weight a := by
  cases a with
  | none =>
    cases b with
    | none => exact iff_of_false (by simp [weaker]) (lt_irrefl _)
    | some b => exact iff_of_true rfl (WithTop.coe_lt_top b)
  | some a =>
    cases b with
    | none => exact iff_of_false (by simp [weaker]) (by exact not_top_lt)
    | some b =>
      refine Iff.trans ?_ WithTop.coe_lt_coe.symm
      simp [weaker]

variable {in_set : Map NodeId Nat} {entry : DSLEarlyResponse} {nDSLEpochInterval : Int}

theorem shareOf_eq_some {ids : List NodeId} {n : Nat} (hshare : shareOf in_set ids = some n) :
    (∃ id ∈ ids, in_set.lookup id = some n) ∧
      ∀ id ∈ ids, ∀ n', in_set.lookup id = some n' → n ≤ n' := by
  obtain ⟨hmem, hmin⟩ := min?_eq_some_iff.mp hshare
  refine ⟨mem_filterMap.mp hmem, ?_⟩
  intro id hid n' hn'
  exact hmin n' (mem_filterMap.mpr ⟨id, hid, hn'⟩)

theorem weight_shareOf_le {ids : List NodeId} {id : NodeId} {n : Nat} (hid : id ∈ ids)
    (hlookup : in_set.lookup id = some n) : weight (shareOf in_set ids) ≤ (n : WithTop Nat) := by
  cases hshare : shareOf in_set ids with
  | none =>
    have hnil := min?_eq_none_iff.mp hshare
    have hmem : n ∈ ids.filterMap in_set.lookup := mem_filterMap.mpr ⟨id, hid, hlookup⟩
    rw [hnil] at hmem
    cases hmem
  | some m => exact WithTop.coe_le_coe.mpr ((shareOf_eq_some hshare).2 id hid n hlookup)

namespace DSLEarlyEpoch

variable {epoch : DSLEarlyEpoch} {call : HoldCall} {sigs : Signatures}

theorem foldl_weakest (in_set : Map NodeId Nat) (entries : List DSLEarlyResponse) (n : Nat)
    (start : Nat × Option Nat) :
    let result := (entries.zipIdx n).foldl (fun weakest entry =>
      let s := shareOf in_set entry.1.vouchers
      if weaker s weakest.2 then (entry.2, s) else weakest) start
    weight start.2 ≤ weight result.2 ∧
    (∀ entry ∈ entries, weight (shareOf in_set entry.vouchers) ≤ weight result.2) ∧
    (result = start ∨ ∃ pre entry post, entries = pre ++ entry :: post ∧
      result = (n + pre.length, shareOf in_set entry.vouchers)) := by
  induction entries generalizing n start with
  | nil => exact ⟨le_refl _, by simp, Or.inl rfl⟩
  | cons entry entries ih =>
    simp only [zipIdx_cons, foldl_cons]
    generalize hnext : (if weaker (shareOf in_set entry.vouchers) start.2 = true then
      (n, shareOf in_set entry.vouchers) else start) = next
    have hstep : weight start.2 ≤ weight next.2 ∧
        weight (shareOf in_set entry.vouchers) ≤ weight next.2 ∧
        (next = start ∨ next = (n, shareOf in_set entry.vouchers)) := by
      rw [← hnext]
      split
      · rename_i hweaker
        exact ⟨(weaker_iff.mp hweaker).le, le_refl _, Or.inr rfl⟩
      · rename_i hnot
        exact ⟨le_refl _, not_lt.mp (mt weaker_iff.mpr hnot), Or.inl rfl⟩
    obtain ⟨hstart, hall, hresult⟩ := ih (n + 1) next
    refine ⟨hstep.1.trans hstart, ?_, ?_⟩
    · intro e he
      rcases mem_cons.mp he with rfl | he
      · exact hstep.2.1.trans hstart
      · exact hall e he
    · rcases hresult with hresult | ⟨pre, e, post, rfl, hresult⟩
      · rw [hresult]
        exact hstep.2.2.imp_right fun hnew => ⟨[], entry, entries, rfl, hnew⟩
      · refine Or.inr ⟨entry :: pre, e, post, rfl, ?_⟩
        rw [hresult, length_cons]
        congr 1
        omega

theorem weakest_spec (in_set : Map NodeId Nat) (hheld : epoch.held ≠ []) :
    ∃ pre entry post, epoch.held = pre ++ entry :: post ∧
      epoch.weakest in_set = (pre.length, shareOf in_set entry.vouchers) ∧
      ∀ e ∈ epoch.held,
        weight (shareOf in_set e.vouchers) ≤ weight (shareOf in_set entry.vouchers) := by
  obtain ⟨front, rest, hfront⟩ := exists_cons_of_ne_nil hheld
  obtain ⟨-, hall, hresult⟩ := foldl_weakest in_set epoch.held 0
    (0, shareOf in_set front.vouchers)
  unfold weakest
  rw [hfront] at hall hresult ⊢
  rcases hresult with hresult | ⟨pre, entry, post, hsplit, hresult⟩
  · rw [hresult] at hall
    exact ⟨[], front, rest, rfl, hresult, hall⟩
  · rw [hresult] at hall
    rw [Nat.zero_add] at hresult
    exact ⟨pre, entry, post, hsplit, hresult, hall⟩

inductive Held (epoch : DSLEarlyEpoch) (call : HoldCall) : DSLEarlyEpoch → Prop
  | refused (hconnected : call.connected_base ≠ 0) : Held epoch call epoch
  | copied (pre post : List DSLEarlyResponse) (same entry : DSLEarlyResponse)
      (hheld : epoch.held = pre ++ same :: post) (hcopy : same.isCopy call.resp = true)
      (hresp : entry.resp = same.resp) (hvouchers : entry.vouchers = same.vouchers)
      (hsettled : call.peer ∈ same.vouchers ∨ DSL_EARLY_VOUCHERS_MAX ≤ same.vouchers.length) :
      Held epoch call { epoch with held := pre ++ entry :: post }
  | joined (pre post : List DSLEarlyResponse) (same entry : DSLEarlyResponse)
      (hheld : epoch.held = pre ++ same :: post) (hcopy : same.isCopy call.resp = true)
      (hresp : entry.resp = same.resp) (hvouchers : entry.vouchers = same.vouchers ++ [call.peer])
      (hnew : call.peer ∉ same.vouchers) :
      Held epoch call ⟨pre ++ entry :: post, increment epoch.vouchers call.peer⟩
  | pushed (entry : DSLEarlyResponse) (hnone : ∀ e ∈ epoch.held, e.isCopy call.resp = false)
      (hroom : epoch.held.length < call.hold_max) (hresp : entry.resp = call.resp)
      (hvouchers : entry.vouchers = [call.peer]) :
      Held epoch call ⟨epoch.held ++ [entry], increment epoch.vouchers call.peer⟩
  | displaced (pre post : List DSLEarlyResponse) (weakest entry : DSLEarlyResponse)
      (hheld : epoch.held = pre ++ weakest :: post)
      (hnone : ∀ e ∈ epoch.held, e.isCopy call.resp = false)
      (hfull : call.hold_max ≤ epoch.held.length)
      (hweakest : ∀ e ∈ epoch.held, weight (shareOf epoch.inSet e.vouchers) ≤
        weight (shareOf epoch.inSet weakest.vouchers))
      (hresp : entry.resp = call.resp) (hvouchers : entry.vouchers = [call.peer]) :
      Held epoch call ⟨pre ++ post ++ [entry],
        increment (weakest.vouchers.foldl decrement epoch.vouchers) call.peer⟩
  | dropped (hnone : ∀ e ∈ epoch.held, e.isCopy call.resp = false)
      (hfull : call.hold_max ≤ epoch.held.length)
      (hlight : ∀ e ∈ epoch.held, weight (shareOf epoch.inSet e.vouchers) ≤
        ((epoch.inSet.lookup call.peer).getD 0 + 1 : Nat)) : Held epoch call epoch

variable {entry : DSLEarlyResponse}

theorem giveWay_eq {pre post : List DSLEarlyResponse} (hheld : epoch.held = pre ++ entry :: post) :
    epoch.giveWay pre.length =
      ⟨pre ++ post, entry.vouchers.foldl decrement epoch.vouchers⟩ := by
  unfold giveWay
  rw [hheld, getElem?_append_right (Nat.le_refl _), Nat.sub_self, getElem?_cons_zero,
    eraseIdx_append_of_length_le (Nat.le_refl _), Nat.sub_self, eraseIdx_cons_zero]

theorem held_contest (hpos : 0 < call.hold_max)
    (hnone : ∀ e ∈ epoch.held, e.isCopy call.resp = false)
    (hfull : call.hold_max ≤ epoch.held.length) : Held epoch call (epoch.contest call) := by
  have hheld : epoch.held ≠ [] := by
    intro hnil
    rw [hnil, length_nil] at hfull
    omega
  obtain ⟨pre, entry, post, hsplit, hweakest, hall⟩ := weakest_spec epoch.inSet hheld
  unfold contest
  simp only [hweakest]
  split
  · rw [giveWay_eq hsplit]
    exact .displaced pre post entry _ hsplit hnone hfull hall rfl rfl
  next hweaker =>
    refine .dropped hnone hfull fun e he => ?_
    exact (hall e he).trans (not_lt.mp (mt weaker_iff.mpr hweaker))

theorem held_copied {pre post : List DSLEarlyResponse} {same : DSLEarlyResponse}
    (hheld : epoch.held = pre ++ same :: post) (hcopy : same.isCopy call.resp = true) :
    Held epoch call (epoch.copied sigs call pre.length same) := by
  unfold copied
  simp only
  split
  · rename_i hrefused
    exact .refused (of_decide_eq_true hrefused.1).1
  · generalize hentry : (if decide (call.connected_base ≠ 0 ∧
        same.connected_base ≠ call.connected_base) = true then
        { same with connected_base := call.connected_base } else same) = entry
    have hresp : entry.resp = same.resp := by
      rw [← hentry]
      split <;> rfl
    have hvouchers : entry.vouchers = same.vouchers := by
      rw [← hentry]
      split <;> rfl
    rw [hheld, set_append_right _ _ (Nat.le_refl _), Nat.sub_self, set_cons_zero]
    unfold vouch
    split
    next hmem =>
      exact .copied pre post same entry hheld hcopy hresp hvouchers (Or.inl (hvouchers ▸ hmem))
    next hmem =>
      split
      next hcap =>
        exact .copied pre post same entry hheld hcopy hresp hvouchers (Or.inr (hvouchers ▸ hcap))
      · refine .joined pre post same _ hheld hcopy hresp ?_ (hvouchers ▸ hmem)
        rw [← hvouchers]

theorem find?_zipIdx_eq_some {p : DSLEarlyResponse → Bool} {entries : List DSLEarlyResponse}
    {i : Nat} (hfind : entries.zipIdx.find? (fun e => p e.1) = some (entry, i)) :
    p entry = true ∧ ∃ pre post, entries = pre ++ entry :: post ∧ i = pre.length := by
  refine ⟨find?_some (p := fun e : DSLEarlyResponse × Nat => p e.1) hfind, ?_⟩
  have hget : entries[i]? = some entry :=
    mem_zipIdx_iff_getElem?.mp (mem_of_find?_eq_some hfind)
  obtain ⟨hlt, hget⟩ := List.getElem?_eq_some_iff.mp hget
  have hsplit := take_append_drop i entries
  rw [drop_eq_getElem_cons hlt, hget] at hsplit
  refine ⟨entries.take i, entries.drop (i + 1), hsplit.symm, ?_⟩
  rw [length_take]
  omega

theorem held_hold (hpos : 0 < call.hold_max) : Held epoch call (epoch.hold sigs call) := by
  unfold hold
  cases hfind : epoch.held.zipIdx.find? (fun entry => entry.1.isCopy call.resp) with
  | some found =>
    obtain ⟨same, i⟩ := found
    obtain ⟨hcopy, pre, post, hheld, rfl⟩ := find?_zipIdx_eq_some hfind
    exact held_copied hheld hcopy
  | none =>
    have hnone : ∀ e ∈ epoch.held, e.isCopy call.resp = false := by
      intro e he
      obtain ⟨i, hi, rfl⟩ := mem_iff_getElem.mp he
      have hmem : (epoch.held[i], i) ∈ epoch.held.zipIdx := by
        simp [mem_zipIdx_iff_getElem?]
      simpa using find?_eq_none.mp hfind _ hmem
    dsimp only
    split
    · rename_i hrefused
      exact .refused hrefused.1
    split
    · rename_i hroom
      exact .pushed _ hnone hroom rfl rfl
    · rename_i hfull
      exact held_contest hpos hnone (Nat.not_lt.mp hfull)

end DSLEarlyEpoch

/-! ### The tally is exact -/

def DSLEarlyResponse.key (entry : DSLEarlyResponse) : Uint256 × CBLSSignature :=
  (entry.resp.proTxHash, entry.resp.sig)

theorem DSLEarlyResponse.isCopy_iff {resp : CPoSeServiceResponse} :
    entry.isCopy resp = true ↔ entry.key = (resp.proTxHash, resp.sig) := by
  unfold isCopy key
  rw [decide_eq_true_eq, Prod.mk.injEq]

theorem DSLEarlyResponse.key_ne {resp : CPoSeServiceResponse} (hnot : entry.isCopy resp = false) :
    entry.key ≠ (resp.proTxHash, resp.sig) := by
  rw [ne_eq, ← isCopy_iff, hnot]
  exact Bool.false_ne_true

def vouchedFor (held : List DSLEarlyResponse) (id : NodeId) : Nat :=
  held.countP fun entry => id ∈ entry.vouchers

theorem vouchedFor_append (held held' : List DSLEarlyResponse) (id : NodeId) :
    vouchedFor (held ++ held') id = vouchedFor held id + vouchedFor held' id :=
  countP_append

theorem vouchedFor_cons (entry : DSLEarlyResponse) (held : List DSLEarlyResponse) (id : NodeId) :
    vouchedFor (entry :: held) id =
      vouchedFor held id + if id ∈ entry.vouchers then 1 else 0 := by
  unfold vouchedFor
  rw [countP_cons]
  simp only [decide_eq_true_eq]

theorem vouchedFor_singleton {peer : NodeId} (hvouchers : entry.vouchers = [peer]) (id : NodeId) :
    vouchedFor [entry] id = if id = peer then 1 else 0 := by
  rw [vouchedFor_cons, hvouchers]
  simp [vouchedFor]

theorem sublist_of_split {held pre post : List DSLEarlyResponse}
    (hheld : held = pre ++ entry :: post) : (pre ++ post).Sublist held := by
  rw [hheld]
  exact Sublist.append (Sublist.refl pre) (sublist_cons_self entry post)

theorem eq_or_mem_of_split {held pre post : List DSLEarlyResponse} {e same : DSLEarlyResponse}
    (hheld : held = pre ++ same :: post) (he : e ∈ pre ++ entry :: post) :
    e = entry ∨ e ∈ held := by
  rcases mem_cons.mp (perm_middle.mem_iff.mp he) with rfl | hother
  · exact Or.inl rfl
  · exact Or.inr ((sublist_of_split hheld).subset hother)

structure EpochOk (hold_max : Nat) (epoch : DSLEarlyEpoch) : Prop where
  tally : TallyOf epoch.vouchers (vouchedFor epoch.held)
  nodup : ∀ entry ∈ epoch.held, entry.vouchers.Nodup
  distinct : (epoch.held.map DSLEarlyResponse.key).Nodup
  bounded : epoch.held.length ≤ hold_max

namespace EpochOk

variable {hold_max : Nat} {epoch epoch' : DSLEarlyEpoch} {call : HoldCall}
  {pre post : List DSLEarlyResponse} {entry same : DSLEarlyResponse}

theorem initial (hold_max : Nat) : EpochOk hold_max {} :=
  ⟨TallyOf.empty, by simp, nodup_nil, Nat.zero_le _⟩

section

variable (hok : EpochOk hold_max epoch)

include hok

theorem replace (hheld : epoch.held = pre ++ same :: post) (hresp : entry.resp = same.resp)
    (hnodup : entry.vouchers.Nodup) {vouchers : Map NodeId Nat}
    (htally : TallyOf vouchers (vouchedFor (pre ++ entry :: post))) :
    EpochOk hold_max ⟨pre ++ entry :: post, vouchers⟩ := by
  have hkey : entry.key = same.key := by
    unfold DSLEarlyResponse.key
    rw [hresp]
  refine ⟨htally, ?_, ?_, ?_⟩
  · intro e he
    rcases eq_or_mem_of_split hheld he with rfl | hother
    · exact hnodup
    · exact hok.nodup e hother
  · have hdistinct := hok.distinct
    rw [hheld, map_append, map_cons] at hdistinct
    rw [map_append, map_cons, hkey]
    exact hdistinct
  · have hbounded := hok.bounded
    rw [hheld, length_append, length_cons] at hbounded
    rw [length_append, length_cons]
    exact hbounded

theorem push (hroom : epoch.held.length < hold_max)
    (hnone : ∀ e ∈ epoch.held, e.isCopy call.resp = false) (hresp : entry.resp = call.resp)
    (hvouchers : entry.vouchers = [call.peer]) :
    EpochOk hold_max ⟨epoch.held ++ [entry], increment epoch.vouchers call.peer⟩ := by
  refine ⟨?_, ?_, ?_, ?_⟩
  · refine (hok.tally.increment call.peer).congr fun id => ?_
    rw [vouchedFor_append, vouchedFor_singleton hvouchers]
  · intro e he
    rcases mem_append.mp he with hold | hnew
    · exact hok.nodup e hold
    · rw [mem_singleton.mp hnew, hvouchers]
      exact nodup_singleton _
  · rw [map_append, map_singleton]
    refine hok.distinct.append (nodup_singleton _) ?_
    rw [disjoint_singleton]
    intro hmem
    obtain ⟨e, he, hkey⟩ := mem_map.mp hmem
    refine DSLEarlyResponse.key_ne (hnone e he) ?_
    rw [hkey, DSLEarlyResponse.key, hresp]
  · rw [length_append, length_singleton]
    omega

theorem giveWay (hheld : epoch.held = pre ++ entry :: post) :
    EpochOk hold_max ⟨pre ++ post, entry.vouchers.foldl decrement epoch.vouchers⟩ := by
  have hsublist := sublist_of_split hheld
  have hmem : entry ∈ epoch.held := hheld ▸ mem_append_cons_self
  refine ⟨?_, ?_, ?_, ?_⟩
  · refine (hok.tally.foldl_decrement (hok.nodup entry hmem)).congr fun id => ?_
    rw [hheld, vouchedFor_append, vouchedFor_append, vouchedFor_cons]
    omega
  · exact fun e he => hok.nodup e (hsublist.subset he)
  · exact hok.distinct.sublist (hsublist.map _)
  · exact hsublist.length_le.trans hok.bounded

theorem hold (hmax : call.hold_max = hold_max) (hheld : epoch.Held call epoch') :
    EpochOk hold_max epoch' := by
  cases hheld with
  | refused _ => exact hok
  | copied pre post same entry hsplit _ hresp hvouchers _ =>
    have hmem : same ∈ epoch.held := hsplit ▸ mem_append_cons_self
    refine hok.replace hsplit hresp (hvouchers ▸ hok.nodup same hmem) ?_
    refine hok.tally.congr fun id => ?_
    rw [hsplit, vouchedFor_append, vouchedFor_append, vouchedFor_cons, vouchedFor_cons, hvouchers]
  | joined pre post same entry hsplit _ hresp hvouchers hnew =>
    have hmem : same ∈ epoch.held := hsplit ▸ mem_append_cons_self
    refine hok.replace hsplit hresp ?_ ?_
    · rw [hvouchers]
      exact (hok.nodup same hmem).append (nodup_singleton _)
        (disjoint_singleton.mpr hnew)
    · refine (hok.tally.increment call.peer).congr fun id => ?_
      rw [hsplit, vouchedFor_append, vouchedFor_append, vouchedFor_cons, vouchedFor_cons,
        hvouchers]
      by_cases hid : id = call.peer
      · subst hid
        simp [hnew]
        omega
      · simp [hid]
  | pushed entry hnone hroom hresp hvouchers =>
    exact hok.push (hmax ▸ hroom) hnone hresp hvouchers
  | displaced pre post weakest entry hsplit hnone hfull _ hresp hvouchers =>
    have hroom : (pre ++ post).length < hold_max := by
      have hbounded := hok.bounded
      rw [hsplit, length_append, length_cons] at hbounded
      rw [length_append]
      omega
    refine (hok.giveWay hsplit).push hroom ?_ hresp hvouchers
    exact fun e he => hnone e ((sublist_of_split hsplit).subset he)
  | dropped _ _ _ => exact hok

theorem inSet : TallyOf epoch.inSet (vouchedFor epoch.held) := by
  have hcount (held : List DSLEarlyResponse) (hnodup : ∀ e ∈ held, e.vouchers.Nodup) (id : NodeId) :
      (held.flatMap DSLEarlyResponse.vouchers).count id = vouchedFor held id := by
    induction held with
    | nil => rfl
    | cons e held ih =>
      rw [flatMap_cons, count_append, vouchedFor_cons,
        ih fun e he => hnodup e (mem_cons_of_mem _ he),
        (hnodup e mem_cons_self).count, add_comm]
  refine (TallyOf.empty.foldl_increment _).congr fun id => ?_
  rw [Nat.zero_add]
  by_cases hlive : id ∈ epoch.vouchers
  · rw [count_filter (p := fun id => id ∈ epoch.vouchers) (decide_eq_true hlive),
      hcount _ hok.nodup]
  · have hzero : vouchedFor epoch.held id = 0 := by
      by_contra hpos
      exact hlive (hok.tally.mem_iff.mpr hpos)
    rw [hzero, count_eq_zero]
    intro hmem
    exact hlive (of_decide_eq_true (mem_filter.mp hmem).2)

theorem lookup_inSet (hentry : entry ∈ epoch.held) {peer : NodeId} (hpeer : peer ∈ entry.vouchers) :
    epoch.inSet.lookup peer = some (vouchedFor epoch.held peer) := by
  have hpos : 0 < vouchedFor epoch.held peer :=
    countP_pos_iff.mpr ⟨entry, hentry, decide_eq_true hpeer⟩
  rw [hok.inSet peer, if_neg (by omega)]

end

theorem vouchers_forget (entry : DSLEarlyResponse) (id : NodeId) (lived : Bool) :
    (entry.forget id lived).vouchers = entry.vouchers.filter (· ≠ id) := by
  unfold DSLEarlyResponse.forget
  split
  · split <;> rfl
  · rename_i hnot
    refine (filter_eq_self.mpr ?_).symm
    intro j hj
    exact decide_eq_true fun heq => hnot (heq ▸ hj)

theorem key_forget (entry : DSLEarlyResponse) (id : NodeId) (lived : Bool) :
    (entry.forget id lived).key = entry.key := by
  unfold DSLEarlyResponse.forget
  split
  · split <;> rfl
  · rfl

theorem forget (hok : EpochOk hold_max epoch) (id : NodeId) (lived : Bool) :
    EpochOk hold_max (epoch.forget id lived) := by
  unfold DSLEarlyEpoch.forget
  split
  · refine ⟨?_, ?_, ?_, ?_⟩
    · refine (hok.tally.erase id).congr fun j => ?_
      unfold vouchedFor
      rw [countP_map]
      split
      next hj =>
        rw [eq_comm, countP_eq_zero]
        intro e _
        simp [vouchers_forget, hj]
      next hj =>
        refine countP_congr fun e _ => ?_
        simp [vouchers_forget, hj]
    · intro e he
      obtain ⟨before, hbefore, rfl⟩ := mem_map.mp he
      rw [vouchers_forget]
      exact (hok.nodup before hbefore).filter _
    · have hkeys : (DSLEarlyResponse.key ∘ fun e => e.forget id lived) = DSLEarlyResponse.key :=
        funext fun e => key_forget e id lived
      rw [map_map, hkeys]
      exact hok.distinct
    · rw [length_map]
      exact hok.bounded
  · exact hok

end EpochOk

def EarlyOk (hold_max : Nat) (m : EarlyResponses) : Prop :=
  ∀ nEpoch epoch, m.lookup nEpoch = some epoch → EpochOk hold_max epoch

def EarlyCall.BoundedBy (hold_max : Nat) : EarlyCall → Prop
  | .hold call => call.hold_max = hold_max
  | .forget _ _ _ => True

theorem EarlyOk.step {hold_max : Nat} (hpos : 0 < hold_max) {m : EarlyResponses}
    (hok : EarlyOk hold_max m) {sigs : Signatures} {call : EarlyCall}
    (hbound : call.BoundedBy hold_max) :
    EarlyOk hold_max (earlyStep sigs nDSLEpochInterval m call) := by
  cases call with
  | hold call =>
    intro nEpoch epoch hlookup
    simp only [earlyStep, holdDSLEarlyResponse] at hlookup
    split at hlookup
    · exact hok nEpoch epoch hlookup
    rw [AList.lookup_modifyD] at hlookup
    split at hlookup
    · cases hlookup
      refine EpochOk.hold ?_ hbound (DSLEarlyEpoch.held_hold (by rw [hbound]; exact hpos))
      cases hbefore : (m.eraseIf fun nEpoch =>
          nEpoch < call.tip_epoch ∨ call.tip_epoch + 1 < nEpoch).lookup call.resp.nEpoch with
      | none => exact EpochOk.initial hold_max
      | some epoch => exact hok _ epoch (AList.lookup_of_eraseIf hbefore)
    · exact hok nEpoch epoch (AList.lookup_of_eraseIf hlookup)
  | forget m_best_height id connected_height =>
    intro nEpoch epoch hlookup
    simp only [earlyStep, forgetDSLEarlyVoucher, AList.lookup_mapVal] at hlookup
    obtain ⟨epoch, hbefore, rfl⟩ := Option.map_eq_some_iff.mp hlookup
    exact (hok nEpoch epoch hbefore).forget id _

theorem EarlyOk.run {hold_max : Nat} (hpos : 0 < hold_max) {m : EarlyResponses} {sigs : Signatures}
    {calls : List EarlyCall} (hbound : ∀ call ∈ calls, call.BoundedBy hold_max)
    (hrun : Run (Computes (earlyStep sigs nDSLEpochInterval)) ∅ calls m) :
    EarlyOk hold_max m := by
  refine hrun.invariant_of_mem (I := EarlyOk hold_max) ?_ fun _ _ hlookup => (nomatch hlookup)
  rintro m call _ hcall hok rfl
  exact hok.step hpos (hbound call hcall)

/-! ### Crowding -/

section Crowding

variable {hold_max : Nat} {epoch epoch' : DSLEarlyEpoch} {call : HoldCall}
  {hostile : Finset NodeId} {announcements : Finset CPoSeServiceResponse}

theorem EpochOk.countP_le_card (hok : EpochOk hold_max epoch) {p : DSLEarlyResponse → Bool}
    {set : Finset CPoSeServiceResponse}
    (hset : ∀ entry ∈ epoch.held, p entry = true → entry.resp ∈ set) :
    epoch.held.countP p ≤ set.card := by
  classical
  have hnodup : ((epoch.held.filter p).map DSLEarlyResponse.resp).Nodup := by
    have hkeys : (epoch.held.filter p).map DSLEarlyResponse.key =
        ((epoch.held.filter p).map DSLEarlyResponse.resp).map fun resp =>
          (resp.proTxHash, resp.sig) := by
      rw [map_map]
      rfl
    refine Nodup.of_map (fun resp => (resp.proTxHash, resp.sig)) ?_
    rw [← hkeys]
    exact hok.distinct.sublist (filter_sublist.map _)
  calc epoch.held.countP p
      = ((epoch.held.filter p).map DSLEarlyResponse.resp).length := by
        rw [length_map, countP_eq_length_filter]
    _ = ((epoch.held.filter p).map DSLEarlyResponse.resp).toFinset.card :=
        (toFinset_card_of_nodup hnodup).symm
    _ ≤ set.card := by
        refine Finset.card_le_card ?_
        intro resp hresp
        obtain ⟨entry, hentry, rfl⟩ := mem_map.mp (mem_toFinset.mp hresp)
        obtain ⟨hmem, hp⟩ := mem_filter.mp hentry
        exact hset entry hmem hp

/-- What holds of an epoch while nobody disconnects: every entry has vouchers, honest ones only for
their announcements. -/
structure Vouched (hostile : Finset NodeId) (announcements : Finset CPoSeServiceResponse)
    (hold_max : Nat) (epoch : DSLEarlyEpoch) : Prop extends EpochOk hold_max epoch where
  vouched : ∀ entry ∈ epoch.held, entry.vouchers ≠ []
  honest : ∀ entry ∈ epoch.held, ∀ peer ∈ entry.vouchers, peer ∉ hostile →
    entry.resp ∈ announcements

namespace Vouched

variable {entry : DSLEarlyResponse} (hok : Vouched hostile announcements hold_max epoch)

include hok

theorem countP_honest_le :
    epoch.held.countP (fun entry => ∃ peer ∈ entry.vouchers, peer ∉ hostile) ≤
      announcements.card := by
  refine hok.countP_le_card fun entry hentry hp => ?_
  obtain ⟨peer, hpeer, hhonest⟩ := of_decide_eq_true hp
  exact hok.honest entry hentry peer hpeer hhonest

theorem vouchedFor_le {peer : NodeId} (hhonest : peer ∉ hostile) :
    vouchedFor epoch.held peer ≤ announcements.card :=
  hok.countP_le_card fun entry hentry hp =>
    hok.honest entry hentry peer (of_decide_eq_true hp) hhonest

theorem vouchedFor_lt (hhonest : call.peer ∉ hostile) (hcall : call.resp ∈ announcements)
    (hnone : ∀ e ∈ epoch.held, e.isCopy call.resp = false) :
    vouchedFor epoch.held call.peer < announcements.card := by
  classical
  have hothers : ∀ entry ∈ epoch.held, decide (call.peer ∈ entry.vouchers) = true →
      entry.resp ∈ announcements.erase call.resp := by
    intro entry hentry hp
    refine Finset.mem_erase.mpr ⟨?_, hok.honest entry hentry _ (of_decide_eq_true hp) hhonest⟩
    intro hresp
    refine DSLEarlyResponse.key_ne (hnone entry hentry) ?_
    rw [DSLEarlyResponse.key, hresp]
  exact lt_of_le_of_lt (hok.countP_le_card hothers) (Finset.card_erase_lt_of_mem hcall)

theorem exists_lightest (hentry : entry ∈ epoch.held) :
    ∃ peer ∈ entry.vouchers, weight (shareOf epoch.inSet entry.vouchers) =
      (vouchedFor epoch.held peer : WithTop Nat) := by
  obtain ⟨peer, hpeer⟩ := exists_mem_of_ne_nil _ (hok.vouched entry hentry)
  cases hshare : shareOf epoch.inSet entry.vouchers with
  | none =>
    have hle := weight_shareOf_le hpeer (hok.lookup_inSet hentry hpeer)
    rw [hshare] at hle
    exact absurd hle (not_le.mpr (WithTop.coe_lt_top _))
  | some n =>
    obtain ⟨peer, hpeer, hlookup⟩ := (shareOf_eq_some hshare).1
    refine ⟨peer, hpeer, ?_⟩
    rw [hok.inSet.lookup_eq_some hlookup]
    rfl

/-- In a full hold some entry weighs more than any that an honest peer vouches for. -/
theorem exists_heavy (hmax : (hostile.card + 1) * announcements.card < hold_max)
    (hfull : hold_max ≤ epoch.held.length) :
    ∃ entry ∈ epoch.held,
      (announcements.card : WithTop Nat) < weight (shareOf epoch.inSet entry.vouchers) := by
  classical
  choose! lightest hlightest using fun entry (hentry : entry ∈ epoch.held) =>
    hok.exists_lightest hentry
  have hnodup : epoch.held.Nodup := Nodup.of_map _ hok.distinct
  let crowd := epoch.held.toFinset.filter fun entry => ¬∃ peer ∈ entry.vouchers, peer ∉ hostile
  have hcrowd : hostile.card * announcements.card < crowd.card := by
    have hsplit := length_eq_countP_add_countP
      (fun entry : DSLEarlyResponse => decide (∃ peer ∈ entry.vouchers, peer ∉ hostile))
      (l := epoch.held)
    have hcard : crowd.card = epoch.held.countP fun entry =>
        ¬decide (∃ peer ∈ entry.vouchers, peer ∉ hostile) = true := by
      rw [countP_eq_length_filter, ← toFinset_card_of_nodup (hnodup.filter _),
        toFinset_filter]
      simp only [crowd, decide_eq_true_eq]
    have hhonest := hok.countP_honest_le
    rw [add_mul, one_mul] at hmax
    omega
  have hmaps : ∀ entry ∈ crowd, lightest entry ∈ hostile := by
    intro entry hentry
    obtain ⟨hmem, hcrowd⟩ := Finset.mem_filter.mp hentry
    by_contra hnot
    exact hcrowd ⟨_, (hlightest entry (mem_toFinset.mp hmem)).1, hnot⟩
  obtain ⟨peer, -, hpeer⟩ := Finset.exists_lt_card_fiber_of_mul_lt_card_of_maps_to hmaps hcrowd
  obtain ⟨entry, hentry⟩ := Finset.card_pos.mp (Nat.lt_of_le_of_lt (Nat.zero_le _) hpeer)
  obtain ⟨hcrowd, rfl⟩ := Finset.mem_filter.mp hentry
  have hmem : entry ∈ epoch.held := mem_toFinset.mp (Finset.mem_filter.mp hcrowd).1
  refine ⟨entry, hmem, ?_⟩
  rw [(hlightest entry hmem).2]
  refine WithTop.coe_lt_coe.mpr (lt_of_lt_of_le hpeer ?_)
  unfold vouchedFor
  rw [countP_eq_length_filter, ← toFinset_card_of_nodup (hnodup.filter _)]
  refine Finset.card_le_card ?_
  intro other hother
  obtain ⟨hcrowd, heq⟩ := Finset.mem_filter.mp hother
  have hheld : other ∈ epoch.held := mem_toFinset.mp (Finset.mem_filter.mp hcrowd).1
  rw [mem_toFinset, mem_filter]
  exact ⟨hheld, decide_eq_true (heq ▸ (hlightest other hheld).1)⟩

theorem weight_le (hentry : entry ∈ epoch.held) {peer : NodeId} (hpeer : peer ∈ entry.vouchers)
    (hhonest : peer ∉ hostile) :
    weight (shareOf epoch.inSet entry.vouchers) ≤ (announcements.card : WithTop Nat) :=
  (weight_shareOf_le hpeer (hok.lookup_inSet hentry hpeer)).trans
    (WithTop.coe_le_coe.mpr (hok.vouchedFor_le hhonest))

end Vouched

/-! ### Deliveries -/

def blocksEarly (nDSLEpochInterval tip : Int) (nEpoch : UInt32) : Int :=
  nEpoch.toNat * nDSLEpochInterval - tip

def tipEpoch (nDSLEpochInterval tip : Int) : UInt32 :=
  UInt32.ofNat (max tip 0).toNat / UInt32.ofNat nDSLEpochInterval.toNat

/-- A call for an epoch whose base is not connected, as `ProcessDSLMessage` makes it. -/
structure Delivery (nDSLEpochInterval : Int) (hostile : Finset NodeId)
    (announcements : Finset CPoSeServiceResponse) (hold_max : Nat) (nEpoch : UInt32)
    (call : HoldCall) : Prop where
  epoch : call.resp.nEpoch = nEpoch
  bound : call.hold_max = hold_max
  unconnected : call.connected_base = 0
  early : ∃ tip ≤ (2 ^ 31 - 1 : Int), call.tip_epoch = tipEpoch nDSLEpochInterval tip ∧
    1 ≤ blocksEarly nDSLEpochInterval tip nEpoch ∧
    blocksEarly nDSLEpochInterval tip nEpoch ≤ nDSLEpochInterval
  honest : call.peer ∉ hostile → call.resp ∈ announcements

variable {nDSLEpochInterval : Int} {nEpoch : UInt32} {done calls : List HoldCall}

theorem Delivery.inWindow (hinterval : nDSLEpochInterval ≤ 2 ^ 31 - 1)
    (hcall : Delivery nDSLEpochInterval hostile announcements hold_max nEpoch call) :
    ¬(nEpoch < call.tip_epoch ∨ call.tip_epoch + 1 < nEpoch) := by
  obtain ⟨tip, htip, hepoch, hlow, hhigh⟩ := hcall.early
  unfold blocksEarly at hlow hhigh
  obtain ⟨interval, rfl⟩ : ∃ interval : Nat, nDSLEpochInterval = interval :=
    ⟨nDSLEpochInterval.toNat, by omega⟩
  obtain ⟨height, hheight⟩ : ∃ height : Nat, max tip 0 = height := ⟨(max tip 0).toNat, by omega⟩
  have hpos : 0 < interval := by omega
  have hquot : call.tip_epoch.toNat = height / interval := by
    rw [hepoch, tipEpoch, hheight, UInt32.toNat_div, Int.toNat_natCast, Int.toNat_natCast,
      UInt32.toNat_ofNat_of_lt', UInt32.toNat_ofNat_of_lt']
    · change interval < 2 ^ 32
      omega
    · change height < 2 ^ 32
      omega
  have hle : height / interval ≤ height := Nat.div_le_self _ _
  have hnext : (call.tip_epoch + 1).toNat = height / interval + 1 := by
    rw [UInt32.toNat_add, hquot]
    refine Nat.mod_eq_of_lt ?_
    change height / interval + 1 < 2 ^ 32
    omega
  -- the base is above the tip and at most an epoch above it
  have habove : height ≤ nEpoch.toNat * interval := by
    push_cast at *
    omega
  have hbelow : nEpoch.toNat * interval ≤ height + interval := by
    push_cast at *
    omega
  rw [UInt32.lt_iff_toNat_lt, UInt32.lt_iff_toNat_lt, hquot, hnext, not_or]
  constructor
  · refine Nat.not_lt.mpr ?_
    rw [Nat.div_le_iff_le_mul_add_pred hpos]
    rw [Nat.mul_comm] at habove
    omega
  · refine Nat.not_lt.mpr ?_
    have hdiv : (nEpoch.toNat * interval) / interval ≤ (height + interval) / interval :=
      Nat.div_le_div_right hbelow
    rwa [Nat.mul_div_cancel _ hpos, Nat.add_div_right _ hpos] at hdiv

/-- After some deliveries to an epoch: whoever vouches has delivered, and what an honest peer has
delivered is held with an honest voucher. -/
structure Crowd (hostile : Finset NodeId) (hold_max : Nat) (done : List HoldCall)
    (epoch : DSLEarlyEpoch) : Prop extends EpochOk hold_max epoch where
  vouched : ∀ entry ∈ epoch.held, entry.vouchers ≠ []
  delivered : ∀ entry ∈ epoch.held, ∀ peer ∈ entry.vouchers,
    ∃ c ∈ done, c.peer = peer ∧ c.resp = entry.resp
  kept : ∀ c ∈ done, c.peer ∉ hostile → ∃ entry ∈ epoch.held, entry.resp = c.resp ∧
    ∃ peer ∈ entry.vouchers, peer ∉ hostile

namespace Crowd

theorem initial : Crowd hostile hold_max [] {} where
  toEpochOk := EpochOk.initial hold_max
  vouched := by simp
  delivered := by simp
  kept := by simp

theorem toVouched (hcrowd : Crowd hostile hold_max done epoch)
    (hdone : ∀ c ∈ done, Delivery nDSLEpochInterval hostile announcements hold_max nEpoch c) :
    Vouched hostile announcements hold_max epoch where
  toEpochOk := hcrowd.toEpochOk
  vouched := hcrowd.vouched
  honest entry hentry peer hpeer hhonest := by
    obtain ⟨c, hc, rfl, hresp⟩ := hcrowd.delivered entry hentry peer hpeer
    rw [← hresp]
    exact (hdone c hc).honest hhonest

variable {entry : DSLEarlyResponse} {vouchers : Map NodeId Nat}

section

variable (hcrowd : Crowd hostile hold_max done epoch)

include hcrowd

theorem delivered_later (hentry : entry ∈ epoch.held) {peer : NodeId}
    (hpeer : peer ∈ entry.vouchers) : ∃ c ∈ done ++ [call], c.peer = peer ∧ c.resp = entry.resp := by
  obtain ⟨c, hc, hboth⟩ := hcrowd.delivered entry hentry peer hpeer
  exact ⟨c, mem_append_left _ hc, hboth⟩

variable (hdone : ∀ c ∈ done, Delivery nDSLEpochInterval hostile announcements hold_max nEpoch c)
  (hcall : Delivery nDSLEpochInterval hostile announcements hold_max nEpoch call)

include hdone hcall

theorem resp_eq (hentry : entry ∈ epoch.held) (hcopy : entry.isCopy call.resp = true) :
    entry.resp = call.resp := by
  obtain ⟨peer, hpeer⟩ := exists_mem_of_ne_nil _ (hcrowd.vouched entry hentry)
  obtain ⟨c, hc, -, hresp⟩ := hcrowd.delivered entry hentry peer hpeer
  have hepoch : entry.resp.nEpoch = call.resp.nEpoch := by
    rw [← hresp, (hdone c hc).epoch, hcall.epoch]
  obtain ⟨hhash, hsig⟩ := of_decide_eq_true hcopy
  exact CPoSeServiceResponse.ext hepoch hhash hsig

theorem replace {pre post : List DSLEarlyResponse} {same : DSLEarlyResponse}
    (hheld : epoch.held = pre ++ same :: post) (hcopy : same.isCopy call.resp = true)
    (hresp : entry.resp = same.resp) (hsubset : same.vouchers ⊆ entry.vouchers)
    (hnew : ∀ peer ∈ entry.vouchers, peer ∈ same.vouchers ∨ peer = call.peer)
    (hhonest : call.peer ∉ hostile → ∃ peer ∈ entry.vouchers, peer ∉ hostile)
    (hok : EpochOk hold_max ⟨pre ++ entry :: post, vouchers⟩) :
    Crowd hostile hold_max (done ++ [call]) ⟨pre ++ entry :: post, vouchers⟩ := by
  have hsame : same ∈ epoch.held := hheld ▸ mem_append_cons_self
  have hcallResp : entry.resp = call.resp := by
    rw [hresp]
    exact hcrowd.resp_eq hdone hcall hsame hcopy
  have hentry : entry ∈ pre ++ entry :: post := mem_append_cons_self
  refine ⟨hok, ?_, ?_, ?_⟩
  · intro e he hnil
    rcases eq_or_mem_of_split hheld he with rfl | he
    · refine hcrowd.vouched same hsame (eq_nil_of_subset_nil ?_)
      rwa [hnil] at hsubset
    · exact hcrowd.vouched e he hnil
  · intro e he peer hpeer
    rcases eq_or_mem_of_split hheld he with rfl | he
    · rcases hnew peer hpeer with hpeer | rfl
      · rw [hresp]
        exact hcrowd.delivered_later hsame hpeer
      · exact ⟨call, mem_append_right _ mem_cons_self, rfl, hcallResp.symm⟩
    · exact hcrowd.delivered_later he hpeer
  · intro c hc hchonest
    rcases mem_append.mp hc with hc | hc
    · obtain ⟨e, he, heresp, peer, hpeer, hpeerHonest⟩ := hcrowd.kept c hc hchonest
      rw [hheld] at he
      rcases mem_cons.mp (perm_middle.mem_iff.mp he) with rfl | hother
      · exact ⟨entry, hentry, hresp.trans heresp, peer, hsubset hpeer, hpeerHonest⟩
      · exact ⟨e, (sublist_of_split rfl).subset hother, heresp, peer, hpeer, hpeerHonest⟩
    · obtain rfl := mem_singleton.mp hc
      exact ⟨entry, hentry, hcallResp, hhonest hchonest⟩

end

theorem push (hcrowd : Crowd hostile hold_max done epoch) {held : List DSLEarlyResponse}
    (hsubset : held ⊆ epoch.held)
    (hstay : ∀ e ∈ epoch.held, (∃ peer ∈ e.vouchers, peer ∉ hostile) → e ∈ held)
    (hresp : entry.resp = call.resp) (hvouchers : entry.vouchers = [call.peer])
    (hok : EpochOk hold_max ⟨held ++ [entry], vouchers⟩) :
    Crowd hostile hold_max (done ++ [call]) ⟨held ++ [entry], vouchers⟩ := by
  have hpeer : call.peer ∈ entry.vouchers := by
    rw [hvouchers]
    exact mem_cons_self
  refine ⟨hok, ?_, ?_, ?_⟩
  · intro e he
    rcases mem_append.mp he with he | he
    · exact hcrowd.vouched e (hsubset he)
    · rw [mem_singleton.mp he]
      exact ne_nil_of_mem hpeer
  · intro e he peer hpeer
    rcases mem_append.mp he with he | he
    · exact hcrowd.delivered_later (hsubset he) hpeer
    · rw [mem_singleton.mp he] at hpeer ⊢
      rw [hvouchers] at hpeer
      exact ⟨call, mem_append_right _ mem_cons_self, (mem_singleton.mp hpeer).symm,
        hresp.symm⟩
  · intro c hc hchonest
    rcases mem_append.mp hc with hc | hc
    · obtain ⟨e, he, heresp, hhonest⟩ := hcrowd.kept c hc hchonest
      exact ⟨e, mem_append_left _ (hstay e he hhonest), heresp, hhonest⟩
    · obtain rfl := mem_singleton.mp hc
      exact ⟨entry, mem_append_right _ mem_cons_self, hresp, c.peer, hpeer, hchonest⟩

theorem exists_honest (hnodup : entry.vouchers.Nodup)
    (hcap : DSL_EARLY_VOUCHERS_MAX ≤ entry.vouchers.length)
    (hfew : hostile.card < DSL_EARLY_VOUCHERS_MAX) : ∃ peer ∈ entry.vouchers, peer ∉ hostile := by
  by_contra hnone
  have hsubset : entry.vouchers.toFinset ⊆ hostile := by
    intro peer hpeer
    by_contra hhonest
    exact hnone ⟨peer, mem_toFinset.mp hpeer, hhonest⟩
  have hcard := Finset.card_le_card hsubset
  rw [toFinset_card_of_nodup hnodup] at hcard
  omega

theorem hold (hcrowd : Crowd hostile hold_max done epoch)
    (hdone : ∀ c ∈ done, Delivery nDSLEpochInterval hostile announcements hold_max nEpoch c)
    (hcall : Delivery nDSLEpochInterval hostile announcements hold_max nEpoch call)
    (hfew : hostile.card < DSL_EARLY_VOUCHERS_MAX)
    (hmax : (hostile.card + 1) * announcements.card < hold_max)
    (hheld : epoch.Held call epoch') : Crowd hostile hold_max (done ++ [call]) epoch' := by
  have hok' : EpochOk hold_max epoch' := hcrowd.toEpochOk.hold hcall.bound hheld
  have hvouched := hcrowd.toVouched hdone
  cases hheld with
  | refused hconnected => exact absurd hcall.unconnected hconnected
  | copied pre post same entry hsplit hcopy hresp hvouchers hsettled =>
    have hsame : same ∈ epoch.held := hsplit ▸ mem_append_cons_self
    refine hcrowd.replace hdone hcall hsplit hcopy hresp (hvouchers ▸ Subset.refl _)
      (fun peer hpeer => Or.inl (hvouchers ▸ hpeer)) ?_ hok'
    intro hhonest
    rw [hvouchers]
    rcases hsettled with hmem | hcap
    · exact ⟨call.peer, hmem, hhonest⟩
    · exact exists_honest (hcrowd.nodup same hsame) hcap hfew
  | joined pre post same entry hsplit hcopy hresp hvouchers hnew =>
    refine hcrowd.replace hdone hcall hsplit hcopy hresp ?_ ?_ ?_ hok'
    · rw [hvouchers]
      exact subset_append_left _ _
    · intro peer hpeer
      rw [hvouchers, mem_append, mem_singleton] at hpeer
      exact hpeer
    · intro hhonest
      rw [hvouchers]
      exact ⟨call.peer, mem_append_right _ mem_cons_self, hhonest⟩
  | pushed entry hnone hroom hresp hvouchers =>
    exact hcrowd.push (Subset.refl _) (fun e he _ => he) hresp hvouchers hok'
  | displaced pre post weakest entry hsplit hnone hfull hweakest hresp hvouchers =>
    obtain ⟨heavy, hheavy, hweight⟩ := hvouched.exists_heavy hmax (hcall.bound ▸ hfull)
    have hmem : weakest ∈ epoch.held := hsplit ▸ mem_append_cons_self
    refine hcrowd.push (sublist_of_split hsplit).subset ?_ hresp hvouchers hok'
    rintro e he ⟨peer, hpeer, hhonest⟩
    rw [hsplit] at he
    rcases mem_cons.mp (perm_middle.mem_iff.mp he) with rfl | hother
    · -- the entry that goes is too heavy for an honest voucher
      have hle := hvouched.weight_le hmem hpeer hhonest
      exact absurd (hweight.trans_le (hweakest heavy hheavy)) (not_lt.mpr hle)
    · exact hother
  | dropped hnone hfull hlight =>
    obtain ⟨heavy, hheavy, hweight⟩ := hvouched.exists_heavy hmax (hcall.bound ▸ hfull)
    have hhostile : call.peer ∈ hostile := by
      by_contra hhonest
      have hlt := hvouched.vouchedFor_lt hhonest (hcall.honest hhonest) hnone
      have hle := hlight heavy hheavy
      rw [hcrowd.toEpochOk.inSet.lookup_getD] at hle
      have hcard : announcements.card < vouchedFor epoch.held call.peer + 1 :=
        WithTop.coe_lt_coe.mp (hweight.trans_le hle)
      omega
    refine ⟨hok', hcrowd.vouched, fun e he peer hpeer => hcrowd.delivered_later he hpeer, ?_⟩
    intro c hc hchonest
    rcases mem_append.mp hc with hc | hc
    · exact hcrowd.kept c hc hchonest
    · rw [mem_singleton.mp hc] at hchonest
      exact absurd hhostile hchonest

theorem run {sigs : Signatures} (hinterval : nDSLEpochInterval ≤ 2 ^ 31 - 1)
    (hfew : hostile.card < DSL_EARLY_VOUCHERS_MAX)
    (hmax : (hostile.card + 1) * announcements.card < hold_max) {m m' : EarlyResponses}
    (hcrowd : Crowd hostile hold_max done ((m.lookup nEpoch).getD {}))
    (hcalls : ∀ c ∈ done ++ calls,
      Delivery nDSLEpochInterval hostile announcements hold_max nEpoch c)
    (hrun : Run (Computes (earlyStep sigs nDSLEpochInterval)) m (calls.map .hold) m') :
    Crowd hostile hold_max (done ++ calls) ((m'.lookup nEpoch).getD {}) := by
  induction calls generalizing done m with
  | nil =>
    cases hrun
    rwa [append_nil]
  | cons call calls ih =>
    cases hrun with
    | cons hstep hrest =>
      subst hstep
      have hcall := hcalls call (mem_append_right _ mem_cons_self)
      have hstep : ((earlyStep sigs nDSLEpochInterval m (.hold call)).lookup nEpoch).getD {} =
          ((m.lookup nEpoch).getD {}).hold sigs call := by
        simp only [earlyStep, holdDSLEarlyResponse, hcall.unconnected, ne_eq, not_true_eq_false,
          false_and, if_false, AList.lookup_modifyD, AList.lookup_eraseIf, hcall.epoch,
          if_true, Option.getD_some, decide_eq_true_eq]
        rw [if_neg (hcall.inWindow hinterval)]
      have hnext : Crowd hostile hold_max (done ++ [call])
          (((earlyStep sigs nDSLEpochInterval m (.hold call)).lookup nEpoch).getD {}) := by
        rw [hstep]
        refine hcrowd.hold (fun c hc => hcalls c (mem_append_left _ hc)) hcall hfew hmax
          (DSLEarlyEpoch.held_hold ?_)
        rw [hcall.bound]
        omega
      rw [append_cons]
      exact ih hnext (by rwa [← append_cons]) hrest

end Crowd

end Crowding

/-- **The hold cannot be crowded out and its tally is exact**, where the hostile peers are few for
the size of the hold. -/
theorem early_hold_not_crowded_out (sigs : Signatures) {nDSLEpochInterval : Int}
    (hinterval : nDSLEpochInterval ≤ 2 ^ 31 - 1) {hold_max k : Nat} {hostile : Finset NodeId}
    {announcements : Finset CPoSeServiceResponse} (hhostile : hostile.card ≤ k)
    (hk : k < DSL_EARLY_VOUCHERS_MAX) (hmax : (k + 1) * announcements.card < hold_max) :
    (∀ {nEpoch : UInt32} {m m' : EarlyResponses} {calls : List HoldCall},
      m.lookup nEpoch = none →
      (∀ c ∈ calls, Delivery nDSLEpochInterval hostile announcements hold_max nEpoch c) →
      Run (Computes (earlyStep sigs nDSLEpochInterval)) m (calls.map .hold) m' →
      ∀ c ∈ calls, c.peer ∉ hostile → ∃ epoch, m'.lookup nEpoch = some epoch ∧
        ∃ entry ∈ epoch.held, entry.resp = c.resp ∧ ∃ peer ∈ entry.vouchers, peer ∉ hostile ∧
          ∃ c' ∈ calls, c'.peer = peer ∧ c'.resp = c.resp) ∧
    ∀ {m : EarlyResponses} {calls : List EarlyCall},
      (∀ call ∈ calls, call.BoundedBy hold_max) →
      Run (Computes (earlyStep sigs nDSLEpochInterval)) ∅ calls m →
      ∀ nEpoch epoch, m.lookup nEpoch = some epoch →
        (∀ id, (epoch.vouchers.lookup id).getD 0 =
          epoch.held.countP fun entry => id ∈ entry.vouchers) ∧
        epoch.held.Pairwise (fun a b =>
          ¬(a.resp.proTxHash = b.resp.proTxHash ∧ a.resp.sig = b.resp.sig)) ∧
        epoch.held.length ≤ hold_max := by
  have hmax' : (hostile.card + 1) * announcements.card < hold_max :=
    lt_of_le_of_lt (Nat.mul_le_mul_right _ (Nat.succ_le_succ hhostile)) hmax
  constructor
  · intro nEpoch m m' calls hfresh hcalls hrun c hc hhonest
    have hinitial : Crowd hostile hold_max [] ((m.lookup nEpoch).getD {}) := by
      rw [hfresh]
      exact Crowd.initial
    have hcrowd : Crowd hostile hold_max calls ((m'.lookup nEpoch).getD {}) :=
      hinitial.run hinterval (lt_of_le_of_lt hhostile hk) hmax' hcalls hrun
    obtain ⟨entry, hentry, hresp, peer, hpeer, hpeerHonest⟩ := hcrowd.kept c hc hhonest
    obtain ⟨c', hc', hc'peer, hc'resp⟩ := hcrowd.delivered entry hentry peer hpeer
    cases hepoch : m'.lookup nEpoch with
    | none =>
      rw [hepoch] at hentry
      cases hentry
    | some epoch =>
      rw [hepoch, Option.getD_some] at hentry
      exact ⟨epoch, rfl, entry, hentry, hresp, peer, hpeer, hpeerHonest, c', hc', hc'peer,
        hc'resp.trans hresp⟩
  · intro m calls hbound hrun nEpoch epoch hepoch
    have hok := EarlyOk.run (by omega) hbound hrun nEpoch epoch hepoch
    refine ⟨hok.tally.lookup_getD, ?_, hok.bounded⟩
    refine (pairwise_map.mp hok.distinct).imp fun hne hsame => hne ?_
    exact Prod.ext hsame.1 hsame.2

namespace Sample

def earlyResponse (i : Nat) : CPoSeServiceResponse :=
  ⟨1, BitVec.ofNat 256 i, some (BitVec.ofNat 768 i)⟩

def delivery (peer : NodeId) (i : Nat) : HoldCall :=
  ⟨peer, earlyResponse i, 0, 3, 0, none, 0, 0⟩

def deliveries : List HoldCall :=
  [delivery 7 2, delivery 7 3, delivery 7 4, delivery 7 5, delivery 1 6]

end Sample

open Sample

theorem early_hold_not_crowded_out_flooded :
    ∃ epoch, ((deliveries.map EarlyCall.hold).foldl (earlyStep scheme 8) ∅).lookup 1 =
        some epoch ∧
      (∃ entry ∈ epoch.held, entry.resp = earlyResponse 6 ∧ 1 ∈ entry.vouchers) ∧
      (epoch.vouchers.lookup 7).getD 0 = epoch.held.countP (fun entry => 7 ∈ entry.vouchers) := by
  have hdeliveries : ∀ c ∈ deliveries,
      Delivery 8 {7} {earlyResponse 6} 3 1 c := by
    have hhostile (i : Nat) : Delivery 8 {7} {earlyResponse 6} 3 1 (delivery 7 i) :=
      ⟨rfl, rfl, rfl, ⟨5, by decide, rfl, by decide, by decide⟩,
        fun h => absurd (Finset.mem_singleton_self _) h⟩
    have hhonest : Delivery 8 {7} {earlyResponse 6} 3 1 (delivery 1 6) :=
      ⟨rfl, rfl, rfl, ⟨5, by decide, rfl, by decide, by decide⟩,
        fun _ => Finset.mem_singleton_self _⟩
    simp only [deliveries, forall_mem_cons]
    exact ⟨hhostile 2, hhostile 3, hhostile 4, hhostile 5, hhonest, forall_mem_nil _⟩
  obtain ⟨hheld, hexact⟩ := early_hold_not_crowded_out scheme
    (by decide : (8 : Int) ≤ 2 ^ 31 - 1)
    (le_refl ({7} : Finset NodeId).card) (by decide)
    (by decide : (({7} : Finset NodeId).card + 1) *
      ({earlyResponse 6} : Finset CPoSeServiceResponse).card < 3)
  have hrun := Run.computes (earlyStep scheme 8) ∅ (deliveries.map EarlyCall.hold)
  obtain ⟨epoch, hepoch, entry, hentry, hresp, peer, hpeer, -, c, hc, hcpeer, hcresp⟩ :=
    hheld rfl hdeliveries hrun (delivery 1 6) (by simp [deliveries]) (by decide)
  have hbound : ∀ call ∈ deliveries.map EarlyCall.hold, call.BoundedBy 3 := by
    intro call hcall
    obtain ⟨c, hc, rfl⟩ := mem_map.mp hcall
    exact (hdeliveries c hc).bound
  have hone : peer = 1 := by
    have hsender : ∀ c ∈ deliveries, c.resp.proTxHash = (delivery 1 6).resp.proTxHash →
        c.peer = 1 := by
      decide +kernel
    exact hcpeer.symm.trans (hsender c hc (hcresp ▸ rfl))
  exact ⟨epoch, hepoch, ⟨entry, hentry, hresp, hone ▸ hpeer⟩,
    (hexact hbound hrun 1 epoch hepoch).1 7⟩

end Defcon.Dsl
