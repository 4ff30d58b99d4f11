import Defcon.Lib.Fallible
import Defcon.Lib.Run
import Defcon.Evo.MasternodeState

/-!
# The masternode list

`CDeterministicMNList`: the listed masternodes by `proTxHash` and by internal id, and a counted
map of the properties that no two of them may share. Its maps are iterated in the order of their
entries, which stands for any order a hash map may have. What throws in the source is a
`ListError.runtimeError` here, with the text up to the value that is printed.
-/

namespace Defcon.Evo

open List Lib
open AList (Map)
open Lib (refuseIf need)

inductive ListError where
  /-- An exception of one of the list's operations. -/
  | runtimeError (what : String)
  | invalid (reason : String)
  | assertion (what : String)
  deriving DecidableEq, Repr

/-- A property of a masternode that is unique in a list, filed under its hash in the source. -/
inductive UniqueProperty where
  | collateralOutpoint (o : COutPoint)
  | addr (a : CService)
  | keyIDOwner (k : CKeyID)
  | pubKeyOperator (k : Option (BitVec 384 × Bool))
  deriving DecidableEq, Repr

def UniqueProperty.isNull : UniqueProperty → Bool
  | .collateralOutpoint o => o.isNull
  | .addr a => a = {}
  | .keyIDOwner k => k = 0
  | .pubKeyOperator k => k.isNone

abbrev MnUniquePropertyMap := Map UniqueProperty (Uint256 × Nat)

namespace MnUniquePropertyMap

variable (m : MnUniquePropertyMap) (proTxHash : Uint256)

def addUniqueProperty (v : UniqueProperty) : Option MnUniquePropertyMap :=
  if v.isNull then none
  else match m.lookup v with
    | none => some (m.insert v (proTxHash, 1))
    | some (owner, count) =>
      if owner ≠ proTxHash then none else some (m.insert v (proTxHash, count + 1))

def deleteUniqueProperty (oldValue : UniqueProperty) : Option MnUniquePropertyMap :=
  if oldValue.isNull then none
  else match m.lookup oldValue with
    | none => none
    | some (owner, count) =>
      if owner ≠ proTxHash then none
      else if count = 1 then some (m.erase oldValue)
      else some (m.insert oldValue (proTxHash, count - 1))

def updateUniqueProperty (oldValue newValue : UniqueProperty) : Option MnUniquePropertyMap :=
  if oldValue = newValue then some m
  else do
    let m ← if oldValue.isNull then some m else deleteUniqueProperty m proTxHash oldValue
    if newValue.isNull then some m else addUniqueProperty m proTxHash newValue

end MnUniquePropertyMap

theorem keyed_empty {h : Uint256} {dmn : CDeterministicMN}
    (hlookup : (∅ : Map Uint256 CDeterministicMN).lookup h = some dmn) : dmn.proTxHash = h := by
  cases hlookup

structure CDeterministicMNList where
  blockHash : Uint256 := 0
  nHeight : Int := -1
  nTotalRegisteredCount : Nat := 0
  mnMap : Map Uint256 CDeterministicMN := ∅
  mnInternalIdMap : Map Nat Uint256 := ∅
  mnUniquePropertyMap : MnUniquePropertyMap := ∅
  mnMap_keyed : ∀ {h dmn}, mnMap.lookup h = some dmn → dmn.proTxHash = h := by
    exact @Evo.keyed_empty

namespace CDeterministicMNList

variable (dmn : CDeterministicMN)

def isMNPoSeBanned : Bool :=
  dmn.pdmnState.isBanned

def isMNValid : Bool :=
  !isMNPoSeBanned dmn

variable (l : CDeterministicMNList)

/-- `*this == CDeterministicMNList()`. -/
def isDefault : Bool :=
  l.blockHash = 0 ∧ l.nHeight = -1 ∧ l.nTotalRegisteredCount = 0 ∧ l.mnMap.entries.isEmpty ∧
    l.mnInternalIdMap.entries.isEmpty ∧ l.mnUniquePropertyMap.entries.isEmpty

variable (proTxHash : Uint256)

def getMN : Option CDeterministicMN :=
  l.mnMap.lookup proTxHash

def hasMN : Bool :=
  (l.getMN proTxHash).isSome

def getAllMNsCount : Nat :=
  l.mnMap.entries.length

def mns (onlyValid : Bool) : List CDeterministicMN :=
  (l.mnMap.entries.map Sigma.snd).filter fun dmn => !onlyValid || isMNValid dmn

def hasUniqueProperty (v : UniqueProperty) : Bool :=
  (l.mnUniquePropertyMap.lookup v).isSome

def getUniquePropertyMN (v : UniqueProperty) : Option CDeterministicMN :=
  match l.mnUniquePropertyMap.lookup v with
  | none => none
  | some (owner, _) => l.getMN owner

def getMNByCollateral (collateralOutpoint : COutPoint) : Option CDeterministicMN :=
  l.getUniquePropertyMN (.collateralOutpoint collateralOutpoint)

def hasOperatorKeyUnderAnyScheme (pubkey : Llmq.CBLSPublicKey) (self : Uint256) : Bool :=
  [true, false].any fun legacy =>
    let wrapped : CBLSLazyPublicKey := ⟨pubkey, legacy⟩
    match l.getUniquePropertyMN (.pubKeyOperator wrapped.serialized) with
    | none => false
    | some holder => holder.proTxHash ≠ self

/-! ### Adding, updating and removing -/

def setMN (dmn : CDeterministicMN) : CDeterministicMNList :=
  { l with
    mnMap := l.mnMap.insert dmn.proTxHash dmn
    mnMap_keyed := by
      intro h dmn' hlookup
      rcases AList.lookup_of_insert hlookup with ⟨rfl, rfl⟩ | hlookup
      · rfl
      · exact l.mnMap_keyed hlookup }

def eraseMN : CDeterministicMNList :=
  { l with
    mnMap := l.mnMap.erase proTxHash
    mnMap_keyed := by
      exact fun hlookup => l.mnMap_keyed (AList.lookup_of_erase hlookup) }

def addMN (dmn : CDeterministicMN) (fBumpTotalCount : Bool := true) :
    Except ListError CDeterministicMNList := do
  let state := dmn.pdmnState
  refuseIf (l.hasMN dmn.proTxHash)
    (.runtimeError "AddMN: Can't add a masternode with a duplicate proTxHash=")
  refuseIf (l.mnInternalIdMap.lookup dmn.internalId).isSome
    (.runtimeError "AddMN: Can't add a masternode with a duplicate internalId=")
  let m ← need (.runtimeError "AddMN: Can't add a masternode with a duplicate collateralOutpoint=")
    (l.mnUniquePropertyMap.addUniqueProperty dmn.proTxHash
      (.collateralOutpoint dmn.collateralOutpoint))
  let m ← need (.runtimeError "AddMN: Can't add a masternode with a duplicate address=")
    (if state.addr = {} then some m else m.addUniqueProperty dmn.proTxHash (.addr state.addr))
  let m ← need (.runtimeError "AddMN: Can't add a masternode with a duplicate keyIDOwner=")
    (m.addUniqueProperty dmn.proTxHash (.keyIDOwner state.keyIDOwner))
  let m ← need (.runtimeError "AddMN: Can't add a masternode with a duplicate pubKeyOperator=")
    (if state.pubKeyOperator.isNull then some m
     else m.addUniqueProperty dmn.proTxHash (.pubKeyOperator state.pubKeyOperator.serialized))
  return { l.setMN dmn with
    mnInternalIdMap := l.mnInternalIdMap.insert dmn.internalId dmn.proTxHash
    mnUniquePropertyMap := m
    nTotalRegisteredCount :=
      if fBumpTotalCount then max (dmn.internalId + 1) l.nTotalRegisteredCount
      else l.nTotalRegisteredCount }

def updateDmn (oldDmn : CDeterministicMN) (state : CDeterministicMNState) :
    Except ListError CDeterministicMNList := do
  let oldState := oldDmn.pdmnState
  let m ← need (.runtimeError "UpdateMN: Can't update a masternode with a duplicate address=")
    (l.mnUniquePropertyMap.updateUniqueProperty oldDmn.proTxHash
      (.addr oldState.addr) (.addr state.addr))
  let m ← need (.runtimeError "UpdateMN: Can't update a masternode with a duplicate keyIDOwner=")
    (m.updateUniqueProperty oldDmn.proTxHash
      (.keyIDOwner oldState.keyIDOwner) (.keyIDOwner state.keyIDOwner))
  let m ← need
    (.runtimeError "UpdateMN: Can't update a masternode with a duplicate pubKeyOperator=")
    (m.updateUniqueProperty oldDmn.proTxHash (.pubKeyOperator oldState.pubKeyOperator.serialized)
      (.pubKeyOperator state.pubKeyOperator.serialized))
  return { l.setMN { oldDmn with pdmnState := state } with mnUniquePropertyMap := m }

def updateMN (state : CDeterministicMNState) : Except ListError CDeterministicMNList := do
  let oldDmn ← need (.runtimeError "UpdateMN: Can't find a masternode with proTxHash=")
    (l.getMN proTxHash)
  l.updateDmn oldDmn state

def removeMN : Except ListError CDeterministicMNList := do
  let dmn ← need (.runtimeError "RemoveMN: Can't find a masternode with proTxHash=")
    (l.getMN proTxHash)
  let state := dmn.pdmnState
  let m ← need (.runtimeError "RemoveMN: Can't delete a masternode with a collateralOutpoint=")
    (l.mnUniquePropertyMap.deleteUniqueProperty dmn.proTxHash
      (.collateralOutpoint dmn.collateralOutpoint))
  let m ← need (.runtimeError "RemoveMN: Can't delete a masternode with a address=")
    (if state.addr = {} then some m else m.deleteUniqueProperty dmn.proTxHash (.addr state.addr))
  let m ← need (.runtimeError "RemoveMN: Can't delete a masternode with a keyIDOwner=")
    (m.deleteUniqueProperty dmn.proTxHash (.keyIDOwner state.keyIDOwner))
  let m ← need (.runtimeError "RemoveMN: Can't delete a masternode with a pubKeyOperator=")
    (if state.pubKeyOperator.isNull then some m
     else m.deleteUniqueProperty dmn.proTxHash (.pubKeyOperator state.pubKeyOperator.serialized))
  return { l.eraseMN proTxHash with
    mnInternalIdMap := l.mnInternalIdMap.erase dmn.internalId
    mnUniquePropertyMap := m }

/-! ### Selection -/

def compareByLastPaidGetHeight : Int :=
  let height := dmn.pdmnState.nLastPaidHeight
  if dmn.pdmnState.nPoSeRevivedHeight ≠ -1 ∧ height < dmn.pdmnState.nPoSeRevivedHeight then
    dmn.pdmnState.nPoSeRevivedHeight
  else if height = 0 then dmn.pdmnState.nRegisteredHeight
  else height

def compareByLastPaid (a b : CDeterministicMN) : Bool :=
  let ah := compareByLastPaidGetHeight a
  let bh := compareByLastPaidGetHeight b
  if ah = bh then a.proTxHash < b.proTxHash else ah < bh

variable (params : ConsensusParams)

def getEffectivePaymentWeight (dmn : CDeterministicMN) : Int :=
  if dmn.pdmnState.fRewardSuspended then 0
  else
    let payment_weight := params.paymentWeight dmn.nType
    if 1 < payment_weight ∧ dmn.nType = .compute ∧
        !dmn.pdmnState.computeDescriptor.isCertValidAt l.nHeight then 1
    else payment_weight

def runningPayee : Option CDeterministicMN :=
  (l.mns true).foldl (fun best dmn =>
    if dmn.pdmnState.nLastPaidHeight = l.nHeight ∧
        1 < l.getEffectivePaymentWeight params dmn ∧
        dmn.pdmnState.nConsecutivePayments < l.getEffectivePaymentWeight params dmn then some dmn
    else best) none

def longestUnpaid : Option CDeterministicMN :=
  (l.mns true).foldl (fun best dmn =>
    if dmn.pdmnState.fRewardSuspended then best
    else match best with
      | none => some dmn
      | some b => if compareByLastPaid dmn b then some dmn else best) none

def getMNPayee (isMNRewardReallocation : Bool) : Option CDeterministicMN :=
  if l.mnMap.entries.isEmpty then none
  else if isMNRewardReallocation then l.longestUnpaid
  else (l.runningPayee params).or l.longestUnpaid

variable (sha256 : Uint256 → Uint256 → Uint256)

/-- `sha256` hashes the concatenation of its arguments; scores are compared as numbers. -/
def calculateScores (modifier : Uint256) : List (Uint256 × CDeterministicMN) :=
  ((l.mns true).filter fun dmn => dmn.pdmnState.confirmedHash ≠ 0).map fun dmn =>
    (sha256 dmn.pdmnState.confirmedHashWithProRegTxHash modifier, dmn)

def collateralBefore (a b : COutPoint) : Bool :=
  a.hash < b.hash ∨ a.hash = b.hash ∧ a.n < b.n

def scoredBefore (a b : Uint256 × CDeterministicMN) : Bool :=
  if a.1 = b.1 then collateralBefore b.2.collateralOutpoint a.2.collateralOutpoint else b.1 < a.1

def calculateQuorum (maxSize : Nat) (modifier : Uint256) : List CDeterministicMN :=
  (((l.calculateScores sha256 modifier).insertionSort fun a b => scoredBefore a b).take
    maxSize).map Prod.snd

def takeSentinels (targetProTxHash : Uint256) (count : Nat) :
    List (Uint256 × CDeterministicMN) → List Uint256 → List Uint256
  | [], out => out
  | score :: scores, out =>
    if score.2.proTxHash = targetProTxHash then takeSentinels targetProTxHash count scores out
    else if (out ++ [score.2.proTxHash]).length = count then out ++ [score.2.proTxHash]
    else takeSentinels targetProTxHash count scores (out ++ [score.2.proTxHash])

def sentinelBefore (a b : Uint256 × CDeterministicMN) : Bool :=
  if a.1 ≠ b.1 then a.1 < b.1 else a.2.proTxHash < b.2.proTxHash

/-- `modifier` is the hash of the target and the epoch's block hash. -/
def calcSentinelsForMN (targetProTxHash modifier : Uint256) (count : Nat) : List Uint256 :=
  takeSentinels targetProTxHash count
    (((l.calculateScores sha256 modifier).insertionSort fun a b => sentinelBefore a b).take
      (count + 1)) []

/-! ### PoSe penalties -/

def calcMaxPoSePenalty : Int :=
  max 100 l.getAllMNsCount

def calcPenalty (percent : Int) : Int :=
  (l.calcMaxPoSePenalty * percent) / 100

def punished (state : CDeterministicMNState) (penalty : Int) : CDeterministicMNState :=
  let state := { state with nPoSePenalty := min l.calcMaxPoSePenalty (state.nPoSePenalty + penalty) }
  if l.calcMaxPoSePenalty ≤ state.nPoSePenalty ∧ !state.isBanned then
    state.banIfNotBanned l.nHeight
  else state

def poSePunish (penalty : Int) : Except ListError CDeterministicMNList := do
  let dmn ← need (.runtimeError "PoSePunish: Can't find a masternode with proTxHash=")
    (l.getMN proTxHash)
  l.updateMN proTxHash (l.punished dmn.pdmnState penalty)

def poSeDecrease (dmn : CDeterministicMN) : Except ListError CDeterministicMNList :=
  l.updateDmn dmn { dmn.pdmnState with nPoSePenalty := dmn.pdmnState.nPoSePenalty - 1 }

def decreaseScores : Except ListError CDeterministicMNList :=
  ((l.mns true).filter fun dmn => 0 < dmn.pdmnState.nPoSePenalty).foldlM poSeDecrease l

end CDeterministicMNList

/-! ### Service commitments -/

/-- `CPoSeServiceCommitment`, without the quorum that signed it. -/
structure CPoSeServiceCommitment where
  nVersion : UInt16
  nEpoch : Nat
  epochBlockHash : Uint256
  missed : List Bool
  observed : List Bool
  deriving DecidableEq, Repr

namespace CPoSeServiceCommitment

def OBSERVED_VERSION : UInt16 := 2

variable (commitment : CPoSeServiceCommitment)

def countMissed : Nat :=
  commitment.missed.count true

def isObserved (i : Nat) : Bool :=
  commitment.nVersion < OBSERVED_VERSION ∨ commitment.observed.getD i false

def massOutage (params : ConsensusParams) : Bool :=
  0 < commitment.missed.length ∧
    commitment.missed.length * params.nDSLMassOutagePct ≤ commitment.countMissed * 100

def verdict (params : ConsensusParams) (nHeight : Int) (i : Nat) (state : CDeterministicMNState) :
    CDeterministicMNState :=
  let enforce : Bool := params.nDSLEnforcementHeight ≤ nHeight
  let state := { state with nLastServiceEpoch := commitment.nEpoch }
  if commitment.massOutage params then state
  else if !commitment.isObserved i then state
  else if !commitment.missed.getD i false then
    let state := { state with nMissedEpochs := 0 }
    if enforce then { state with fRewardSuspended := false, nDSLBanHeight := -1 } else state
  else
    let state := { state with nMissedEpochs := state.nMissedEpochs + 1 }
    if enforce then
      { state with
        fRewardSuspended := state.fRewardSuspended ∨ params.nDSLSuspendEpochs ≤ state.nMissedEpochs
        nDSLBanHeight :=
          if params.nDSLBanEpochs ≤ state.nMissedEpochs ∧ state.nDSLBanHeight = -1 then nHeight
          else state.nDSLBanHeight }
    else state

end CPoSeServiceCommitment

namespace CDeterministicMNList

variable (l : CDeterministicMNList)

def canonicalOrder : List Uint256 :=
  ((l.mns false).map CDeterministicMN.proTxHash).insertionSort fun a b => a ≤ b

def applyServiceCommitment (params : ConsensusParams) (commitment : CPoSeServiceCommitment)
    (epochBaseList : CDeterministicMNList) (nHeight : Int) :
    Except ListError CDeterministicMNList :=
  let order := epochBaseList.canonicalOrder
  if order.length ≠ commitment.missed.length then .ok l
  else if CPoSeServiceCommitment.OBSERVED_VERSION ≤ commitment.nVersion ∧
      commitment.observed.length ≠ order.length then .ok l
  else order.zipIdx.foldlM (fun l entry =>
    match l.getMN entry.1 with
    | none => .ok l
    | some dmn => l.updateMN entry.1 (commitment.verdict params nHeight entry.2 dmn.pdmnState)) l

def serviceVerdict (params : ConsensusParams) (commitment : CPoSeServiceCommitment)
    (epochBaseList : CDeterministicMNList) (nHeight : Int) (proTxHash : Uint256)
    (state : CDeterministicMNState) : CDeterministicMNState :=
  let order := epochBaseList.canonicalOrder
  if order.length ≠ commitment.missed.length then state
  else if CPoSeServiceCommitment.OBSERVED_VERSION ≤ commitment.nVersion ∧
      commitment.observed.length ≠ order.length then state
  else if proTxHash ∈ order then
    commitment.verdict params nHeight (order.idxOf proTxHash) state
  else state

end CDeterministicMNList

def CDeterministicMN.withState (dmn : CDeterministicMN) (state : CDeterministicMNState) :
    CDeterministicMN :=
  { dmn with pdmnState := state }

/-! ### What the operations do to the listed masternodes -/

namespace CDeterministicMNList

variable {l l' : CDeterministicMNList} {dmn : CDeterministicMN} {state : CDeterministicMNState}
  {h proTxHash : Uint256}

theorem proTxHash_of_getMN (hget : l.getMN h = some dmn) : dmn.proTxHash = h :=
  l.mnMap_keyed hget

theorem addMN_ok {fBumpTotalCount : Bool} (hadd : l.addMN dmn fBumpTotalCount = .ok l') :
    l.getMN dmn.proTxHash = none ∧
      ∀ h, l'.getMN h = if h = dmn.proTxHash then some dmn else l.getMN h := by
  simp only [addMN, bind_eq_ok, refuseIf_eq_ok, pure_eq_ok] at hadd
  obtain ⟨-, hnew, -, -, -, -, -, -, -, -, -, -, rfl⟩ := hadd
  refine ⟨?_, fun h => AList.lookup_insert_eq_ite _ _ _ _⟩
  simpa [hasMN] using hnew

theorem updateDmn_ok (hupdate : l.updateDmn dmn state = .ok l') (h : Uint256) :
    l'.getMN h = if h = dmn.proTxHash then some (dmn.withState state) else l.getMN h := by
  simp only [updateDmn, bind_eq_ok, pure_eq_ok] at hupdate
  obtain ⟨-, -, -, -, -, -, rfl⟩ := hupdate
  exact AList.lookup_insert_eq_ite _ _ _ _

theorem updateMN_ok (hupdate : l.updateMN proTxHash state = .ok l') :
    ∃ dmn, l.getMN proTxHash = some dmn ∧
      ∀ h, l'.getMN h = if h = proTxHash then some (dmn.withState state) else l.getMN h := by
  simp only [updateMN, bind_eq_ok, need_eq_ok] at hupdate
  obtain ⟨dmn, hget, hupdate⟩ := hupdate
  refine ⟨dmn, hget, fun h => ?_⟩
  rw [updateDmn_ok hupdate, proTxHash_of_getMN hget]

theorem removeMN_ok (hremove : l.removeMN proTxHash = .ok l') (h : Uint256) :
    l'.getMN h = if h = proTxHash then none else l.getMN h := by
  simp only [removeMN, bind_eq_ok, pure_eq_ok] at hremove
  obtain ⟨-, -, -, -, -, -, -, -, -, -, rfl⟩ := hremove
  exact AList.lookup_erase_eq_ite _ _ _

theorem mem_mns_iff {onlyValid : Bool} :
    dmn ∈ l.mns onlyValid ↔
      l.getMN dmn.proTxHash = some dmn ∧ (onlyValid = true → isMNValid dmn = true) := by
  have hentry : (∃ e ∈ l.mnMap.entries, e.2 = dmn) ↔ l.getMN dmn.proTxHash = some dmn := by
    constructor
    · rintro ⟨e, he, rfl⟩
      have hlookup : l.mnMap.lookup e.1 = some e.2 := AList.mem_lookup_iff.mpr he
      rwa [getMN, l.mnMap_keyed hlookup]
    · intro hget
      exact ⟨_, AList.mem_lookup_iff.mp hget, rfl⟩
  rw [mns, mem_filter, mem_map, hentry]
  cases onlyValid <;> simp

theorem mem_mns_of_getMN (hget : l.getMN h = some dmn) : dmn ∈ l.mns false := by
  obtain rfl := l.mnMap_keyed hget
  exact mem_mns_iff.mpr ⟨hget, (absurd · Bool.false_ne_true)⟩

theorem nodup_mns (onlyValid : Bool) :
    ((l.mns onlyValid).map CDeterministicMN.proTxHash).Nodup := by
  have hkeys : (l.mnMap.entries.map Sigma.snd).map CDeterministicMN.proTxHash = l.mnMap.keys := by
    rw [map_map, AList.keys, keys]
    refine map_congr_left fun e he => ?_
    exact l.mnMap_keyed (AList.mem_lookup_iff.mpr he)
  have hnodup := l.mnMap.keys_nodup
  rw [← hkeys] at hnodup
  exact hnodup.sublist (filter_sublist.map _)

theorem getMN_foldlM {α : Type} (key : α → Uint256) (f : α → CDeterministicMN → CDeterministicMN)
    {step : CDeterministicMNList → α → Except ListError CDeterministicMNList}
    {l₀ : CDeterministicMNList} {xs : List α}
    (hstep : ∀ {l a l'}, a ∈ xs → l.getMN (key a) = l₀.getMN (key a) → step l a = .ok l' →
      ∀ h, l'.getMN h = if h = key a then (l₀.getMN h).map (f a) else l.getMN h)
    (hnodup : (xs.map key).Nodup) (hsame : ∀ a ∈ xs, l.getMN (key a) = l₀.getMN (key a))
    (hfold : xs.foldlM step l = .ok l') :
    (∀ a ∈ xs, l'.getMN (key a) = (l₀.getMN (key a)).map (f a)) ∧
      ∀ h, h ∉ xs.map key → l'.getMN h = l.getMN h := by
  induction xs generalizing l with
  | nil =>
    obtain rfl : l = l' := by simpa using hfold
    exact ⟨fun a ha => absurd ha not_mem_nil, fun h _ => rfl⟩
  | cons a xs ih =>
    rw [foldlM_cons, bind_eq_ok] at hfold
    obtain ⟨mid, hmid, hrest⟩ := hfold
    rw [map_cons, nodup_cons] at hnodup
    have hmidGet := hstep mem_cons_self (hsame a mem_cons_self) hmid
    have hne {b : α} (hb : b ∈ xs) : key b ≠ key a := by
      intro heq
      exact hnodup.1 (heq ▸ mem_map_of_mem hb)
    obtain ⟨hin, hout⟩ := ih (fun hb => hstep (mem_cons_of_mem _ hb)) hnodup.2
      (fun b hb => by rw [hmidGet, if_neg (hne hb), hsame b (mem_cons_of_mem _ hb)]) hrest
    constructor
    · intro b hb
      cases mem_cons.mp hb with
      | inl heq =>
        subst heq
        rw [hout _ hnodup.1, hmidGet, if_pos rfl]
      | inr hb => exact hin b hb
    · intro h hh
      rw [map_cons, mem_cons, not_or] at hh
      rw [hout h hh.2, hmidGet, if_neg hh.1]

variable {dmns : List CDeterministicMN} {params : ConsensusParams}

theorem getMN_foldlM_mns {g : CDeterministicMN → CDeterministicMNState}
    {step : CDeterministicMNList → CDeterministicMN → Except ListError CDeterministicMNList}
    {onlyValid : Bool} (hdmns : dmns.Sublist (l.mns onlyValid))
    (hstep : ∀ {l dmn l'}, dmn ∈ dmns → l.getMN dmn.proTxHash = some dmn → step l dmn = .ok l' →
      ∀ h, l'.getMN h = if h = dmn.proTxHash then some (dmn.withState (g dmn)) else l.getMN h)
    (hfold : dmns.foldlM step l = .ok l') (h : Uint256) :
    l'.getMN h = (l.getMN h).map fun dmn => if dmn ∈ dmns then dmn.withState (g dmn) else dmn := by
  have hlisted {dmn : CDeterministicMN} (hdmn : dmn ∈ dmns) : l.getMN dmn.proTxHash = some dmn :=
    (mem_mns_iff.mp (hdmns.subset hdmn)).1
  obtain ⟨hin, hout⟩ := getMN_foldlM CDeterministicMN.proTxHash
    (fun dmn _ => dmn.withState (g dmn))
    (fun hmem hsame hok h => by
      rw [hlisted hmem] at hsame
      rw [hstep hmem hsame hok]
      split
      next heq => rw [heq, hlisted hmem, Option.map_some]
      · rfl)
    ((nodup_mns onlyValid).sublist (hdmns.map _)) (fun _ _ => rfl) hfold
  cases hget : l.getMN h with
  | none =>
    rw [hout h, hget, Option.map_none]
    intro hmem
    obtain ⟨dmn, hdmn, rfl⟩ := mem_map.mp hmem
    rw [hlisted hdmn] at hget
    cases hget
  | some dmn =>
    obtain rfl := proTxHash_of_getMN hget
    rw [Option.map_some]
    split
    next hdmn => rw [hin dmn hdmn, hget, Option.map_some]
    next hdmn =>
      rw [hout _ _, hget]
      intro hmem
      obtain ⟨dmn', hdmn', heq⟩ := mem_map.mp hmem
      have hget' := hlisted hdmn'
      rw [heq, hget] at hget'
      cases hget'
      exact hdmn hdmn'

def Related (R : CDeterministicMNState → CDeterministicMNState → Prop)
    (l l' : CDeterministicMNList) : Prop :=
  ∀ h, Option.Rel (fun dmn dmn' : CDeterministicMN => R dmn.pdmnState dmn'.pdmnState)
    (l.getMN h) (l'.getMN h)

section Related

variable {R : CDeterministicMNState → CDeterministicMNState → Prop}

theorem related_of_map {f : CDeterministicMN → CDeterministicMN}
    (hmap : ∀ h, l'.getMN h = (l.getMN h).map f)
    (hf : ∀ dmn : CDeterministicMN, R dmn.pdmnState (f dmn).pdmnState) : Related R l l' := by
  intro h
  rw [hmap h]
  cases l.getMN h with
  | none => exact .none
  | some dmn => exact .some (hf dmn)

theorem Related.trans {l'' : CDeterministicMNList} (htrans : ∀ {s s' s''}, R s s' → R s' s'' → R s s'')
    (h₁ : Related R l l') (h₂ : Related R l' l'') : Related R l l'' := by
  intro h
  have hfirst := h₁ h
  have hsecond := h₂ h
  generalize l.getMN h = o, l'.getMN h = o', l''.getMN h = o'' at hfirst hsecond ⊢
  cases hfirst with
  | none =>
    cases hsecond with
    | none => exact .none
  | some hfirst =>
    cases hsecond with
    | some hsecond => exact .some (htrans hfirst hsecond)

theorem Related.of_getMN {dmn' : CDeterministicMN} (hrelated : Related R l l')
    (hget : l'.getMN h = some dmn') :
    ∃ dmn, l.getMN h = some dmn ∧ R dmn.pdmnState dmn'.pdmnState := by
  have hrel := hrelated h
  rw [hget] at hrel
  cases hold : l.getMN h with
  | none =>
    rw [hold] at hrel
    cases hrel
  | some dmn =>
    rw [hold] at hrel
    cases hrel with
    | some hstate => exact ⟨dmn, rfl, hstate⟩

theorem related_foldlM_mns (hrefl : ∀ s, R s s) (g : CDeterministicMN → CDeterministicMNState)
    {step : CDeterministicMNList → CDeterministicMN → Except ListError CDeterministicMNList}
    {dmns : List CDeterministicMN} {onlyValid : Bool} (hdmns : dmns.Sublist (l.mns onlyValid))
    (hstep : ∀ {l dmn l'}, dmn ∈ dmns → l.getMN dmn.proTxHash = some dmn → step l dmn = .ok l' →
      ∀ h, l'.getMN h = if h = dmn.proTxHash then some (dmn.withState (g dmn)) else l.getMN h)
    (hg : ∀ dmn : CDeterministicMN, R dmn.pdmnState (g dmn))
    (hfold : dmns.foldlM step l = .ok l') : Related R l l' := by
  refine related_of_map (getMN_foldlM_mns hdmns hstep hfold) fun dmn => ?_
  split
  · exact hg dmn
  · exact hrefl _

theorem related_decreaseScores (hrefl : ∀ s, R s s)
    (hdecreased : ∀ s, R s { s with nPoSePenalty := s.nPoSePenalty - 1 })
    (hdecrease : l.decreaseScores = .ok l') : Related R l l' :=
  related_foldlM_mns hrefl
    (fun dmn => { dmn.pdmnState with nPoSePenalty := dmn.pdmnState.nPoSePenalty - 1 })
    filter_sublist (fun _ _ hok => updateDmn_ok hok) (fun _ => hdecreased _) hdecrease

end Related

def SameOperators (l l' : CDeterministicMNList) : Prop :=
  ∀ h, Option.Rel
    (fun dmn dmn' : CDeterministicMN => dmn.pdmnState.SameOperator dmn'.pdmnState)
    (l.getMN h) (l'.getMN h)

theorem SameOperators.of_getMN {dmn' : CDeterministicMN} (hsame : l.SameOperators l')
    (hget : l'.getMN h = some dmn') :
    ∃ dmn, l.getMN h = some dmn ∧ dmn.pdmnState.SameOperator dmn'.pdmnState :=
  Related.of_getMN hsame hget

theorem nodup_canonicalOrder : l.canonicalOrder.Nodup :=
  (perm_insertionSort _ _).nodup_iff.mpr (nodup_mns false)

theorem applyServiceCommitment_ok {commitment : CPoSeServiceCommitment}
    {epochBaseList : CDeterministicMNList} {nHeight : Int}
    (happly : l.applyServiceCommitment params commitment epochBaseList nHeight = .ok l')
    (h : Uint256) :
    l'.getMN h = (l.getMN h).map fun dmn =>
      dmn.withState (serviceVerdict params commitment epochBaseList nHeight h dmn.pdmnState) := by
  have hid : (l.getMN h).map (fun dmn => dmn.withState dmn.pdmnState) = l.getMN h :=
    Option.map_id_apply
  have hnodup := nodup_canonicalOrder (l := epochBaseList)
  unfold applyServiceCommitment at happly
  unfold serviceVerdict
  generalize epochBaseList.canonicalOrder = order at happly hnodup ⊢
  by_cases hlen : order.length ≠ commitment.missed.length
  · simp only [if_pos hlen] at happly ⊢
    cases happly
    exact hid.symm
  by_cases hobserved : CPoSeServiceCommitment.OBSERVED_VERSION ≤ commitment.nVersion ∧
      commitment.observed.length ≠ order.length
  · simp only [if_neg hlen, if_pos hobserved] at happly ⊢
    cases happly
    exact hid.symm
  simp only [if_neg hlen, if_neg hobserved] at happly ⊢
  obtain ⟨hin, hout⟩ := getMN_foldlM Prod.fst
    (fun entry dmn => dmn.withState (commitment.verdict params nHeight entry.2 dmn.pdmnState))
    (fun _ hsame hok h => by
      split at hok
      next hnone =>
        cases hok
        split
        next heq => rw [heq, ← hsame, hnone, Option.map_none]
        · rfl
      next dmn hsome =>
        obtain ⟨dmn', hdmn', hget⟩ := updateMN_ok hok
        obtain rfl : dmn = dmn' := Option.some.inj (hsome.symm.trans hdmn')
        rw [hget]
        split
        next heq => rw [heq, ← hsame, hsome, Option.map_some]
        · rfl)
    (by rwa [zipIdx_map_fst]) (fun _ _ => rfl) happly
  by_cases hmem : h ∈ order
  · have hentry : (h, order.idxOf h) ∈ order.zipIdx := by
      rw [mem_zipIdx_iff_getElem?, getElem?_idxOf hmem]
    simpa only [if_pos hmem] using hin _ hentry
  · simp only [if_neg hmem]
    rw [hid, hout h]
    rwa [zipIdx_map_fst]

/-! ### What selection takes into account -/

theorem mem_of_foldl_best
    {step : Option CDeterministicMN → CDeterministicMN → Option CDeterministicMN}
    (hstep : ∀ best dmn, step best dmn = best ∨ step best dmn = some dmn)
    (hbest : dmns.foldl step none = some dmn) : dmn ∈ dmns := by
  have hrun := Run.computes step none dmns
  rw [hbest] at hrun
  refine hrun.invariant_of_mem (I := fun best => ∀ dmn, best = some dmn → dmn ∈ dmns) ?_ ?_ dmn rfl
  · intro best candidate best' hmem hI hcomputes dmn' hdmn'
    obtain hkept | htaken := hstep best candidate
    · exact hI dmn' (hkept ▸ hcomputes ▸ hdmn')
    · have heq : some candidate = some dmn' := htaken.symm.trans (hcomputes.trans hdmn')
      cases heq
      exact hmem
  · intro dmn' hnone
    cases hnone

theorem mem_mns_of_getMNPayee {isMNRewardReallocation : Bool}
    (hpayee : l.getMNPayee params isMNRewardReallocation = some dmn) : dmn ∈ l.mns true := by
  have hrunning (h : l.runningPayee params = some dmn) : dmn ∈ l.mns true := by
    refine mem_of_foldl_best (fun best candidate => ?_) h
    split
    · exact .inr rfl
    · exact .inl rfl
  have hlongest (h : l.longestUnpaid = some dmn) : dmn ∈ l.mns true := by
    refine mem_of_foldl_best (fun best candidate => ?_) h
    split
    · exact .inl rfl
    · cases best with
      | none => exact .inr rfl
      | some b =>
        dsimp only
        split
        · exact .inr rfl
        · exact .inl rfl
  unfold getMNPayee at hpayee
  split at hpayee
  · cases hpayee
  · split at hpayee
    · exact hlongest hpayee
    · cases hfound : l.runningPayee params with
      | some best =>
        rw [hfound, Option.some_or] at hpayee
        exact hrunning (hfound.trans hpayee)
      | none =>
        rw [hfound, Option.none_or] at hpayee
        exact hlongest hpayee

theorem length_canonicalOrder (l : CDeterministicMNList) :
    l.canonicalOrder.length = l.getAllMNsCount := by
  unfold canonicalOrder getAllMNsCount mns
  simp

section Scores

variable {sha256 : Uint256 → Uint256 → Uint256} {modifier : Uint256}

theorem mem_mns_of_mem_calculateScores {score : Uint256 × CDeterministicMN}
    (hscore : score ∈ l.calculateScores sha256 modifier) : score.2 ∈ l.mns true := by
  obtain ⟨dmn, hdmn, rfl⟩ := mem_map.mp hscore
  exact (mem_filter.mp hdmn).1

theorem mem_mns_of_mem_calculateQuorum {maxSize : Nat}
    (hdmn : dmn ∈ l.calculateQuorum sha256 maxSize modifier) : dmn ∈ l.mns true := by
  obtain ⟨score, hscore, rfl⟩ := mem_map.mp hdmn
  have hin := (mem_insertionSort _).mp (mem_of_mem_take hscore)
  exact mem_mns_of_mem_calculateScores hin

variable {targetProTxHash : Uint256}

theorem takeSentinels_eq (count : Nat) (scores : List (Uint256 × CDeterministicMN))
    (out : List Uint256) : takeSentinels targetProTxHash count scores out =
      out ++ let others := (scores.map fun score => score.2.proTxHash).filter (· ≠ targetProTxHash)
        if out.length < count then others.take (count - out.length) else others := by
  induction scores generalizing out with
  | nil => simp [takeSentinels]
  | cons score scores ih =>
    rw [takeSentinels, map_cons, ih, ih, length_append, length_singleton]
    split
    next htarget => rw [filter_cons_of_neg (by simpa using htarget)]
    next htarget =>
    rw [filter_cons_of_pos (by simpa using htarget), append_assoc]
    obtain hmore | hlast | hover : out.length + 1 < count ∨ out.length + 1 = count ∨
        count ≤ out.length := by omega
    · rw [if_neg hmore.ne, if_pos hmore, if_pos (by omega),
        show count - out.length = count - (out.length + 1) + 1 by omega]
      rfl
    · rw [if_pos hlast, if_pos (by omega), show count - out.length = 0 + 1 by omega]
      rfl
    · rw [if_neg (by omega), if_neg (by omega), if_neg (by omega)]
      rfl

theorem sublist_calcSentinelsForMN {count : Nat} :
    (l.calcSentinelsForMN sha256 targetProTxHash modifier count).Sublist
      (((((l.calculateScores sha256 modifier).insertionSort fun a b => sentinelBefore a b).take
        (count + 1)).map fun score => score.2.proTxHash).filter (· ≠ targetProTxHash)) := by
  rw [calcSentinelsForMN, takeSentinels_eq, nil_append]
  split
  · exact take_sublist _ _
  · exact .refl _

theorem mem_mns_of_mem_calcSentinelsForMN {count : Nat}
    (hmem : h ∈ l.calcSentinelsForMN sha256 targetProTxHash modifier count) :
    ∃ dmn ∈ l.mns true, dmn.proTxHash = h := by
  obtain ⟨hothers, -⟩ := mem_filter.mp (sublist_calcSentinelsForMN.subset hmem)
  obtain ⟨score, hscore, rfl⟩ := mem_map.mp hothers
  have hin := (mem_insertionSort _).mp (mem_of_mem_take hscore)
  exact ⟨score.2, mem_mns_of_mem_calculateScores hin, rfl⟩

end Scores

end CDeterministicMNList

end Defcon.Evo
