import Defcon.Evo.MasternodeState

/-!
# Differences of masternode states

`CDeterministicMNStateDiff`: a mask of the fields that differ and a state of which only those
fields count. The operator key is compared by the point it stands for and, if that is the same, by
its serialization; with the key comes the version that its serialization depends on.
-/

namespace Defcon.Evo

inductive StateField where
  | nRegisteredHeight
  | nLastPaidHeight
  | nPoSePenalty
  | nPoSeRevivedHeight
  | nPoSeBanHeight
  | nRevocationReason
  | confirmedHash
  | confirmedHashWithProRegTxHash
  | keyIDOwner
  | pubKeyOperator
  | keyIDVoting
  | addr
  | scriptPayout
  | scriptOperatorPayout
  | nConsecutivePayments
  | platformNodeID
  | platformP2PPort
  | platformHTTPPort
  | nVersion
  | computeDescriptor
  | nMissedEpochs
  | nLastServiceEpoch
  | fRewardSuspended
  | nDSLBanHeight
  deriving DecidableEq, Repr

namespace StateField

def all : List StateField :=
  [nRegisteredHeight, nLastPaidHeight, nPoSePenalty, nPoSeRevivedHeight, nPoSeBanHeight,
    nRevocationReason, confirmedHash, confirmedHashWithProRegTxHash, keyIDOwner, pubKeyOperator,
    keyIDVoting, addr, scriptPayout, scriptOperatorPayout, nConsecutivePayments, platformNodeID,
    platformP2PPort, platformHTTPPort, nVersion, computeDescriptor, nMissedEpochs,
    nLastServiceEpoch, fRewardSuspended, nDSLBanHeight]

def mask : StateField → BitVec 32
  | nRegisteredHeight => 0x0001
  | nLastPaidHeight => 0x0002
  | nPoSePenalty => 0x0004
  | nPoSeRevivedHeight => 0x0008
  | nPoSeBanHeight => 0x0010
  | nRevocationReason => 0x0020
  | confirmedHash => 0x0040
  | confirmedHashWithProRegTxHash => 0x0080
  | keyIDOwner => 0x0100
  | pubKeyOperator => 0x0200
  | keyIDVoting => 0x0400
  | addr => 0x0800
  | scriptPayout => 0x1000
  | scriptOperatorPayout => 0x2000
  | nConsecutivePayments => 0x4000
  | platformNodeID => 0x8000
  | platformP2PPort => 0x10000
  | platformHTTPPort => 0x20000
  | nVersion => 0x40000
  | computeDescriptor => 0x80000
  | nMissedEpochs => 0x100000
  | nLastServiceEpoch => 0x200000
  | fRewardSuspended => 0x400000
  | nDSLBanHeight => 0x800000

/-- `a.f != b.f`. Keys are compared by their points. -/
def differs (a b : CDeterministicMNState) : StateField → Bool
  | nRegisteredHeight => a.nRegisteredHeight ≠ b.nRegisteredHeight
  | nLastPaidHeight => a.nLastPaidHeight ≠ b.nLastPaidHeight
  | nPoSePenalty => a.nPoSePenalty ≠ b.nPoSePenalty
  | nPoSeRevivedHeight => a.nPoSeRevivedHeight ≠ b.nPoSeRevivedHeight
  | nPoSeBanHeight => a.nPoSeBanHeight ≠ b.nPoSeBanHeight
  | nRevocationReason => a.nRevocationReason ≠ b.nRevocationReason
  | confirmedHash => a.confirmedHash ≠ b.confirmedHash
  | confirmedHashWithProRegTxHash =>
    a.confirmedHashWithProRegTxHash ≠ b.confirmedHashWithProRegTxHash
  | keyIDOwner => a.keyIDOwner ≠ b.keyIDOwner
  | pubKeyOperator => !a.pubKeyOperator.same b.pubKeyOperator
  | keyIDVoting => a.keyIDVoting ≠ b.keyIDVoting
  | addr => a.addr ≠ b.addr
  | scriptPayout => a.scriptPayout ≠ b.scriptPayout
  | scriptOperatorPayout => a.scriptOperatorPayout ≠ b.scriptOperatorPayout
  | nConsecutivePayments => a.nConsecutivePayments ≠ b.nConsecutivePayments
  | platformNodeID => a.platformNodeID ≠ b.platformNodeID
  | platformP2PPort => a.platformP2PPort ≠ b.platformP2PPort
  | platformHTTPPort => a.platformHTTPPort ≠ b.platformHTTPPort
  | nVersion => a.nVersion ≠ b.nVersion
  | computeDescriptor => a.computeDescriptor ≠ b.computeDescriptor
  | nMissedEpochs => a.nMissedEpochs ≠ b.nMissedEpochs
  | nLastServiceEpoch => a.nLastServiceEpoch ≠ b.nLastServiceEpoch
  | fRewardSuspended => a.fRewardSuspended ≠ b.fRewardSuspended
  | nDSLBanHeight => a.nDSLBanHeight ≠ b.nDSLBanHeight

theorem mem_all (f : StateField) : f ∈ all := by
  cases f <;> decide

theorem mask_and_mask (f g : StateField) : f.mask &&& g.mask = if f = g then f.mask else 0 := by
  cases f <;> cases g <;> rfl

theorem mask_ne_zero (f : StateField) : f.mask ≠ 0 := by
  cases f <;> decide

end StateField

def hasField (fields : BitVec 32) (f : StateField) : Bool :=
  fields &&& f.mask ≠ 0

theorem hasField_zero (f : StateField) : hasField 0 f = false := by
  simp [hasField]

theorem hasField_or (fields : BitVec 32) (f g : StateField) :
    hasField (fields ||| f.mask) g = (hasField fields g || decide (f = g)) := by
  unfold hasField
  rw [BitVec.and_comm, BitVec.and_or_distrib_left, BitVec.and_comm g.mask f.mask,
    StateField.mask_and_mask, BitVec.and_comm g.mask fields]
  by_cases h : f = g
  · have hmask : ¬ f.mask = 0#32 := f.mask_ne_zero
    simp [hmask]
  · simp [h]

/-- `target` with the fields in `flag` taken from `source`. -/
def selectFields (flag : StateField → Bool) (source target : CDeterministicMNState) :
    CDeterministicMNState :=
  { nRegisteredHeight :=
      if flag .nRegisteredHeight then source.nRegisteredHeight
      else target.nRegisteredHeight
    nLastPaidHeight :=
      if flag .nLastPaidHeight then source.nLastPaidHeight
      else target.nLastPaidHeight
    nPoSePenalty := if flag .nPoSePenalty then source.nPoSePenalty else target.nPoSePenalty
    nPoSeRevivedHeight :=
      if flag .nPoSeRevivedHeight then source.nPoSeRevivedHeight
      else target.nPoSeRevivedHeight
    nPoSeBanHeight := if flag .nPoSeBanHeight then source.nPoSeBanHeight else target.nPoSeBanHeight
    nRevocationReason :=
      if flag .nRevocationReason then source.nRevocationReason
      else target.nRevocationReason
    confirmedHash := if flag .confirmedHash then source.confirmedHash else target.confirmedHash
    confirmedHashWithProRegTxHash :=
      if flag .confirmedHashWithProRegTxHash then source.confirmedHashWithProRegTxHash
      else target.confirmedHashWithProRegTxHash
    keyIDOwner := if flag .keyIDOwner then source.keyIDOwner else target.keyIDOwner
    pubKeyOperator := if flag .pubKeyOperator then source.pubKeyOperator else target.pubKeyOperator
    keyIDVoting := if flag .keyIDVoting then source.keyIDVoting else target.keyIDVoting
    addr := if flag .addr then source.addr else target.addr
    scriptPayout := if flag .scriptPayout then source.scriptPayout else target.scriptPayout
    scriptOperatorPayout :=
      if flag .scriptOperatorPayout then source.scriptOperatorPayout
      else target.scriptOperatorPayout
    nConsecutivePayments :=
      if flag .nConsecutivePayments then source.nConsecutivePayments
      else target.nConsecutivePayments
    platformNodeID := if flag .platformNodeID then source.platformNodeID else target.platformNodeID
    platformP2PPort :=
      if flag .platformP2PPort then source.platformP2PPort
      else target.platformP2PPort
    platformHTTPPort :=
      if flag .platformHTTPPort then source.platformHTTPPort
      else target.platformHTTPPort
    nVersion := if flag .nVersion then source.nVersion else target.nVersion
    computeDescriptor :=
      if flag .computeDescriptor then source.computeDescriptor
      else target.computeDescriptor
    nMissedEpochs := if flag .nMissedEpochs then source.nMissedEpochs else target.nMissedEpochs
    nLastServiceEpoch :=
      if flag .nLastServiceEpoch then source.nLastServiceEpoch
      else target.nLastServiceEpoch
    fRewardSuspended :=
      if flag .fRewardSuspended then source.fRewardSuspended
      else target.fRewardSuspended
    nDSLBanHeight := if flag .nDSLBanHeight then source.nDSLBanHeight else target.nDSLBanHeight }

structure CDeterministicMNStateDiff where
  fields : BitVec 32 := 0
  /-- Only the members as noted by `fields` are valid. -/
  state : CDeterministicMNState := {}
  deriving DecidableEq, Repr

namespace CDeterministicMNStateDiff

def fieldsOf (a b : CDeterministicMNState) : BitVec 32 :=
  let fields := StateField.all.foldl
    (fun fields f => if f.differs a b then fields ||| f.mask else fields) 0
  let fields :=
    if !hasField fields .pubKeyOperator ∧ a.pubKeyOperator.serialized ≠ b.pubKeyOperator.serialized
    then fields ||| StateField.pubKeyOperator.mask
    else fields
  if hasField fields .pubKeyOperator then fields ||| StateField.nVersion.mask else fields

def ofStates (a b : CDeterministicMNState) : CDeterministicMNStateDiff where
  fields := fieldsOf a b
  state := selectFields (hasField (fieldsOf a b)) b {}

def applyToState (diff : CDeterministicMNStateDiff) (target : CDeterministicMNState) :
    CDeterministicMNState :=
  selectFields (hasField diff.fields) diff.state target

end CDeterministicMNStateDiff

structure CDeterministicMNState.Same (s s' : CDeterministicMNState) : Prop where
  key : s.pubKeyOperator.serialized = s'.pubKeyOperator.serialized
  rest : { s with pubKeyOperator := {} } = { s' with pubKeyOperator := {} }

section Exactness

open CDeterministicMNStateDiff StateField

variable {a b : CDeterministicMNState} {f : StateField} {flag : StateField → Bool}

theorem selectFields_selectFields {c : CDeterministicMNState} :
    selectFields flag (selectFields flag a b) c = selectFields flag a c := by
  have hite {α : Type} (p : Bool) (x y z : α) :
      (if p then (if p then x else y) else z) = if p then x else z := by
    cases p <;> rfl
  simp only [selectFields, hite]

theorem hasField_foldl {fields : BitVec 32} {fs : List StateField} {p : StateField → Bool} :
    hasField (fs.foldl (fun fields f => if p f then fields ||| f.mask else fields) fields) f =
      (hasField fields f || (decide (f ∈ fs) && p f)) := by
  induction fs generalizing fields with
  | nil => simp
  | cons g fs ih =>
    rw [List.foldl_cons, ih]
    split
    next hg =>
      rw [hasField_or]
      by_cases hfg : g = f
      · subst hfg
        simp [hg]
      · simp [hfg, Ne.symm hfg]
    next hg =>
      by_cases hfg : g = f
      · subst hfg
        simp [hg]
      · simp [Ne.symm hfg]

theorem serialized_ne_of_differs (hdiffers : StateField.pubKeyOperator.differs a b = true) :
    a.pubKeyOperator.serialized ≠ b.pubKeyOperator.serialized := by
  intro heq
  have hget := congrArg (Option.map Prod.fst) heq
  simp only [CBLSLazyPublicKey.serialized, Option.map_map, Function.comp_def, Option.map_id'] at hget
  simp [differs, CBLSLazyPublicKey.same, hget] at hdiffers

/-- A field is noted if it differs; the key also if only its serialization does, and the version
with it. -/
theorem hasField_fieldsOf :
    hasField (fieldsOf a b) f = true ↔
      f.differs a b = true ∨ a.pubKeyOperator.serialized ≠ b.pubKeyOperator.serialized ∧
        (f = .pubKeyOperator ∨ f = .nVersion) := by
  unfold fieldsOf
  obtain ⟨first, hfirst⟩ : ∃ first, StateField.all.foldl
      (fun fields f => if f.differs a b then fields ||| f.mask else fields) 0 = first := ⟨_, rfl⟩
  have hhas (g : StateField) : hasField first g = g.differs a b := by
    rw [← hfirst, hasField_foldl, hasField_zero]
    simp [g.mem_all]
  rw [hfirst]
  by_cases hkey : a.pubKeyOperator.serialized = b.pubKeyOperator.serialized
  · have hsame : StateField.pubKeyOperator.differs a b = false :=
      Bool.eq_false_iff.mpr fun hdiffers => serialized_ne_of_differs hdiffers hkey
    simp [hkey, hhas, hsame]
  · cases hdiffers : StateField.pubKeyOperator.differs a b with
    | true =>
      simp only [hhas, hdiffers, Bool.not_true, Bool.false_eq_true, false_and, if_false, if_true,
        hasField_or, Bool.or_eq_true, decide_eq_true_eq, ne_eq, hkey, not_false_eq_true, true_and]
      constructor
      · rintro (h | rfl)
        · exact .inl h
        · exact .inr (.inr rfl)
      · rintro (h | rfl | rfl)
        · exact .inl h
        · exact .inl hdiffers
        · exact .inr rfl
    | false =>
      simp only [hhas, hdiffers, Bool.not_false, true_and, ne_eq, hkey, not_false_eq_true, if_true,
        hasField_or, decide_true, Bool.or_true, Bool.or_eq_true, decide_eq_true_eq, or_assoc]
      simp only [eq_comm]

theorem same_applyToState : ((ofStates a b).applyToState a).Same b := by
  have hselect : (ofStates a b).applyToState a = selectFields (hasField (fieldsOf a b)) b a :=
    selectFields_selectFields
  rw [hselect]
  have hkeep {α : Type} {x y : α} (f : StateField) (h : f.differs a b = false → x = y) :
      (if hasField (fieldsOf a b) f then y else x) = y := by
    split
    · rfl
    next hnot =>
      rw [hasField_fieldsOf, not_or, Bool.not_eq_true] at hnot
      exact h hnot.1
  constructor
  · dsimp only [selectFields]
    split
    · rfl
    next hnot =>
      by_contra hne
      exact hnot (hasField_fieldsOf.mpr (.inr ⟨hne, .inl rfl⟩))
  · simp only [selectFields, CDeterministicMNState.mk.injEq]
    exact ⟨hkeep .nPoSeBanHeight (by simp [differs]),
      hkeep .nVersion (by simp [differs]),
      hkeep .nRegisteredHeight (by simp [differs]),
      hkeep .nLastPaidHeight (by simp [differs]),
      hkeep .nConsecutivePayments (by simp [differs]),
      hkeep .nPoSePenalty (by simp [differs]),
      hkeep .nPoSeRevivedHeight (by simp [differs]),
      hkeep .nRevocationReason (by simp [differs]),
      hkeep .confirmedHash (by simp [differs]),
      hkeep .confirmedHashWithProRegTxHash (by simp [differs]),
      hkeep .keyIDOwner (by simp [differs]),
      trivial,
      hkeep .keyIDVoting (by simp [differs]),
      hkeep .addr (by simp [differs]),
      hkeep .scriptPayout (by simp [differs]),
      hkeep .scriptOperatorPayout (by simp [differs]),
      hkeep .platformNodeID (by simp [differs]),
      hkeep .platformP2PPort (by simp [differs]),
      hkeep .platformHTTPPort (by simp [differs]),
      hkeep .computeDescriptor (by simp [differs]),
      hkeep .nMissedEpochs (by simp [differs]),
      hkeep .nLastServiceEpoch (by simp [differs]),
      hkeep .fRewardSuspended (by simp [differs]),
      hkeep .nDSLBanHeight (by simp [differs])⟩

end Exactness

end Defcon.Evo
