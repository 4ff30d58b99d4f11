import Defcon.Coins
import Defcon.Llmq.Params

/-!
# The state of a masternode

`CDeterministicMNState` with its operations. Two fields hold a ban: `nPoSeBanHeight` for failed
DKG sessions and operator changes, `nDSLBanHeight` for missed service epochs. A masternode is
banned when either is set.
-/

namespace Defcon.Evo

open Llmq (CBLSPublicKey CBLSSignature)

/-- `CKeyID`. The null id is zero. -/
abbrev CKeyID := BitVec 160

/-- `CService`. The default is the unspecified address. -/
structure CService where
  ip : BitVec 128 := 0
  port : UInt16 := 0
  deriving DecidableEq, Repr

/-- `CBLSLazyPublicKey`: what `Get` returns, and the encoding it is serialized in. Bytes that do
not decode to a point give the null key. -/
structure CBLSLazyPublicKey where
  get : CBLSPublicKey := none
  legacy : Bool := true
  deriving DecidableEq, Repr

namespace CBLSLazyPublicKey

/-- `operator==` compares the points and ignores the encodings. -/
def same (k k' : CBLSLazyPublicKey) : Bool :=
  k.get = k'.get

def isNull (k : CBLSLazyPublicKey) : Bool :=
  k.get.isNone

/-- What is hashed to file the key: the null key has one serialization, a point has two. -/
def serialized (k : CBLSLazyPublicKey) : Option (BitVec 384 × Bool) :=
  k.get.map fun point => (point, k.legacy)

end CBLSLazyPublicKey

/-- `MnType`; `invalid` stands for the values from `COUNT` on. -/
inductive MnType where
  | regular
  | evo
  | compute
  | invalid
  deriving DecidableEq, Repr

def isValidMnType (type : MnType) : Bool :=
  type ≠ .invalid

structure CComputeServiceDescriptor where
  nVersion : UInt16 := 1
  vchOracleKey : List UInt8 := []
  vchBlsReserved : List UInt8 := []
  endpoint : String := ""
  certHash : Uint256 := 0
  certExpiryHeight : Int := 0
  capabilityBits : UInt32 := 0
  deriving DecidableEq, Repr

namespace CComputeServiceDescriptor

def CURRENT_VERSION : UInt16 := 1

def ORACLE_KEY_SIZE : Nat := 33

def isCertValidAt (d : CComputeServiceDescriptor) (nHeight : Int) : Bool :=
  d.certHash ≠ 0 ∧ nHeight < d.certExpiryHeight

end CComputeServiceDescriptor

/-- `Consensus::Params`, the fields that the masternode list depends on. -/
structure ConsensusParams where
  regularPaymentWeight : Int
  evoPaymentWeight : Int
  computePaymentWeight : Int
  regularMnCollateral : CAmount
  evoMnCollateral : CAmount
  computeMnCollateral : CAmount
  nComputeNodeActivationHeight : Int
  nMasternodeMinimumConfirmations : Int
  nDSLEpochInterval : Int
  nDSLMassOutagePct : Nat
  nDSLEnforcementHeight : Int
  nDSLSuspendEpochs : Int
  nDSLBanEpochs : Int
  deriving DecidableEq, Repr

namespace ConsensusParams

variable (params : ConsensusParams)

def paymentWeight : MnType → Int
  | .regular => params.regularPaymentWeight
  | .evo => params.evoPaymentWeight
  | .compute => params.computePaymentWeight
  | .invalid => 0

def collatAmount : MnType → CAmount
  | .regular => params.regularMnCollateral
  | .evo => params.evoMnCollateral
  | .compute => params.computeMnCollateral
  | .invalid => MAX_MONEY

def isComputeTypeActive (nHeight : Int) : Bool :=
  params.nComputeNodeActivationHeight ≤ nHeight

end ConsensusParams

def LEGACY_BLS_VERSION : UInt16 := 1

def BASIC_BLS_VERSION : UInt16 := 2

def REASON_NOT_SPECIFIED : UInt16 := 0

structure CDeterministicMNState where
  nPoSeBanHeight : Int := -1
  nVersion : UInt16 := LEGACY_BLS_VERSION
  nRegisteredHeight : Int := -1
  nLastPaidHeight : Int := 0
  nConsecutivePayments : Int := 0
  nPoSePenalty : Int := 0
  nPoSeRevivedHeight : Int := -1
  nRevocationReason : UInt16 := REASON_NOT_SPECIFIED
  confirmedHash : Uint256 := 0
  confirmedHashWithProRegTxHash : Uint256 := 0
  keyIDOwner : CKeyID := 0
  pubKeyOperator : CBLSLazyPublicKey := {}
  keyIDVoting : CKeyID := 0
  addr : CService := {}
  scriptPayout : CScript := []
  scriptOperatorPayout : CScript := []
  platformNodeID : BitVec 160 := 0
  platformP2PPort : UInt16 := 0
  platformHTTPPort : UInt16 := 0
  computeDescriptor : CComputeServiceDescriptor := {}
  nMissedEpochs : Nat := 0
  nLastServiceEpoch : Nat := 0
  fRewardSuspended : Bool := false
  nDSLBanHeight : Int := -1
  deriving DecidableEq, Repr

namespace CDeterministicMNState

variable (s : CDeterministicMNState)

def resetOperatorFields : CDeterministicMNState :=
  { s with
    nVersion := LEGACY_BLS_VERSION
    pubKeyOperator := {}
    addr := {}
    scriptOperatorPayout := []
    nRevocationReason := REASON_NOT_SPECIFIED
    platformNodeID := 0 }

def isBanned : Bool :=
  s.nPoSeBanHeight ≠ -1 ∨ s.nDSLBanHeight ≠ -1

def banIfNotBanned (height : Int) : CDeterministicMNState :=
  if s.isBanned then s else { s with nPoSeBanHeight := height }

def revive (nRevivedHeight : Int) : CDeterministicMNState :=
  { s with nPoSePenalty := 0, nPoSeBanHeight := -1, nPoSeRevivedHeight := nRevivedHeight }

/-- `sha256` is the hash of the concatenation of the two arguments. -/
def updateConfirmedHash (sha256 : Uint256 → Uint256 → Uint256) (s : CDeterministicMNState)
    (proTxHash confirmedHash : Uint256) : CDeterministicMNState :=
  { s with
    confirmedHash := confirmedHash
    confirmedHashWithProRegTxHash := sha256 proTxHash confirmedHash }

def DslBanOnly : Prop :=
  s.nPoSeBanHeight = -1 ∧ s.nDSLBanHeight ≠ -1

instance (s : CDeterministicMNState) : Decidable s.DslBanOnly :=
  inferInstanceAs (Decidable (_ ∧ _))

structure SameOperator (s s' : CDeterministicMNState) : Prop where
  pubKeyOperator : s'.pubKeyOperator = s.pubKeyOperator
  addr : s'.addr = s.addr
  scriptOperatorPayout : s'.scriptOperatorPayout = s.scriptOperatorPayout
  nPoSeBanHeight : s'.nPoSeBanHeight = s.nPoSeBanHeight
  nDSLBanHeight : s'.nDSLBanHeight = s.nDSLBanHeight

variable {s s' s'' : CDeterministicMNState}

theorem isBanned_iff : s.isBanned = true ↔ s.nPoSeBanHeight ≠ -1 ∨ s.nDSLBanHeight ≠ -1 := by
  simp [isBanned]

theorem SameOperator.rfl : SameOperator s s :=
  ⟨Eq.refl _, Eq.refl _, Eq.refl _, Eq.refl _, Eq.refl _⟩

theorem SameOperator.trans (h : SameOperator s s') (h' : SameOperator s' s'') :
    SameOperator s s'' where
  pubKeyOperator := h'.pubKeyOperator.trans h.pubKeyOperator
  addr := h'.addr.trans h.addr
  scriptOperatorPayout := h'.scriptOperatorPayout.trans h.scriptOperatorPayout
  nPoSeBanHeight := h'.nPoSeBanHeight.trans h.nPoSeBanHeight
  nDSLBanHeight := h'.nDSLBanHeight.trans h.nDSLBanHeight

theorem SameOperator.isBanned (h : SameOperator s s') : s'.isBanned = s.isBanned := by
  simp [CDeterministicMNState.isBanned, h.nPoSeBanHeight, h.nDSLBanHeight]

theorem nPoSeBanHeight_banIfNotBanned {height : Int} (hheight : height ≠ -1) :
    (s.banIfNotBanned height).nPoSeBanHeight ≠ -1 ↔ ¬ s.DslBanOnly := by
  unfold banIfNotBanned DslBanOnly
  split
  next hbanned =>
    rw [isBanned_iff] at hbanned
    constructor
    · intro hpose h
      exact hpose h.1
    · intro hnot hpose
      exact hnot ⟨hpose, hbanned.resolve_left (not_not.mpr hpose)⟩
  next hbanned =>
    rw [isBanned_iff, not_or, not_not, not_not] at hbanned
    exact iff_of_true hheight fun h => h.2 hbanned.2

theorem isBanned_banIfNotBanned {height : Int} (hheight : height ≠ -1) :
    (s.banIfNotBanned height).isBanned = true := by
  unfold banIfNotBanned
  by_cases hbanned : s.isBanned
  · rwa [if_pos hbanned]
  · rw [if_neg hbanned]
    exact isBanned_iff.mpr (.inl hheight)

section BanFrame

variable (s) (height : Int)

@[simp] theorem pubKeyOperator_banIfNotBanned :
    (s.banIfNotBanned height).pubKeyOperator = s.pubKeyOperator := by
  unfold banIfNotBanned; split <;> rfl

@[simp] theorem addr_banIfNotBanned : (s.banIfNotBanned height).addr = s.addr := by
  unfold banIfNotBanned; split <;> rfl

@[simp] theorem scriptOperatorPayout_banIfNotBanned :
    (s.banIfNotBanned height).scriptOperatorPayout = s.scriptOperatorPayout := by
  unfold banIfNotBanned; split <;> rfl

@[simp] theorem nDSLBanHeight_banIfNotBanned :
    (s.banIfNotBanned height).nDSLBanHeight = s.nDSLBanHeight := by
  unfold banIfNotBanned; split <;> rfl

end BanFrame

end CDeterministicMNState

structure CDeterministicMN where
  internalId : Nat
  proTxHash : Uint256
  collateralOutpoint : COutPoint
  nOperatorReward : Nat
  nType : MnType
  pdmnState : CDeterministicMNState
  deriving DecidableEq, Repr

end Defcon.Evo
