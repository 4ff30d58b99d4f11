import Defcon.Lib.Codec
import Defcon.Evo.ListDiff

/-!
# Stored differences

The disk format of list differences. An operator key is written in the encoding that the version of
its state asks for. In a state difference the key comes before the version, so it is read as bytes
and gets its encoding at the end. What is read back is the same difference if every state that is
written has its key in the encoding of its version.
-/

namespace Defcon.Evo

open AList (Map)
open Lib (Codec Bytes exists_of_forall₂)
open Lib.Codec List CBLSLazyPublicKey CDeterministicMNState

/-! ### Operator keys -/

structure BlsEncoding where
  toBytes : Bool → BitVec 384 → BitVec 384
  fromBytes : Bool → BitVec 384 → Option (BitVec 384)

def BlsEncoding.IsPoint (enc : BlsEncoding) (point : BitVec 384) : Prop :=
  ∀ legacy, enc.toBytes legacy point ≠ 0 ∧
    enc.fromBytes legacy (enc.toBytes legacy point) = some point

instance (enc : BlsEncoding) (point : BitVec 384) : Decidable (enc.IsPoint point) :=
  inferInstanceAs (Decidable (∀ _ : Bool, _))

namespace CBLSLazyPublicKey

def toBytes (enc : BlsEncoding) (specificLegacyScheme : Bool) (k : CBLSLazyPublicKey) : BitVec 384 :=
  match k.get with
  | none => 0
  | some point => enc.toBytes specificLegacyScheme point

def ofBytes (enc : BlsEncoding) (specificLegacyScheme : Bool) (bytes : BitVec 384) :
    CBLSLazyPublicKey where
  get := if bytes = 0 then none else enc.fromBytes specificLegacyScheme bytes
  legacy := specificLegacyScheme

variable {enc : BlsEncoding} {k k' : CBLSLazyPublicKey} {legacy : Bool}

theorem get_eq_of_serialized (hsame : k.serialized = k'.serialized) : k.get = k'.get := by
  have hget := congrArg (Option.map Prod.fst) hsame
  simpa only [serialized, Option.map_map, Function.comp_def, Option.map_id'] using hget

theorem serialized_ofBytes (hpoint : ∀ point, k.get = some point → enc.IsPoint point)
    (hlegacy : k.isNull = true ∨ k.legacy = legacy) :
    (ofBytes enc legacy (k.toBytes enc legacy)).serialized = k.serialized := by
  cases hget : k.get with
  | none => simp [ofBytes, toBytes, serialized, hget]
  | some point =>
    obtain ⟨hzero, hread⟩ := hpoint point hget legacy
    have hlegacy : k.legacy = legacy := by simpa [isNull, hget] using hlegacy
    simp only [serialized, ofBytes, toBytes, hget, if_neg hzero, hread, hlegacy]

end CBLSLazyPublicKey

/-! ### Formats of the parts -/

def CService.format : Codec CService :=
  ((bitVec 16).pair uint16BE).via (fun a => (a.ip, a.port)) (fun p => ⟨p.1, p.2⟩) (fun _ => True)
    fun _ => rfl

theorem CService.fits_format (a : CService) : CService.format.Fits a :=
  ⟨trivial, fits_bitVec (n := 16) a.ip, fits_uint16BE a.port⟩

def outPointFormat : Codec COutPoint :=
  ((bitVec 32).pair (le 4)).via (fun o => (o.hash, o.n)) (fun p => ⟨p.1, p.2⟩) (fun _ => True)
    fun _ => rfl

def scriptFormat : Codec CScript :=
  counted compactSize byte

def limitedVector (limit : Nat) : Codec (List UInt8) :=
  counted (compactSize.guarded (· ≤ limit)) byte

/-- `LIMITED_STRING`. The characters of a string are its bytes. -/
def limitedString (limit : Nat) : Codec String :=
  (limitedVector limit).via (fun s => s.toList.map fun c => UInt8.ofNat c.toNat)
    (fun bytes => String.ofList (bytes.map fun b => Char.ofNat b.toNat))
    (fun s => ∀ c ∈ s.toList, c.toNat < 256) <| by
      intro s hbytes
      have hchars : (s.toList.map fun c => UInt8.ofNat c.toNat).map (fun b => Char.ofNat b.toNat) =
          s.toList := by
        rw [List.map_map]
        refine (List.map_congr_left fun c hc => ?_).trans (List.map_id _)
        have hbyte : (UInt8.ofNat c.toNat).toNat = c.toNat := by
          exact Nat.mod_eq_of_lt (hbytes c hc)
        rw [Function.comp_apply, hbyte, Char.ofNat_toNat, id]
      rw [hchars, String.ofList_toList]

def versionFormat : Codec UInt16 :=
  (le 4).via UInt16.toNat UInt16.ofNat (fun _ => True) fun _ => UInt16.ofNat_toNat

theorem fits_versionFormat (n : UInt16) : versionFormat.Fits n := by
  refine ⟨trivial, ?_⟩
  have hlt := n.toNat_lt
  change n.toNat < 256 ^ 4
  omega

def MnType.format : Codec MnType :=
  uint16.via
    (fun
      | .regular => 0
      | .evo => 1
      | .compute => 2
      | .invalid => 0xffff)
    (fun n => if n = 0 then .regular else if n = 1 then .evo else if n = 2 then .compute else .invalid)
    (fun _ => True) <| by
      rintro (_ | _ | _ | _) - <;> rfl

theorem MnType.fits_format (type : MnType) : MnType.format.Fits type :=
  ⟨trivial, fits_uint16 _⟩

def CComputeServiceDescriptor.BLS_RESERVED_SIZE : Nat := 48

def CComputeServiceDescriptor.MAX_ENDPOINT_SIZE : Nat := 256

namespace CComputeServiceDescriptor

def format : Codec CComputeServiceDescriptor :=
  (uint16.pair <| (limitedVector ORACLE_KEY_SIZE).pair <| (limitedVector BLS_RESERVED_SIZE).pair <|
    (limitedString MAX_ENDPOINT_SIZE).pair <| (bitVec 32).pair <| int32.pair uint32).via
    (fun d => (d.nVersion, d.vchOracleKey, d.vchBlsReserved, d.endpoint, d.certHash,
      d.certExpiryHeight, d.capabilityBits))
    (fun (nVersion, vchOracleKey, vchBlsReserved, endpoint, certHash, certExpiryHeight,
        capabilityBits) =>
      ⟨nVersion, vchOracleKey, vchBlsReserved, endpoint, certHash, certExpiryHeight, capabilityBits⟩)
    (fun _ => True) fun _ => rfl

structure InRange (d : CComputeServiceDescriptor) : Prop where
  vchOracleKey : d.vchOracleKey.length ≤ ORACLE_KEY_SIZE
  vchBlsReserved : d.vchBlsReserved.length ≤ BLS_RESERVED_SIZE
  endpoint : d.endpoint.length ≤ MAX_ENDPOINT_SIZE
  endpointBytes : ∀ c ∈ d.endpoint.toList, c.toNat < 256
  certExpiryHeight : InInt32 d.certExpiryHeight

instance (d : CComputeServiceDescriptor) : Decidable d.InRange :=
  decidable_of_iff (d.vchOracleKey.length ≤ ORACLE_KEY_SIZE ∧
    d.vchBlsReserved.length ≤ BLS_RESERVED_SIZE ∧ d.endpoint.length ≤ MAX_ENDPOINT_SIZE ∧
      (d.endpoint.toList.all fun c => c.toNat < 256) = true ∧ InInt32 d.certExpiryHeight)
    ⟨fun ⟨h₁, h₂, h₃, h₄, h₅⟩ =>
        ⟨h₁, h₂, h₃, fun c hc => of_decide_eq_true (List.all_eq_true.mp h₄ c hc), h₅⟩,
      fun ⟨h₁, h₂, h₃, h₄, h₅⟩ =>
        ⟨h₁, h₂, h₃, List.all_eq_true.mpr fun c hc => decide_eq_true (h₄ c hc), h₅⟩⟩

theorem fits_limitedVector {limit : Nat} {bytes : List UInt8} (hlimit : limit ≤ Codec.MAX_SIZE)
    (hlength : bytes.length ≤ limit) : (limitedVector limit).Fits bytes :=
  ⟨⟨hlength, hlength.trans hlimit⟩, fun _ _ => trivial⟩

theorem InRange.fits {d : CComputeServiceDescriptor} (hd : d.InRange) : format.Fits d := by
  refine ⟨trivial, fits_uint16 _, fits_limitedVector (by decide) hd.vchOracleKey,
    fits_limitedVector (by decide) hd.vchBlsReserved, ⟨hd.endpointBytes, ?_⟩,
    fits_bitVec (n := 32) _, fits_int32 hd.certExpiryHeight, fits_uint32 _⟩
  refine fits_limitedVector (by decide) ?_
  rw [length_map, String.length_toList]
  exact hd.endpoint

end CComputeServiceDescriptor

/-! ### States -/

abbrev StateWire :=
  UInt16 × Int × Int × Int × Int × Int × Int × UInt16 × Uint256 × Uint256 × CKeyID × BitVec 384 ×
    CKeyID × CService × CScript × CScript × BitVec 160 × UInt16 × UInt16 ×
    CComputeServiceDescriptor × Nat × Nat × Bool × Int

def stateFormat : Codec StateWire :=
  versionFormat.pair <| int32.pair <| int32.pair <| int32.pair <| int32.pair <| int32.pair <|
    int32.pair <| uint16.pair <| (bitVec 32).pair <| (bitVec 32).pair <| (bitVec 20).pair <|
    (bitVec 48).pair <| (bitVec 20).pair <| CService.format.pair <| scriptFormat.pair <|
    scriptFormat.pair <| (bitVec 20).pair <| uint16.pair <| uint16.pair <|
    CComputeServiceDescriptor.format.pair <| (le 4).pair <| (le 4).pair <| bool.pair int32

namespace CDeterministicMNState

def legacyScheme (s : CDeterministicMNState) : Bool :=
  s.nVersion = LEGACY_BLS_VERSION

def toWire (enc : BlsEncoding) (s : CDeterministicMNState) : StateWire :=
  (s.nVersion, s.nRegisteredHeight, s.nLastPaidHeight, s.nConsecutivePayments, s.nPoSePenalty,
    s.nPoSeRevivedHeight, s.nPoSeBanHeight, s.nRevocationReason, s.confirmedHash,
    s.confirmedHashWithProRegTxHash, s.keyIDOwner, s.pubKeyOperator.toBytes enc s.legacyScheme,
    s.keyIDVoting, s.addr, s.scriptPayout, s.scriptOperatorPayout, s.platformNodeID,
    s.platformP2PPort, s.platformHTTPPort, s.computeDescriptor, s.nMissedEpochs,
    s.nLastServiceEpoch, s.fRewardSuspended, s.nDSLBanHeight)

def ofWire (enc : BlsEncoding) : StateWire → CDeterministicMNState :=
  fun (nVersion, nRegisteredHeight, nLastPaidHeight, nConsecutivePayments, nPoSePenalty,
    nPoSeRevivedHeight, nPoSeBanHeight, nRevocationReason, confirmedHash,
    confirmedHashWithProRegTxHash, keyIDOwner, keyBytes, keyIDVoting, addr, scriptPayout,
    scriptOperatorPayout, platformNodeID, platformP2PPort, platformHTTPPort, computeDescriptor,
    nMissedEpochs, nLastServiceEpoch, fRewardSuspended, nDSLBanHeight) =>
  { nVersion, nRegisteredHeight, nLastPaidHeight, nConsecutivePayments, nPoSePenalty,
    nPoSeRevivedHeight, nPoSeBanHeight, nRevocationReason, confirmedHash,
    confirmedHashWithProRegTxHash, keyIDOwner, keyIDVoting, addr, scriptPayout,
    scriptOperatorPayout, platformNodeID, platformP2PPort, platformHTTPPort, computeDescriptor,
    nMissedEpochs, nLastServiceEpoch, fRewardSuspended, nDSLBanHeight
    pubKeyOperator := .ofBytes enc (nVersion = LEGACY_BLS_VERSION) keyBytes }

def KeyEncoded (s : CDeterministicMNState) : Prop :=
  s.pubKeyOperator.isNull = true ∨ s.pubKeyOperator.legacy = s.legacyScheme

instance (s : CDeterministicMNState) : Decidable s.KeyEncoded :=
  inferInstanceAs (Decidable (_ ∨ _))

/-- The fields are values of their types in the source. -/
structure InRange (enc : BlsEncoding) (s : CDeterministicMNState) : Prop where
  nRegisteredHeight : InInt32 s.nRegisteredHeight
  nLastPaidHeight : InInt32 s.nLastPaidHeight
  nConsecutivePayments : InInt32 s.nConsecutivePayments
  nPoSePenalty : InInt32 s.nPoSePenalty
  nPoSeRevivedHeight : InInt32 s.nPoSeRevivedHeight
  nPoSeBanHeight : InInt32 s.nPoSeBanHeight
  nDSLBanHeight : InInt32 s.nDSLBanHeight
  nMissedEpochs : s.nMissedEpochs < 2 ^ 32
  nLastServiceEpoch : s.nLastServiceEpoch < 2 ^ 32
  scriptPayout : s.scriptPayout.length ≤ Codec.MAX_SIZE
  scriptOperatorPayout : s.scriptOperatorPayout.length ≤ Codec.MAX_SIZE
  computeDescriptor : s.computeDescriptor.InRange
  pubKeyOperator : ∀ point, s.pubKeyOperator.get = some point → enc.IsPoint point

instance (enc : BlsEncoding) (s : CDeterministicMNState) : Decidable (s.InRange enc) :=
  decidable_of_iff
    ((InInt32 s.nRegisteredHeight ∧ InInt32 s.nLastPaidHeight ∧ InInt32 s.nConsecutivePayments ∧
      InInt32 s.nPoSePenalty ∧ InInt32 s.nPoSeRevivedHeight ∧ InInt32 s.nPoSeBanHeight ∧
      InInt32 s.nDSLBanHeight) ∧ (s.nMissedEpochs < 2 ^ 32 ∧ s.nLastServiceEpoch < 2 ^ 32) ∧
      (s.scriptPayout.length ≤ Codec.MAX_SIZE ∧ s.scriptOperatorPayout.length ≤ Codec.MAX_SIZE) ∧
      s.computeDescriptor.InRange ∧ s.pubKeyOperator.get.all (fun point => enc.IsPoint point) = true)
    ⟨fun ⟨⟨h₁, h₂, h₃, h₄, h₅, h₆, h₇⟩, ⟨h₈, h₉⟩, ⟨h₁₀, h₁₁⟩, h₁₂, h₁₃⟩ =>
        ⟨h₁, h₂, h₃, h₄, h₅, h₆, h₇, h₈, h₉, h₁₀, h₁₁, h₁₂,
          fun point hpoint => of_decide_eq_true (Option.all_eq_true _ _ |>.mp h₁₃ point hpoint)⟩,
      fun ⟨h₁, h₂, h₃, h₄, h₅, h₆, h₇, h₈, h₉, h₁₀, h₁₁, h₁₂, h₁₃⟩ =>
        ⟨⟨h₁, h₂, h₃, h₄, h₅, h₆, h₇⟩, ⟨h₈, h₉⟩, ⟨h₁₀, h₁₁⟩, h₁₂,
          Option.all_eq_true _ _ |>.mpr fun point hpoint => decide_eq_true (h₁₃ point hpoint)⟩⟩

variable {enc : BlsEncoding} {s s' : CDeterministicMNState}

theorem fits_scriptFormat {script : CScript} (hlength : script.length ≤ Codec.MAX_SIZE) :
    scriptFormat.Fits script :=
  ⟨hlength, fun _ _ => trivial⟩

theorem InRange.fits (hs : s.InRange enc) : stateFormat.Fits (s.toWire enc) :=
  ⟨fits_versionFormat _, fits_int32 hs.nRegisteredHeight, fits_int32 hs.nLastPaidHeight,
    fits_int32 hs.nConsecutivePayments, fits_int32 hs.nPoSePenalty,
    fits_int32 hs.nPoSeRevivedHeight, fits_int32 hs.nPoSeBanHeight, fits_uint16 _,
    fits_bitVec (n := 32) _, fits_bitVec (n := 32) _, fits_bitVec (n := 20) _,
    fits_bitVec (n := 48) _, fits_bitVec (n := 20) _, CService.fits_format _,
    fits_scriptFormat hs.scriptPayout, fits_scriptFormat hs.scriptOperatorPayout,
    fits_bitVec (n := 20) _, fits_uint16 _, fits_uint16 _, hs.computeDescriptor.fits,
    hs.nMissedEpochs, hs.nLastServiceEpoch, fits_bool _, fits_int32 hs.nDSLBanHeight⟩

theorem same_ofWire (hs : s.InRange enc) (hkey : s.KeyEncoded) : (ofWire enc (s.toWire enc)).Same s :=
  ⟨serialized_ofBytes hs.pubKeyOperator hkey, rfl⟩

theorem Same.exists_key (h : s.Same s') :
    ∃ k : CBLSLazyPublicKey, s' = { s with pubKeyOperator := k } ∧
      k.serialized = s.pubKeyOperator.serialized := by
  refine ⟨s'.pubKeyOperator, ?_, h.key.symm⟩
  have hrest := congrArg (fun t : CDeterministicMNState =>
    { t with pubKeyOperator := s'.pubKeyOperator }) h.rest
  exact hrest.symm

theorem InRange.of_same (hs : s.InRange enc) (h : s.Same s') : s'.InRange enc := by
  obtain ⟨k, rfl, hk⟩ := h.exists_key
  have hkey := hs.pubKeyOperator
  rw [← get_eq_of_serialized hk] at hkey
  exact ⟨hs.nRegisteredHeight, hs.nLastPaidHeight, hs.nConsecutivePayments, hs.nPoSePenalty,
    hs.nPoSeRevivedHeight, hs.nPoSeBanHeight, hs.nDSLBanHeight, hs.nMissedEpochs,
    hs.nLastServiceEpoch, hs.scriptPayout, hs.scriptOperatorPayout, hs.computeDescriptor, hkey⟩

theorem KeyEncoded.of_same (hs : s.KeyEncoded) (h : s.Same s') : s'.KeyEncoded := by
  obtain ⟨k, rfl, hk⟩ := h.exists_key
  have hget := get_eq_of_serialized hk
  cases hpoint : k.get with
  | none => exact .inl (by simp [isNull, hpoint])
  | some point =>
    rw [hpoint] at hget
    have hlegacy : k.legacy = s.pubKeyOperator.legacy := by
      simpa [serialized, hpoint, ← hget] using hk
    obtain hnull | hencoded := hs
    · rw [isNull, ← hget] at hnull
      cases hnull
    · exact .inr (hlegacy.trans hencoded)

end CDeterministicMNState

/-! ### State differences -/

/-- The fields of a state difference in the order of `DMN_STATE_DIFF_ALL_FIELDS`, those that are
noted. -/
abbrev StateDiffWire :=
  Option Int × Option Int × Option Int × Option Int × Option Int × Option UInt16 × Option Uint256 ×
    Option Uint256 × Option CKeyID × Option (BitVec 384) × Option CKeyID × Option CService ×
    Option CScript × Option CScript × Option Int × Option (BitVec 160) × Option UInt16 ×
    Option UInt16 × Option UInt16 × Option CComputeServiceDescriptor × Option Nat × Option Nat ×
    Option Bool × Option Int

def noted (fields : BitVec 32) (f : StateField) {α : Type} (c : Codec α) : Codec (Option α) :=
  c.flagged (hasField fields f)

def notedFieldsFormat (fields : BitVec 32) : Codec StateDiffWire :=
  (noted fields .nRegisteredHeight int32).pair <| (noted fields .nLastPaidHeight int32).pair <|
    (noted fields .nPoSePenalty int32).pair <| (noted fields .nPoSeRevivedHeight int32).pair <|
    (noted fields .nPoSeBanHeight int32).pair <| (noted fields .nRevocationReason uint16).pair <|
    (noted fields .confirmedHash (bitVec 32)).pair <|
    (noted fields .confirmedHashWithProRegTxHash (bitVec 32)).pair <|
    (noted fields .keyIDOwner (bitVec 20)).pair <| (noted fields .pubKeyOperator (bitVec 48)).pair <|
    (noted fields .keyIDVoting (bitVec 20)).pair <| (noted fields .addr CService.format).pair <|
    (noted fields .scriptPayout scriptFormat).pair <|
    (noted fields .scriptOperatorPayout scriptFormat).pair <|
    (noted fields .nConsecutivePayments int32).pair <|
    (noted fields .platformNodeID (bitVec 20)).pair <| (noted fields .platformP2PPort uint16).pair <|
    (noted fields .platformHTTPPort uint16).pair <| (noted fields .nVersion versionFormat).pair <|
    (noted fields .computeDescriptor CComputeServiceDescriptor.format).pair <|
    (noted fields .nMissedEpochs (le 4)).pair <| (noted fields .nLastServiceEpoch (le 4)).pair <|
    (noted fields .fRewardSuspended bool).pair (noted fields .nDSLBanHeight int32)

def fieldsFormat : Codec (BitVec 32) :=
  (varInt (2 ^ 32 - 1)).via BitVec.toNat (BitVec.ofNat 32) (fun _ => True) fun {b} _ =>
    (BitVec.ofNat_toNat _ b).trans b.setWidth_eq

def stateDiffFormat : Codec ((_ : BitVec 32) × StateDiffWire) :=
  fieldsFormat.dependent notedFieldsFormat

namespace CDeterministicMNStateDiff

def toWire (enc : BlsEncoding) (d : CDeterministicMNStateDiff) : (_ : BitVec 32) × StateDiffWire :=
  let value {α : Type} (f : StateField) (a : α) : Option α :=
    if hasField d.fields f then some a else none
  ⟨d.fields, value .nRegisteredHeight d.state.nRegisteredHeight,
    value .nLastPaidHeight d.state.nLastPaidHeight, value .nPoSePenalty d.state.nPoSePenalty,
    value .nPoSeRevivedHeight d.state.nPoSeRevivedHeight,
    value .nPoSeBanHeight d.state.nPoSeBanHeight,
    value .nRevocationReason d.state.nRevocationReason,
    value .confirmedHash d.state.confirmedHash,
    value .confirmedHashWithProRegTxHash d.state.confirmedHashWithProRegTxHash,
    value .keyIDOwner d.state.keyIDOwner,
    value .pubKeyOperator (d.state.pubKeyOperator.toBytes enc d.state.legacyScheme),
    value .keyIDVoting d.state.keyIDVoting, value .addr d.state.addr,
    value .scriptPayout d.state.scriptPayout,
    value .scriptOperatorPayout d.state.scriptOperatorPayout,
    value .nConsecutivePayments d.state.nConsecutivePayments,
    value .platformNodeID d.state.platformNodeID, value .platformP2PPort d.state.platformP2PPort,
    value .platformHTTPPort d.state.platformHTTPPort, value .nVersion d.state.nVersion,
    value .computeDescriptor d.state.computeDescriptor,
    value .nMissedEpochs d.state.nMissedEpochs,
    value .nLastServiceEpoch d.state.nLastServiceEpoch,
    value .fRewardSuspended d.state.fRewardSuspended, value .nDSLBanHeight d.state.nDSLBanHeight⟩

def ofWire (enc : BlsEncoding) : (_ : BitVec 32) × StateDiffWire → CDeterministicMNStateDiff :=
  fun ⟨fields, nRegisteredHeight, nLastPaidHeight, nPoSePenalty, nPoSeRevivedHeight, nPoSeBanHeight,
    nRevocationReason, confirmedHash, confirmedHashWithProRegTxHash, keyIDOwner, keyBytes,
    keyIDVoting, addr, scriptPayout, scriptOperatorPayout, nConsecutivePayments, platformNodeID,
    platformP2PPort, platformHTTPPort, nVersion, computeDescriptor, nMissedEpochs,
    nLastServiceEpoch, fRewardSuspended, nDSLBanHeight⟩ =>
  let state : CDeterministicMNState := {}
  let nVersion := nVersion.getD state.nVersion
  let read_pubkey := hasField fields .pubKeyOperator
  { fields := if read_pubkey then fields ||| StateField.nVersion.mask else fields
    state :=
      { nRegisteredHeight := nRegisteredHeight.getD state.nRegisteredHeight
        nLastPaidHeight := nLastPaidHeight.getD state.nLastPaidHeight
        nPoSePenalty := nPoSePenalty.getD state.nPoSePenalty
        nPoSeRevivedHeight := nPoSeRevivedHeight.getD state.nPoSeRevivedHeight
        nPoSeBanHeight := nPoSeBanHeight.getD state.nPoSeBanHeight
        nRevocationReason := nRevocationReason.getD state.nRevocationReason
        confirmedHash := confirmedHash.getD state.confirmedHash
        confirmedHashWithProRegTxHash :=
          confirmedHashWithProRegTxHash.getD state.confirmedHashWithProRegTxHash
        keyIDOwner := keyIDOwner.getD state.keyIDOwner
        -- read under the default version, `SetLegacy` once the version is known
        pubKeyOperator :=
          (keyBytes.map (.ofBytes enc (nVersion = LEGACY_BLS_VERSION))).getD state.pubKeyOperator
        keyIDVoting := keyIDVoting.getD state.keyIDVoting
        addr := addr.getD state.addr
        scriptPayout := scriptPayout.getD state.scriptPayout
        scriptOperatorPayout := scriptOperatorPayout.getD state.scriptOperatorPayout
        nConsecutivePayments := nConsecutivePayments.getD state.nConsecutivePayments
        platformNodeID := platformNodeID.getD state.platformNodeID
        platformP2PPort := platformP2PPort.getD state.platformP2PPort
        platformHTTPPort := platformHTTPPort.getD state.platformHTTPPort
        nVersion := nVersion
        computeDescriptor := computeDescriptor.getD state.computeDescriptor
        nMissedEpochs := nMissedEpochs.getD state.nMissedEpochs
        nLastServiceEpoch := nLastServiceEpoch.getD state.nLastServiceEpoch
        fRewardSuspended := fRewardSuspended.getD state.fRewardSuspended
        nDSLBanHeight := nDSLBanHeight.getD state.nDSLBanHeight } }

/-- The difference leads to a state that can be written, and notes the version with the key. -/
def Writable (enc : BlsEncoding) (d : CDeterministicMNStateDiff) : Prop :=
  (∃ b : CDeterministicMNState, b.InRange enc ∧ b.KeyEncoded ∧
    d.state.Same (selectFields (hasField d.fields) b {})) ∧
    (hasField d.fields .pubKeyOperator = true → hasField d.fields .nVersion = true)

variable {enc : BlsEncoding} {d d' : CDeterministicMNStateDiff} {a b : CDeterministicMNState}

theorem writable_ofStates (hb : b.InRange enc) (hkey : b.KeyEncoded) : (ofStates a b).Writable enc := by
  refine ⟨⟨b, hb, hkey, .refl _⟩, fun hnoted => ?_⟩
  rw [ofStates, hasField_fieldsOf] at hnoted ⊢
  obtain hdiffers | ⟨hne, -⟩ := hnoted
  · exact .inr ⟨serialized_ne_of_differs hdiffers, .inr rfl⟩
  · exact .inr ⟨hne, .inr rfl⟩

theorem Writable.of_same (hd : d.Writable enc) (h : d.Same d') : d'.Writable enc := by
  obtain ⟨⟨b, hb, hkey, hsame⟩, hversion⟩ := hd
  rw [h.fields] at hsame hversion
  exact ⟨⟨b, hb, hkey, h.state.symm.trans hsame⟩, hversion⟩

theorem Same.toWire_eq (h : d.Same d') : d.toWire enc = d'.toWire enc := by
  obtain ⟨fields, state⟩ := d
  obtain ⟨fields', state'⟩ := d'
  obtain ⟨hfields, hstate⟩ := h
  obtain ⟨k, hk, hserialized⟩ := hstate.exists_key
  subst hfields hk
  have hget := get_eq_of_serialized hserialized
  simp only [toWire, toBytes, hget, legacyScheme]

theorem or_mask_of_hasField {fields : BitVec 32} (h : hasField fields .nVersion = true) :
    fields ||| StateField.nVersion.mask = fields := by
  have hmask : StateField.nVersion.mask = BitVec.twoPow 32 18 := rfl
  rw [hasField, hmask, BitVec.and_twoPow] at h
  have hbit : fields.getLsbD 18 = true := by
    by_contra hzero
    rw [if_neg hzero] at h
    simp at h
  rw [hmask]
  ext i hi
  rw [BitVec.getElem_or, BitVec.getElem_twoPow]
  by_cases heq : i = 18
  · subst heq
    rw [← BitVec.getLsbD_eq_getElem, hbit, Bool.true_or]
  · simp [heq]

theorem fits_selected {α : Type} {flag : Bool} {c : Codec α} {x y : α} (hx : c.Fits x) :
    (c.flagged flag).Fits (if flag then some (if flag then x else y) else none) := by
  cases flag with
  | true => exact fits_flagged hx
  | false => exact rfl

theorem getD_selected {α : Type} {flag : Bool} {x y : α} :
    (if flag then some (if flag then x else y) else none).getD y = if flag then x else y := by
  cases flag <;> rfl

theorem fits_toWire (hb : b.InRange enc) {fields : BitVec 32} :
    stateDiffFormat.Fits (toWire enc ⟨fields, selectFields (hasField fields) b {}⟩) := by
  have hfields : fieldsFormat.Fits fields := by
    refine ⟨trivial, ?_⟩
    change fields.toNat ≤ 2 ^ 32 - 1
    omega
  exact ⟨hfields, fits_selected (fits_int32 hb.nRegisteredHeight),
    fits_selected (fits_int32 hb.nLastPaidHeight), fits_selected (fits_int32 hb.nPoSePenalty),
    fits_selected (fits_int32 hb.nPoSeRevivedHeight), fits_selected (fits_int32 hb.nPoSeBanHeight),
    fits_selected (fits_uint16 _), fits_selected (fits_bitVec (n := 32) _),
    fits_selected (fits_bitVec (n := 32) _), fits_selected (fits_bitVec (n := 20) _),
    fits_flagged (fits_bitVec (n := 48) _), fits_selected (fits_bitVec (n := 20) _),
    fits_selected (CService.fits_format _),
    fits_selected (fits_scriptFormat hb.scriptPayout),
    fits_selected (fits_scriptFormat hb.scriptOperatorPayout),
    fits_selected (fits_int32 hb.nConsecutivePayments), fits_selected (fits_bitVec (n := 20) _),
    fits_selected (fits_uint16 _), fits_selected (fits_uint16 _),
    fits_selected (fits_versionFormat _), fits_selected hb.computeDescriptor.fits,
    fits_selected hb.nMissedEpochs, fits_selected hb.nLastServiceEpoch,
    fits_selected (fits_bool _), fits_selected (fits_int32 hb.nDSLBanHeight)⟩

theorem same_ofWire (hb : b.InRange enc) (hkey : b.KeyEncoded) {fields : BitVec 32}
    (hversion : hasField fields .pubKeyOperator = true → hasField fields .nVersion = true) :
    (ofWire enc (toWire enc ⟨fields, selectFields (hasField fields) b {}⟩)).Same
      ⟨fields, selectFields (hasField fields) b {}⟩ := by
  refine ⟨?_, ?_, ?_⟩
  · cases hnoted : hasField fields .pubKeyOperator with
    | true =>
      simp only [ofWire, toWire, hnoted, if_true]
      exact or_mask_of_hasField (hversion hnoted)
    | false => simp [ofWire, toWire, hnoted]
  · cases hnoted : hasField fields .pubKeyOperator with
    | true =>
      simp only [ofWire, toWire, selectFields, legacyScheme, hnoted,
        hversion hnoted, if_true, Option.map_some, Option.getD_some]
      exact serialized_ofBytes hb.pubKeyOperator hkey
    | false => simp [ofWire, toWire, selectFields, hnoted]
  · simp only [ofWire, toWire, selectFields, getD_selected]

theorem Writable.fits (hd : d.Writable enc) : stateDiffFormat.Fits (d.toWire enc) := by
  obtain ⟨⟨b, hb, -, hsame⟩, -⟩ := hd
  have hsame : d.Same ⟨d.fields, selectFields (hasField d.fields) b {}⟩ := ⟨rfl, hsame⟩
  rw [hsame.toWire_eq]
  exact fits_toWire hb

theorem Writable.same_ofWire (hd : d.Writable enc) : (ofWire enc (d.toWire enc)).Same d := by
  obtain ⟨⟨b, hb, hkey, hsame⟩, hversion⟩ := hd
  have hsame : d.Same ⟨d.fields, selectFields (hasField d.fields) b {}⟩ := ⟨rfl, hsame⟩
  rw [hsame.toWire_eq]
  have hread := CDeterministicMNStateDiff.same_ofWire hb hkey hversion
  exact ⟨hread.fields, hread.state.trans hsame.state.symm⟩

end CDeterministicMNStateDiff

/-! ### Masternodes and list differences -/

abbrev MasternodeWire := Uint256 × Nat × COutPoint × Nat × StateWire × MnType

def masternodeFormat : Codec MasternodeWire :=
  (bitVec 32).pair <| (varInt (2 ^ 64 - 1)).pair <| outPointFormat.pair <| (le 2).pair <|
    stateFormat.pair MnType.format

namespace CDeterministicMN

def toWire (enc : BlsEncoding) (dmn : CDeterministicMN) : MasternodeWire :=
  (dmn.proTxHash, dmn.internalId, dmn.collateralOutpoint, dmn.nOperatorReward,
    dmn.pdmnState.toWire enc, dmn.nType)

def ofWire (enc : BlsEncoding) : MasternodeWire → CDeterministicMN :=
  fun (proTxHash, internalId, collateralOutpoint, nOperatorReward, state, nType) =>
    { proTxHash, internalId, collateralOutpoint, nOperatorReward, nType
      pdmnState := .ofWire enc state }

/-- The fields are values of their types in the source. -/
structure InRange (enc : BlsEncoding) (dmn : CDeterministicMN) : Prop where
  internalId : dmn.internalId < 2 ^ 64
  collateralOutpoint : dmn.collateralOutpoint.n < 2 ^ 32
  nOperatorReward : dmn.nOperatorReward < 2 ^ 16
  state : dmn.pdmnState.InRange enc

structure Writable (enc : BlsEncoding) (dmn : CDeterministicMN) : Prop extends dmn.InRange enc where
  key : dmn.pdmnState.KeyEncoded

instance (enc : BlsEncoding) (dmn : CDeterministicMN) : Decidable (dmn.Writable enc) :=
  decidable_of_iff (dmn.internalId < 2 ^ 64 ∧ dmn.collateralOutpoint.n < 2 ^ 32 ∧
      dmn.nOperatorReward < 2 ^ 16 ∧ dmn.pdmnState.InRange enc ∧ dmn.pdmnState.KeyEncoded)
    ⟨fun ⟨h₁, h₂, h₃, h₄, h₅⟩ => ⟨⟨h₁, h₂, h₃, h₄⟩, h₅⟩, fun ⟨⟨h₁, h₂, h₃, h₄⟩, h₅⟩ => ⟨h₁, h₂, h₃, h₄, h₅⟩⟩

variable {enc : BlsEncoding} {dmn dmn' : CDeterministicMN}

theorem Writable.of_same (hd : dmn.Writable enc) (h : dmn.Same dmn') : dmn'.Writable enc where
  internalId := h.internalId ▸ hd.internalId
  collateralOutpoint := h.collateralOutpoint ▸ hd.collateralOutpoint
  nOperatorReward := h.nOperatorReward ▸ hd.nOperatorReward
  state := hd.state.of_same h.state
  key := hd.key.of_same h.state

theorem Writable.fits (hd : dmn.Writable enc) : masternodeFormat.Fits (dmn.toWire enc) :=
  ⟨fits_bitVec (n := 32) _, Nat.le_sub_one_of_lt hd.internalId,
    ⟨trivial, fits_bitVec (n := 32) _, hd.collateralOutpoint⟩, hd.nOperatorReward, hd.state.fits,
    MnType.fits_format _⟩

theorem Writable.same_ofWire (hd : dmn.Writable enc) : (ofWire enc (dmn.toWire enc)).Same dmn :=
  ⟨rfl, rfl, rfl, rfl, rfl, CDeterministicMNState.same_ofWire hd.state hd.key⟩

end CDeterministicMN

def listDiffFormat :
    Codec (List MasternodeWire × List (Nat × (_ : BitVec 32) × StateDiffWire) × List Nat) :=
  (counted compactSize masternodeFormat).pair <|
    (counted compactSize ((varInt (2 ^ 64 - 1)).pair stateDiffFormat)).pair
      (counted compactSize (varInt (2 ^ 64 - 1)))

namespace CDeterministicMNListDiff

def serialize (enc : BlsEncoding) (diff : CDeterministicMNListDiff) : Bytes :=
  listDiffFormat.put
    (diff.addedMNs.map (CDeterministicMN.toWire enc),
      diff.updatedMNs.entries.map fun e => (e.1, e.2.toWire enc), diff.removedMns)

def unserialize (enc : BlsEncoding) (bytes : Bytes) : Option (CDeterministicMNListDiff × Bytes) :=
  (listDiffFormat.get bytes).map fun ((added, updated, removed), bytes) =>
    ({ addedMNs := added.map (CDeterministicMN.ofWire enc)
       updatedMNs := updated.foldl (fun m e => m.emplace e.1 (.ofWire enc e.2)) ∅
       removedMns := removed.dedup.insertionSort fun a b => a ≤ b }, bytes)

/-- The difference can be written: values of their types, and no more than can be read back. -/
structure Writable (enc : BlsEncoding) (diff : CDeterministicMNListDiff) : Prop where
  added : ∀ dmn ∈ diff.addedMNs, dmn.Writable enc
  updated : ∀ e ∈ diff.updatedMNs.entries, e.1 < 2 ^ 64 ∧ e.2.Writable enc
  removed : ∀ id ∈ diff.removedMns, id < 2 ^ 64
  nodup : diff.removedMns.Nodup
  addedSize : diff.addedMNs.length ≤ Codec.MAX_SIZE
  updatedSize : diff.updatedMNs.entries.length ≤ Codec.MAX_SIZE
  removedSize : diff.removedMns.length ≤ Codec.MAX_SIZE

variable {enc : BlsEncoding} {diff : CDeterministicMNListDiff}

theorem Writable.fits (hdiff : diff.Writable enc) :
    listDiffFormat.Fits (diff.addedMNs.map (CDeterministicMN.toWire enc),
      diff.updatedMNs.entries.map fun e => (e.1, e.2.toWire enc), diff.removedMns) := by
  refine ⟨⟨?_, fun wire hwire => ?_⟩, ⟨?_, fun wire hwire => ?_⟩, hdiff.removedSize, fun id hid => ?_⟩
  · rw [length_map]
    exact hdiff.addedSize
  · obtain ⟨dmn, hdmn, rfl⟩ := mem_map.mp hwire
    exact (hdiff.added dmn hdmn).fits
  · rw [length_map]
    exact hdiff.updatedSize
  · obtain ⟨e, he, rfl⟩ := mem_map.mp hwire
    obtain ⟨hid, hstate⟩ := hdiff.updated e he
    exact ⟨Nat.le_sub_one_of_lt hid, hstate.fits⟩
  · exact Nat.le_sub_one_of_lt (hdiff.removed id hid)

def readBack (enc : BlsEncoding) (diff : CDeterministicMNListDiff) : CDeterministicMNListDiff where
  addedMNs := (diff.addedMNs.map (CDeterministicMN.toWire enc)).map (CDeterministicMN.ofWire enc)
  updatedMNs := (diff.updatedMNs.entries.map fun e => (e.1, e.2.toWire enc)).foldl
    (fun m e => m.emplace e.1 (.ofWire enc e.2)) ∅
  removedMns := diff.removedMns.dedup.insertionSort fun a b => a ≤ b

theorem Writable.unserialize_serialize (hdiff : diff.Writable enc) (rest : Bytes) :
    unserialize enc (diff.serialize enc ++ rest) = some (diff.readBack enc, rest) := by
  rw [unserialize, serialize, listDiffFormat.get_put hdiff.fits]
  rfl

theorem lookup_readBack {id : Nat} {stateDiff : CDeterministicMNStateDiff} :
    (diff.readBack enc).updatedMNs.lookup id = some stateDiff ↔
      ∃ e ∈ diff.updatedMNs.entries, id = e.1 ∧ stateDiff = .ofWire enc (e.2.toWire enc) := by
  have hnodup : ((diff.updatedMNs.entries.map fun e =>
      (e.1, CDeterministicMNStateDiff.ofWire enc (e.2.toWire enc))).map Prod.fst).Nodup := by
    rw [map_map]
    exact diff.updatedMNs.nodupKeys
  have hread : (diff.readBack enc).updatedMNs = (diff.updatedMNs.entries.map fun e =>
      (e.1, CDeterministicMNStateDiff.ofWire enc (e.2.toWire enc))).foldl
        (fun m e => m.emplace e.1 e.2) ∅ := by
    rw [readBack, foldl_map, foldl_map]
  rw [hread, AList.lookup_foldl_emplace hnodup fun e _ => AList.lookup_empty e.1, mem_map]
  simp [Prod.ext_iff, eq_comm]

theorem Writable.same_readBack (hdiff : diff.Writable enc) : (diff.readBack enc).Same diff where
  added := by
    rw [readBack, map_map, forall₂_map_left_iff, forall₂_same]
    exact fun dmn hdmn => (hdiff.added dmn hdmn).same_ofWire
  updated id := by
    cases hupdated : diff.updatedMNs.lookup id with
    | some stateDiff =>
      have hmem := AList.mem_lookup_iff.mp hupdated
      rw [lookup_readBack.mpr ⟨_, hmem, rfl, rfl⟩]
      exact .some (hdiff.updated _ hmem).2.same_ofWire
    | none =>
      cases hread : (diff.readBack enc).updatedMNs.lookup id with
      | none => exact .none
      | some stateDiff =>
        obtain ⟨e, he, rfl, -⟩ := lookup_readBack.mp hread
        rw [AList.mem_lookup_iff.mpr he] at hupdated
        cases hupdated
  removed := by
    rw [readBack, hdiff.nodup.dedup]
    exact perm_insertionSort _ _

end CDeterministicMNListDiff

/-! ### Differences of lists that can be written -/

namespace CDeterministicMNList

structure Storable (enc : BlsEncoding) (l : CDeterministicMNList) : Prop where
  writable : ∀ {h dmn}, l.getMN h = some dmn → dmn.Writable enc
  size : l.getAllMNsCount ≤ Codec.MAX_SIZE

variable {enc : BlsEncoding} {l L L' : CDeterministicMNList} {diff : CDeterministicMNListDiff}

theorem length_mns_le {onlyValid : Bool} : (l.mns onlyValid).length ≤ l.getAllMNsCount :=
  (length_filter_le _ _).trans (length_map _).le

theorem writable_of_same (hdiff : Diffable L L') (hL : L.Storable enc) (hL' : L'.Storable enc)
    (hsame : diff.Same (L.buildDiff L')) : diff.Writable enc where
  added dmn hdmn := by
    obtain ⟨dmn', hdmn', hd⟩ := exists_of_forall₂ hsame.added hdmn
    exact (hL'.writable (mem_addedMNs.mp hdmn').1).of_same hd.symm
  updated e he := by
    obtain ⟨h, d, d', hget, hget', hid, hstate⟩ := exists_of_mem_updatedMNs hdiff hsame he
    have hwritable := hL'.writable hget'
    refine ⟨hid ▸ (hL.writable hget).internalId, ?_⟩
    exact (CDeterministicMNStateDiff.writable_ofStates hwritable.state hwritable.key).of_same
      hstate.symm
  removed id hid := by
    obtain ⟨h, d, hget, rfl, -⟩ := mem_removedMns.mp (hsame.removed.mem_iff.mp hid)
    exact (hL.writable hget).internalId
  nodup := hsame.removed.nodup_iff.mpr nodup_removedMns
  addedSize := by
    rw [hsame.added.length_eq, buildDiff, length_insertionSort]
    exact (length_filter_le _ _).trans (length_mns_le.trans hL'.size)
  updatedSize := by
    -- the updates are for different masternodes of `L`
    have hsub : diff.updatedMNs.keys ⊆ (L.mns false).map CDeterministicMN.internalId := by
      intro id hid
      obtain ⟨e, he, rfl⟩ := mem_map.mp hid
      obtain ⟨h, d, d', hget, -, heq, -⟩ := exists_of_mem_updatedMNs hdiff hsame he
      obtain rfl := proTxHash_of_getMN hget
      exact mem_map.mpr ⟨d, mem_mns_of_getMN hget, heq.symm⟩
    have hlength := (subperm_of_subset diff.updatedMNs.keys_nodup hsub).length_le
    rw [AList.keys, keys, length_map, length_map] at hlength
    exact hlength.trans (length_mns_le.trans hL.size)
  removedSize := by
    rw [hsame.removed.length_eq, buildDiff, length_insertionSort]
    refine (dedup_sublist _).length_le.trans ?_
    rw [length_map]
    exact (length_filter_le _ _).trans (length_mns_le.trans hL.size)

end CDeterministicMNList

end Defcon.Evo
