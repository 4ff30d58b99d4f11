import Defcon.Evo.ListInvariant
import Defcon.Evo.MasternodeEffects

/-!
# What rebuilding a list keeps

`RebuildListFromBlock` changes its list only through `AddMN`, `UpdateMN` and `RemoveMN`. A property
that these keep is kept by the whole function, and if they do not throw where the checks of the
function lead to them, the function does not throw. Both are shown in one pass over the function.
-/

namespace Defcon.Evo

open BlockContext List
open Lib (Ensures)

/-! ### Unique properties as the checks see them -/

namespace CDeterministicMNList

variable {l l' : CDeterministicMNList} {dmn : CDeterministicMN} {state : CDeterministicMNState}
  {h proTxHash : Uint256} {v : UniqueProperty}

theorem getMN_of_getUniquePropertyMN (hfound : l.getUniquePropertyMN v = some dmn) :
    l.getMN dmn.proTxHash = some dmn := by
  unfold getUniquePropertyMN at hfound
  split at hfound
  · cases hfound
  · rwa [proTxHash_of_getMN hfound]

theorem RepOk.getUniquePropertyMN (hrep : l.RepOk) (hget : l.getMN h = some dmn)
    (hholds : dmn.Holds v) : l.getUniquePropertyMN v = some dmn := by
  rw [CDeterministicMNList.getUniquePropertyMN, hrep.properties.lookup_eq ⟨dmn, hget, hholds⟩]
  exact hget

theorem RepOk.hasUniqueProperty (hrep : l.RepOk) (howns : l.Owns h v) :
    l.hasUniqueProperty v = true := by
  rw [CDeterministicMNList.hasUniqueProperty, hrep.properties.lookup_eq howns]
  rfl

theorem RepOk.owner_eq (hrep : l.RepOk)
    (hcheck : ¬ (l.getUniquePropertyMN v).any (fun dmn => dmn.proTxHash ≠ proTxHash) = true)
    (howns : l.Owns h v) : h = proTxHash := by
  obtain ⟨dmn, hget, hholds⟩ := howns
  rw [hrep.getUniquePropertyMN hget hholds, Option.any_some, proTxHash_of_getMN hget] at hcheck
  simpa using hcheck

theorem RepOk.hasOperatorKeyUnderAnyScheme (hrep : l.RepOk) (hget : l.getMN h = some dmn)
    (hnull : dmn.pdmnState.pubKeyOperator.isNull = false) (hself : h ≠ proTxHash) :
    l.hasOperatorKeyUnderAnyScheme dmn.pdmnState.pubKeyOperator.get proTxHash = true := by
  have hholds : dmn.Holds (.pubKeyOperator dmn.pdmnState.pubKeyOperator.serialized) := by
    refine ⟨?_, .inr (.inr (.inr rfl))⟩
    rwa [isNull_pubKeyOperator]
  refine any_eq_true.mpr ⟨dmn.pdmnState.pubKeyOperator.legacy, ?_, ?_⟩
  · cases dmn.pdmnState.pubKeyOperator.legacy <;> decide
  · have hfound := hrep.getUniquePropertyMN hget hholds
    simp only [hfound, proTxHash_of_getMN hget, decide_eq_true_eq]
    exact hself

theorem owns_pubKeyOperator {k : CBLSLazyPublicKey} (howns : l.Owns h (.pubKeyOperator k.serialized)) :
    ∃ dmn, l.getMN h = some dmn ∧ dmn.pdmnState.pubKeyOperator.isNull = false ∧
      dmn.pdmnState.pubKeyOperator.get = k.get := by
  obtain ⟨dmn, hget, hnull, hcases⟩ := howns
  have hsame : k.serialized = dmn.pdmnState.pubKeyOperator.serialized := by
    simpa using hcases
  rw [hsame, isNull_pubKeyOperator] at hnull
  have hpoint := congrArg (Option.map Prod.fst) hsame
  simp only [CBLSLazyPublicKey.serialized, Option.map_map, Function.comp_def, Option.map_id_fun', id]
    at hpoint
  exact ⟨dmn, hget, hnull, hpoint.symm⟩

theorem RepOk.key_owner_eq (hrep : l.RepOk) {k : CBLSLazyPublicKey}
    (hcheck : ¬ l.hasOperatorKeyUnderAnyScheme k.get proTxHash = true)
    (howns : l.Owns h (.pubKeyOperator k.serialized)) : h = proTxHash := by
  obtain ⟨dmn, hget, hnull, hkey⟩ := owns_pubKeyOperator howns
  by_contra hne
  rw [← hkey] at hcheck
  exact hcheck (hrep.hasOperatorKeyUnderAnyScheme hget hnull hne)

theorem RepOk.updatable_of (hrep : l.RepOk) (hget : l.getMN dmn.proTxHash = some dmn)
    (howner : state.keyIDOwner = dmn.pdmnState.keyIDOwner)
    (haddr : state.addr = dmn.pdmnState.addr ∨ state.addr = {} ∨
      ∀ h, l.Owns h (.addr state.addr) → h = dmn.proTxHash)
    (hkey : state.pubKeyOperator = dmn.pdmnState.pubKeyOperator ∨
      state.pubKeyOperator.isNull = true ∨
        ∀ h, l.Owns h (.pubKeyOperator state.pubKeyOperator.serialized) → h = dmn.proTxHash) :
    l.Updatable dmn state := by
  have hown {v : UniqueProperty} (hholds : dmn.Holds v) {h : Uint256} (howns : l.Owns h v) :
      h = dmn.proTxHash :=
    hrep.properties.unique howns ((owns_iff_of_getMN hget).mpr hholds)
  rintro v h ⟨hv, rfl | rfl | rfl | rfl⟩ howns
  · exact hown ⟨hv, .inl rfl⟩ howns
  · obtain hsame | hnull | hfree := haddr
    · exact hown ⟨hv, .inr (.inl (congrArg _ hsame))⟩ howns
    · exact absurd hnull (of_decide_eq_false hv)
    · exact hfree h howns
  · exact hown ⟨hv, .inr (.inr (.inl (congrArg _ howner)))⟩ howns
  · obtain hsame | hnull | hfree := hkey
    · refine hown ⟨hv, .inr (.inr (.inr ?_))⟩ howns
      exact congrArg (fun k : CBLSLazyPublicKey => UniqueProperty.pubKeyOperator k.serialized) hsame
    · rw [isNull_pubKeyOperator] at hv
      exact absurd hnull (Bool.eq_false_iff.mp hv)
    · exact hfree h howns

end CDeterministicMNList

/-! ### States with the same unique properties -/

namespace CDeterministicMNState

/-- `s'` has the unique properties of `s`, and the version that goes with the operator key. -/
structure SameProperties (s s' : CDeterministicMNState) : Prop where
  keyIDOwner : s'.keyIDOwner = s.keyIDOwner
  addr : s'.addr = s.addr
  pubKeyOperator : s'.pubKeyOperator = s.pubKeyOperator
  nVersion : s'.nVersion = s.nVersion

variable {s : CDeterministicMNState} {nHeight : Int}

theorem keyIDOwner_banIfNotBanned : (s.banIfNotBanned nHeight).keyIDOwner = s.keyIDOwner := by
  unfold banIfNotBanned
  split <;> rfl

theorem nVersion_banIfNotBanned : (s.banIfNotBanned nHeight).nVersion = s.nVersion := by
  unfold banIfNotBanned
  split <;> rfl

theorem sameProperties_banIfNotBanned : s.SameProperties (s.banIfNotBanned nHeight) :=
  ⟨keyIDOwner_banIfNotBanned, addr_banIfNotBanned s nHeight, pubKeyOperator_banIfNotBanned s nHeight,
    nVersion_banIfNotBanned⟩

theorem keyIDOwner_updateService {p : CProUpServTx} :
    (s.updateService nHeight p).keyIDOwner = s.keyIDOwner := by
  unfold updateService
  dsimp only
  split <;> rfl

theorem keyIDOwner_updateRegistrar {p : CProUpRegTx} :
    (s.updateRegistrar nHeight p).keyIDOwner = s.keyIDOwner := by
  cases hsame : s.pubKeyOperator.same p.pubKeyOperator with
  | true => rw [updateRegistrar_of_same hsame]
  | false =>
    rw [updateRegistrar_of_not_same hsame]
    exact keyIDOwner_banIfNotBanned

theorem keyIDOwner_revokeOperator {p : CProUpRevTx} :
    (s.revokeOperator nHeight p).keyIDOwner = s.keyIDOwner :=
  keyIDOwner_banIfNotBanned

theorem sameProperties_punished {l : CDeterministicMNList} {penalty : Int} :
    s.SameProperties (l.punished s penalty) := by
  unfold CDeterministicMNList.punished
  dsimp only
  split
  · obtain ⟨howner, haddr, hkey, hversion⟩ : SameProperties
        { s with nPoSePenalty := min l.calcMaxPoSePenalty (s.nPoSePenalty + penalty) } _ :=
      sameProperties_banIfNotBanned
    exact ⟨howner, haddr, hkey, hversion⟩
  · exact ⟨rfl, rfl, rfl, rfl⟩

theorem sameProperties_verdict {params : ConsensusParams} {c : CPoSeServiceCommitment} {i : Nat} :
    s.SameProperties (c.verdict params nHeight i s) := by
  obtain ⟨_, _, _, heq⟩ := c.verdict_eq params nHeight i s
  rw [heq]
  exact ⟨rfl, rfl, rfl, rfl⟩

theorem keyIDOwner_registered {p : CProRegTx} : (registered nHeight p).keyIDOwner = p.keyIDOwner := by
  unfold registered
  split
  · exact keyIDOwner_banIfNotBanned
  · rfl

theorem addr_registered {p : CProRegTx} : (registered nHeight p).addr = p.addr := by
  unfold registered
  split
  · exact addr_banIfNotBanned _ _
  · rfl

theorem pubKeyOperator_registered {p : CProRegTx} :
    (registered nHeight p).pubKeyOperator = p.pubKeyOperator := by
  unfold registered
  split
  · exact pubKeyOperator_banIfNotBanned _ _
  · rfl

end CDeterministicMNState

/-! ### The pass -/

open CDeterministicMNList CDeterministicMNState

def collateralOf (tx : CTransaction) (p : CProRegTx) : COutPoint :=
  if p.collateralOutpoint.hash = 0 then ⟨tx.hash, p.collateralOutpoint.n⟩ else p.collateralOutpoint

def registeredMN (ctx : BlockContext) (nTotalRegisteredCount : Nat) (tx : CTransaction)
    (p : CProRegTx) : CDeterministicMN where
  internalId := nTotalRegisteredCount
  proTxHash := tx.hash
  collateralOutpoint := collateralOf tx p
  nOperatorReward := p.nOperatorReward
  nType := p.nType
  pdmnState := .registered ctx.nHeight p

def CDeterministicMNList.IdsBelow (l : CDeterministicMNList) : Prop :=
  ∀ {h dmn}, l.getMN h = some dmn → dmn.internalId < l.nTotalRegisteredCount

/-- What has to be known of a registration, besides what `RebuildListFromBlock` checks, for it to be
added to `l`. -/
structure Registrable (l : CDeterministicMNList) (tx : CTransaction) (p : CProRegTx) : Prop where
  collateral : (collateralOf tx p).isNull = false
  keyIDOwner : p.keyIDOwner ≠ 0
  same_collateral : ∀ {dmn}, l.getMN tx.hash = some dmn → dmn.collateralOutpoint = collateralOf tx p
  ids : l.IdsBelow

namespace Registrable

variable {l mid : CDeterministicMNList} {tx : CTransaction} {p : CProRegTx} {h : Uint256}
  {c : COutPoint}

theorem getMN_of_removeReplaced (hok : BlockContext.removeReplaced l c = .ok mid)
    {dmn : CDeterministicMN} (hget : mid.getMN h = some dmn) : l.getMN h = some dmn := by
  unfold removeReplaced at hok
  split at hok
  · exact getMN_of_removeMN hok hget
  · cases hok
    exact hget

theorem count_removeReplaced (hok : BlockContext.removeReplaced l c = .ok mid) :
    mid.nTotalRegisteredCount = l.nTotalRegisteredCount := by
  unfold removeReplaced at hok
  split at hok
  · exact count_removeMN hok
  · cases hok
    rfl

theorem not_owns_collateral (hrep : l.RepOk) (hok : BlockContext.removeReplaced l c = .ok mid) :
    ¬ mid.Owns h (.collateralOutpoint c) := by
  rintro ⟨dmn, hget, hholds⟩
  have hfound := hrep.getUniquePropertyMN (getMN_of_removeReplaced hok hget) hholds
  have hself := proTxHash_of_getMN hget
  rw [removeReplaced, getMNByCollateral, hfound] at hok
  rw [removeMN_ok hok, if_pos hself.symm] at hget
  cases hget

theorem addable {ctx : BlockContext} (hreg : Registrable l tx p) (hrep : l.RepOk)
    (hmid : mid.RepOk) (hok : BlockContext.removeReplaced l (collateralOf tx p) = .ok mid)
    (haddr : ¬ mid.hasUniqueProperty (.addr p.addr) = true)
    (howner : ¬ mid.hasUniqueProperty (.keyIDOwner p.keyIDOwner) = true)
    (hkey : ¬ mid.hasUniqueProperty (.pubKeyOperator p.pubKeyOperator.serialized) = true) :
    mid.Addable (registeredMN ctx l.nTotalRegisteredCount tx p) where
  hash_new := by
    cases hget : mid.getMN tx.hash with
    | none => exact hget
    | some dmn =>
      have hcollateral := hreg.same_collateral (getMN_of_removeReplaced hok hget)
      refine absurd ⟨dmn, hget, ?_⟩ (not_owns_collateral (h := tx.hash) hrep hok)
      exact ⟨hreg.collateral, .inl (congrArg _ hcollateral.symm)⟩
  id_new hget := Nat.ne_of_lt (hreg.ids (getMN_of_removeReplaced hok hget))
  hasRequired := ⟨hreg.collateral, by rw [registeredMN, keyIDOwner_registered]; exact hreg.keyIDOwner⟩
  properties_new := by
    rintro v h ⟨hv, rfl | rfl | rfl | rfl⟩ howns
    · exact not_owns_collateral hrep hok howns
    · rw [registeredMN, addr_registered] at howns
      exact haddr (hmid.hasUniqueProperty howns)
    · rw [registeredMN, keyIDOwner_registered] at howns
      exact howner (hmid.hasUniqueProperty howns)
    · rw [registeredMN, pubKeyOperator_registered] at howns
      exact hkey (hmid.hasUniqueProperty howns)

end Registrable

/-- A rejection of the block, or any error if exceptions are not ruled out. -/
def Permitted (Throws : Prop) : ListError → Prop
  | .invalid _ => True
  | _ => Throws

/-- `I` is kept by the operations that `RebuildListFromBlock` calls. They do not throw unless
`Throws`. -/
structure Maintained (ctx : BlockContext) (txs : List SpecialTx)
    (Updates : Uint256 → CDeterministicMNState → CDeterministicMNState → Prop)
    (I : CDeterministicMNList → Prop) (Throws : Prop) : Prop where
  repOk : ∀ {l}, I l → l.RepOk
  start : ∀ {l : CDeterministicMNList}, I l → I { l with blockHash := 0, nHeight := ctx.nHeight }
  update : ∀ {l dmn state}, I l → l.getMN dmn.proTxHash = some dmn →
    Updates dmn.proTxHash dmn.pdmnState state → Throws ∨ l.Updatable dmn state →
      Ensures I (Permitted Throws) (l.updateDmn dmn state)
  remove : ∀ {l h dmn}, I l → l.getMN h = some dmn → Ensures I (Permitted Throws) (l.removeMN h)
  add : ∀ {l tx p}, tx ∈ txs → tx.payload = .proReg (some p) → I l →
    Throws ∨ l.Addable (registeredMN ctx l.nTotalRegisteredCount tx.toCTransaction p) →
      Ensures I (Permitted Throws)
        (l.addMN (registeredMN ctx l.nTotalRegisteredCount tx.toCTransaction p))
  registrable : ∀ {l tx p}, tx ∈ txs → tx.payload = .proReg (some p) → I l →
    Throws ∨ Registrable l tx.toCTransaction p
  v19Active : Throws ∨ ctx.v19Active = true
  same : ∀ {h s s'}, s.SameProperties s' → Updates h s s'
  service : ∀ {tx p s}, tx ∈ txs → tx.payload = .proUpServ (some p) →
    Updates p.proTxHash s (s.updateService ctx.nHeight p)
  registrar : ∀ {tx p s}, tx ∈ txs → tx.payload = .proUpReg (some p) →
    Updates p.proTxHash s (s.updateRegistrar ctx.nHeight p)
  revocation : ∀ {tx p s}, tx ∈ txs → tx.payload = .proUpRev (some p) →
    Updates p.proTxHash s (s.revokeOperator ctx.nHeight p)

namespace Maintained

variable {ctx : BlockContext} {txs : List SpecialTx}
  {Updates : Uint256 → CDeterministicMNState → CDeterministicMNState → Prop}
  {I : CDeterministicMNList → Prop} {Throws : Prop} {l : CDeterministicMNList}
  {dmn : CDeterministicMN} {state : CDeterministicMNState} {tx : SpecialTx} {proTxHash : Uint256}
  (hI : Maintained ctx txs Updates I Throws)

include hI

theorem updateMN (hl : I l) (hget : l.getMN proTxHash = some dmn)
    (hupdates : Updates proTxHash dmn.pdmnState state) (hupdatable : Throws ∨ l.Updatable dmn state) :
    Ensures I (Permitted Throws) (l.updateMN proTxHash state) := by
  unfold CDeterministicMNList.updateMN
  rw [hget]
  have hself := proTxHash_of_getMN hget
  exact hI.update hl (by rwa [hself]) (by rwa [hself]) hupdatable

theorem updateDmn_same (hl : I l) (hget : l.getMN dmn.proTxHash = some dmn)
    (hsame : dmn.pdmnState.SameProperties state) :
    Ensures I (Permitted Throws) (l.updateDmn dmn state) := by
  refine hI.update hl hget (hI.same hsame) (.inr ?_)
  exact (hI.repOk hl).updatable_of hget hsame.keyIDOwner (.inl hsame.addr)
    (.inl hsame.pubKeyOperator)

theorem updateMN_same (hl : I l) (hget : l.getMN proTxHash = some dmn)
    (hsame : dmn.pdmnState.SameProperties state) :
    Ensures I (Permitted Throws) (l.updateMN proTxHash state) := by
  unfold CDeterministicMNList.updateMN
  rw [hget]
  refine hI.updateDmn_same hl ?_ hsame
  rwa [proTxHash_of_getMN hget]

theorem foldlM_mns {step : CDeterministicMNList → CDeterministicMN → Except ListError CDeterministicMNList}
    {dmns : List CDeterministicMN} (onlyValid : Bool) (hdmns : dmns.Sublist (l.mns onlyValid))
    (hl : I l)
    (hstep : ∀ l dmn, step l dmn = .ok l ∨
      ∃ state, (step l dmn = l.updateDmn dmn state ∨ step l dmn = l.updateMN dmn.proTxHash state) ∧
        dmn.pdmnState.SameProperties state) :
    Ensures I (Permitted Throws) (dmns.foldlM step l) := by
  -- the masternodes still to come are listed as they were before the loop
  refine (Ensures.foldlM_rest (I := fun rest l => I l ∧
      (rest.map CDeterministicMN.proTxHash).Nodup ∧
        ∀ dmn ∈ rest, l.getMN dmn.proTxHash = some dmn) ⟨hl, ?_, ?_⟩ ?_).mono fun l h => h.1
  · exact (nodup_mns onlyValid).sublist (hdmns.map _)
  · exact fun dmn hdmn => (mem_mns_iff.mp (hdmns.subset hdmn)).1
  · rintro dmn rest l ⟨hl, hnodup, hlisted⟩
    rw [map_cons, nodup_cons] at hnodup
    have hget := hlisted dmn mem_cons_self
    have hrest := fun d hd => hlisted d (mem_cons_of_mem _ hd)
    have hupdate {state : CDeterministicMNState} (hsame : dmn.pdmnState.SameProperties state) :
        Ensures (fun l => I l ∧ (rest.map CDeterministicMN.proTxHash).Nodup ∧
          ∀ d ∈ rest, l.getMN d.proTxHash = some d) (Permitted Throws) (l.updateDmn dmn state) := by
      refine ((hI.updateDmn_same hl hget hsame).and fun l' hok => ?_)
      refine ⟨hnodup.2, fun d hd => ?_⟩
      rw [updateDmn_ok hok, if_neg]
      · exact hrest d hd
      · exact fun heq => hnodup.1 (heq ▸ mem_map_of_mem hd)
    obtain hkept | ⟨state, hok | hok, hsame⟩ := hstep l dmn
    · rw [hkept]
      exact ⟨hl, hnodup.2, hrest⟩
    · rw [hok]
      exact hupdate hsame
    · rw [hok, CDeterministicMNList.updateMN, hget]
      exact hupdate hsame

theorem startList (hl : I l) : Ensures I (Permitted Throws) (ctx.startList l) := by
  refine Ensures.bind (hI.foldlM_mns false (Sublist.refl _) (hI.start hl) ?_) ?_
  · intro l dmn
    unfold BlockContext.confirmMN
    split
    · exact .inl rfl
    · split
      · exact .inr ⟨_, .inr rfl, rfl, rfl, rfl, rfl⟩
      · exact .inl rfl
  · intro l hl
    exact hI.foldlM_mns true filter_sublist hl
      fun l dmn => .inr ⟨_, .inl rfl, rfl, rfl, rfl, rfl⟩

theorem removeReplaced (hl : I l) (collateralOutpoint : COutPoint) :
    Ensures I (Permitted Throws) (BlockContext.removeReplaced l collateralOutpoint) := by
  unfold BlockContext.removeReplaced
  split
  next dmn hfound => exact hI.remove hl (getMN_of_getUniquePropertyMN hfound)
  · exact hl

theorem applyProRegTx {p : CProRegTx} (htx : tx ∈ txs)
    (hp : tx.payload = .proReg (some p)) (hl : I l) :
    Ensures I (Permitted Throws) (ctx.applyProRegTx l tx.toCTransaction p) := by
  refine Ensures.refuseIf trivial fun _ => ?_
  refine Ensures.bind ((hI.removeReplaced hl _).and fun mid hok => hok) fun mid ⟨hmid, hok⟩ => ?_
  refine Ensures.refuseIf trivial fun haddr => ?_
  refine Ensures.refuseIf trivial fun hkeys => ?_
  refine Ensures.refuseIf trivial fun _ => ?_
  rw [not_or] at hkeys
  rw [← Registrable.count_removeReplaced hok]
  refine hI.add htx hp hmid ((hI.registrable htx hp hl).imp_right fun hreg => ?_)
  rw [Registrable.count_removeReplaced hok]
  exact hreg.addable (hI.repOk hl) (hI.repOk hmid) hok haddr hkeys.1 hkeys.2

theorem applyProUpServTx {p : CProUpServTx} (htx : tx ∈ txs)
    (hp : tx.payload = .proUpServ (some p)) (hl : I l) :
    Ensures I (Permitted Throws) (ctx.applyProUpServTx l p) := by
  have hrep := hI.repOk hl
  refine Ensures.refuseIf trivial fun haddr => ?_
  refine Ensures.need trivial fun dmn hget => ?_
  refine Ensures.refuseIf trivial fun _ => ?_
  refine Ensures.refuseIf trivial fun _ => ?_
  refine hI.updateMN hl hget (hI.service htx hp) (.inr ?_)
  obtain hself := proTxHash_of_getMN hget
  refine hrep.updatable_of (by rwa [hself]) keyIDOwner_updateService (.inr (.inr fun h howns => ?_))
    (.inl (pubKeyOperator_updateService _ _ _))
  rw [addr_updateService] at howns
  rw [hself]
  exact hrep.owner_eq haddr howns

theorem applyProUpRegTx {p : CProUpRegTx} (htx : tx ∈ txs)
    (hp : tx.payload = .proUpReg (some p)) (hl : I l) :
    Ensures I (Permitted Throws) (ctx.applyProUpRegTx l p) := by
  have hrep := hI.repOk hl
  refine Ensures.need trivial fun dmn hget => ?_
  refine Ensures.refuseIf trivial fun hcheck => ?_
  have hself := proTxHash_of_getMN hget
  cases hsame : dmn.pdmnState.pubKeyOperator.same p.pubKeyOperator with
  | true =>
    rw [updateRegistrar_of_same hsame]
    exact hI.updateMN_same hl hget ⟨rfl, rfl, rfl, rfl⟩
  | false =>
    refine hI.updateMN hl hget (hI.registrar htx hp) (hI.v19Active.imp_right fun hv19 => ?_)
    refine hrep.updatable_of (by rwa [hself]) keyIDOwner_updateRegistrar (.inr (.inl ?_))
      (.inr (.inr fun h howns => ?_))
    · rw [updateRegistrar_of_not_same hsame]
      exact addr_banIfNotBanned _ _
    · rw [updateRegistrar_of_not_same hsame] at howns
      rw [hself]
      refine hrep.key_owner_eq (fun hfound => hcheck ⟨hv19, ?_, hfound⟩) howns
      rw [CBLSLazyPublicKey.same, decide_eq_false_iff_not] at hsame
      simpa [CBLSLazyPublicKey.same] using Ne.symm hsame

theorem applyProUpRevTx {p : CProUpRevTx} (htx : tx ∈ txs)
    (hp : tx.payload = .proUpRev (some p)) (hl : I l) :
    Ensures I (Permitted Throws) (ctx.applyProUpRevTx l p) := by
  refine Ensures.need trivial fun dmn hget => ?_
  refine hI.updateMN hl hget (hI.revocation htx hp) (.inr ?_)
  refine (hI.repOk hl).updatable_of (by rwa [proTxHash_of_getMN hget]) keyIDOwner_revokeOperator
    (.inr (.inl (addr_banIfNotBanned _ _))) (.inr (.inl ?_))
  exact congrArg CBLSLazyPublicKey.isNull (pubKeyOperator_banIfNotBanned _ _)

theorem punishMember {qc : Llmq.CFinalCommitment} {member : Uint256 × Nat} (hl : I l) :
    Ensures I (Permitted Throws) (BlockContext.punishMember qc l member) := by
  unfold BlockContext.punishMember CDeterministicMNList.hasMN CDeterministicMNList.poSePunish
  cases hget : l.getMN member.1 with
  | none => exact hl
  | some dmn =>
    split
    · exact hl
    · split
      · exact hI.updateMN_same hl hget sameProperties_punished
      · exact hl

theorem applyQuorumCommitment {p : CFinalCommitmentTxPayload} (hl : I l) :
    Ensures I (Permitted Throws) (ctx.applyQuorumCommitment l p) := by
  unfold BlockContext.applyQuorumCommitment
  dsimp only
  split
  · exact hl
  · refine Ensures.need trivial fun llmqParams _ => ?_
    refine Ensures.refuseIf trivial fun _ => ?_
    exact Ensures.foldlM hl fun _ hl => hI.punishMember hl

theorem applyServiceCommitment {c : CPoSeServiceCommitment} {epochBaseList : CDeterministicMNList}
    {nHeight : Int} (hl : I l) :
    Ensures I (Permitted Throws)
      (l.applyServiceCommitment ctx.params c epochBaseList nHeight) := by
  unfold CDeterministicMNList.applyServiceCommitment
  dsimp only
  split
  · exact hl
  split
  · exact hl
  refine Ensures.foldlM hl fun {l entry} _ hl => ?_
  split
  · exact hl
  next dmn hget => exact hI.updateMN_same hl hget sameProperties_verdict

theorem applyServiceCommitmentTx {c : CPoSeServiceCommitment} (hl : I l) :
    Ensures I (Permitted Throws) (ctx.applyServiceCommitmentTx l c) := by
  refine Ensures.refuseIf trivial fun _ => ?_
  refine Ensures.refuseIf trivial fun _ => ?_
  refine Ensures.refuseIf trivial fun _ => ?_
  exact hI.applyServiceCommitment hl

theorem applySpecialTx {acc : CDeterministicMNList × Nat} (htx : tx ∈ txs) (hacc : I acc.1) :
    Ensures (fun acc => I acc.1) (Permitted Throws) (ctx.applySpecialTx acc tx) := by
  have hreturn {x : Except ListError CDeterministicMNList} {n : Nat}
      (h : Ensures I (Permitted Throws) x) :
      Ensures (fun acc => I acc.1) (Permitted Throws) (x >>= fun l => pure (l, n)) :=
    h.bind fun l hl => hl
  unfold BlockContext.applySpecialTx
  split
  · exact hacc
  next payload hpayload =>
    refine Ensures.need trivial fun p hp => hreturn (hI.applyProRegTx htx ?_ hacc)
    rw [hpayload, hp]
  next payload hpayload =>
    refine Ensures.need trivial fun p hp => hreturn (hI.applyProUpServTx htx ?_ hacc)
    rw [hpayload, hp]
  next payload hpayload =>
    refine Ensures.need trivial fun p hp => hreturn (hI.applyProUpRegTx htx ?_ hacc)
    rw [hpayload, hp]
  next payload hpayload =>
    refine Ensures.need trivial fun p hp => hreturn (hI.applyProUpRevTx htx ?_ hacc)
    rw [hpayload, hp]
  · exact Ensures.need trivial fun p _ => hreturn (hI.applyQuorumCommitment hacc)
  · refine Ensures.refuseIf trivial fun _ => ?_
    exact Ensures.need trivial fun p _ => hreturn (hI.applyServiceCommitmentTx hacc)

theorem applyTxs {pre : List SpecialTx} (hpre : ∀ tx ∈ pre, tx ∈ txs) (hl : I l) :
    Ensures (fun acc => I acc.1) (Permitted Throws) (ctx.applyTxs l pre) := by
  refine Ensures.bind (hI.startList hl) fun start hstart => ?_
  exact Ensures.foldlM hstart fun htx hacc => hI.applySpecialTx (hpre _ htx) hacc

theorem removeSpent {prevout : COutPoint} (hl : I l) :
    Ensures I (Permitted Throws) (BlockContext.removeSpent l prevout) := by
  unfold BlockContext.removeSpent
  split
  · exact hl
  next dmn hfound =>
    split
    · exact hI.remove hl (getMN_of_getUniquePropertyMN hfound)
    · exact hl

theorem recordPayment {payee : Option CDeterministicMN} (hl : I l) :
    Ensures I (Permitted Throws) (ctx.recordPayment l payee) := by
  unfold BlockContext.recordPayment
  split
  · exact hl
  · split
    · exact hl
    next dmn hget => exact hI.updateMN_same hl hget ⟨rfl, rfl, rfl, rfl⟩

theorem finishList {prevList : CDeterministicMNList} {txs' : List SpecialTx} (hl : I l) :
    Ensures I (Permitted Throws) (ctx.finishList prevList txs' l) := by
  refine Ensures.bind (Ensures.foldlM hl fun _ hl => hI.removeSpent hl) fun l hl => ?_
  refine Ensures.bind (hI.recordPayment hl) fun l hl => ?_
  refine hI.foldlM_mns false (Sublist.refl _) hl fun l dmn => ?_
  unfold BlockContext.resetPayments
  split
  · exact .inl rfl
  · split
    · exact .inl rfl
    · split
      · exact .inl rfl
      · exact .inr ⟨_, .inr rfl, rfl, rfl, rfl, rfl⟩

omit hI in
theorem rebuildListFromBlock {vtx : List SpecialTx} 
    (hI : Maintained ctx vtx.tail Updates I Throws) (hl : I l)
    (hprev : Throws ∨ l.isDefault = true ∨ l.blockHash = ctx.prevHash) :
    Ensures I (Permitted Throws) (ctx.rebuildListFromBlock l vtx) := by
  have hrest : Ensures I (Permitted Throws)
      (ctx.applyTxs l vtx.tail >>= fun acc => ctx.finishList l vtx.tail acc.1) := by
    refine Ensures.bind (hI.applyTxs (fun _ htx => htx) hl) fun acc hacc => ?_
    exact hI.finishList hacc
  unfold BlockContext.rebuildListFromBlock Lib.refuseIf
  split
  next hbad =>
    obtain hthrows | hgood := hprev
    · exact hthrows
    · exact absurd hgood hbad
  · exact hrest

end Maintained

end Defcon.Evo
