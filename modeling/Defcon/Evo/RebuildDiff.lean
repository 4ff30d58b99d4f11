import Defcon.Evo.CleanRejection
import Defcon.Evo.DiffCodec

/-!
# The difference that a block makes

Between the list of a block and the list of the next one no unique property changes hands among
masternodes that both list: the checks of the transactions are made against the list before the
block, so a transaction may only take a property that is free there, or that belongs to a masternode
which the block removes. The difference of the two lists therefore is exact, and it stays so when it
is stored and read back.
-/

namespace Defcon.Evo

open Lib (Ensures)
open CDeterministicMNList BlockContext Lib

structure FreeUpdate (L : CDeterministicMNList) (h : Uint256) (s s' : CDeterministicMNState) :
    Prop where
  keyIDOwner : s'.keyIDOwner = s.keyIDOwner
  addr : s'.addr = s.addr ∨ s'.addr = {} ∨ ∀ {h'}, L.Owns h' (.addr s'.addr) → h' = h
  pubKeyOperator : s'.pubKeyOperator = s.pubKeyOperator ∨ s'.pubKeyOperator.isNull = true ∨
    ∀ {h'}, L.Owns h' (.pubKeyOperator s'.pubKeyOperator.serialized) → h' = h
  encoded : s.KeyEncoded → s'.KeyEncoded

def SpecialTx.IsRegistration (tx : SpecialTx) : Prop :=
  ∃ p, tx.payload = .proReg (some p)

/-- A list on the way from `L` to the list after the transactions `txs`. -/
structure Derived (L : CDeterministicMNList) (txs : List SpecialTx) (l : CDeterministicMNList) :
    Prop where
  repOk : l.RepOk
  kept : ∀ {h d d'}, L.getMN h = some d → l.getMN h = some d' →
    d = d'.withState d.pdmnState ∧ d'.pdmnState.keyIDOwner = d.pdmnState.keyIDOwner
  removed : ∀ {h d}, L.getMN h = some d → l.getMN h = none → d.HasRequired
  added : ∀ {h d}, L.getMN h = none → l.getMN h = some d →
    d.HasRequired ∧ d.internalId < l.nTotalRegisteredCount
  noHandover : ∀ {h h' v}, l.Owns h v → L.Owns h' v → h ≠ h' → l.getMN h' = none
  encoded : (∀ {h d}, L.getMN h = some d → d.pdmnState.KeyEncoded) →
    ∀ {h d}, l.getMN h = some d → d.pdmnState.KeyEncoded
  count_le : L.nTotalRegisteredCount ≤ l.nTotalRegisteredCount
  count : l.nTotalRegisteredCount = L.nTotalRegisteredCount ∨
    ∃ tx ∈ txs, tx.IsRegistration ∧
      ∀ d, l.getMN tx.hash = some d → d.internalId + 1 = l.nTotalRegisteredCount

namespace Derived

variable {L l l' : CDeterministicMNList} {txs : List SpecialTx} {dmn : CDeterministicMN}
  {state : CDeterministicMNState} {proTxHash : Uint256}

theorem refl (hrep : L.RepOk) : Derived L txs L where
  repOk := hrep
  kept hget hget' := by
    cases hget.symm.trans hget'
    exact ⟨rfl, rfl⟩
  removed hget hnone := by
    rw [hget] at hnone
    cases hnone
  added hnone hget := by
    rw [hnone] at hget
    cases hget
  noHandover howns howns' hne := absurd (hrep.properties.unique howns howns') hne
  encoded hencoded := hencoded
  count_le := le_rfl
  count := .inl rfl

theorem setHeader (hl : Derived L txs l) (blockHash : Uint256) (nHeight : Int) :
    Derived L txs { l with blockHash := blockHash, nHeight := nHeight } :=
  ⟨⟨hl.repOk.ids, hl.repOk.properties⟩, hl.kept, hl.removed, hl.added, hl.noHandover, hl.encoded,
    hl.count_le, hl.count⟩

theorem owns_of_freeUpdate (hfree : FreeUpdate L dmn.proTxHash dmn.pdmnState state)
    {h' : Uint256} {v : UniqueProperty} (hget : l.getMN dmn.proTxHash = some dmn)
    (hholds : (dmn.withState state).Holds v) (howns : L.Owns h' v) (hne : dmn.proTxHash ≠ h') :
    l.Owns dmn.proTxHash v := by
  rw [owns_iff_of_getMN hget]
  obtain ⟨hv, rfl | rfl | rfl | rfl⟩ := hholds
  · exact ⟨hv, .inl rfl⟩
  · obtain hsame | hnull | honly := hfree.addr
    · exact ⟨hv, .inr (.inl (congrArg _ hsame))⟩
    · exact absurd hnull (of_decide_eq_false hv)
    · exact absurd (honly howns).symm hne
  · exact ⟨hv, .inr (.inr (.inl (congrArg _ hfree.keyIDOwner)))⟩
  · obtain hsame | hnull | honly := hfree.pubKeyOperator
    · refine ⟨hv, .inr (.inr (.inr ?_))⟩
      exact congrArg (fun k : CBLSLazyPublicKey => UniqueProperty.pubKeyOperator k.serialized) hsame
    · rw [isNull_pubKeyOperator] at hv
      exact absurd hnull (Bool.eq_false_iff.mp hv)
    · exact absurd (honly howns).symm hne

theorem updateDmn (hl : Derived L txs l) (hget : l.getMN dmn.proTxHash = some dmn)
    (hfree : FreeUpdate L dmn.proTxHash dmn.pdmnState state)
    (hok : l.updateDmn dmn state = .ok l') : Derived L txs l' := by
  have hafter := updateDmn_ok hok
  -- the masternodes that are listed stay, all but the updated one as they are
  have hlisted {h : Uint256} {d' : CDeterministicMN} (hget' : l'.getMN h = some d') :
      ∃ d, l.getMN h = some d ∧ (d' = d ∨ h = dmn.proTxHash ∧ d = dmn ∧ d' = dmn.withState state) := by
    rw [hafter] at hget'
    split at hget'
    · next heq =>
        cases hget'
        exact ⟨dmn, heq ▸ hget, .inr ⟨heq, rfl, rfl⟩⟩
    · exact ⟨d', hget', .inl rfl⟩
  have hnone {h : Uint256} : l'.getMN h = none ↔ l.getMN h = none := by
    rw [hafter]
    split
    · next heq => simp [heq, hget]
    · rfl
  refine ⟨hl.repOk.updateDmn hget hok, fun {h d d'} hgetL hget' => ?_, fun hgetL hgone => ?_,
    fun {h d'} hnoneL hget' => ?_, fun {h h' v} howns howns' hne => ?_, fun hL {h d'} hget' => ?_, ?_,
    ?_⟩
  · obtain ⟨d₀, hd₀, rfl | ⟨rfl, rfl, rfl⟩⟩ := hlisted hget'
    · exact hl.kept hgetL hd₀
    · obtain ⟨hkept, howner⟩ := hl.kept hgetL hd₀
      exact ⟨hkept, hfree.keyIDOwner.trans howner⟩
  · exact hl.removed hgetL (hnone.mp hgone)
  · rw [count_updateDmn hok]
    obtain ⟨d₀, hd₀, rfl | ⟨rfl, rfl, rfl⟩⟩ := hlisted hget'
    · exact hl.added hnoneL hd₀
    · obtain ⟨⟨hcollateral, howner⟩, hid⟩ := hl.added hnoneL hd₀
      exact ⟨⟨hcollateral, hfree.keyIDOwner ▸ howner⟩, hid⟩
  · rw [hnone]
    obtain ⟨d', hget', hholds⟩ := howns
    obtain ⟨d₀, hd₀, rfl | ⟨rfl, rfl, rfl⟩⟩ := hlisted hget'
    · exact hl.noHandover ⟨d', hd₀, hholds⟩ howns' hne
    · exact hl.noHandover (owns_of_freeUpdate hfree hget hholds howns' hne) howns' hne
  · obtain ⟨d₀, hd₀, rfl | ⟨rfl, rfl, rfl⟩⟩ := hlisted hget'
    · exact hl.encoded hL hd₀
    · exact hfree.encoded (hl.encoded hL hd₀)
  · rw [count_updateDmn hok]
    exact hl.count_le
  · rw [count_updateDmn hok]
    obtain hsame | ⟨tx, htx, hreg, hlast⟩ := hl.count
    · exact .inl hsame
    · refine .inr ⟨tx, htx, hreg, fun d' hget' => ?_⟩
      obtain ⟨d₀, hd₀, rfl | ⟨-, rfl, rfl⟩⟩ := hlisted hget'
      · exact hlast _ hd₀
      · have hid := hlast _ hd₀
        exact hid

theorem removeMN (hl : Derived L txs l) (hok : l.removeMN proTxHash = .ok l') : Derived L txs l' := by
  have hafter := removeMN_ok hok
  have hlisted {h : Uint256} {d : CDeterministicMN} (hget' : l'.getMN h = some d) :
      l.getMN h = some d := getMN_of_removeMN hok hget'
  have hgone {h : Uint256} (hnone : l.getMN h = none) : l'.getMN h = none := by
    rw [hafter]
    split
    · rfl
    · exact hnone
  refine ⟨hl.repOk.removeMN hok, fun hgetL hget' => hl.kept hgetL (hlisted hget'),
    fun {h d} hgetL hnone => ?_, fun hnoneL hget' => ?_, fun howns howns' hne => ?_,
    fun hL _ _ hget' => hl.encoded hL (hlisted hget'), ?_, ?_⟩
  · cases hget : l.getMN h with
    | none => exact hl.removed hgetL hget
    | some d' =>
      rw [hafter] at hnone
      split at hnone
      · next heq =>
          subst heq
          obtain ⟨hcollateral, howner⟩ := hasRequired_of_removeMN hget hok
          obtain ⟨hkept, hsame⟩ := hl.kept hgetL hget
          rw [hkept]
          exact ⟨hcollateral, hsame ▸ howner⟩
      · rw [hget] at hnone
        cases hnone
  · rw [count_removeMN hok]
    exact hl.added hnoneL (hlisted hget')
  · obtain ⟨d, hget', hholds⟩ := howns
    exact hgone (hl.noHandover ⟨d, hlisted hget', hholds⟩ howns' hne)
  · rw [count_removeMN hok]
    exact hl.count_le
  · rw [count_removeMN hok]
    exact hl.count.imp_right fun ⟨tx, htx, hreg, hlast⟩ =>
      ⟨tx, htx, hreg, fun d hget' => hlast d (hlisted hget')⟩

end Derived

/-! ### What the checks against the list before the block leave free -/

section Checked

variable {ctx : BlockContext} {L : CDeterministicMNList} {tx : CTransaction}

variable {p : CProRegTx} {nHeight : Int} {s : CDeterministicMNState}

theorem findCollateral_ok {found : COutPoint × CTxDestination × Option CKeyID}
    (hfind : ctx.findCollateral tx p = .ok found) : found.1 = collateralOf tx p := by
  unfold findCollateral at hfind
  unfold collateralOf
  split at hfind
  · next hexternal =>
      simp only [bind_eq_ok] at hfind
      obtain ⟨_, -, _, -, dest, -, hreturn⟩ := hfind
      rw [if_neg hexternal]
      split at hreturn
      · cases hreturn
        rfl
      · cases hreturn
  · next hinternal =>
      simp only [bind_eq_ok, pure_eq_ok] at hfind
      obtain ⟨_, -, _, -, dest, -, rfl⟩ := hfind
      rw [if_pos (not_not.mp hinternal)]

/-- A registration takes an address that is free or goes with its collateral, and keys that are
free. -/
structure FreeRegistration (L : CDeterministicMNList) (tx : CTransaction) (p : CProRegTx) : Prop where
  addr : ∀ {h d}, L.getMN h = some d → d.Holds (.addr p.addr) →
    d.collateralOutpoint = collateralOf tx p
  keyIDOwner : ∀ {h}, ¬ L.Owns h (.keyIDOwner p.keyIDOwner)
  pubKeyOperator : ∀ {h}, ¬ L.Owns h (.pubKeyOperator p.pubKeyOperator.serialized)
  encoded : p.pubKeyOperator.legacy = decide (p.nVersion = LEGACY_BLS_VERSION)

theorem freeRegistration (hL : L.RepOk) (hcheck : ctx.checkProRegTx L tx p = .ok ()) :
    FreeRegistration L tx p := by
  simp only [checkProRegTx, bind_eq_ok, refuseIf_eq_ok] at hcheck
  obtain ⟨_, htrivial, _, -, _, -, found, hfind, _, -, _, haddr, _, hkeys, -⟩ := hcheck
  rw [not_or] at hkeys
  refine ⟨fun hget hholds => ?_, fun howns => hkeys.1 (hL.hasUniqueProperty howns),
    fun howns => hkeys.2 (hL.hasUniqueProperty howns), ?_⟩
  · rw [hL.getUniquePropertyMN hget hholds, Option.any_some, findCollateral_ok hfind] at haddr
    simpa using haddr
  · simp only [CProRegTx.isTriviallyValid, bind_eq_ok, refuseIf_eq_ok] at htrivial
    obtain ⟨-, -, -, -, -, -, -, -, -, -, -, hlegacy, -⟩ := htrivial
    exact not_not.mp hlegacy

open CDeterministicMNState

theorem freeUpdate_updateService {p : CProUpServTx} (hL : L.RepOk)
    (hcheck : ctx.checkProUpServTx L tx p = .ok ()) :
    FreeUpdate L p.proTxHash s (s.updateService nHeight p) := by
  simp only [checkProUpServTx, bind_eq_ok, refuseIf_eq_ok] at hcheck
  obtain ⟨-, -, -, -, -, -, -, -, -, -, -, haddr, -⟩ := hcheck
  refine ⟨keyIDOwner_updateService, .inr (.inr fun howns => ?_),
    .inl (pubKeyOperator_updateService _ _ _), fun hencoded => ?_⟩
  · rw [addr_updateService] at howns
    exact hL.owner_eq haddr howns
  · have hversion : (s.updateService nHeight p).nVersion = s.nVersion := by
      unfold updateService
      dsimp only
      split <;> rfl
    rwa [KeyEncoded, legacyScheme, pubKeyOperator_updateService, hversion]

theorem freeUpdate_updateRegistrar {p : CProUpRegTx} (hL : L.RepOk)
    (hcheck : ctx.checkProUpRegTx L tx p = .ok ()) :
    FreeUpdate L p.proTxHash s (s.updateRegistrar nHeight p) := by
  simp only [checkProUpRegTx, bind_eq_ok, refuseIf_eq_ok] at hcheck
  obtain ⟨_, htrivial, -, -, -, -, -, -, -, -, -, -, -, -, -, hkey, -⟩ := hcheck
  cases hsame : s.pubKeyOperator.same p.pubKeyOperator with
  | true =>
    rw [updateRegistrar_of_same hsame]
    exact ⟨rfl, .inl rfl, .inl rfl, id⟩
  | false =>
    refine ⟨keyIDOwner_updateRegistrar, .inr (.inl ?_), .inr (.inr fun howns => ?_), fun _ => .inr ?_⟩
    · rw [updateRegistrar_of_not_same hsame]
      exact addr_banIfNotBanned _ _
    · rw [updateRegistrar_of_not_same hsame] at howns
      refine hL.owner_eq (fun hany => hkey ?_) howns
      simpa only [ne_comm] using hany
    · rw [updateRegistrar_of_not_same hsame]
      simp only [CProUpRegTx.isTriviallyValid, bind_eq_ok, refuseIf_eq_ok] at htrivial
      obtain ⟨-, -, -, -, -, -, -, hlegacy, -⟩ := htrivial
      exact not_not.mp hlegacy

theorem freeUpdate_revokeOperator {p : CProUpRevTx} :
    FreeUpdate L p.proTxHash s (s.revokeOperator nHeight p) where
  keyIDOwner := keyIDOwner_revokeOperator
  addr := .inr (.inl (addr_banIfNotBanned _ _))
  pubKeyOperator :=
    .inr (.inl (congrArg CBLSLazyPublicKey.isNull (pubKeyOperator_banIfNotBanned _ _)))
  encoded _ := .inl (congrArg CBLSLazyPublicKey.isNull (pubKeyOperator_banIfNotBanned _ _))

theorem freeUpdate_of_sameProperties {h : Uint256} {s' : CDeterministicMNState}
    (hsame : s.SameProperties s') : FreeUpdate L h s s' where
  keyIDOwner := hsame.keyIDOwner
  addr := .inl hsame.addr
  pubKeyOperator := .inl hsame.pubKeyOperator
  encoded hencoded := by
    rwa [KeyEncoded, legacyScheme, hsame.pubKeyOperator, hsame.nVersion]

theorem keyEncoded_registered
    (hlegacy : p.pubKeyOperator.legacy = decide (p.nVersion = LEGACY_BLS_VERSION)) :
    (registered nHeight p).KeyEncoded := by
  have hversion : (registered nHeight p).nVersion = p.nVersion := by
    unfold registered
    split
    · exact nVersion_banIfNotBanned
    · rfl
  right
  rw [legacyScheme, pubKeyOperator_registered, hversion, hlegacy]

end Checked

theorem Derived.addMN {ctx : BlockContext} {L l l' : CDeterministicMNList} {txs : List SpecialTx}
    {tx : SpecialTx} {p : CProRegTx} (hl : Derived L txs l) (htx : tx ∈ txs)
    (hp : tx.payload = .proReg (some p)) (hfresh : L.getMN tx.hash = none)
    (hfree : FreeRegistration L tx.toCTransaction p)
    (hok : l.addMN (registeredMN ctx l.nTotalRegisteredCount tx.toCTransaction p) = .ok l') :
    Derived L txs l' := by
  have haddable := hl.repOk.addable hok
  have hafter (h : Uint256) : l'.getMN h = if h = tx.hash then
      some (registeredMN ctx l.nTotalRegisteredCount tx.toCTransaction p) else l.getMN h :=
    (addMN_ok hok).2 h
  have hcount : l'.nTotalRegisteredCount = l.nTotalRegisteredCount + 1 := by
    rw [count_addMN hok]
    exact max_eq_left (Nat.le_succ _)
  have hold {h : Uint256} {d : CDeterministicMN} (hget : L.getMN h = some d) :
      l'.getMN h = l.getMN h := by
    rw [hafter, if_neg]
    rintro rfl
    exact absurd (hfresh.symm.trans hget) nofun
  -- a masternode of `L` that has the collateral of the registration is not listed any more
  have hreplaced {h : Uint256} {d : CDeterministicMN} (hget : L.getMN h = some d)
      (hcollateral : d.collateralOutpoint = collateralOf tx.toCTransaction p) : l.getMN h = none := by
    cases hget' : l.getMN h with
    | none => rfl
    | some d' =>
      have hsame : d'.collateralOutpoint = d.collateralOutpoint := by
        rw [(hl.kept hget hget').1]
        rfl
      refine absurd ⟨d', hget', ?_⟩ (haddable.properties_new (h := h)
        (v := .collateralOutpoint (collateralOf tx.toCTransaction p))
          ⟨haddable.hasRequired.1, .inl rfl⟩)
      exact ⟨haddable.hasRequired.1, .inl (by rw [hsame, hcollateral])⟩
  refine ⟨hl.repOk.addMN hok, fun hgetL hget' => ?_, fun hgetL hnone => ?_,
    fun {h d} hnoneL hget' => ?_, fun {h h' v} howns howns' hne => ?_, fun hL {h d} hget' => ?_, ?_, ?_⟩
  · rw [hold hgetL] at hget'
    exact hl.kept hgetL hget'
  · rw [hold hgetL] at hnone
    exact hl.removed hgetL hnone
  · rw [hafter] at hget'
    rw [hcount]
    split at hget'
    · cases hget'
      exact ⟨haddable.hasRequired, Nat.lt_succ_self _⟩
    · obtain ⟨hrequired, hid⟩ := hl.added hnoneL hget'
      exact ⟨hrequired, Nat.lt_succ_of_lt hid⟩
  · obtain ⟨d, hget', hholds⟩ := howns
    obtain ⟨d₀, hd₀, hholds₀⟩ := howns'
    rw [hold hd₀]
    rw [hafter] at hget'
    split at hget'
    · cases hget'
      obtain ⟨-, rfl | rfl | rfl | rfl⟩ := hholds
      · refine hreplaced hd₀ ?_
        obtain ⟨-, hcases⟩ := hholds₀
        simpa [registeredMN, eq_comm] using hcases
      · rw [registeredMN, CDeterministicMNState.addr_registered] at hholds₀
        exact hreplaced hd₀ (hfree.addr hd₀ hholds₀)
      · rw [registeredMN, CDeterministicMNState.keyIDOwner_registered] at hholds₀
        exact absurd ⟨d₀, hd₀, hholds₀⟩ hfree.keyIDOwner
      · rw [registeredMN, CDeterministicMNState.pubKeyOperator_registered] at hholds₀
        exact absurd ⟨d₀, hd₀, hholds₀⟩ hfree.pubKeyOperator
    · exact hl.noHandover ⟨d, hget', hholds⟩ ⟨d₀, hd₀, hholds₀⟩ hne
  · rw [hafter] at hget'
    split at hget'
    · cases hget'
      exact keyEncoded_registered hfree.encoded
    · exact hl.encoded hL hget'
  · rw [hcount]
    exact hl.count_le.trans (Nat.le_succ _)
  · refine .inr ⟨tx, htx, ⟨p, hp⟩, fun d hget' => ?_⟩
    rw [hafter, if_pos rfl] at hget'
    cases hget'
    exact hcount.symm

def RegistersNew (L : CDeterministicMNList) (txs : List SpecialTx) : Prop :=
  ∀ tx ∈ txs, tx.IsRegistration → L.getMN tx.hash = none

theorem maintained_derived {ctx : BlockContext} {L : CDeterministicMNList} {txs : List SpecialTx}
    (hL : L.RepOk) (hnew : RegistersNew L txs)
    (hchecked : ∀ tx ∈ txs, ctx.checkSpecialTx L tx = .ok ()) :
    Maintained ctx txs (FreeUpdate L) (Derived L txs) True where
  repOk hl := hl.repOk
  start hl := hl.setHeader 0 ctx.nHeight
  update {l dmn state} hl hget hfree _ := by
    cases hok : l.updateDmn dmn state with
    | error e => cases e <;> trivial
    | ok l' => exact hl.updateDmn hget hfree hok
  remove {l h dmn} hl _ := by
    cases hok : l.removeMN h with
    | error e => cases e <;> trivial
    | ok l' => exact hl.removeMN hok
  add {l tx p} htx hp hl _ := by
    have hcheck := checkProRegTx_of_checkSpecialTx hp (hchecked tx htx)
    cases hok : l.addMN (registeredMN ctx l.nTotalRegisteredCount tx.toCTransaction p) with
    | error e => cases e <;> trivial
    | ok l' => exact hl.addMN htx hp (hnew tx htx ⟨p, hp⟩) (freeRegistration hL hcheck) hok
  registrable _ _ _ := .inl trivial
  v19Active := .inl trivial
  same hsame := freeUpdate_of_sameProperties hsame
  service {tx p s} htx hp := by
    have hcheck := hchecked tx htx
    rw [checkSpecialTx, hp] at hcheck
    exact freeUpdate_updateService hL hcheck
  registrar {tx p s} htx hp := by
    have hcheck := hchecked tx htx
    rw [checkSpecialTx, hp] at hcheck
    exact freeUpdate_updateRegistrar hL hcheck
  revocation _ _ := freeUpdate_revokeOperator

/-! ### The difference is exact -/

section Exact

variable {L L' : CDeterministicMNList} {txs : List SpecialTx}

theorem Derived.diffable (hderived : Derived L txs L') (hL : L.RepOk) : Diffable L L' where
  repOk := hL
  repOk' := hderived.repOk
  kept hget hget' := (hderived.kept hget hget').1
  removed := hderived.removed
  added hnone hget := (hderived.added hnone hget).1
  noHandover := hderived.noHandover

def KeepsRegistered (txs : List SpecialTx) (L' : CDeterministicMNList) : Prop :=
  ∀ tx ∈ txs, tx.IsRegistration → L'.hasMN tx.hash = true

theorem Derived.countAfter_eq (hderived : Derived L txs L') (hnew : RegistersNew L txs)
    (hkeeps : KeepsRegistered txs L') :
    countAfter L.nTotalRegisteredCount (L.buildDiff L').addedMNs = L'.nTotalRegisteredCount := by
  refine le_antisymm (countAfter_le hderived.count_le fun d hd => ?_) ?_
  · obtain ⟨hget, hnone⟩ := mem_addedMNs.mp hd
    exact (hderived.added hnone hget).2
  · obtain hsame | ⟨tx, htx, hreg, hlast⟩ := hderived.count
    · rw [hsame]
      exact le_countAfter
    · obtain ⟨d, hget⟩ := Option.isSome_iff_exists.mp (hkeeps tx htx hreg)
      have hnone := hnew tx htx hreg
      obtain hself := proTxHash_of_getMN hget
      rw [← hlast d hget]
      refine lt_countAfter (mem_addedMNs.mpr ?_)
      rw [hself]
      exact ⟨hget, hnone⟩

/-- `diff` leads from `L` to the masternodes, internal ids and unique properties of `L'`. -/
def LeadsTo (txs : List SpecialTx) (L L' : CDeterministicMNList) (diff : CDeterministicMNListDiff) :
    Prop :=
  ∀ blockHash nHeight, ∃ R, L.applyDiff blockHash nHeight diff = .ok R ∧
    R.header = (blockHash, nHeight) ∧ R.SameMaps L' ∧
    (KeepsRegistered txs L' → R.nTotalRegisteredCount = L'.nTotalRegisteredCount)

theorem Derived.leadsTo {diff : CDeterministicMNListDiff} (hderived : Derived L txs L') (hL : L.RepOk)
    (hnew : RegistersNew L txs) (hsame : diff.Same (L.buildDiff L')) : LeadsTo txs L L' diff := by
  intro blockHash nHeight
  obtain ⟨R, happly, hrep, hrel⟩ := exists_applyDiff (hderived.diffable hL) hsame blockHash nHeight
  obtain ⟨hheader, hcount⟩ := applyDiff_ok happly
  refine ⟨R, happly, hheader, hrep.sameMaps hderived.repOk hrel, fun hkeeps => ?_⟩
  rw [hcount, countAfter_congr hsame.added]
  exact hderived.countAfter_eq hnew hkeeps

end Exact

namespace Sample

def encoding : BlsEncoding where
  toBytes _ point := point
  fromBytes _ bytes := some bytes

variable {l : CDeterministicMNList}

theorem storable_of_all (hall : ((l.mns false).all fun dmn => dmn.Writable encoding) = true)
    (hsize : l.getAllMNsCount ≤ Lib.Codec.MAX_SIZE) : l.Storable encoding := by
  refine ⟨fun {h dmn} hget => ?_, hsize⟩
  have hmem : dmn ∈ l.mns false := mem_mns_of_getMN hget
  exact of_decide_eq_true (List.all_eq_true.mp hall dmn hmem)

theorem exists_rebuilt {b : ListBlock} (hok : (b.ctx.rebuildListFromBlock l b.vtx).toBool = true) :
    ∃ l', b.ctx.rebuildListFromBlock l b.vtx = .ok l' ∧
      extend l b = { l' with blockHash := b.blockHash } := by
  unfold extend
  cases hrebuild : b.ctx.rebuildListFromBlock l b.vtx with
  | error e =>
    rw [hrebuild] at hok
    cases hok
  | ok l' => exact ⟨l', rfl, rfl⟩

theorem registersNew_twoNewKeys : RegistersNew list₁ twoNewKeys.vtx.tail := by
  rintro tx htx ⟨p, hp⟩
  have htail : twoNewKeys.vtx.tail = [rotate 1 9, register 3] := rfl
  rw [htail, List.mem_pair] at htx
  obtain rfl | rfl := htx
  · cases hp
  · decide +kernel

def moveTo (n ip : Nat) : SpecialTx :=
  ⟨⟨BitVec.ofNat 256 (300 + n), [], []⟩, .proUpServ (some
    ⟨2, .regular, BitVec.ofNat 256 n, ⟨BitVec.ofNat 128 ip, 1⟩, [], {}, 0,
      some (BitVec.ofNat 768 n)⟩)⟩

def handover : ListBlock := block 1 list₁ [moveTo 1 9, moveTo 2 1]

end Sample

open Sample

end Defcon.Evo
