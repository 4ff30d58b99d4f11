import Defcon.Evo.OperatorKeyUniqueness

/-!
# A block is rejected, not thrown at

`AddMN`, `UpdateMN` and `RemoveMN` throw where `RebuildListFromBlock` may only return an invalid
state. On a list whose masternodes have an owner key, a collateral and an internal id below the
number of registrations, the checks on the way to each call rule the exceptions out.
-/

namespace Defcon.Evo

open Lib (Ensures)
open CDeterministicMNList BlockContext CDeterministicMNState

/-- The representation invariant, with what every masternode has been added with. -/
structure CDeterministicMNList.Sound (l : CDeterministicMNList) : Prop where
  repOk : l.RepOk
  required : ∀ {h dmn}, l.getMN h = some dmn → dmn.HasRequired
  ids : l.IdsBelow

/-- Hashes tell the transactions of the block apart, and from those of listed masternodes. -/
structure HashesTell (l : CDeterministicMNList) (txs : List SpecialTx) : Prop where
  ne_zero : ∀ tx ∈ txs, tx.hash ≠ 0
  injective : ∀ tx ∈ txs, ∀ tx' ∈ txs, tx.hash = tx'.hash → tx = tx'
  listed : ∀ tx ∈ txs, ∀ p, tx.payload = .proReg (some p) → ∀ dmn, l.getMN tx.hash = some dmn →
    dmn.collateralOutpoint = collateralOf tx.toCTransaction p

namespace CDeterministicMNList

variable {l l' : CDeterministicMNList} {dmn : CDeterministicMN} {state : CDeterministicMNState}
  {proTxHash : Uint256}

theorem sound_empty : Sound {} where
  repOk := repOk_empty
  required hget := by cases hget
  ids hget := by cases hget

theorem Sound.setHeader (hl : l.Sound) (blockHash : Uint256) (nHeight : Int) :
    Sound { l with blockHash := blockHash, nHeight := nHeight } :=
  ⟨⟨hl.repOk.ids, hl.repOk.properties⟩, hl.required, hl.ids⟩

theorem RepOk.setCount (hrep : l.RepOk) (n : Nat) : RepOk { l with nTotalRegisteredCount := n } :=
  ⟨hrep.ids, hrep.properties⟩

theorem Sound.exists_updateDmn (hl : l.Sound) (hget : l.getMN dmn.proTxHash = some dmn)
    (howner : state.keyIDOwner = dmn.pdmnState.keyIDOwner) (hupdatable : l.Updatable dmn state) :
    ∃ l', l.updateDmn dmn state = .ok l' ∧ l'.Sound := by
  obtain ⟨l', hok, hrep⟩ := hl.repOk.exists_updateDmn hget hupdatable
  refine ⟨l', hok, hrep, fun {h dmn'} hget' => ?_, fun {h dmn'} hget' => ?_⟩
  · rw [updateDmn_ok hok] at hget'
    split at hget'
    · cases hget'
      obtain ⟨hcollateral, howner'⟩ := hl.required hget
      exact ⟨hcollateral, howner ▸ howner'⟩
    · exact hl.required hget'
  · rw [updateDmn_ok hok] at hget'
    rw [count_updateDmn hok]
    split at hget'
    · cases hget'
      have hbelow := hl.ids hget
      exact hbelow
    · exact hl.ids hget'

theorem Sound.exists_removeMN (hl : l.Sound) (hget : l.getMN proTxHash = some dmn) :
    ∃ l', l.removeMN proTxHash = .ok l' ∧ l'.Sound := by
  obtain ⟨l', hok, hrep⟩ := hl.repOk.exists_removeMN hget (hl.required hget)
  refine ⟨l', hok, hrep, fun hget' => ?_, fun hget' => ?_⟩
  · exact hl.required (getMN_of_removeMN hok hget')
  · rw [count_removeMN hok]
    exact hl.ids (getMN_of_removeMN hok hget')

theorem Sound.exists_addMN (hl : l.Sound) (haddable : l.Addable dmn) :
    ∃ l', l.addMN dmn = .ok l' ∧ l'.Sound := by
  obtain ⟨l', hok, hrep⟩ := hl.repOk.exists_addMN haddable true
  have hadded := (addMN_ok hok).2
  refine ⟨l', hok, hrep, fun {h dmn'} hget' => ?_, fun {h dmn'} hget' => ?_⟩
  · rw [hadded] at hget'
    split at hget'
    · cases hget'
      exact haddable.hasRequired
    · exact hl.required hget'
  · rw [hadded] at hget'
    rw [count_addMN hok]
    split at hget'
    · cases hget'
      omega
    · have hbelow := hl.ids hget'
      omega

end CDeterministicMNList

section Checked

variable {ctx : BlockContext} {l : CDeterministicMNList} {txs : List SpecialTx}

theorem keyIDOwner_of_checkProRegTx {tx : CTransaction} {p : CProRegTx}
    (hcheck : ctx.checkProRegTx l tx p = .ok ()) : p.keyIDOwner ≠ 0 := by
  simp only [checkProRegTx, Lib.bind_eq_ok] at hcheck
  obtain ⟨_, htrivial, -⟩ := hcheck
  simp only [CProRegTx.isTriviallyValid, Lib.bind_eq_ok, Lib.refuseIf_eq_ok] at htrivial
  obtain ⟨-, -, -, -, -, -, -, -, -, hkeys, -⟩ := htrivial
  exact fun hnull => hkeys (.inl hnull)

theorem checkProRegTx_of_checkSpecialTx {tx : SpecialTx} {p : CProRegTx}
    (hpayload : tx.payload = .proReg (some p)) (hcheck : ctx.checkSpecialTx l tx = .ok ()) :
    ctx.checkProRegTx l tx.toCTransaction p = .ok () := by
  rw [checkSpecialTx, hpayload] at hcheck
  exact hcheck

theorem isNull_collateralOf {tx : CTransaction} {p : CProRegTx} (hhash : tx.hash ≠ 0) :
    (collateralOf tx p).isNull = false := by
  unfold collateralOf COutPoint.isNull
  split
  · exact decide_eq_false fun hnull => hhash hnull.1
  · next hne => exact decide_eq_false fun hnull => hne hnull.1

/-- The list is sound, and what it lists under the hash of a registration has its collateral. -/
def SoundFor (txs : List SpecialTx) (l : CDeterministicMNList) : Prop :=
  l.Sound ∧ HashesTell l txs

theorem HashesTell.of_listed {l' : CDeterministicMNList} (htell : HashesTell l txs)
    (hkept : ∀ {h dmn'}, l'.getMN h = some dmn' →
      ∃ dmn, l.getMN h = some dmn ∧ dmn'.collateralOutpoint = dmn.collateralOutpoint) :
    HashesTell l' txs where
  ne_zero := htell.ne_zero
  injective := htell.injective
  listed tx htx p hp dmn' hget := by
    obtain ⟨dmn, hdmn, hsame⟩ := hkept hget
    rw [hsame]
    exact htell.listed tx htx p hp dmn hdmn

theorem maintained_sound (hv19 : ctx.v19Active = true)
    (hchecked : ∀ tx ∈ txs, ∃ l, ctx.checkSpecialTx l tx = .ok ()) :
    Maintained ctx txs (fun _ s s' => s'.keyIDOwner = s.keyIDOwner) (SoundFor txs) False where
  repOk hl := hl.1.repOk
  start hl := ⟨hl.1.setHeader 0 ctx.nHeight, hl.2.ne_zero, hl.2.injective, hl.2.listed⟩
  update {l dmn state} hl hget howner hupdatable := by
    obtain ⟨l', hok, hsound⟩ :=
      hl.1.exists_updateDmn hget howner (hupdatable.resolve_left id)
    rw [hok]
    refine ⟨hsound, hl.2.of_listed fun {h dmn'} hget' => ?_⟩
    rw [updateDmn_ok hok] at hget'
    split at hget'
    · next heq =>
        cases hget'
        exact ⟨dmn, heq ▸ hget, rfl⟩
    · exact ⟨dmn', hget', rfl⟩
  remove {l h dmn} hl hget := by
    obtain ⟨l', hok, hsound⟩ := hl.1.exists_removeMN hget
    rw [hok]
    refine ⟨hsound, hl.2.of_listed fun {h dmn'} hget' => ?_⟩
    exact ⟨dmn', getMN_of_removeMN hok hget', rfl⟩
  add {l tx p} htx hp hl haddable := by
    obtain ⟨l', hok, hsound⟩ := hl.1.exists_addMN (haddable.resolve_left id)
    rw [hok]
    refine ⟨hsound, hl.2.ne_zero, hl.2.injective, fun tx' htx' p' hp' dmn' hget => ?_⟩
    rw [(addMN_ok hok).2] at hget
    split at hget
    · next hsame =>
        obtain rfl := hl.2.injective tx' htx' tx htx hsame
        cases hget
        cases hp.symm.trans hp'
        rfl
    · exact hl.2.listed tx' htx' p' hp' dmn' hget
  registrable {l tx p} htx hp hl := by
    obtain ⟨prevList, hcheck⟩ := hchecked tx htx
    have howner := keyIDOwner_of_checkProRegTx (checkProRegTx_of_checkSpecialTx hp hcheck)
    exact .inr ⟨isNull_collateralOf (hl.2.ne_zero tx htx), howner,
      hl.2.listed tx htx p hp _, hl.1.ids⟩
  v19Active := .inr hv19
  same hsame := hsame.keyIDOwner
  service _ _ := keyIDOwner_updateService
  registrar _ _ := keyIDOwner_updateRegistrar
  revocation _ _ := keyIDOwner_revokeOperator

end Checked

namespace Sample

theorem sound_list₁ : list₁.Sound := by
  have hempty : HashesTell {} block₁.vtx.tail :=
    ⟨by decide +kernel, by decide +kernel, fun _ _ _ _ _ hget => by cases hget⟩
  obtain ⟨hchecked, newList, hrebuild, hlist⟩ : AcceptsBlock {} block₁ list₁ :=
    acceptsBlock_extend (by decide +kernel)
  have hv19 : block₁.ctx.v19Active = true := rfl
  have hmaintained := maintained_sound hv19 fun tx htx => ⟨{}, hchecked tx htx⟩
  have hensures := hmaintained.rebuildListFromBlock ⟨sound_empty, hempty⟩
    (.inr (.inl (by decide)))
  rw [hlist]
  exact (hensures.result hrebuild).1.setHeader _ _

def thirdBlock (prevList : CDeterministicMNList) : ListBlock := block 1 prevList [register 3]

theorem hashesTell_thirdBlock {l : CDeterministicMNList} (hnew : l.getMN 3 = none) :
    HashesTell l (thirdBlock l).vtx.tail := by
  have htail : (thirdBlock l).vtx.tail = [register 3] := rfl
  rw [htail]
  refine ⟨by decide +kernel, by decide +kernel, fun tx htx p _ dmn hget => ?_⟩
  obtain rfl := List.mem_singleton.mp htx
  have hnone : l.getMN (register 3).hash = none := hnew
  rw [hnone] at hget
  cases hget

def uncounted : CDeterministicMNList := { list₁ with nTotalRegisteredCount := 0 }

theorem repOk_uncounted : uncounted.RepOk :=
  sound_list₁.repOk.setCount 0

end Sample

open Sample

end Defcon.Evo
