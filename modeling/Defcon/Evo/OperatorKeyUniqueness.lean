import Defcon.Evo.OperatorLockout
import Defcon.Evo.RebuildInvariant

/-!
# Operator keys are unique under any encoding

Two serializations of one point are two entries of the property map, so the map alone lets two
masternodes have one key. What excludes it is the scan for both encodings, which a block makes
against the list as rebuilt so far and skips for a registrar update that keeps the key.
-/

namespace Defcon.Evo

open Lib (Run Ensures)
open CDeterministicMNList Lib
open BlockContext

theorem maintained_repOk (ctx : BlockContext) (txs : List SpecialTx) :
    Maintained ctx txs (fun _ _ _ => True) RepOk True where
  repOk hrep := hrep
  start hrep := ⟨hrep.ids, hrep.properties⟩
  update {l dmn state} hrep hget _ _ := by
    cases hok : l.updateDmn dmn state with
    | error e => cases e <;> trivial
    | ok l' => exact hrep.updateDmn hget hok
  remove {l h dmn} hrep _ := by
    cases hok : l.removeMN h with
    | error e => cases e <;> trivial
    | ok l' => exact hrep.removeMN hok
  add {l tx p} _ _ hrep _ := by
    cases hok : l.addMN (registeredMN ctx l.nTotalRegisteredCount tx.toCTransaction p) with
    | error e => cases e <;> trivial
    | ok l' => exact hrep.addMN hok
  registrable _ _ _ := .inl trivial
  v19Active := .inl trivial
  same _ := trivial
  service _ _ := trivial
  registrar _ _ := trivial
  revocation _ _ := trivial

namespace CDeterministicMNList

def UniqueOperators (l : CDeterministicMNList) : Prop :=
  ∀ {h h' dmn dmn'}, l.getMN h = some dmn → l.getMN h' = some dmn' →
    dmn.pdmnState.pubKeyOperator.isNull = false →
      dmn.pdmnState.pubKeyOperator.get = dmn'.pdmnState.pubKeyOperator.get → h = h'

/-- What the chain keeps. The scan for a registration passes over a masternode of hash zero. -/
structure KeysApart (l : CDeterministicMNList) : Prop where
  repOk : l.RepOk
  unique : l.UniqueOperators
  zero : l.getMN 0 = none

variable {l l' : CDeterministicMNList}

theorem KeysApart.of_kept (hkeys : l.KeysApart) (hrep : l'.RepOk)
    (hkept : ∀ {M dmn'}, l'.getMN M = some dmn' → ∃ dmn, l.getMN M = some dmn ∧
      dmn'.pdmnState.pubKeyOperator = dmn.pdmnState.pubKeyOperator) : l'.KeysApart where
  repOk := hrep
  unique := by
    intro h h' dmn dmn' hget hget' hnull heq
    obtain ⟨old, hold, hkey⟩ := hkept hget
    obtain ⟨old', hold', hkey'⟩ := hkept hget'
    rw [hkey] at hnull heq
    rw [hkey'] at heq
    exact hkeys.unique hold hold' hnull heq
  zero := by
    cases hget : l'.getMN 0 with
    | none => rfl
    | some dmn' =>
      obtain ⟨dmn, hdmn, -⟩ := hkept hget
      rw [hkeys.zero] at hdmn
      cases hdmn

end CDeterministicMNList

section Step

variable {ctx : BlockContext} {l l' : CDeterministicMNList} {n n' : Nat} {tx : SpecialTx}
  {M : Uint256} {dmn' : CDeterministicMN}

def KeyFree (l : CDeterministicMNList) (M : Uint256) (key : CBLSLazyPublicKey) : Prop :=
  ∀ {h dmn}, l.getMN h = some dmn → dmn.pdmnState.pubKeyOperator.isNull = false →
    dmn.pdmnState.pubKeyOperator.get = key.get → h = M

theorem keyFree_of_scan (hrep : l.RepOk) {key : CBLSLazyPublicKey}
    (hscan : ¬ l.hasOperatorKeyUnderAnyScheme key.get M = true) : KeyFree l M key := by
  intro h dmn hget hnull heq
  by_contra hne
  rw [← heq] at hscan
  exact hscan (hrep.hasOperatorKeyUnderAnyScheme hget hnull hne)

section

variable (hv19 : ctx.v19Active = true)

include hv19

theorem keyFree_of_applyProRegTx {p : CProRegTx} (hkeys : l.KeysApart)
    (happly : ctx.applyProRegTx l tx.toCTransaction p = .ok l') :
    KeyFree l' tx.hash p.pubKeyOperator := by
  simp only [applyProRegTx, bind_eq_ok, refuseIf_eq_ok] at happly
  obtain ⟨-, -, mid, hmid, -, -, -, -, -, hscan, hadd⟩ := happly
  have hrep : mid.RepOk := ((maintained_repOk ctx []).removeReplaced hkeys.repOk _).result hmid
  intro h dmn hget hnull heq
  by_contra hne
  rw [(addMN_ok hadd).2, if_neg hne] at hget
  obtain rfl := keyFree_of_scan hrep (fun hfound => hscan ⟨hv19, hfound⟩) hget hnull heq
  have hzero := Registrable.getMN_of_removeReplaced hmid hget
  rw [hkeys.zero] at hzero
  cases hzero

theorem keyFree_of_applyProUpRegTx {p : CProUpRegTx} {dmn : CDeterministicMN} (hrep : l.RepOk)
    (happly : ctx.applyProUpRegTx l p = .ok l') (hget : l.getMN p.proTxHash = some dmn)
    (hchange : dmn.pdmnState.pubKeyOperator.same p.pubKeyOperator = false) :
    KeyFree l' p.proTxHash p.pubKeyOperator := by
  simp only [applyProUpRegTx, bind_eq_ok, need_eq_ok, refuseIf_eq_ok]
    at happly
  obtain ⟨old, hold, -, hcheck, hupdate⟩ := happly
  obtain rfl : dmn = old := Option.some.inj (hget.symm.trans hold)
  obtain ⟨_, -, hupdated⟩ := updateMN_ok hupdate
  have hscan : ¬ l.hasOperatorKeyUnderAnyScheme p.pubKeyOperator.get p.proTxHash = true := by
    intro hfound
    refine hcheck ⟨hv19, ?_, hfound⟩
    rw [CBLSLazyPublicKey.same, decide_eq_false_iff_not] at hchange
    simpa [CBLSLazyPublicKey.same] using Ne.symm hchange
  intro h other hother hnull heq
  by_contra hne
  rw [hupdated, if_neg hne] at hother
  exact hne (keyFree_of_scan hrep hscan hother hnull heq)

theorem operatorKey_cases (hkeys : l.KeysApart)
    (happly : ctx.applySpecialTx (l, n) tx = .ok (l', n')) (hget : l'.getMN M = some dmn')
    (hnull : dmn'.pdmnState.pubKeyOperator.isNull = false) :
    (∃ dmn, l.getMN M = some dmn ∧
      dmn'.pdmnState.pubKeyOperator = dmn.pdmnState.pubKeyOperator) ∨
      KeyFree l' M dmn'.pdmnState.pubKeyOperator := by
  obtain ⟨dmn, hdmn, heffect⟩ | ⟨rfl, p, hpayload, hstate⟩ :=
    applySpecialTx_ok happly hget
  · have hkey := heffect.pubKeyOperator
    unfold operatorKeyAfter at hkey
    split at hkey
    next p hpayload =>
      split at hkey
      next hchange =>
        obtain ⟨rfl, hchange⟩ := hchange
        simp only [applySpecialTx, hpayload, bind_eq_ok, need_eq_ok,
          Option.some.injEq, exists_eq_left', pure_eq_ok, Prod.mk.injEq] at happly
        obtain ⟨_, happly, rfl, -⟩ := happly
        rw [hkey]
        exact .inr (keyFree_of_applyProUpRegTx hv19 hkeys.repOk happly hdmn (by simpa using hchange))
      · exact .inl ⟨dmn, hdmn, hkey⟩
    next p hpayload =>
      split at hkey
      · rw [hkey] at hnull
        cases hnull
      · exact .inl ⟨dmn, hdmn, hkey⟩
    · exact .inl ⟨dmn, hdmn, hkey⟩
  · simp only [applySpecialTx, hpayload, bind_eq_ok, need_eq_ok,
      Option.some.injEq, exists_eq_left', pure_eq_ok, Prod.mk.injEq] at happly
    obtain ⟨_, happly, rfl, -⟩ := happly
    rw [hstate, CDeterministicMNState.pubKeyOperator_registered]
    exact .inr (keyFree_of_applyProRegTx hv19 hkeys happly)

theorem keysApart_applySpecialTx (hhash : tx.hash ≠ 0) (hkeys : l.KeysApart)
    (happly : ctx.applySpecialTx (l, n) tx = .ok (l', n')) : l'.KeysApart where
  repOk := ((maintained_repOk ctx [tx]).applySpecialTx List.mem_cons_self hkeys.repOk).result
    happly
  unique := by
    intro h h' dmn dmn' hget hget' hnull heq
    have hnull' : dmn'.pdmnState.pubKeyOperator.isNull = false := by
      rwa [CBLSLazyPublicKey.isNull, ← heq]
    obtain ⟨old, hold, hkey⟩ | hfree := operatorKey_cases hv19 hkeys happly hget hnull
    · obtain ⟨old', hold', hkey'⟩ | hfree' := operatorKey_cases hv19 hkeys happly hget' hnull'
      · rw [hkey] at hnull heq
        rw [hkey'] at heq
        exact hkeys.unique hold hold' hnull heq
      · exact hfree' hget hnull heq
    · exact (hfree hget' hnull' heq.symm).symm
  zero := by
    cases hget : l'.getMN 0 with
    | none => rfl
    | some dmn' =>
      obtain ⟨dmn, hdmn, -⟩ | hreg := applySpecialTx_ok happly hget
      · rw [hkeys.zero] at hdmn
        cases hdmn
      · exact absurd hreg.1 hhash

end

end Step

/-- A block after the activation of V19. Hashes of transactions are not zero. -/
def AfterV19 (b : ListBlock) : Prop :=
  b.ctx.v19Active = true ∧ ∀ tx ∈ b.vtx.tail, tx.hash ≠ 0

theorem keysApart_acceptsBlock {l l' : CDeterministicMNList} {b : ListBlock} (hafter : AfterV19 b)
    (haccept : AcceptsBlock l b l') (hkeys : l.KeysApart) : l'.KeysApart := by
  obtain ⟨-, newList, hrebuild, rfl⟩ := haccept
  have hrep : newList.RepOk := ((maintained_repOk b.ctx b.vtx.tail).rebuildListFromBlock hkeys.repOk
    (.inl trivial)).result hrebuild
  obtain ⟨acc, hacc, hfinish⟩ := rebuildListFromBlock_ok hrebuild
  have hstart : ∃ start, b.ctx.startList l = .ok start ∧
      b.vtx.tail.foldlM b.ctx.applySpecialTx (start, 0) = .ok acc := by
    simpa only [applyTxs, bind_eq_ok] using hacc
  obtain ⟨start, hstart, hfold⟩ := hstart
  have hstartKeys : start.KeysApart := by
    refine hkeys.of_kept (((maintained_repOk b.ctx []).startList hkeys.repOk).result hstart)
      fun hget => ?_
    obtain ⟨dmn, hdmn, hsame⟩ := (sameOperators_startList hstart).of_getMN hget
    exact ⟨dmn, hdmn, hsame.pubKeyOperator⟩
  have haccKeys : acc.1.KeysApart := by
    refine (Run.except hfold).invariant_of_mem (I := fun acc => acc.1.KeysApart) ?_ hstartKeys
    intro acc tx acc' htx hacc hstep
    exact keysApart_applySpecialTx hafter.1 (hafter.2 tx htx) hacc hstep
  refine haccKeys.of_kept ⟨hrep.ids, hrep.properties⟩ fun hget => ?_
  obtain ⟨dmn, hdmn, hsame⟩ := finishList_ok hfinish hget
  exact ⟨dmn, hdmn, hsame.pubKeyOperator⟩

/-- Along a chain of blocks after V19 no two masternodes come to have one operator key. -/
theorem operatorKeys_unique {start l : CDeterministicMNList} {blocks : List ListBlock}
    (hrep : start.RepOk) (hzero : start.getMN 0 = none) (hstart : start.UniqueOperators)
    (hafter : ∀ b ∈ blocks, AfterV19 b) (hrun : Run AcceptsBlock start blocks l) :
    l.UniqueOperators := by
  have hkeys : l.KeysApart := by
    refine hrun.invariant_of_mem ?_ ⟨hrep, hstart, hzero⟩
    intro l b l' hb hkeys hstep
    exact keysApart_acceptsBlock (hafter b hb) hstep hkeys
  intro h h' dmn dmn'
  exact hkeys.unique

namespace Sample

def twoNewKeys : ListBlock := block 1 list₁ [rotate 1 9, register 3]

end Sample

open Sample

theorem operatorKeys_unique_twoNewKeys :
    Run AcceptsBlock {} [block₁, twoNewKeys]
        (extend list₁ twoNewKeys) ∧
      (extend list₁ twoNewKeys).UniqueOperators := by
  have hrun : Run AcceptsBlock {} [block₁, twoNewKeys]
      (extend list₁ twoNewKeys) := by
    refine .cons (acceptsBlock_extend (by decide +kernel)) ?_
    exact .cons (acceptsBlock_extend (by decide +kernel)) (.nil _)
  have hnone (h : Uint256) : ({} : CDeterministicMNList).getMN h = none := rfl
  refine ⟨hrun, operatorKeys_unique repOk_empty (hnone 0) ?_ ?_ hrun⟩
  · intro h h' dmn dmn' hget
    rw [hnone] at hget
    cases hget
  · intro b hb
    rw [List.mem_pair] at hb
    obtain rfl | rfl := hb
    · exact ⟨rfl, by decide⟩
    · exact ⟨rfl, by decide⟩

end Defcon.Evo
