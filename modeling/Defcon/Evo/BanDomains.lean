import Defcon.Evo.OperatorKeySafety

/-!
# The two ban domains

PoSe bans and service bans are held in fields of their own, and the code that asks for a PoSe ban
or ends one tests their union. So an operation of one domain stays out of the other only where the
masternode is not held by a service ban alone.
-/

namespace Defcon.Evo

open Lib (Run)
open CDeterministicMNList CDeterministicMNState
open Lib

/-- The operations on a list. Those of provider transactions carry the chain that the block
extends. -/
inductive ListOp where
  | setHeight (nHeight : Nat)
  | addMN (dmn : CDeterministicMN)
  | updateMN (proTxHash : Uint256) (state : CDeterministicMNState)
  | removeMN (proTxHash : Uint256)
  | poSePunish (proTxHash : Uint256) (penalty : Int)
  | decreaseScores
  | applyServiceCommitment (params : ConsensusParams) (commitment : CPoSeServiceCommitment)
      (epochBaseList : CDeterministicMNList)
  | proUpServ (ctx : BlockContext) (p : CProUpServTx)
  | proUpReg (ctx : BlockContext) (p : CProUpRegTx)
  | proUpRev (ctx : BlockContext) (p : CProUpRevTx)

namespace ListOp

def apply (l : CDeterministicMNList) : ListOp → Except ListError CDeterministicMNList
  | setHeight nHeight => .ok { l with nHeight := nHeight }
  | addMN dmn => l.addMN dmn
  | updateMN proTxHash state => l.updateMN proTxHash state
  | removeMN proTxHash => l.removeMN proTxHash
  | poSePunish proTxHash penalty => l.poSePunish proTxHash penalty
  | decreaseScores => l.decreaseScores
  | applyServiceCommitment params commitment epochBaseList =>
    l.applyServiceCommitment params commitment epochBaseList l.nHeight
  | proUpServ ctx p => ctx.applyProUpServTx l p
  | proUpReg ctx p => ctx.applyProUpRegTx l p
  | proUpRev ctx p => ctx.applyProUpRevTx l p

end ListOp

variable (l : CDeterministicMNList)

def ListStep (op : ListOp) (l' : CDeterministicMNList) : Prop :=
  op.apply l = .ok l'

namespace CDeterministicMNState

structure SamePoSe (s s' : CDeterministicMNState) : Prop where
  nPoSePenalty : s'.nPoSePenalty = s.nPoSePenalty
  nPoSeBanHeight : s'.nPoSeBanHeight = s.nPoSeBanHeight
  nPoSeRevivedHeight : s'.nPoSeRevivedHeight = s.nPoSeRevivedHeight

def KeysSet (s : CDeterministicMNState) : Prop :=
  s.pubKeyOperator.isNull = false ∧ s.keyIDVoting ≠ 0 ∧ s.keyIDOwner ≠ 0

variable {s : CDeterministicMNState} {nHeight : Int}

theorem updateService_of_not_keysSet {p : CProUpServTx} (hkeys : ¬ s.KeysSet) :
    s.updateService nHeight p = s.setService p := by
  refine if_neg ?_
  rintro ⟨-, hoperator, hvoting, howner⟩
  refine hkeys ⟨?_, hvoting, howner⟩
  change (!s.pubKeyOperator.isNull) = true at hoperator
  simpa using hoperator

theorem samePoSe_serviceVerdict (params : ConsensusParams) (c : CPoSeServiceCommitment)
    (epochBaseList : CDeterministicMNList) (M : Uint256) :
    s.SamePoSe
      (serviceVerdict params c epochBaseList nHeight M s) := by
  obtain ⟨_, _, _, _, heq⟩ := serviceVerdict_eq params c epochBaseList nHeight M s
  rw [heq]
  exact ⟨rfl, rfl, rfl⟩

theorem nPoSeBanHeight_punished {l : CDeterministicMNList} {penalty : Int} (hheight : l.nHeight ≠ -1)
    (hmax : (l.punished s penalty).nPoSePenalty = l.calcMaxPoSePenalty) (hdsl : ¬ s.DslBanOnly) :
    (l.punished s penalty).nPoSeBanHeight ≠ -1 := by
  obtain ⟨raised, hraised⟩ : ∃ raised : CDeterministicMNState,
      raised = { s with nPoSePenalty := min l.calcMaxPoSePenalty (s.nPoSePenalty + penalty) } :=
    ⟨_, rfl⟩
  have hpunished : l.punished s penalty =
      if l.calcMaxPoSePenalty ≤ raised.nPoSePenalty ∧ !raised.isBanned then
        raised.banIfNotBanned l.nHeight
      else raised := by
    rw [hraised]
    rfl
  rw [hpunished] at hmax ⊢
  have hraisedDsl : ¬ raised.DslBanOnly := by
    subst hraised
    exact hdsl
  split
  · exact (nPoSeBanHeight_banIfNotBanned hheight).mpr hraisedDsl
  next hnot =>
    rw [if_neg hnot] at hmax
    have hbanned : raised.isBanned = true := by
      by_contra hunbanned
      exact hnot ⟨hmax.ge, by simpa using hunbanned⟩
    intro hpose
    exact hraisedDsl ⟨hpose, (isBanned_iff.mp hbanned).resolve_left (not_not.mpr hpose)⟩

end CDeterministicMNState

namespace ListOp

/-- What independence of the two domains asks of an operation. -/
def Independent (M : Uint256) (s s' : CDeterministicMNState) :
    ListOp → Prop
  | poSePunish proTxHash _ =>
    proTxHash = M → s'.nPoSePenalty = l.calcMaxPoSePenalty → s'.nPoSeBanHeight ≠ -1
  | proUpReg _ p =>
    p.proTxHash = M → s.pubKeyOperator.same p.pubKeyOperator = false → s'.nPoSeBanHeight ≠ -1
  | proUpRev _ p => p.proTxHash = M → s'.nPoSeBanHeight ≠ -1
  | applyServiceCommitment .. => s.SamePoSe s'
  | proUpServ _ p =>
    p.proTxHash = M → s.DslBanOnly →
      s'.nPoSePenalty = s.nPoSePenalty ∧ s'.nPoSeRevivedHeight = s.nPoSeRevivedHeight
  | _ => True

/-- The operation asks for no ban of a masternode that only a service ban holds, and updates the
service of none whose keys are all set. -/
def KeepsApart (M : Uint256) (s : CDeterministicMNState) : ListOp → Prop
  | poSePunish proTxHash _ => proTxHash = M → ¬ s.DslBanOnly
  | proUpReg _ p =>
    p.proTxHash = M → s.pubKeyOperator.same p.pubKeyOperator = false → ¬ s.DslBanOnly
  | proUpRev _ p => p.proTxHash = M → ¬ s.DslBanOnly
  | proUpServ _ p => p.proTxHash = M → s.DslBanOnly → ¬ s.KeysSet
  | _ => True

end ListOp

def BansIndependent (op : ListOp) (l' : CDeterministicMNList) : Prop :=
  ∀ M dmn dmn', l.getMN M = some dmn → l'.getMN M = some dmn' →
    op.Independent l M dmn.pdmnState dmn'.pdmnState

def BansApart (op : ListOp) : Prop :=
  ∀ M dmn, l.getMN M = some dmn → op.KeepsApart M dmn.pdmnState

/-! ### Heights of the lists of a run -/

section Height

variable {l l' : CDeterministicMNList} {proTxHash : Uint256} {dmn : CDeterministicMN}
  {state : CDeterministicMNState}

theorem nHeight_addMN {fBumpTotalCount : Bool} (hadd : l.addMN dmn fBumpTotalCount = .ok l') :
    l'.nHeight = l.nHeight := by
  simp only [addMN, bind_eq_ok, pure_eq_ok] at hadd
  obtain ⟨-, -, -, -, -, -, -, -, -, -, -, -, rfl⟩ := hadd
  rfl

theorem nHeight_updateDmn (hupdate : l.updateDmn dmn state = .ok l') : l'.nHeight = l.nHeight := by
  simp only [updateDmn, bind_eq_ok, pure_eq_ok] at hupdate
  obtain ⟨-, -, -, -, -, -, rfl⟩ := hupdate
  rfl

theorem nHeight_updateMN (hupdate : l.updateMN proTxHash state = .ok l') :
    l'.nHeight = l.nHeight := by
  simp only [updateMN, bind_eq_ok] at hupdate
  obtain ⟨_, -, hupdate⟩ := hupdate
  exact nHeight_updateDmn hupdate

theorem nHeight_removeMN (hremove : l.removeMN proTxHash = .ok l') : l'.nHeight = l.nHeight := by
  simp only [removeMN, bind_eq_ok, pure_eq_ok] at hremove
  obtain ⟨-, -, -, -, -, -, -, -, -, -, rfl⟩ := hremove
  rfl

theorem nHeight_foldlM {α : Type} {f : CDeterministicMNList → α → Except ListError CDeterministicMNList}
    {items : List α} (hf : ∀ {l a l'}, f l a = .ok l' → l'.nHeight = l.nHeight)
    (hfold : items.foldlM f l = .ok l') : l'.nHeight = l.nHeight := by
  have hrun := Run.except hfold
  exact Run.invariant (I := fun t => t.nHeight = l.nHeight)
    (fun hI hstep => (hf hstep).trans hI) hrun rfl

theorem nHeight_listStep {op : ListOp} (hstep : ListStep l op l') (hheight : l.nHeight ≠ -1) :
    l'.nHeight ≠ -1 := by
  unfold ListStep at hstep
  cases op with
  | setHeight nHeight =>
    cases hstep
    show (nHeight : Int) ≠ -1
    omega
  | addMN dmn => rwa [nHeight_addMN hstep]
  | updateMN proTxHash state => rwa [nHeight_updateMN hstep]
  | removeMN proTxHash => rwa [nHeight_removeMN hstep]
  | poSePunish proTxHash penalty =>
    simp only [ListOp.apply, poSePunish, bind_eq_ok] at hstep
    obtain ⟨_, -, hupdate⟩ := hstep
    rwa [nHeight_updateMN hupdate]
  | decreaseScores => rwa [nHeight_foldlM (fun hok => nHeight_updateDmn hok) hstep]
  | applyServiceCommitment params commitment epochBaseList =>
    simp only [ListOp.apply, applyServiceCommitment] at hstep
    split at hstep
    · cases hstep
      exact hheight
    split at hstep
    · cases hstep
      exact hheight
    rwa [nHeight_foldlM _ hstep]
    intro l entry l' hok
    split at hok
    · cases hok
      rfl
    · exact nHeight_updateMN hok
  | proUpServ ctx p =>
    simp only [ListOp.apply, BlockContext.applyProUpServTx, bind_eq_ok] at hstep
    obtain ⟨_, -, _, -, _, -, _, -, hupdate⟩ := hstep
    rwa [nHeight_updateMN hupdate]
  | proUpReg ctx p =>
    simp only [ListOp.apply, BlockContext.applyProUpRegTx, bind_eq_ok] at hstep
    obtain ⟨_, -, _, -, hupdate⟩ := hstep
    rwa [nHeight_updateMN hupdate]
  | proUpRev ctx p =>
    simp only [ListOp.apply, BlockContext.applyProUpRevTx, bind_eq_ok] at hstep
    obtain ⟨_, -, hupdate⟩ := hstep
    rwa [nHeight_updateMN hupdate]

end Height

/-! ### Independence -/

section Independence

variable {l l' : CDeterministicMNList} {M : Uint256} {dmn dmn' : CDeterministicMN}

theorem pdmnState_of_updateMN {proTxHash : Uint256} {old : CDeterministicMN}
    {f : CDeterministicMNState → CDeterministicMNState} (hold : l.getMN proTxHash = some old)
    (hupdate : l.updateMN proTxHash (f old.pdmnState) = .ok l') (hget : l.getMN M = some dmn)
    (hget' : l'.getMN M = some dmn') (hM : proTxHash = M) : dmn'.pdmnState = f dmn.pdmnState := by
  obtain ⟨dmn₀, hdmn₀, hstate⟩ := BlockContext.getMN_of_updateMN hold hupdate hget'
  rw [hget] at hdmn₀
  cases hdmn₀
  rw [hstate, if_pos hM]

theorem bansIndependent_listStep {op : ListOp} (hheight : l.nHeight ≠ -1) (hapart : BansApart l op)
    (hstep : ListStep l op l') : BansIndependent l op l' := by
  intro M dmn dmn' hget hget'
  have hkeeps := hapart M dmn hget
  unfold ListStep at hstep
  cases op with
  | poSePunish proTxHash penalty =>
    intro hM hmax
    simp only [ListOp.apply, poSePunish, bind_eq_ok, need_eq_ok] at hstep
    obtain ⟨old, hold, hupdate⟩ := hstep
    have hstate := pdmnState_of_updateMN (f := fun s => l.punished s penalty)
      hold hupdate hget hget' hM
    rw [hstate] at hmax ⊢
    exact nPoSeBanHeight_punished hheight hmax (hkeeps hM)
  | applyServiceCommitment params commitment epochBaseList =>
    rw [applyServiceCommitment_ok hstep, hget] at hget'
    cases hget'
    exact samePoSe_serviceVerdict params commitment epochBaseList M
  | proUpServ ctx p =>
    intro hM hdsl
    simp only [ListOp.apply, BlockContext.applyProUpServTx, bind_eq_ok, need_eq_ok] at hstep
    obtain ⟨-, -, old, hold, -, -, -, -, hupdate⟩ := hstep
    rw [pdmnState_of_updateMN (f := fun s => s.updateService ctx.nHeight p)
      hold hupdate hget hget' hM,
      updateService_of_not_keysSet (hkeeps hM hdsl)]
    exact ⟨rfl, rfl⟩
  | proUpReg ctx p =>
    intro hM hsame
    simp only [ListOp.apply, BlockContext.applyProUpRegTx, bind_eq_ok, need_eq_ok] at hstep
    obtain ⟨old, hold, -, -, hupdate⟩ := hstep
    rw [pdmnState_of_updateMN (f := fun s => s.updateRegistrar ctx.nHeight p)
      hold hupdate hget hget' hM,
      updateRegistrar_of_not_same hsame]
    exact (nPoSeBanHeight_reset BlockContext.nHeight_ne).mpr
      (hkeeps hM hsame)
  | proUpRev ctx p =>
    intro hM
    simp only [ListOp.apply, BlockContext.applyProUpRevTx, bind_eq_ok, need_eq_ok] at hstep
    obtain ⟨old, hold, hupdate⟩ := hstep
    rw [pdmnState_of_updateMN (f := fun s => s.revokeOperator ctx.nHeight p)
      hold hupdate hget hget' hM]
    exact (nPoSeBanHeight_reset BlockContext.nHeight_ne).mpr (hkeeps hM)
  | _ => trivial

end Independence

/-- In every run of list operations, an operation that keeps off masternodes held by a service
ban alone keeps the two ban domains independent. -/
theorem bans_independent {nHeight : Nat} {ops : List ListOp} {l l' : CDeterministicMNList}
    {op : ListOp} (hrun : Run ListStep {} (.setHeight nHeight :: ops) l) (hapart : BansApart l op)
    (hstep : ListStep l op l') : BansIndependent l op l' := by
  refine bansIndependent_listStep ?_ hapart hstep
  cases hrun with
  | cons hfirst hrest =>
    refine Run.invariant (I := fun l => l.nHeight ≠ -1)
      (fun hheight hstep => nHeight_listStep hstep hheight) hrest ?_
    cases hfirst
    show (nHeight : Int) ≠ -1
    omega

/-! ### Runs on the sample masternodes -/

namespace Sample

def listAfter (ops : List ListOp) : CDeterministicMNList :=
  match ops.foldlM ListOp.apply {} with
  | .ok l => l
  | .error _ => {}

theorem run_listAfter {ops : List ListOp} (hok : (ops.foldlM ListOp.apply {}).toBool = true) :
    Run ListStep {} ops (listAfter ops) := by
  unfold listAfter
  cases hfold : ops.foldlM ListOp.apply {} with
  | error e =>
    rw [hfold] at hok
    cases hok
  | ok l => exact Run.except hfold

theorem listStep_listAfter {ops : List ListOp} {op : ListOp}
    (hok : ((ops ++ [op]).foldlM ListOp.apply {}).toBool = true) :
    ListStep (listAfter ops) op (listAfter (ops ++ [op])) := by
  unfold listAfter ListStep
  cases hfold : (ops ++ [op]).foldlM ListOp.apply {} with
  | error e =>
    rw [hfold] at hok
    cases hok
  | ok l' =>
    have hsplit := hfold
    simp only [List.foldlM_append, List.foldlM_cons, List.foldlM_nil, bind_eq_ok,
      pure_eq_ok] at hsplit
    obtain ⟨l, hl, _, hop, rfl⟩ := hsplit
    rw [hl]
    exact hop

def firstMN : CDeterministicMN where
  internalId := 0
  proTxHash := 1
  collateralOutpoint := ⟨1, 0⟩
  nOperatorReward := 0
  nType := .regular
  pdmnState :=
    { keyIDOwner := 1
      keyIDVoting := 1
      pubKeyOperator := ⟨some 1, false⟩
      addr := ⟨1, 1⟩
      nPoSePenalty := 40 }

def registration : List ListOp := [.setHeight 10, .addMN firstMN]

def missedEpoch : ListOp :=
  .applyServiceCommitment params
    { nVersion := 2
      nEpoch := 9
      epochBlockHash := 9
      missed := [true, false]
      observed := [true, true] }
    (listAfter [.setHeight 9, .addMN firstMN,
      .addMN { firstMN with
        internalId := 1
        proTxHash := 2
        collateralOutpoint := ⟨2, 0⟩
        pdmnState := { keyIDOwner := 2, keyIDVoting := 2 } }])

def serviceBan : List ListOp := registration ++ [missedEpoch]

def punish : ListOp := .poSePunish 1 66

def revokeKey : ListOp := .proUpRev (ctx 9 {}) ⟨2, 1, 0, 0, none⟩

def serviceUpdate : ListOp := .proUpServ (ctx 9 {}) ⟨2, .regular, 1, ⟨1, 2⟩, [], {}, 0, none⟩

def firstMNAfter (ops : List ListOp) : CDeterministicMN :=
  ((listAfter ops).getMN 1).getD firstMN

theorem not_bansIndependent {ops : List ListOp} {op : ListOp}
    (hbefore : (listAfter ops).getMN 1 = some (firstMNAfter ops))
    (hafter : (listAfter (ops ++ [op])).getMN 1 = some (firstMNAfter (ops ++ [op])))
    (hnot : ¬ op.Independent (listAfter ops) 1 (firstMNAfter ops).pdmnState
      (firstMNAfter (ops ++ [op])).pdmnState) :
    ¬ BansIndependent (listAfter ops) op (listAfter (ops ++ [op])) :=
  fun h => hnot (h 1 _ _ hbefore hafter)

end Sample

open Sample

theorem bans_independent_punish :
    BansIndependent (listAfter registration) punish
      (listAfter (registration ++ [punish])) := by
  refine bans_independent (run_listAfter (by decide +kernel)) ?_ ?_
  · intro M dmn hget hM
    subst hM
    have hnone : ((listAfter registration).getMN 1).all
        (fun dmn => !dmn.pdmnState.DslBanOnly) = true := by decide +kernel
    rw [hget] at hnone
    simpa using hnone
  · exact listStep_listAfter (by decide +kernel)

/-- While a service ban holds the masternode, a punishment and a revocation leave no PoSe ban, and a
service update clears the penalty. -/
theorem bans_not_independent :
    Run ListStep {} serviceBan (listAfter serviceBan) ∧
      ∀ op ∈ [punish, revokeKey, serviceUpdate],
        ListStep (listAfter serviceBan) op
            (listAfter (serviceBan ++ [op])) ∧
          ¬ BansIndependent (listAfter serviceBan) op
            (listAfter (serviceBan ++ [op])) := by
  refine ⟨run_listAfter (by decide +kernel), ?_⟩
  simp only [List.forall_mem_cons, List.not_mem_nil, false_imp_iff, implies_true, and_true]
  refine ⟨⟨listStep_listAfter (by decide +kernel), ?_⟩,
    ⟨listStep_listAfter (by decide +kernel), ?_⟩,
    ⟨listStep_listAfter (by decide +kernel), ?_⟩⟩
  · refine not_bansIndependent (by decide +kernel) (by decide +kernel) fun h => ?_
    exact h rfl (by decide +kernel) (by decide +kernel)
  · refine not_bansIndependent (by decide +kernel) (by decide +kernel) fun h => ?_
    exact h rfl (by decide +kernel)
  · refine not_bansIndependent (by decide +kernel) (by decide +kernel) fun h => ?_
    exact absurd (h rfl (by decide +kernel)).1 (by decide +kernel)

end Defcon.Evo
