import Defcon.Evo.OperatorKeyUniqueness
import Defcon.Evo.PaymentFairness

/-!
# The lock on collaterals

`ConnectBlock` refuses to spend a collateral during the first `minStaticCollateral` blocks after its
registration. It asks the list of the previous block, which does not know the registrations of the
block itself.
-/

namespace Defcon.Evo

open Lib (Run Guarded)
open CDeterministicMNList List Lib
open BlockContext

def checkPrematureCollateralMovement (mnList : CDeterministicMNList) (txout : COutPoint)
    (nHeight minStaticCollateral : Int) : Bool :=
  match mnList.getMNByCollateral txout with
  | none => true
  | some dmn =>
    let elapsedSinceReg := nHeight - dmn.pdmnState.nRegisteredHeight
    !decide (elapsedSinceReg < minStaticCollateral)

structure ConnectsBlock (minStaticCollateral : Int) (l : CDeterministicMNList) (b : ListBlock)
    (l' : CDeterministicMNList) : Prop where
  accepts : AcceptsBlock l b l'
  -- every transaction but the coinbase
  collaterals : ∀ tx ∈ b.vtx.tail, ∀ prevout ∈ tx.vin,
    checkPrematureCollateralMovement l prevout b.ctx.nHeight minStaticCollateral = true

def KeepsNewCollaterals (b : ListBlock) : Prop :=
  ∀ tx ∈ b.vtx.tail, ∀ p, tx.payload = .proReg (some p) →
    ∀ tx' ∈ b.vtx.tail, collateralOf tx.toCTransaction p ∉ tx'.vin

/-! ### Collaterals and registration heights through a block -/

namespace CDeterministicMNList

def deposit (l : CDeterministicMNList) (h : Uint256) : Option (COutPoint × Int) :=
  (l.getMN h).map fun dmn => (dmn.collateralOutpoint, dmn.pdmnState.nRegisteredHeight)

/-- `c` is the collateral of a masternode that was registered at height `r` or later. -/
def HeldSince (l : CDeterministicMNList) (c : COutPoint) (r : Int) : Prop :=
  c.isNull = false ∧ ∃ h r', l.deposit h = some (c, r') ∧ r ≤ r'

variable {l l' : CDeterministicMNList} {dmn : CDeterministicMN} {state : CDeterministicMNState}
  {h : Uint256} {c : COutPoint} {r : Int}

theorem deposit_of_getMN (hget : l.getMN h = some dmn) :
    l.deposit h = some (dmn.collateralOutpoint, dmn.pdmnState.nRegisteredHeight) := by
  rw [deposit, hget, Option.map_some]

theorem deposit_updateDmn
    (hold : l.deposit dmn.proTxHash = some (dmn.collateralOutpoint, state.nRegisteredHeight))
    (hok : l.updateDmn dmn state = .ok l') : l'.deposit = l.deposit := by
  funext h
  rw [deposit, updateDmn_ok hok]
  split
  next heq =>
    rw [heq, hold]
    rfl
  · rfl

theorem deposit_updateMN (hheight : ∀ {dmn}, l.getMN h = some dmn →
      state.nRegisteredHeight = dmn.pdmnState.nRegisteredHeight)
    (hok : l.updateMN h state = .ok l') : l'.deposit = l.deposit := by
  simp only [updateMN, bind_eq_ok, need_eq_ok] at hok
  obtain ⟨dmn, hget, hok⟩ := hok
  refine deposit_updateDmn ?_ hok
  rw [proTxHash_of_getMN hget, deposit_of_getMN hget, hheight hget]

theorem deposit_foldlM_mns
    {step : CDeterministicMNList → CDeterministicMN → Except ListError CDeterministicMNList}
    {dmns : List CDeterministicMN} (hlisted : ∀ dmn ∈ dmns, l.getMN dmn.proTxHash = some dmn)
    (hstep : ∀ l dmn, step l dmn = .ok l ∨
      ∃ state, (step l dmn = l.updateDmn dmn state ∨ step l dmn = l.updateMN dmn.proTxHash state) ∧
        state.nRegisteredHeight = dmn.pdmnState.nRegisteredHeight)
    (hfold : dmns.foldlM step l = .ok l') : l'.deposit = l.deposit := by
  refine (Run.except hfold).invariant_of_mem (I := fun t => t.deposit = l.deposit) ?_ rfl
  intro mid dmn next hdmn hmid hok
  have hdeposit : mid.deposit dmn.proTxHash = _ :=
    (congrFun hmid _).trans (deposit_of_getMN (hlisted dmn hdmn))
  obtain hkept | ⟨state, hupdate | hupdate, hheight⟩ := hstep mid dmn
  · rw [hkept] at hok
    cases hok
    exact hmid
  · rw [hupdate] at hok
    exact (deposit_updateDmn (by rw [hdeposit, hheight]) hok).trans hmid
  · rw [hupdate] at hok
    refine (deposit_updateMN (fun hget => ?_) hok).trans hmid
    rw [deposit_of_getMN hget] at hdeposit
    exact hheight.trans (Prod.ext_iff.mp (Option.some.inj hdeposit)).2.symm

theorem HeldSince.of_eq (hheld : l.HeldSince c r) (heq : l'.deposit = l.deposit) :
    l'.HeldSince c r := by
  rwa [HeldSince, heq]

theorem HeldSince.removeMN (hheld : l.HeldSince c r) (hget : l.getMN dmn.proTxHash = some dmn)
    (hne : dmn.collateralOutpoint ≠ c) (hok : l.removeMN dmn.proTxHash = .ok l') :
    l'.HeldSince c r := by
  obtain ⟨hnull, h, r', hdeposit, hr⟩ := hheld
  refine ⟨hnull, h, r', ?_, hr⟩
  rw [deposit, removeMN_ok hok, if_neg]
  · exact hdeposit
  · rintro rfl
    rw [deposit_of_getMN hget] at hdeposit
    cases hdeposit
    exact hne rfl

theorem RepOk.collateral_of_found (hrep : l.RepOk) {c : COutPoint}
    (hfound : l.getMNByCollateral c = some dmn) : dmn.collateralOutpoint = c := by
  unfold getMNByCollateral CDeterministicMNList.getUniquePropertyMN at hfound
  split at hfound
  · cases hfound
  next owner count hlookup =>
    obtain ⟨-, other, hother, -, hv⟩ := (hrep.properties _ _ _).mp hlookup
    rw [hfound] at hother
    cases hother
    simpa [eq_comm] using hv

theorem HeldSince.refuses (hheld : l.HeldSince c r) (hrep : l.RepOk)
    {nHeight minStaticCollateral : Int} (hlocked : nHeight < r + minStaticCollateral) :
    checkPrematureCollateralMovement l c nHeight minStaticCollateral = false := by
  obtain ⟨hnull, h, r', hdeposit, hr⟩ := hheld
  obtain ⟨dmn, hget, heq⟩ := Option.map_eq_some_iff.mp hdeposit
  cases heq
  have hfound : l.getMNByCollateral dmn.collateralOutpoint = some dmn :=
    hrep.getUniquePropertyMN hget ⟨hnull, .inl rfl⟩
  simp only [checkPrematureCollateralMovement, hfound, Bool.not_eq_false', decide_eq_true_eq]
  omega

end CDeterministicMNList

section Block

variable {ctx : BlockContext} {l l' : CDeterministicMNList} {tx : SpecialTx} {c : COutPoint}
  {r : Int}

theorem deposit_startList (hstart : ctx.startList l = .ok l') : l'.deposit = l.deposit := by
  simp only [startList, bind_eq_ok] at hstart
  obtain ⟨mid, hconfirm, hdecrease⟩ := hstart
  -- the loop reads the old list and updates the new one, which lists the same masternodes
  let start : CDeterministicMNList := { l with blockHash := 0, nHeight := ctx.nHeight }
  have hlisted : ∀ dmn ∈ l.mns false, start.getMN dmn.proTxHash = some dmn :=
    fun dmn hdmn => (mem_mns_iff.mp hdmn).1
  have hmid : mid.deposit = start.deposit := by
    refine deposit_foldlM_mns hlisted (fun l dmn => ?_) hconfirm
    unfold confirmMN
    split
    · exact .inl rfl
    · split
      · exact .inr ⟨_, .inr rfl, rfl⟩
      · exact .inl rfl
  refine (deposit_foldlM_mns (fun dmn hdmn => ?_) (fun l dmn => ?_) hdecrease).trans hmid
  · exact (mem_mns_iff.mp (mem_of_mem_filter hdmn)).1
  · exact .inr ⟨_, .inl rfl, rfl⟩

theorem heldSince_applyProRegTx {p : CProRegTx} (hrep : l.RepOk) (hr : r ≤ ctx.nHeight)
    (happly : ctx.applyProRegTx l tx.toCTransaction p = .ok l')
    (hheld : l.HeldSince c r ∨ collateralOf tx.toCTransaction p = c) : l'.HeldSince c r := by
  simp only [applyProRegTx, bind_eq_ok] at happly
  obtain ⟨-, -, mid, hmid, -, -, -, -, -, -, hadd⟩ := happly
  obtain ⟨hnew, hadded⟩ := addMN_ok hadd
  by_cases hc : collateralOf tx.toCTransaction p = c
  · have hrep := ((maintained_repOk ctx []).removeReplaced hrep _).result hmid
    refine ⟨hc ▸ (hrep.addable hadd).hasRequired.1, tx.hash, ctx.nHeight, ?_, hr⟩
    rw [deposit, hadded, if_pos rfl, Option.map_some, (registered_heights ctx.nHeight p).1]
    exact congrArg (fun c => some (c, _)) hc
  · have hmidHeld : mid.HeldSince c r := by
      have hheld := hheld.resolve_right hc
      unfold removeReplaced at hmid
      split at hmid
      next dmn hfound =>
        refine hheld.removeMN (getMN_of_getUniquePropertyMN hfound) ?_ hmid
        rw [hrep.collateral_of_found hfound]
        exact hc
      · cases hmid
        exact hheld
    obtain ⟨hnull, h, r', hdeposit, hle⟩ := hmidHeld
    refine ⟨hnull, h, r', ?_, hle⟩
    rw [deposit, hadded, if_neg]
    · exact hdeposit
    · rintro rfl
      rw [deposit, hnew] at hdeposit
      cases hdeposit

theorem deposit_quorumCommitment {p : CFinalCommitmentTxPayload}
    (happly : ctx.applyQuorumCommitment l p = .ok l') : l'.deposit = l.deposit := by
  unfold applyQuorumCommitment at happly
  dsimp only at happly
  split at happly
  · cases happly
    rfl
  · simp only [bind_eq_ok] at happly
    obtain ⟨-, -, -, -, hhandle⟩ := happly
    refine foldlM_kept (fun {l member l'} hpunish => ?_) hhandle
    unfold punishMember at hpunish
    split at hpunish
    · cases hpunish
      rfl
    · split at hpunish
      · simp only [poSePunish, bind_eq_ok, need_eq_ok] at hpunish
        obtain ⟨dmn, hdmn, hupdate⟩ := hpunish
        refine deposit_updateMN (fun hget => ?_) hupdate
        rw [hdmn] at hget
        cases hget
        exact (@PayStep.punished _ _ 0 _).nRegisteredHeight
      · cases hpunish
        rfl

theorem heldSince_applySpecialTx {n n' : Nat} (hrep : l.RepOk) (hr : r ≤ ctx.nHeight)
    (happly : ctx.applySpecialTx (l, n) tx = .ok (l', n'))
    (hheld : l.HeldSince c r ∨
      ∃ p, tx.payload = .proReg (some p) ∧ collateralOf tx.toCTransaction p = c) :
    l'.HeldSince c r := by
  have hkept {l' : CDeterministicMNList} (hother : ∀ p, tx.payload ≠ .proReg (some p))
      (heq : l'.deposit = l.deposit) : l'.HeldSince c r :=
    (hheld.resolve_right fun ⟨p, hp, _⟩ => hother p hp).of_eq heq
  have hupdated {h : Uint256} {dmn : CDeterministicMN} {l' : CDeterministicMNList}
      {state : CDeterministicMNState} (hother : ∀ p, tx.payload ≠ .proReg (some p))
      (hget : l.getMN h = some dmn) (hstep : PayStep ctx.nHeight dmn.pdmnState state)
      (hok : l.updateMN h state = .ok l') : l'.HeldSince c r := by
    refine hkept hother (deposit_updateMN (fun hget' => ?_) hok)
    rw [hget] at hget'
    cases hget'
    exact hstep.nRegisteredHeight
  have hcall := txCall_of_applied happly
  unfold BlockContext.TxCall at hcall
  generalize hpayload : tx.payload = payload at hcall
  cases payload with
  | other =>
    exact hkept (by simp [hpayload]) (by rw [hcall])
  | proReg payload =>
    obtain ⟨p, rfl, hok⟩ := hcall
    refine heldSince_applyProRegTx hrep hr hok (hheld.imp_right ?_)
    rintro ⟨p', hp', hc⟩
    rw [hpayload] at hp'
    cases hp'
    exact hc
  | proUpServ payload =>
    obtain ⟨p, dmn, rfl, hget, hok⟩ := hcall
    exact hupdated (by simp [hpayload]) hget (.updateService p) hok
  | proUpReg payload =>
    obtain ⟨p, dmn, rfl, hget, hok⟩ := hcall
    exact hupdated (by simp [hpayload]) hget (.updateRegistrar p) hok
  | proUpRev payload =>
    obtain ⟨p, dmn, rfl, hget, hok⟩ := hcall
    exact hupdated (by simp [hpayload]) hget (.revokeOperator p) hok
  | quorumCommitment payload =>
    obtain ⟨p, rfl, hok⟩ := hcall
    exact hkept (by simp [hpayload]) (deposit_quorumCommitment hok)
  | serviceCommitment payload =>
    obtain ⟨p, rfl, hok⟩ := hcall
    refine hkept (by simp [hpayload]) (funext fun h => ?_)
    rw [deposit, applyServiceCommitment_ok hok, Option.map_map, deposit]
    refine congrArg (Option.map · _) (funext fun dmn => Prod.ext rfl ?_)
    exact (@PayStep.serviceVerdict _ 0 _ _ _ _ _).nRegisteredHeight

theorem heldSince_finishList {prevList : CDeterministicMNList} {txs : List SpecialTx}
    (hheld : l.HeldSince c r) (hunspent : ∀ tx ∈ txs, c ∉ tx.vin)
    (hfinish : ctx.finishList prevList txs l = .ok l') : l'.HeldSince c r := by
  simp only [finishList, bind_eq_ok] at hfinish
  obtain ⟨unspent, hspent, paidList, hrecord, hreset⟩ := hfinish
  have hremoved : unspent.HeldSince c r := by
    refine (Run.except hspent).invariant_of_mem (I := fun t => t.HeldSince c r) ?_ hheld
    intro mid prevout next hprevout hmid hok
    obtain ⟨tx, htx, hprevout⟩ := mem_flatMap.mp hprevout
    unfold removeSpent at hok
    split at hok
    · cases hok
      exact hmid
    next dmn hfound =>
      split at hok
      next heq =>
        refine hmid.removeMN (getMN_of_getUniquePropertyMN hfound) ?_ hok
        rintro rfl
        exact hunspent tx htx (heq ▸ hprevout)
      · cases hok
        exact hmid
  have hpaid : paidList.deposit = unspent.deposit := by
    funext h
    rw [deposit, getMN_recordPayment hrecord, Option.map_map, deposit]
    refine congrArg (Option.map · _) (funext fun dmn => ?_)
    split <;> rfl
  refine (hremoved.of_eq hpaid).of_eq ?_
  refine deposit_foldlM_mns (fun dmn hdmn => (mem_mns_iff.mp hdmn).1) (fun l dmn => ?_) hreset
  unfold resetPayments
  split
  · exact .inl rfl
  · split
    · exact .inl rfl
    · split
      · exact .inl rfl
      · exact .inr ⟨_, .inr rfl, rfl⟩

end Block

/-! ### Chains -/

section Chain

variable {l l' : CDeterministicMNList} {b : ListBlock} {c : COutPoint} {r : Int}

theorem repOk_acceptsBlock (haccept : AcceptsBlock l b l') (hrep : l.RepOk) : l'.RepOk := by
  obtain ⟨-, newList, hrebuild, rfl⟩ := haccept
  have hnew := ((maintained_repOk b.ctx b.vtx.tail).rebuildListFromBlock hrep (.inl trivial)).result
    hrebuild
  exact ⟨hnew.ids, hnew.properties⟩

theorem heldSince_acceptsBlock (haccept : AcceptsBlock l b l') (hrep : l.RepOk)
    (hr : r ≤ b.ctx.nHeight) (hunspent : ∀ tx ∈ b.vtx.tail, c ∉ tx.vin)
    (hheld : l.HeldSince c r ∨ ∃ tx ∈ b.vtx.tail, ∃ p,
      tx.payload = .proReg (some p) ∧ collateralOf tx.toCTransaction p = c) :
    l'.HeldSince c r := by
  obtain ⟨-, newList, hrebuild, rfl⟩ := haccept
  obtain ⟨acc, hacc, hfinish⟩ := rebuildListFromBlock_ok hrebuild
  simp only [applyTxs, bind_eq_ok] at hacc
  obtain ⟨start, hstart, hfold⟩ := hacc
  have hstartRep := ((maintained_repOk b.ctx []).startList hrep).result hstart
  have hstep {acc acc' : CDeterministicMNList × Nat} {tx : SpecialTx} (hacc : acc.1.RepOk)
      (happly : b.ctx.applySpecialTx acc tx = .ok acc') : acc'.1.RepOk :=
    ((maintained_repOk b.ctx [tx]).applySpecialTx mem_cons_self hacc).result happly
  have hkept {acc acc' : CDeterministicMNList × Nat} {txs : List SpecialTx}
      (hrun : Run (fun acc tx acc' => b.ctx.applySpecialTx acc tx = .ok acc') acc txs acc')
      (hI : acc.1.RepOk ∧ acc.1.HeldSince c r) : acc'.1.HeldSince c r := by
    refine (hrun.invariant (I := fun acc => acc.1.RepOk ∧ acc.1.HeldSince c r) ?_ hI).2
    intro acc tx acc' hacc happly
    exact ⟨hstep hacc.1 happly, heldSince_applySpecialTx hacc.1 hr happly (.inl hacc.2)⟩
  refine HeldSince.of_eq (heldSince_finishList ?_ hunspent hfinish) rfl
  obtain hheld | ⟨tx, htx, hregisters⟩ := hheld
  · exact hkept (Run.except hfold) ⟨hstartRep, hheld.of_eq (deposit_startList hstart)⟩
  · obtain ⟨pre, post, hsplit⟩ := append_of_mem htx
    have hrun := Run.except hfold
    rw [hsplit] at hrun
    obtain ⟨mid, hpre, hrest⟩ := hrun.of_append
    have hmid : mid.1.RepOk := hpre.invariant (I := fun acc => acc.1.RepOk) hstep hstartRep
    cases hrest with
    | cons happly hpost =>
      exact hkept hpost ⟨hstep hmid happly,
        heldSince_applySpecialTx hmid hr happly (.inr hregisters)⟩

theorem unspent_of_heldSince {blocks : List ListBlock} {minStaticCollateral : Int}
    (hrun : Run (ConnectsBlock minStaticCollateral) l blocks l') (hrep : l.RepOk)
    (hheld : l.HeldSince c r)
    (hheights : blocks.Pairwise fun b b' => b.ctx.nHeight < b'.ctx.nHeight)
    (hr : ∀ b ∈ blocks, r ≤ b.ctx.nHeight) (hb : b ∈ blocks)
    (hlocked : b.ctx.nHeight < r + minStaticCollateral) : ∀ tx ∈ b.vtx.tail, c ∉ tx.vin := by
  induction hrun with
  | nil => cases hb
  | @cons l l₁ l' b₁ blocks hstep hrest ih =>
    rw [pairwise_cons] at hheights
    have hunspent (hlocked : b₁.ctx.nHeight < r + minStaticCollateral) :
        ∀ tx ∈ b₁.vtx.tail, c ∉ tx.vin := by
      intro tx htx hspends
      have hcheck := hstep.collaterals tx htx c hspends
      rw [hheld.refuses hrep hlocked] at hcheck
      cases hcheck
    obtain rfl | hb := mem_cons.mp hb
    · exact hunspent hlocked
    · have hearlier := hunspent ((hheights.1 b hb).trans hlocked)
      refine ih (repOk_acceptsBlock hstep.accepts hrep) ?_ hheights.2
        (fun b hb => hr b (mem_cons_of_mem _ hb)) hb
      exact heldSince_acceptsBlock hstep.accepts hrep (hr b₁ mem_cons_self) hearlier
        (.inl hheld)

end Chain

/-- On a chain whose blocks do not spend the collaterals they register, a collateral is not spent
at any height below that of its registration plus `minStaticCollateral`. -/
theorem collateral_locked {minStaticCollateral : Int} {pre post : List ListBlock} {b b' : ListBlock}
    {l : CDeterministicMNList} {tx : SpecialTx} {p : CProRegTx}
    (hrun : Run (Guarded (fun _ b => KeepsNewCollaterals b) (ConnectsBlock minStaticCollateral)) {}
      (pre ++ b :: post) l)
    (hheights : (pre ++ b :: post).Pairwise fun b b' => b.ctx.nHeight < b'.ctx.nHeight)
    (htx : tx ∈ b.vtx.tail) (hp : tx.payload = .proReg (some p)) (hb' : b' ∈ b :: post)
    (hlocked : b'.ctx.nHeight < b.ctx.nHeight + minStaticCollateral) :
    ∀ tx' ∈ b'.vtx.tail, collateralOf tx.toCTransaction p ∉ tx'.vin := by
  obtain ⟨mid, hpre, hrest⟩ := hrun.of_append
  have hrep : mid.RepOk :=
    hpre.invariant (fun hrep hstep => repOk_acceptsBlock hstep.2.accepts hrep) repOk_empty
  have hheights := (pairwise_append.mp hheights).2.1
  rw [pairwise_cons] at hheights
  cases hrest with
  | cons hstep hpost =>
    have hown := hstep.1 tx htx p hp
    obtain rfl | hb' := mem_cons.mp hb'
    · exact hown
    · refine unspent_of_heldSince hpost.of_guarded (repOk_acceptsBlock hstep.2.accepts hrep) ?_
        hheights.2 (fun b hb => (hheights.1 b hb).le) hb' hlocked
      exact heldSince_acceptsBlock hstep.2.accepts hrep le_rfl hown (.inr ⟨tx, htx, p, hp, rfl⟩)

namespace Sample

def spend (hash : Nat) (prevout : COutPoint) : SpecialTx :=
  ⟨⟨BitVec.ofNat 256 hash, [prevout], []⟩, .other⟩

def spentAtOnce : ListBlock := block 0 {} [register 1, register 2, spend 50 ⟨1, 0⟩]

def block₂Spends : ListBlock := block 1 list₁ [spend 50 ⟨7, 0⟩]

end Sample

open Sample

theorem collateral_locked_block₂ :
    ∃ p, (register 1).payload = .proReg (some p) ∧
      collateralOf (register 1).toCTransaction p = ⟨1, 0⟩ ∧
      ∀ tx' ∈ block₂Spends.vtx.tail,
        collateralOf (register 1).toCTransaction p ∉ tx'.vin := by
  have hkeeps : KeepsNewCollaterals block₁ ∧ KeepsNewCollaterals block₂Spends := by
    constructor
    · intro tx _ p _ tx' htx' hmem
      obtain rfl | rfl : tx' = register 1 ∨ tx' = register 2 := by
        simpa [block₁, block] using htx'
      all_goals cases hmem
    · intro tx htx p hp
      obtain rfl : tx = spend 50 ⟨7, 0⟩ := by
        simpa [block₂Spends, block] using htx
      cases hp
  have hrun : Run (Guarded (fun _ b => KeepsNewCollaterals b) (ConnectsBlock 8064)) {}
      ([] ++ block₁ :: [block₂Spends])
      (extend list₁ block₂Spends) := by
    refine .cons ⟨hkeeps.1, acceptsBlock_extend (by decide +kernel), by decide +kernel⟩ ?_
    exact .cons ⟨hkeeps.2, acceptsBlock_extend (by decide +kernel), by decide +kernel⟩ (.nil _)
  have hlater : block₂Spends ∈ [block₁, block₂Spends] :=
    mem_cons_of_mem _ mem_cons_self
  refine ⟨_, rfl, rfl, collateral_locked hrun ?_ mem_cons_self rfl hlater ?_⟩
  · exact pairwise_pair.mpr (by decide)
  · decide

theorem collateral_spent_at_once :
    Run (ConnectsBlock 8064) {} [spentAtOnce]
        (extend {} spentAtOnce) ∧
      ∃ tx ∈ spentAtOnce.vtx.tail, ∃ p, tx.payload = .proReg (some p) ∧
        ∃ tx' ∈ spentAtOnce.vtx.tail, collateralOf tx.toCTransaction p ∈ tx'.vin := by
  refine ⟨.cons ⟨acceptsBlock_extend (by decide +kernel), by decide +kernel⟩ (.nil _), ?_⟩
  refine ⟨register 1, mem_cons_self, _, rfl, spend 50 ⟨1, 0⟩, ?_, ?_⟩
  · exact mem_cons_of_mem _ (mem_cons_of_mem _ mem_cons_self)
  · exact mem_cons_self

end Defcon.Evo
