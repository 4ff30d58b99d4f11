import Defcon.Evo.RebuildList

/-!
# One masternode through a block

What a transaction of a block does to the state of one masternode depends on that state alone,
not on the rest of the list. The list model projects onto this relation, and results about one
masternode are proved over its runs.
-/

namespace Defcon.Evo

open Lib (Run)
open CDeterministicMNList CDeterministicMNState CDeterministicMN List
open Lib

variable {ctx : BlockContext} {l l' : CDeterministicMNList} {dmn dmn' : CDeterministicMN}
  {s s' s'' : CDeterministicMNState} {M : Uint256} {tx : SpecialTx}

/-- `s'` is `s` after any number of PoSe punishments: they set a ban only where none is. -/
structure Punished (s s' : CDeterministicMNState) : Prop where
  pubKeyOperator : s'.pubKeyOperator = s.pubKeyOperator
  addr : s'.addr = s.addr
  scriptOperatorPayout : s'.scriptOperatorPayout = s.scriptOperatorPayout
  nDSLBanHeight : s'.nDSLBanHeight = s.nDSLBanHeight
  nPoSeBanHeight : s.isBanned = true → s'.nPoSeBanHeight = s.nPoSeBanHeight

theorem Punished.rfl : Punished s s :=
  ⟨Eq.refl _, Eq.refl _, Eq.refl _, Eq.refl _, fun _ => Eq.refl _⟩

theorem Punished.isBanned (h : Punished s s') (hbanned : s.isBanned = true) :
    s'.isBanned = true := by
  rw [isBanned_iff] at hbanned ⊢
  rwa [h.nDSLBanHeight, h.nPoSeBanHeight (isBanned_iff.mpr hbanned)]

theorem Punished.trans (h : Punished s s') (h' : Punished s' s'') : Punished s s'' where
  pubKeyOperator := h'.pubKeyOperator.trans h.pubKeyOperator
  addr := h'.addr.trans h.addr
  scriptOperatorPayout := h'.scriptOperatorPayout.trans h.scriptOperatorPayout
  nDSLBanHeight := h'.nDSLBanHeight.trans h.nDSLBanHeight
  nPoSeBanHeight hbanned :=
    (h'.nPoSeBanHeight (h.isBanned hbanned)).trans (h.nPoSeBanHeight hbanned)

theorem punished_punished (penalty : Int) : Punished s (l.punished s penalty) := by
  unfold punished
  dsimp only
  split
  next hban =>
    have hnot : s.isBanned = false := by
      have hnot := hban.2
      rwa [Bool.not_eq_true', isBanned] at hnot
    constructor
    · exact pubKeyOperator_banIfNotBanned _ _
    · exact addr_banIfNotBanned _ _
    · exact scriptOperatorPayout_banIfNotBanned _ _
    · exact nDSLBanHeight_banIfNotBanned _ _
    · intro hbanned
      rw [hnot] at hbanned
      cases hbanned
  · exact ⟨Eq.refl _, Eq.refl _, Eq.refl _, Eq.refl _, fun _ => Eq.refl _⟩

/-- What transaction `tx` makes of the state `s` of masternode `M`, where quorum commitments are known
to relate the states by `R`. -/
def TxEffectUnder (R : CDeterministicMNState → CDeterministicMNState → Prop) (ctx : BlockContext)
    (M : Uint256) (s : CDeterministicMNState) (tx : SpecialTx) (s' : CDeterministicMNState) : Prop :=
  match tx.payload with
  | .proUpServ (some p) => s' = if p.proTxHash = M then s.updateService ctx.nHeight p else s
  | .proUpReg (some p) => s' = if p.proTxHash = M then s.updateRegistrar ctx.nHeight p else s
  | .proUpRev (some p) => s' = if p.proTxHash = M then s.revokeOperator ctx.nHeight p else s
  | .quorumCommitment (some _) => R s s'
  | .serviceCommitment (some p) =>
    s' = CDeterministicMNList.serviceVerdict ctx.params p.commitment
      (ctx.getListForBlock p.commitment.epochBlockHash) ctx.nHeight M s
  | _ => s' = s

def TxEffect (ctx : BlockContext) (M : Uint256) (s : CDeterministicMNState) (tx : SpecialTx)
    (s' : CDeterministicMNState) : Prop :=
  match tx.payload with
  | .proUpServ (some p) => s' = if p.proTxHash = M then s.updateService ctx.nHeight p else s
  | .proUpReg (some p) => s' = if p.proTxHash = M then s.updateRegistrar ctx.nHeight p else s
  | .proUpRev (some p) => s' = if p.proTxHash = M then s.revokeOperator ctx.nHeight p else s
  | .quorumCommitment (some _) => Punished s s'
  | .serviceCommitment (some p) =>
    s' = CDeterministicMNList.serviceVerdict ctx.params p.commitment
      (ctx.getListForBlock p.commitment.epochBlockHash) ctx.nHeight M s
  | _ => s' = s

def resetsOperator (M : Uint256) (key : CBLSLazyPublicKey) (tx : SpecialTx) : Bool :=
  match tx.payload with
  | .proUpReg (some p) => p.proTxHash = M ∧ !key.same p.pubKeyOperator
  | .proUpRev (some p) => p.proTxHash = M
  | _ => false

theorem CPoSeServiceCommitment.verdict_eq (params : ConsensusParams) (c : CPoSeServiceCommitment)
    (nHeight : Int) (i : Nat) (s : CDeterministicMNState) :
    ∃ nMissedEpochs fRewardSuspended nDSLBanHeight, c.verdict params nHeight i s =
      { s with nLastServiceEpoch := c.nEpoch, nMissedEpochs, fRewardSuspended, nDSLBanHeight } := by
  unfold verdict
  dsimp only
  split_ifs <;> exact ⟨_, _, _, rfl⟩

theorem serviceVerdict_eq (params : ConsensusParams) (c : CPoSeServiceCommitment)
    (epochBaseList : CDeterministicMNList) (nHeight : Int) (M : Uint256)
    (s : CDeterministicMNState) :
    ∃ nLastServiceEpoch nMissedEpochs fRewardSuspended nDSLBanHeight,
      serviceVerdict params c epochBaseList nHeight M s =
        { s with nLastServiceEpoch, nMissedEpochs, fRewardSuspended, nDSLBanHeight } := by
  unfold serviceVerdict
  dsimp only
  split_ifs
  next => exact ⟨_, _, _, _, rfl⟩
  next => exact ⟨_, _, _, _, rfl⟩
  next => exact ⟨_, c.verdict_eq params nHeight _ s⟩
  next => exact ⟨_, _, _, _, rfl⟩

theorem BlockContext.nHeight_ne : ctx.nHeight ≠ -1 := by
  unfold BlockContext.nHeight
  omega

def Registers (ctx : BlockContext) (M : Uint256) (tx : SpecialTx) (s' : CDeterministicMNState) :
    Prop :=
  tx.hash = M ∧ ∃ p, tx.payload = .proReg (some p) ∧ s' = .registered ctx.nHeight p

def NotRegistered (M : Uint256) (txs : List SpecialTx) : Prop :=
  ∀ tx ∈ txs, ∀ p, tx.payload = .proReg (some p) → tx.hash ≠ M

namespace BlockContext

theorem getMN_of_removeMN {proTxHash : Uint256} (hremove : l.removeMN proTxHash = .ok l')
    (hget : l'.getMN M = some dmn') : l.getMN M = some dmn' := by
  rw [removeMN_ok hremove] at hget
  split at hget
  · cases hget
  · exact hget

theorem applyProRegTx_ok {p : CProRegTx} (happly : ctx.applyProRegTx l tx.toCTransaction p = .ok l')
    (hget : l'.getMN M = some dmn') :
    l.getMN M = some dmn' ∨ tx.hash = M ∧ dmn'.pdmnState = .registered ctx.nHeight p := by
  simp only [applyProRegTx, bind_eq_ok] at happly
  obtain ⟨-, -, mid, hmid, -, -, -, -, -, -, hadd⟩ := happly
  obtain ⟨-, hadded⟩ := addMN_ok hadd
  rw [hadded] at hget
  by_cases hhash : M = tx.hash
  · rw [if_pos hhash] at hget
    cases hget
    exact .inr ⟨hhash.symm, rfl⟩
  · rw [if_neg hhash] at hget
    left
    unfold removeReplaced at hmid
    split at hmid
    · exact getMN_of_removeMN hmid hget
    · cases hmid
      exact hget

theorem getMN_of_updateMN {proTxHash : Uint256} {f : CDeterministicMNState → CDeterministicMNState}
    (hold : l.getMN proTxHash = some dmn) (hupdate : l.updateMN proTxHash (f dmn.pdmnState) = .ok l')
    (hget : l'.getMN M = some dmn') :
    ∃ dmn, l.getMN M = some dmn ∧
      dmn'.pdmnState = if proTxHash = M then f dmn.pdmnState else dmn.pdmnState := by
  obtain ⟨old, hold', hupdated⟩ := updateMN_ok hupdate
  rw [hupdated] at hget
  split at hget
  next heq =>
    cases hget
    subst heq
    exact ⟨dmn, hold, (if_pos rfl).symm⟩
  next hne => exact ⟨dmn', hget, (if_neg (Ne.symm hne)).symm⟩

def TxCall (ctx : BlockContext) (l : CDeterministicMNList) (tx : SpecialTx)
    (l' : CDeterministicMNList) : Prop :=
  match tx.payload with
  | .other => l' = l
  | .proReg payload => ∃ p, payload = some p ∧ ctx.applyProRegTx l tx.toCTransaction p = .ok l'
  | .proUpServ payload => ∃ p dmn, payload = some p ∧ l.getMN p.proTxHash = some dmn ∧
    l.updateMN p.proTxHash (dmn.pdmnState.updateService ctx.nHeight p) = .ok l'
  | .proUpReg payload => ∃ p dmn, payload = some p ∧ l.getMN p.proTxHash = some dmn ∧
    l.updateMN p.proTxHash (dmn.pdmnState.updateRegistrar ctx.nHeight p) = .ok l'
  | .proUpRev payload => ∃ p dmn, payload = some p ∧ l.getMN p.proTxHash = some dmn ∧
    l.updateMN p.proTxHash (dmn.pdmnState.revokeOperator ctx.nHeight p) = .ok l'
  | .quorumCommitment payload => ∃ p, payload = some p ∧ ctx.applyQuorumCommitment l p = .ok l'
  | .serviceCommitment payload => ∃ p, payload = some p ∧
    l.applyServiceCommitment ctx.params p.commitment
      (ctx.getListForBlock p.commitment.epochBlockHash) ctx.nHeight = .ok l'

theorem txCall_of_applied {n n' : Nat} (happly : ctx.applySpecialTx (l, n) tx = .ok (l', n')) :
    TxCall ctx l tx l' := by
  unfold applySpecialTx at happly
  unfold TxCall
  generalize tx.payload = payload at happly ⊢
  cases payload with
  | other =>
    cases happly
    rfl
  | proReg payload | quorumCommitment payload =>
    simp only [bind_eq_ok, need_eq_ok, pure_eq_ok] at happly
    obtain ⟨p, rfl, mid, hok, heq⟩ := happly
    cases heq
    exact ⟨p, rfl, hok⟩
  | proUpServ payload =>
    simp only [bind_eq_ok, need_eq_ok, pure_eq_ok, applyProUpServTx] at happly
    obtain ⟨p, rfl, mid, ⟨-, -, dmn, hget, -, -, -, -, hok⟩, heq⟩ := happly
    cases heq
    exact ⟨p, dmn, rfl, hget, hok⟩
  | proUpReg payload =>
    simp only [bind_eq_ok, need_eq_ok, pure_eq_ok, applyProUpRegTx] at happly
    obtain ⟨p, rfl, mid, ⟨dmn, hget, -, -, hok⟩, heq⟩ := happly
    cases heq
    exact ⟨p, dmn, rfl, hget, hok⟩
  | proUpRev payload =>
    simp only [bind_eq_ok, need_eq_ok, pure_eq_ok, applyProUpRevTx] at happly
    obtain ⟨p, rfl, mid, ⟨dmn, hget, hok⟩, heq⟩ := happly
    cases heq
    exact ⟨p, dmn, rfl, hget, hok⟩
  | serviceCommitment payload =>
    simp only [bind_eq_ok, need_eq_ok, pure_eq_ok, applyServiceCommitmentTx]
      at happly
    obtain ⟨-, -, p, rfl, mid, ⟨-, -, -, -, -, -, hok⟩, heq⟩ := happly
    cases heq
    exact ⟨p, rfl, hok⟩

section Punishments

variable {R : CDeterministicMNState → CDeterministicMNState → Prop} (hrefl : ∀ s, R s s)
  (htrans : ∀ {s s' s''}, R s s' → R s' s'' → R s s'')
  (hpunished : ∀ (l : CDeterministicMNList) s penalty, R s (l.punished s penalty))

variable {qc : Llmq.CFinalCommitment}

include hrefl hpunished in
theorem punishMember_related {member : Uint256 × Nat} (hpunish : punishMember qc l member = .ok l')
    (hget : l'.getMN M = some dmn') :
    ∃ dmn, l.getMN M = some dmn ∧ R dmn.pdmnState dmn'.pdmnState := by
  have hunchanged (h : Except.ok (ε := ListError) l = .ok l') :
      ∃ dmn, l.getMN M = some dmn ∧ R dmn.pdmnState dmn'.pdmnState := by
    cases h
    exact ⟨dmn', hget, hrefl _⟩
  unfold punishMember at hpunish
  split at hpunish
  · exact hunchanged hpunish
  · split at hpunish
    · simp only [poSePunish, bind_eq_ok, need_eq_ok] at hpunish
      obtain ⟨old, hold, hupdate⟩ := hpunish
      obtain ⟨dmn, hdmn, hstate⟩ := getMN_of_updateMN hold
        (f := fun s => l.punished s (l.calcPenalty 66)) hupdate hget
      refine ⟨dmn, hdmn, ?_⟩
      rw [hstate]
      split
      · exact hpunished _ _ _
      · exact hrefl _
    · exact hunchanged hpunish

include hrefl htrans hpunished in
theorem handleQuorumCommitment_related {quorumBaseHash : Uint256}
    (hhandle : ctx.handleQuorumCommitment l qc quorumBaseHash = .ok l')
    (hget : l'.getMN M = some dmn') :
    ∃ dmn, l.getMN M = some dmn ∧ R dmn.pdmnState dmn'.pdmnState := by
  refine Run.invariant
    (I := fun t => ∀ dmn', t.getMN M = some dmn' →
      ∃ dmn, l.getMN M = some dmn ∧ R dmn.pdmnState dmn'.pdmnState)
    ?_ (Run.except hhandle) ?_ dmn' hget
  · intro mid member next hI hstep dmn' hget
    obtain ⟨midDmn, hmid, hpunished⟩ := punishMember_related hrefl hpunished hstep hget
    obtain ⟨dmn, hdmn, hbefore⟩ := hI midDmn hmid
    exact ⟨dmn, hdmn, htrans hbefore hpunished⟩
  · intro dmn' hget
    exact ⟨dmn', hget, hrefl _⟩

include hrefl htrans hpunished in
theorem applyQuorumCommitment_related {p : CFinalCommitmentTxPayload}
    (happly : ctx.applyQuorumCommitment l p = .ok l') (hget : l'.getMN M = some dmn') :
    ∃ dmn, l.getMN M = some dmn ∧ R dmn.pdmnState dmn'.pdmnState := by
  unfold applyQuorumCommitment at happly
  dsimp only at happly
  split at happly
  · cases happly
    exact ⟨dmn', hget, hrefl _⟩
  · simp only [bind_eq_ok] at happly
    obtain ⟨-, -, -, -, hhandle⟩ := happly
    exact handleQuorumCommitment_related hrefl htrans hpunished hhandle hget

include hrefl htrans hpunished in
theorem applySpecialTx_under {n n' : Nat} (happly : ctx.applySpecialTx (l, n) tx = .ok (l', n'))
    (hget : l'.getMN M = some dmn') :
    (∃ dmn, l.getMN M = some dmn ∧ TxEffectUnder R ctx M dmn.pdmnState tx dmn'.pdmnState) ∨
      Registers ctx M tx dmn'.pdmnState := by
  have hcall := txCall_of_applied happly
  unfold TxCall at hcall
  unfold TxEffectUnder Registers
  generalize tx.payload = payload at hcall ⊢
  cases payload with
  | other =>
    obtain rfl := hcall
    exact .inl ⟨dmn', hget, rfl⟩
  | proReg payload =>
    obtain ⟨p, rfl, hok⟩ := hcall
    obtain hkept | ⟨hhash, hstate⟩ := applyProRegTx_ok hok hget
    · exact .inl ⟨dmn', hkept, rfl⟩
    · exact .inr ⟨hhash, p, rfl, hstate⟩
  | proUpServ payload | proUpReg payload | proUpRev payload =>
    obtain ⟨p, dmn, rfl, hold, hok⟩ := hcall
    exact .inl (getMN_of_updateMN hold hok hget)
  | quorumCommitment payload =>
    obtain ⟨p, rfl, hok⟩ := hcall
    exact .inl (applyQuorumCommitment_related hrefl htrans hpunished hok hget)
  | serviceCommitment payload =>
    obtain ⟨p, rfl, hok⟩ := hcall
    rw [applyServiceCommitment_ok hok] at hget
    obtain ⟨dmn, hdmn, rfl⟩ := Option.map_eq_some_iff.mp hget
    exact .inl ⟨dmn, hdmn, rfl⟩

end Punishments

theorem applySpecialTx_ok {n n' : Nat} (happly : ctx.applySpecialTx (l, n) tx = .ok (l', n'))
    (hget : l'.getMN M = some dmn') :
    (∃ dmn, l.getMN M = some dmn ∧ TxEffect ctx M dmn.pdmnState tx dmn'.pdmnState) ∨
      Registers ctx M tx dmn'.pdmnState :=
  applySpecialTx_under (fun _ => .rfl) .trans (fun _ _ _ => punished_punished _) happly hget

/-! ### The block around the transactions -/

theorem getMN_kept (hget : l.getMN dmn.proTxHash = some dmn)
    (hok : Except.ok (ε := ListError) l = .ok l') (h : Uint256) :
    l'.getMN h = if h = dmn.proTxHash then some (dmn.withState dmn.pdmnState) else l.getMN h := by
  cases hok
  split
  next heq =>
    rw [heq, hget]
    rfl
  · rfl

section Housekeeping

variable {R : CDeterministicMNState → CDeterministicMNState → Prop}

theorem related_startList (hrefl : ∀ s, R s s)
    (htrans : ∀ {s s' s''}, R s s' → R s' s'' → R s s'')
    (hconfirmed : ∀ (s : CDeterministicMNState) sha256 proTxHash confirmedHash,
      R s (s.updateConfirmedHash sha256 proTxHash confirmedHash))
    (hdecreased : ∀ s, R s { s with nPoSePenalty := s.nPoSePenalty - 1 })
    (hstart : ctx.startList l = .ok l') : CDeterministicMNList.Related R l l' := by
  simp only [startList, bind_eq_ok] at hstart
  obtain ⟨mid, hconfirm, hdecrease⟩ := hstart
  refine CDeterministicMNList.Related.trans htrans ?_
    (related_decreaseScores hrefl hdecreased hdecrease)
  -- the loop reads the old list and updates the new one, which lists the same masternodes
  let start : CDeterministicMNList := { l with blockHash := 0, nHeight := ctx.nHeight }
  change CDeterministicMNList.Related R start mid
  refine related_foldlM_mns hrefl
    (fun dmn =>
      if dmn.pdmnState.confirmedHash = 0 ∧ ctx.params.nMasternodeMinimumConfirmations ≤
          ctx.prevHeight - dmn.pdmnState.nRegisteredHeight then
        dmn.pdmnState.updateConfirmedHash ctx.env.sha256 dmn.proTxHash ctx.prevHash
      else dmn.pdmnState)
    (Sublist.refl (start.mns false)) ?_ ?_ hconfirm
  · intro l dmn l' _ hget hok h
    unfold confirmMN at hok
    split at hok
    next hconfirmed => simpa only [if_neg fun h => hconfirmed (And.left h)] using getMN_kept hget hok h
    next hunconfirmed =>
      split at hok
      next hold =>
        obtain ⟨old, hold', hupdated⟩ := updateMN_ok hok
        obtain rfl : dmn = old := Option.some.inj (hget.symm.trans hold')
        simp only [hupdated h, not_not.mp hunconfirmed, hold, and_self, if_true]
      next hnew => simpa only [if_neg fun h => hnew (And.right h)] using getMN_kept hget hok h
  · intro dmn
    split
    · exact hconfirmed _ _ _ _
    · exact hrefl _

theorem related_resetPayments (hrefl : ∀ s, R s s)
    (hreset : ∀ s, R s { s with nConsecutivePayments := 0 }) {payee : Option CDeterministicMN}
    (hfold : (l.mns false).foldlM (ctx.resetPayments payee) l = .ok l') :
    CDeterministicMNList.Related R l l' := by
  refine related_foldlM_mns hrefl
    (fun dmn =>
      if ctx.params.paymentWeight dmn.nType ≤ 1 ∨
          (payee.map proTxHash = some dmn.proTxHash ∧ !ctx.mnRRActive) ∨
          dmn.pdmnState.nConsecutivePayments = 0 then dmn.pdmnState
      else { dmn.pdmnState with nConsecutivePayments := 0 })
    (Sublist.refl _) ?_ ?_ hfold
  · intro l dmn l' _ hget hok h
    unfold resetPayments at hok
    split at hok
    next hweight => simpa only [if_pos (Or.inl hweight)] using getMN_kept hget hok h
    next hweight =>
      split at hok
      next hpaid => simpa only [if_pos (Or.inr (Or.inl hpaid))] using getMN_kept hget hok h
      next hpaid =>
        split at hok
        next hzero => simpa only [if_pos (Or.inr (Or.inr hzero))] using getMN_kept hget hok h
        next hzero =>
          obtain ⟨old, hold, hupdated⟩ := updateMN_ok hok
          obtain rfl : dmn = old := Option.some.inj (hget.symm.trans hold)
          simp only [hupdated h, hweight, hpaid, hzero, or_self, if_false]
  · intro dmn
    split
    · exact hrefl _
    · exact hreset _

end Housekeeping

theorem sameOperators_startList (hstart : ctx.startList l = .ok l') : l.SameOperators l' :=
  related_startList (fun _ => .rfl) .trans (fun _ _ _ _ => ⟨rfl, rfl, rfl, rfl, rfl⟩)
    (fun _ => ⟨rfl, rfl, rfl, rfl, rfl⟩) hstart

theorem getMN_of_removeSpent {prevout : COutPoint} (hremove : removeSpent l prevout = .ok l')
    (hget : l'.getMN M = some dmn') : l.getMN M = some dmn' := by
  unfold removeSpent at hremove
  split at hremove
  · cases hremove
    exact hget
  · split at hremove
    · exact getMN_of_removeMN hremove hget
    · cases hremove
      exact hget

def paid (ctx : BlockContext) (l : CDeterministicMNList) (dmn : CDeterministicMN) :
    CDeterministicMNState :=
  { dmn.pdmnState with
    nLastPaidHeight := ctx.nHeight
    nConsecutivePayments :=
      if 1 < l.getEffectivePaymentWeight ctx.params dmn ∧ !ctx.mnRRActive then
        dmn.pdmnState.nConsecutivePayments + 1
      else dmn.pdmnState.nConsecutivePayments }

theorem getMN_recordPayment {payee : Option CDeterministicMN}
    (hrecord : ctx.recordPayment l payee = .ok l') (h : Uint256) :
    l'.getMN h = (l.getMN h).map fun dmn =>
      if payee.map CDeterministicMN.proTxHash = some h then dmn.withState (paid ctx l dmn)
      else dmn := by
  have hkept (hok : Except.ok (ε := ListError) l = .ok l')
      (hnot : payee.map proTxHash = some h → l.getMN h = none) :
      l'.getMN h = (l.getMN h).map fun dmn =>
        if payee.map proTxHash = some h then dmn.withState (paid ctx l dmn)
        else dmn := by
    cases hok
    by_cases hpayee : payee.map proTxHash = some h
    · rw [hnot hpayee, Option.map_none]
    · simp only [if_neg hpayee]
      exact Option.map_id_apply.symm
  unfold recordPayment at hrecord
  cases payee with
  | none => exact hkept hrecord fun hnone => nomatch hnone
  | some payee =>
    dsimp only at hrecord
    cases hdmn : l.getMN payee.proTxHash with
    | none =>
      rw [hdmn] at hrecord
      refine hkept hrecord fun heq => ?_
      rw [← Option.some.inj heq]
      exact hdmn
    | some dmn =>
      rw [hdmn] at hrecord
      obtain ⟨old, hold, hupdated⟩ := updateMN_ok hrecord
      obtain rfl : dmn = old := Option.some.inj (hdmn.symm.trans hold)
      rw [hupdated h]
      by_cases heq : h = payee.proTxHash
      · rw [if_pos heq, heq, hdmn, Option.map_some, Option.map_some, if_pos rfl]
        rfl
      · have hne : (some payee).map proTxHash ≠ some h :=
          fun hsome => heq (Option.some.inj hsome).symm
        simp only [if_neg heq, if_neg hne]
        exact Option.map_id_apply.symm

variable {prevList : CDeterministicMNList} {txs : List SpecialTx}

theorem finishList_cases (hfinish : ctx.finishList prevList txs l = .ok l') :
    ∃ unspent paidList, (∀ M dmn, unspent.getMN M = some dmn → l.getMN M = some dmn) ∧
      ctx.recordPayment unspent (prevList.getMNPayee ctx.params ctx.mnRRActive) = .ok paidList ∧
      (paidList.mns false).foldlM
        (ctx.resetPayments (prevList.getMNPayee ctx.params ctx.mnRRActive)) paidList = .ok l' := by
  simp only [finishList, bind_eq_ok] at hfinish
  obtain ⟨unspent, hspent, paidList, hrecord, hreset⟩ := hfinish
  refine ⟨unspent, paidList, ?_, hrecord, hreset⟩
  intro M
  refine Run.invariant (I := fun t => ∀ dmn, t.getMN M = some dmn → l.getMN M = some dmn)
    ?_ (Run.except hspent) (fun _ => id)
  intro mid prevout next hI hstep dmn hget
  exact hI dmn (getMN_of_removeSpent hstep hget)

theorem finishList_related {R : CDeterministicMNState → CDeterministicMNState → Prop}
    (hrefl : ∀ s, R s s) (htrans : ∀ {s s' s''}, R s s' → R s' s'' → R s s'')
    (hpaid : ∀ s nLastPaidHeight nConsecutivePayments,
      R s { s with nLastPaidHeight, nConsecutivePayments })
    (hfinish : ctx.finishList prevList txs l = .ok l') (hget : l'.getMN M = some dmn') :
    ∃ dmn, l.getMN M = some dmn ∧ R dmn.pdmnState dmn'.pdmnState := by
  obtain ⟨unspent, paidList, hunspent, hrecord, hreset⟩ := finishList_cases hfinish
  have hreset := related_resetPayments hrefl (fun s => hpaid s s.nLastPaidHeight 0) hreset
  obtain ⟨mid, hmid, hlast⟩ := hreset.of_getMN hget
  rw [getMN_recordPayment hrecord] at hmid
  obtain ⟨dmn, hdmn, rfl⟩ := Option.map_eq_some_iff.mp hmid
  refine ⟨dmn, hunspent M dmn hdmn, htrans ?_ hlast⟩
  split
  · exact hpaid _ _ _
  · exact hrefl _

theorem finishList_ok (hfinish : ctx.finishList prevList txs l = .ok l')
    (hget : l'.getMN M = some dmn') :
    ∃ dmn, l.getMN M = some dmn ∧ dmn.pdmnState.SameOperator dmn'.pdmnState :=
  finishList_related (fun _ => .rfl) .trans (fun _ _ _ => ⟨rfl, rfl, rfl, rfl, rfl⟩) hfinish hget

theorem applyTxs_ok {acc : CDeterministicMNList × Nat}
    (happly : ctx.applyTxs prevList txs = .ok acc) :
    ∃ start, prevList.SameOperators start ∧
      Run (fun acc tx acc' => ctx.applySpecialTx acc tx = .ok acc') (start, 0) txs acc := by
  simp only [applyTxs, bind_eq_ok] at happly
  obtain ⟨start, hstart, hfold⟩ := happly
  exact ⟨start, sameOperators_startList hstart, Run.except hfold⟩

theorem applyTxs_concat {acc' : CDeterministicMNList × Nat} :
    ctx.applyTxs prevList (txs ++ [tx]) = .ok acc' ↔
      ∃ acc, ctx.applyTxs prevList txs = .ok acc ∧ ctx.applySpecialTx acc tx = .ok acc' := by
  simp only [applyTxs, bind_eq_ok, foldlM_append, foldlM_cons, foldlM_nil,
    pure_eq_ok]
  constructor
  · rintro ⟨start, hstart, acc, hacc, next, hnext, rfl⟩
    exact ⟨acc, ⟨start, hstart, hacc⟩, hnext⟩
  · rintro ⟨acc, ⟨start, hstart, hacc⟩, hnext⟩
    exact ⟨start, hstart, acc, hacc, acc', hnext, rfl⟩

theorem applyTxs_append {pre post : List SpecialTx} {fin : CDeterministicMNList × Nat}
    (happly : ctx.applyTxs prevList (pre ++ post) = .ok fin) :
    ∃ acc, ctx.applyTxs prevList pre = .ok acc ∧
      Run (fun acc tx acc' => ctx.applySpecialTx acc tx = .ok acc') acc post fin := by
  simp only [applyTxs, bind_eq_ok, foldlM_append] at happly ⊢
  obtain ⟨start, hstart, acc, hacc, hpost⟩ := happly
  exact ⟨acc, ⟨start, hstart, hacc⟩, Run.except hpost⟩

/-- What is listed after some transactions, and was not registered by them, went through their
effects. -/
theorem txEffects_of_listed {acc fin : CDeterministicMNList × Nat}
    (hrun : Run (fun acc tx acc' => ctx.applySpecialTx acc tx = .ok acc') acc txs fin)
    (hfresh : NotRegistered M txs) (hget : fin.1.getMN M = some dmn') :
    ∃ dmn, acc.1.getMN M = some dmn ∧ Run (TxEffect ctx M) dmn.pdmnState txs dmn'.pdmnState := by
  induction hrun with
  | nil acc => exact ⟨dmn', hget, .nil _⟩
  | cons hstep _ ih =>
    obtain ⟨mid, hmid, hrest⟩ := ih (fun tx htx => hfresh tx (mem_cons_of_mem _ htx)) hget
    obtain ⟨dmn, hdmn, heffect⟩ | ⟨hhash, p, hpayload, -⟩ := applySpecialTx_ok hstep hmid
    · exact ⟨dmn, hdmn, .cons heffect hrest⟩
    · exact absurd hhash (hfresh _ mem_cons_self p hpayload)

theorem rebuildListFromBlock_ok {vtx : List SpecialTx}
    (hrebuild : ctx.rebuildListFromBlock prevList vtx = .ok l') :
    ∃ acc, ctx.applyTxs prevList vtx.tail = .ok acc ∧
      ctx.finishList prevList vtx.tail acc.1 = .ok l' := by
  simp only [rebuildListFromBlock, bind_eq_ok] at hrebuild
  obtain ⟨-, -, acc, hacc, hfinish⟩ := hrebuild
  exact ⟨acc, hacc, hfinish⟩

end BlockContext

end Defcon.Evo
