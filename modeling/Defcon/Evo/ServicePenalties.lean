import Defcon.Evo.OperatorLockout

/-!
# Service penalties over whole histories

Of all that a block does to a masternode, only a service commitment touches its service fields. The
verdicts of the commitments on one masternode since its registration make a history, and the fields
are functions of the verdicts at its end: how many epochs in a row were missed, and at which block
the row became long enough for a ban.
-/

namespace Defcon.Evo

open Lib (Run Guarded)
open CDeterministicMNList CDeterministicMNState List Lib
open BlockContext

variable {params : ConsensusParams} {ctx : BlockContext} {l l' : CDeterministicMNList}
  {s s' s'' : CDeterministicMNState} {M : Uint256} {tx : SpecialTx}

/-! ### Verdicts -/

/-- Whether a service commitment finds that masternode `M` missed the epoch. -/
def verdictOn (params : ConsensusParams) (c : CPoSeServiceCommitment)
    (epochBaseList : CDeterministicMNList) (M : Uint256) : Option Bool :=
  let order := epochBaseList.canonicalOrder
  if M ∈ order then
    if c.massOutage params ∨ !c.isObserved (order.idxOf M) then none
    else some (c.missed.getD (order.idxOf M) false)
  else none

/-- The verdicts on a masternode since its registration, each with the height of its block, the
newest first. -/
abbrev VerdictHistory := List (Int × Bool)

def recordTx (ctx : BlockContext) (M : Uint256) (history : VerdictHistory) (tx : SpecialTx) :
    VerdictHistory :=
  match tx.payload with
  | .proReg (some _) => if tx.hash = M then [] else history
  | .serviceCommitment (some p) =>
    match verdictOn ctx.params p.commitment (ctx.getListForBlock p.commitment.epochBlockHash) M with
    | none => history
    | some missed => (ctx.nHeight, missed) :: history
  | _ => history

def recordBlock (M : Uint256) (history : VerdictHistory) (b : ListBlock) : VerdictHistory :=
  b.vtx.tail.foldl (recordTx b.ctx M) history

def verdictsOn (M : Uint256) (blocks : List ListBlock) : VerdictHistory :=
  blocks.foldl (recordBlock M) []

def missedRun (history : VerdictHistory) : VerdictHistory :=
  history.takeWhile Prod.snd

variable (nHeight : Int)

theorem missedRun_missed (history : VerdictHistory) :
    missedRun ((nHeight, true) :: history) = (nHeight, true) :: missedRun history :=
  rfl

structure Penalised (params : ConsensusParams) (history : VerdictHistory)
    (s : CDeterministicMNState) : Prop where
  nMissedEpochs : s.nMissedEpochs = (missedRun history).length
  fRewardSuspended : s.fRewardSuspended = true ↔ params.nDSLSuspendEpochs ≤ s.nMissedEpochs
  banned : s.nDSLBanHeight ≠ -1 ↔ params.nDSLBanEpochs ≤ s.nMissedEpochs
  /-- The ban is that of the verdict with which the row became long enough. -/
  nDSLBanHeight : s.nDSLBanHeight ≠ -1 →
    (missedRun history).reverse[params.nDSLBanEpochs.toNat - 1]? = some (s.nDSLBanHeight, true)

def PositiveThresholds (params : ConsensusParams) : Prop :=
  0 < params.nDSLSuspendEpochs ∧ 0 < params.nDSLBanEpochs

namespace Penalised

variable {history : VerdictHistory}

theorem fresh (hpos : PositiveThresholds params) (hmissed : s.nMissedEpochs = 0)
    (hsuspended : s.fRewardSuspended = false) (hban : s.nDSLBanHeight = -1) :
    Penalised params [] s where
  nMissedEpochs := hmissed
  fRewardSuspended := by
    have := hpos.1
    rw [hsuspended, hmissed]
    exact iff_of_false (by decide) (by omega)
  banned := by
    have := hpos.2
    rw [hban, hmissed]
    exact iff_of_false (fun h => h rfl) (by omega)
  nDSLBanHeight hset := absurd hban hset

theorem online (hpos : PositiveThresholds params) {nHeight : Int}
    (hmissed : s'.nMissedEpochs = 0) (hsuspended : s'.fRewardSuspended = false)
    (hban : s'.nDSLBanHeight = -1) : Penalised params ((nHeight, false) :: history) s' := by
  have hfresh := fresh hpos hmissed hsuspended hban
  exact ⟨hmissed, hfresh.fRewardSuspended, hfresh.banned, fun hset => absurd hban hset⟩

theorem missed (hpenalised : Penalised params history s) {nHeight : Int} (hheight : nHeight ≠ -1)
    (hmissed : s'.nMissedEpochs = s.nMissedEpochs + 1)
    (hsuspended : s'.fRewardSuspended =
      decide (s.fRewardSuspended = true ∨ params.nDSLSuspendEpochs ≤ (s.nMissedEpochs + 1 : Nat)))
    (hban : s'.nDSLBanHeight =
      if params.nDSLBanEpochs ≤ (s.nMissedEpochs + 1 : Nat) ∧ s.nDSLBanHeight = -1 then nHeight
      else s.nDSLBanHeight) : Penalised params ((nHeight, true) :: history) s' := by
  have hlength := hpenalised.nMissedEpochs
  refine ⟨?_, ?_, ?_, ?_⟩
  · rw [missedRun_missed, length_cons, hmissed, hlength]
  · rw [hsuspended, decide_eq_true_eq, hpenalised.fRewardSuspended, hmissed]
    push_cast
    omega
  · rw [hban, hmissed]
    have hbefore := hpenalised.banned
    split
    · rename_i hnew
      exact iff_of_true hheight hnew.1
    · rename_i hold
      push_cast at hold ⊢
      omega
  · intro hset
    rw [missedRun_missed, reverse_cons]
    by_cases hbefore : s.nDSLBanHeight = -1
    · -- the row has just become long enough
      have hshort : ¬params.nDSLBanEpochs ≤ s.nMissedEpochs :=
        fun hle => hpenalised.banned.mpr hle hbefore
      have hnew : params.nDSLBanEpochs ≤ (s.nMissedEpochs + 1 : Nat) := by
        by_contra hnot
        rw [hban, if_neg fun h => hnot h.1] at hset
        exact hset hbefore
      have hindex : params.nDSLBanEpochs.toNat - 1 = (missedRun history).reverse.length := by
        rw [length_reverse, ← hlength]
        push_cast at hnew
        omega
      rw [hban, if_pos ⟨hnew, hbefore⟩, hindex, getElem?_append_right (Nat.le_refl _),
        Nat.sub_self]
      rfl
    · have hheld := hpenalised.nDSLBanHeight hbefore
      rw [hban, if_neg fun h => hbefore h.2, getElem?_append_left, hheld]
      exact (List.getElem?_eq_some_iff.mp hheld).1

end Penalised

/-! ### What leaves the service fields alone -/

structure SameService (s s' : CDeterministicMNState) : Prop where
  nMissedEpochs : s'.nMissedEpochs = s.nMissedEpochs
  nLastServiceEpoch : s'.nLastServiceEpoch = s.nLastServiceEpoch
  fRewardSuspended : s'.fRewardSuspended = s.fRewardSuspended
  nDSLBanHeight : s'.nDSLBanHeight = s.nDSLBanHeight

theorem SameService.rfl : SameService s s :=
  ⟨Eq.refl _, Eq.refl _, Eq.refl _, Eq.refl _⟩

theorem SameService.trans (h : SameService s s') (h' : SameService s' s'') : SameService s s'' where
  nMissedEpochs := h'.nMissedEpochs.trans h.nMissedEpochs
  nLastServiceEpoch := h'.nLastServiceEpoch.trans h.nLastServiceEpoch
  fRewardSuspended := h'.fRewardSuspended.trans h.fRewardSuspended
  nDSLBanHeight := h'.nDSLBanHeight.trans h.nDSLBanHeight

variable {history : VerdictHistory} {c : CPoSeServiceCommitment}

theorem Penalised.same (hpenalised : Penalised params history s) (hsame : SameService s s') :
    Penalised params history s' where
  nMissedEpochs := hsame.nMissedEpochs.trans hpenalised.nMissedEpochs
  fRewardSuspended := by
    rw [hsame.fRewardSuspended, hsame.nMissedEpochs]
    exact hpenalised.fRewardSuspended
  banned := by
    rw [hsame.nDSLBanHeight, hsame.nMissedEpochs]
    exact hpenalised.banned
  nDSLBanHeight := by
    rw [hsame.nDSLBanHeight]
    exact hpenalised.nDSLBanHeight

theorem sameService_banIfNotBanned (height : Int) : SameService s (s.banIfNotBanned height) := by
  unfold banIfNotBanned
  split
  · exact .rfl
  · exact ⟨rfl, rfl, rfl, rfl⟩

theorem sameService_punished (penalty : Int) : SameService s (l.punished s penalty) := by
  have hpenalty (nPoSePenalty : Int) : SameService s { s with nPoSePenalty } := ⟨rfl, rfl, rfl, rfl⟩
  unfold punished
  dsimp only
  split
  · exact (hpenalty _).trans (sameService_banIfNotBanned _)
  · exact hpenalty _

theorem sameService_updateService (p : CProUpServTx) :
    SameService s (s.updateService nHeight p) := by
  unfold updateService
  dsimp only
  split <;> exact ⟨rfl, rfl, rfl, rfl⟩

theorem sameService_reset : SameService s (s.resetOperatorFields.banIfNotBanned nHeight) := by
  have hreset : SameService s s.resetOperatorFields := ⟨rfl, rfl, rfl, rfl⟩
  exact hreset.trans (sameService_banIfNotBanned nHeight)

theorem sameService_updateRegistrar (p : CProUpRegTx) :
    SameService s (s.updateRegistrar nHeight p) := by
  cases hsame : s.pubKeyOperator.same p.pubKeyOperator with
  | true =>
    rw [updateRegistrar_of_same hsame]
    exact ⟨rfl, rfl, rfl, rfl⟩
  | false =>
    rw [updateRegistrar_of_not_same hsame]
    exact (sameService_reset nHeight).trans ⟨rfl, rfl, rfl, rfl⟩

theorem sameService_revokeOperator (p : CProUpRevTx) : SameService s (s.revokeOperator nHeight p) :=
  (sameService_reset nHeight).trans ⟨rfl, rfl, rfl, rfl⟩

theorem sameService_registered (p : CProRegTx) : SameService {} (.registered nHeight p) := by
  unfold registered
  split
  · refine SameService.trans ?_ (sameService_banIfNotBanned nHeight)
    exact ⟨rfl, rfl, rfl, rfl⟩
  · exact ⟨rfl, rfl, rfl, rfl⟩

/-! ### Service commitments -/

def FitsBase (ctx : BlockContext) (c : CPoSeServiceCommitment) : Prop :=
  let order := (ctx.getListForBlock c.epochBlockHash).canonicalOrder
  order.length = c.missed.length ∧
    ¬(CPoSeServiceCommitment.OBSERVED_VERSION ≤ c.nVersion ∧ c.observed.length ≠ order.length)

theorem fitsBase_of_applied (happly : ctx.applyServiceCommitmentTx l c = .ok l') :
    FitsBase ctx c := by
  simp only [applyServiceCommitmentTx, bind_eq_ok, refuseIf_eq_ok] at happly
  obtain ⟨-, -, -, hmissed, -, hobserved, -⟩ := happly
  unfold FitsBase
  simp only [length_canonicalOrder]
  exact ⟨(not_not.mp hmissed).symm, hobserved⟩

theorem fitsBase_of_applied_tx {acc acc' : CDeterministicMNList × Nat}
    {p : CPoSeServiceCommitmentTxPayload} (happly : ctx.applySpecialTx acc tx = .ok acc')
    (hpayload : tx.payload = .serviceCommitment (some p)) : FitsBase ctx p.commitment := by
  simp only [applySpecialTx, hpayload, bind_eq_ok, need_eq_ok,
    Option.some.injEq] at happly
  obtain ⟨-, -, _, rfl, _, happly, -⟩ := happly
  exact fitsBase_of_applied happly

theorem registered_of_applied {acc acc' : CDeterministicMNList × Nat} {p : CProRegTx}
    {dmn : CDeterministicMN} (happly : ctx.applySpecialTx acc tx = .ok acc')
    (hpayload : tx.payload = .proReg (some p)) (hget : acc'.1.getMN tx.hash = some dmn) :
    dmn.pdmnState = .registered ctx.nHeight p := by
  simp only [applySpecialTx, hpayload, bind_eq_ok, need_eq_ok,
    Option.some.injEq, pure_eq_ok] at happly
  obtain ⟨_, rfl, newList, happly, rfl⟩ := happly
  simp only [applyProRegTx, bind_eq_ok] at happly
  obtain ⟨-, -, _, -, -, -, -, -, -, -, hadd⟩ := happly
  obtain ⟨-, hadded⟩ := addMN_ok hadd
  rw [hadded, if_pos rfl] at hget
  rw [← Option.some.inj hget]

theorem serviceVerdict_cases (params : ConsensusParams) (M : Uint256) (s : CDeterministicMNState)
    (hfits : FitsBase ctx c) : let epochBaseList := ctx.getListForBlock c.epochBlockHash
    let s' := serviceVerdict params c epochBaseList ctx.nHeight M s
    match verdictOn params c epochBaseList M with
    | none => s' = { s with nLastServiceEpoch :=
        if M ∈ epochBaseList.canonicalOrder then c.nEpoch else s.nLastServiceEpoch }
    | some missed => ∃ i, c.massOutage params = false ∧ c.isObserved i = true ∧
        c.missed.getD i false = missed ∧ s' = c.verdict params ctx.nHeight i s := by
  obtain ⟨hlength, hobserved⟩ := hfits
  generalize ctx.getListForBlock c.epochBlockHash = epochBaseList at hlength hobserved ⊢
  unfold serviceVerdict verdictOn
  simp only [hlength, ne_eq, not_true_eq_false, if_false]
  rw [hlength] at hobserved
  rw [if_neg hobserved]
  by_cases hmem : M ∈ epochBaseList.canonicalOrder
  · rw [if_pos hmem, if_pos hmem, if_pos hmem]
    by_cases hnone : c.massOutage params = true ∨
        (!c.isObserved (epochBaseList.canonicalOrder.idxOf M)) = true
    · rw [if_pos hnone]
      simp only [CPoSeServiceCommitment.verdict]
      rcases hnone with hmass | hunobserved
      · rw [if_pos hmass]
      · rw [if_pos hunobserved, ite_self]
    · rw [if_neg hnone]
      obtain ⟨hmass, hseen⟩ := not_or.mp hnone
      exact ⟨_, Bool.eq_false_iff.mpr hmass, by simpa using hseen, rfl, rfl⟩
  · rw [if_neg hmem, if_neg hmem, if_neg hmem]

theorem Penalised.verdict (hpenalised : Penalised params history s)
    (hpos : PositiveThresholds params) {nHeight : Int} {i : Nat} (hheight : nHeight ≠ -1)
    (henforce : params.nDSLEnforcementHeight ≤ nHeight) (hmass : c.massOutage params = false)
    (hseen : c.isObserved i = true) :
    Penalised params ((nHeight, c.missed.getD i false) :: history)
      (c.verdict params nHeight i s) := by
  cases hmissed : c.missed.getD i false with
  | false =>
    simp only [CPoSeServiceCommitment.verdict, hmass, hseen, hmissed, henforce, decide_true,
      Bool.not_true, Bool.not_false, Bool.false_eq_true, if_false, if_true]
    exact online hpos rfl rfl rfl
  | true =>
    simp only [CPoSeServiceCommitment.verdict, hmass, hseen, hmissed, henforce, decide_true,
      Bool.not_true, Bool.false_eq_true, if_false, if_true]
    exact hpenalised.missed hheight rfl rfl rfl

/-! ### Blocks -/

def Enforces (params : ConsensusParams) (b : ListBlock) : Prop :=
  b.ctx.params = params ∧ ((∃ tx ∈ b.vtx.tail, isServiceCommitment tx = true) →
    params.nDSLEnforcementHeight ≤ b.ctx.nHeight)

/-- The fields of masternode `M`, where it is listed, follow from a history of at most `bound`
verdicts. -/
structure Follows (params : ConsensusParams) (M : Uint256) (bound : Nat) (history : VerdictHistory)
    (l : CDeterministicMNList) : Prop where
  penalised : ∀ dmn, l.getMN M = some dmn → Penalised params history dmn.pdmnState
  length_le : history.length ≤ bound

namespace Follows

variable {history : VerdictHistory} {bound : Nat}

theorem of_getMN (hfollows : Follows params M bound history l)
    (hback : ∀ dmn', l'.getMN M = some dmn' →
      ∃ dmn, l.getMN M = some dmn ∧ SameService dmn.pdmnState dmn'.pdmnState) :
    Follows params M bound history l' where
  penalised dmn' hget := by
    obtain ⟨dmn, hdmn, hsame⟩ := hback dmn' hget
    exact (hfollows.penalised dmn hdmn).same hsame
  length_le := hfollows.length_le

theorem length_recordTx_le (ctx : BlockContext) (M : Uint256) (history : VerdictHistory)
    (tx : SpecialTx) : (recordTx ctx M history tx).length ≤
      history.length + if isServiceCommitment tx = true then 1 else 0 := by
  unfold recordTx isServiceCommitment
  split
  · split
    · exact Nat.zero_le _
    · exact Nat.le_add_right _ _
  next hpayload =>
    rw [hpayload]
    split
    · exact Nat.le_add_right _ _
    · exact Nat.le_refl _
  · exact Nat.le_add_right _ _

end Follows

theorem Penalised.txEffect (hpenalised : Penalised ctx.params history s)
    (hpos : PositiveThresholds ctx.params)
    (henforce : isServiceCommitment tx = true → ctx.params.nDSLEnforcementHeight ≤ ctx.nHeight)
    (hfits : ∀ p, tx.payload = .serviceCommitment (some p) → FitsBase ctx p.commitment)
    (hother : ∀ p, tx.payload = .proReg (some p) → tx.hash ≠ M)
    (heffect : TxEffectUnder SameService ctx M s tx s') :
    Penalised ctx.params (recordTx ctx M history tx) s' := by
  have hupdate {updated : CDeterministicMNState} {P : Prop} [Decidable P]
      (hsame : SameService s updated) (heq : s' = if P then updated else s) :
      Penalised ctx.params history s' := by
    rw [heq]
    split
    · exact hpenalised.same hsame
    · exact hpenalised
  unfold TxEffectUnder at heffect
  unfold recordTx
  generalize hpayload : tx.payload = payload at heffect ⊢
  cases payload with
  | other => exact heffect ▸ hpenalised
  | proReg payload =>
    cases payload with
    | none => exact heffect ▸ hpenalised
    | some p =>
      rw [if_neg (hother p hpayload), heffect]
      exact hpenalised
  | proUpServ payload =>
    cases payload with
    | none => exact heffect ▸ hpenalised
    | some p => exact hupdate (sameService_updateService _ _) heffect
  | proUpReg payload =>
    cases payload with
    | none => exact heffect ▸ hpenalised
    | some p => exact hupdate (sameService_updateRegistrar _ _) heffect
  | proUpRev payload =>
    cases payload with
    | none => exact heffect ▸ hpenalised
    | some p => exact hupdate (sameService_revokeOperator _ _) heffect
  | quorumCommitment payload =>
    cases payload with
    | none => exact heffect ▸ hpenalised
    | some p => exact hpenalised.same heffect
  | serviceCommitment payload =>
    cases payload with
    | none => exact heffect ▸ hpenalised
    | some p =>
      dsimp only at heffect ⊢
      have hheight := henforce (by rw [isServiceCommitment, hpayload])
      have hcases := serviceVerdict_cases ctx.params M s (hfits p hpayload)
      dsimp only at hcases
      rw [← heffect] at hcases
      cases hverdict : verdictOn ctx.params p.commitment
          (ctx.getListForBlock p.commitment.epochBlockHash) M with
      | none =>
        rw [hverdict] at hcases
        rw [hcases]
        exact ⟨hpenalised.nMissedEpochs, hpenalised.fRewardSuspended, hpenalised.banned,
          hpenalised.nDSLBanHeight⟩
      | some missed =>
        rw [hverdict] at hcases
        obtain ⟨i, hmass, hseen, rfl, hstate⟩ := hcases
        rw [hstate]
        exact hpenalised.verdict hpos nHeight_ne hheight hmass hseen

namespace Follows

variable {history : VerdictHistory} {bound : Nat}

theorem applySpecialTx {acc acc' : CDeterministicMNList × Nat}
    (hfollows : Follows ctx.params M (bound + acc.2) history acc.1)
    (hpos : PositiveThresholds ctx.params)
    (henforce : isServiceCommitment tx = true → ctx.params.nDSLEnforcementHeight ≤ ctx.nHeight)
    (happly : ctx.applySpecialTx acc tx = .ok acc') :
    Follows ctx.params M (bound + acc'.2) (recordTx ctx M history tx) acc'.1 := by
  refine ⟨?_, ?_⟩
  · intro dmn' hget
    by_cases hregisters : ∃ p, tx.payload = .proReg (some p) ∧ tx.hash = M
    · obtain ⟨p, hpayload, hhash⟩ := hregisters
      have hstate := registered_of_applied happly hpayload (hhash ▸ hget)
      have hsame := sameService_registered ctx.nHeight p
      simp only [recordTx, hpayload, hhash, if_true]
      rw [hstate]
      exact Penalised.fresh hpos hsame.nMissedEpochs hsame.fRewardSuspended hsame.nDSLBanHeight
    · have hother : ∀ p, tx.payload = .proReg (some p) → tx.hash ≠ M :=
        fun p hpayload hhash => hregisters ⟨p, hpayload, hhash⟩
      obtain ⟨dmn, hdmn, heffect⟩ | ⟨hhash, p, hpayload, -⟩ :=
        applySpecialTx_under (fun _ => .rfl) .trans
          (fun _ _ _ => sameService_punished _) happly hget
      · refine (hfollows.penalised dmn hdmn).txEffect hpos henforce ?_ hother heffect
        exact fun p hpayload => fitsBase_of_applied_tx happly hpayload
      · exact absurd hhash (hother p hpayload)
  · have hlength := length_recordTx_le ctx M history tx
    have hbefore := hfollows.length_le
    have hcount := (applySpecialTx_count happly).1
    omega

theorem acceptsBlock {b : ListBlock} (hfollows : Follows params M bound history l)
    (hpos : PositiveThresholds params) (henforces : Enforces params b)
    (haccept : AcceptsBlock l b l') : Follows params M (bound + 1) (recordBlock M history b) l' := by
  obtain ⟨rfl, henforce⟩ := henforces
  obtain ⟨-, newList, hrebuild, rfl⟩ := haccept
  obtain ⟨acc, hacc, hfinish⟩ := rebuildListFromBlock_ok hrebuild
  simp only [applyTxs, bind_eq_ok] at hacc
  obtain ⟨start, hstart, hfold⟩ := hacc
  have hstarted : Follows b.ctx.params M (bound + 0) history start := by
    refine hfollows.of_getMN fun dmn' hget => ?_
    exact (related_startList (fun _ => .rfl) .trans
      (fun _ _ _ _ => ⟨rfl, rfl, rfl, rfl⟩) (fun _ => ⟨rfl, rfl, rfl, rfl⟩) hstart).of_getMN hget
  have hrun : Run (Guarded (fun _ tx => isServiceCommitment tx = true →
        b.ctx.params.nDSLEnforcementHeight ≤ b.ctx.nHeight)
      fun acc tx acc' => b.ctx.applySpecialTx acc tx = .ok acc') (start, 0) b.vtx.tail acc :=
    (Run.except hfold).guarded fun hsplit _ hservice =>
      henforce ⟨_, hsplit ▸ mem_append_right _ mem_cons_self, hservice⟩
  have happlied : Follows b.ctx.params M (bound + acc.2) (recordBlock M history b) acc.1 := by
    refine hrun.simulation
      (R := fun history acc => Follows b.ctx.params M (bound + acc.2) history acc.1) ?_ hstarted
    intro history acc tx acc' hfollows hstep
    exact hfollows.applySpecialTx hpos hstep.1 hstep.2
  have hone : acc.2 ≤ 1 := by
    refine Run.invariant (I := fun acc => acc.2 ≤ 1) ?_ hrun (Nat.zero_le 1)
    intro acc tx acc' hle hstep
    exact (applySpecialTx_count hstep.2).2.trans (max_le hle (Nat.le_refl 1))
  refine ⟨?_, happlied.length_le.trans (by omega)⟩
  refine (happlied.of_getMN fun dmn' hget => ?_).penalised
  exact finishList_related (fun _ => .rfl) .trans
    (fun _ _ _ => ⟨rfl, rfl, rfl, rfl⟩) hfinish hget

end Follows

/-- **Service penalties over whole histories.** The service fields of every listed masternode are
those of its verdicts since registration. -/
theorem service_penalties {blocks : List ListBlock} (hrun : Run AcceptsBlock {} blocks l)
    (hpos : PositiveThresholds params) (henforces : ∀ b ∈ blocks, Enforces params b) :
    (∀ M dmn, l.getMN M = some dmn →
      Penalised params (verdictsOn M blocks) dmn.pdmnState ∧
        dmn.pdmnState.nMissedEpochs ≤ blocks.length) ∧
    ∀ (ctx : BlockContext) (before after : CDeterministicMNList) (c : CPoSeServiceCommitment),
      ctx.applyServiceCommitmentTx before c = .ok after → ∀ M dmn, before.getMN M = some dmn →
        verdictOn ctx.params c (ctx.getListForBlock c.epochBlockHash) M = none →
        after.getMN M = some (dmn.withState { dmn.pdmnState with nLastServiceEpoch :=
          if M ∈ (ctx.getListForBlock c.epochBlockHash).canonicalOrder then c.nEpoch
          else dmn.pdmnState.nLastServiceEpoch }) := by
  constructor
  · intro M dmn hget
    have hguarded : Run (Guarded (fun _ b => Enforces params b) AcceptsBlock) {} blocks l :=
      hrun.guarded fun hsplit _ =>
        henforces _ (hsplit ▸ mem_append_right _ mem_cons_self)
    have hfollows : Follows params M blocks.length (verdictsOn M blocks) l := by
      refine hguarded.history
        (R := fun done l => Follows params M done.length (verdictsOn M done) l) ?_ ?_
      · intro done l b l' hfollows hstep
        rw [length_append, length_singleton, verdictsOn, foldl_append]
        exact hfollows.acceptsBlock hpos hstep.1 hstep.2
      · exact ⟨fun _ hget => (nomatch hget), Nat.le_refl 0⟩
    have hpenalised := hfollows.penalised dmn hget
    refine ⟨hpenalised, ?_⟩
    calc dmn.pdmnState.nMissedEpochs
        = (missedRun (verdictsOn M blocks)).length := hpenalised.nMissedEpochs
      _ ≤ (verdictsOn M blocks).length := (takeWhile_sublist _).length_le
      _ ≤ blocks.length := hfollows.length_le
  · intro ctx before after c happly M dmn hget hnone
    have hcases := serviceVerdict_cases ctx.params M dmn.pdmnState (fitsBase_of_applied happly)
    dsimp only at hcases
    rw [hnone] at hcases
    simp only [BlockContext.applyServiceCommitmentTx, bind_eq_ok] at happly
    obtain ⟨_, -, _, -, _, -, hcommitment⟩ := happly
    rw [CDeterministicMNList.applyServiceCommitment_ok hcommitment, hget, Option.map_some]
    exact congrArg (fun state => some (dmn.withState state)) hcases

theorem service_penalties_missed :
    ∃ dmn, Sample.list₂.getMN 1 = some dmn ∧
      Penalised Sample.params (verdictsOn 1 [Sample.block₁, Sample.block₂]) dmn.pdmnState ∧
      verdictsOn 1 [Sample.block₁, Sample.block₂] = [(2, true)] ∧
      dmn.pdmnState.nDSLBanHeight = 2 := by
  have hrun : Run AcceptsBlock {} [Sample.block₁, Sample.block₂] Sample.list₂ := by
    refine .cons (Sample.acceptsBlock_extend (by decide +kernel)) ?_
    exact .cons (Sample.acceptsBlock_extend (by decide +kernel)) (.nil _)
  have henforces : ∀ b ∈ [Sample.block₁, Sample.block₂], Enforces Sample.params b := by
    intro b hb
    simp only [mem_cons, not_mem_nil, or_false] at hb
    rcases hb with rfl | rfl
    · exact ⟨rfl, fun _ => by decide⟩
    · exact ⟨rfl, fun _ => by decide⟩
  have hdmn : Sample.list₂.getMN 1 = some (Sample.masternode Sample.list₂ 1) := by decide +kernel
  have hpenalised := (service_penalties hrun ⟨by decide, by decide⟩ henforces).1 1 _ hdmn
  exact ⟨_, hdmn, hpenalised.1, by decide +kernel, by decide +kernel⟩

end Defcon.Evo
