import Mathlib.Data.Finset.Card
import Mathlib.Data.Prod.Lex
import Defcon.Evo.OperatorLockout

/-!
# Masternode payments in a window of blocks

A block pays the valid masternode whose last payment, revival or registration is longest ago. A
payment, a revival and a registration move a masternode to the height of the block, behind all
others, so that a masternode which waits sees those ahead of it become fewer with every block that
does not pay it.
-/

namespace Defcon.Evo

open Lib (Run Guarded)
open BlockContext List CDeterministicMNState

variable {ctx : BlockContext} {l l' : CDeterministicMNList} {dmn dmn' : CDeterministicMN}
  {s s' s'' : CDeterministicMNState} {M : Uint256} {tx : SpecialTx} {txs : List SpecialTx}

/-! ### The heights that payments are ordered by -/

structure PayStep (nHeight : Int) (s s' : CDeterministicMNState) : Prop where
  nRegisteredHeight : s'.nRegisteredHeight = s.nRegisteredHeight
  nLastPaidHeight : s'.nLastPaidHeight = s.nLastPaidHeight
  nPoSeRevivedHeight : s'.nPoSeRevivedHeight = s.nPoSeRevivedHeight ∨
    s'.nPoSeRevivedHeight = nHeight

namespace PayStep

variable {nHeight : Int}

theorem rfl : PayStep nHeight s s :=
  ⟨Eq.refl _, Eq.refl _, Or.inl (Eq.refl _)⟩

theorem trans (h : PayStep nHeight s s') (h' : PayStep nHeight s' s'') : PayStep nHeight s s'' where
  nRegisteredHeight := h'.nRegisteredHeight.trans h.nRegisteredHeight
  nLastPaidHeight := h'.nLastPaidHeight.trans h.nLastPaidHeight
  nPoSeRevivedHeight := by
    rcases h'.nPoSeRevivedHeight with hsame | hrevived
    · rw [hsame]
      exact h.nPoSeRevivedHeight
    · exact Or.inr hrevived

theorem banIfNotBanned (height : Int) : PayStep nHeight s (s.banIfNotBanned height) := by
  unfold CDeterministicMNState.banIfNotBanned
  split
  · exact .rfl
  · exact ⟨Eq.refl _, Eq.refl _, Or.inl (Eq.refl _)⟩

theorem punished (penalty : Int) : PayStep nHeight s (l.punished s penalty) := by
  have hpenalty (nPoSePenalty : Int) : PayStep nHeight s { s with nPoSePenalty } :=
    ⟨Eq.refl _, Eq.refl _, Or.inl (Eq.refl _)⟩
  unfold CDeterministicMNList.punished
  dsimp only
  split
  · exact (hpenalty _).trans (banIfNotBanned _)
  · exact hpenalty _

theorem updateService (p : CProUpServTx) : PayStep nHeight s (s.updateService nHeight p) := by
  unfold CDeterministicMNState.updateService
  dsimp only
  split
  · exact ⟨Eq.refl _, Eq.refl _, Or.inr (Eq.refl _)⟩
  · exact ⟨Eq.refl _, Eq.refl _, Or.inl (Eq.refl _)⟩

theorem reset : PayStep nHeight s (s.resetOperatorFields.banIfNotBanned nHeight) := by
  have hreset : PayStep nHeight s s.resetOperatorFields :=
    ⟨Eq.refl _, Eq.refl _, Or.inl (Eq.refl _)⟩
  exact hreset.trans (banIfNotBanned nHeight)

theorem updateRegistrar (p : CProUpRegTx) : PayStep nHeight s (s.updateRegistrar nHeight p) := by
  cases hsame : s.pubKeyOperator.same p.pubKeyOperator with
  | true =>
    rw [updateRegistrar_of_same hsame]
    exact ⟨Eq.refl _, Eq.refl _, Or.inl (Eq.refl _)⟩
  | false =>
    rw [updateRegistrar_of_not_same hsame]
    exact reset.trans ⟨Eq.refl _, Eq.refl _, Or.inl (Eq.refl _)⟩

theorem revokeOperator (p : CProUpRevTx) : PayStep nHeight s (s.revokeOperator nHeight p) :=
  reset.trans ⟨Eq.refl _, Eq.refl _, Or.inl (Eq.refl _)⟩

theorem serviceVerdict (params : ConsensusParams) (c : CPoSeServiceCommitment)
    (epochBaseList : CDeterministicMNList) (height : Int) (M : Uint256) :
    PayStep nHeight s
      (CDeterministicMNList.serviceVerdict params c epochBaseList height M s) := by
  obtain ⟨_, _, _, _, heq⟩ := serviceVerdict_eq params c epochBaseList height M s
  rw [heq]
  exact ⟨Eq.refl _, Eq.refl _, Or.inl (Eq.refl _)⟩

theorem of_txEffect (heffect : TxEffectUnder (PayStep ctx.nHeight) ctx M s tx s') :
    PayStep ctx.nHeight s s' := by
  have hupdated {p : Prop} [Decidable p] {t : CDeterministicMNState} (ht : PayStep ctx.nHeight s t)
      (heq : s' = if p then t else s) : PayStep ctx.nHeight s s' := by
    rw [heq]
    split
    · exact ht
    · exact .rfl
  unfold TxEffectUnder at heffect
  split at heffect
  · exact hupdated (updateService _) heffect
  · exact hupdated (updateRegistrar _) heffect
  · exact hupdated (revokeOperator _) heffect
  · exact heffect
  · rw [heffect]
    exact serviceVerdict _ _ _ _ _
  · rw [heffect]
    exact .rfl

end PayStep

def Origin (ctx : BlockContext) (l : CDeterministicMNList) (M : Uint256) (txs : List SpecialTx)
    (s' : CDeterministicMNState) : Prop :=
  (∃ dmn, l.getMN M = some dmn ∧ PayStep ctx.nHeight dmn.pdmnState s') ∨
    ∃ tx ∈ txs, ∃ p, tx.payload = .proReg (some p) ∧ tx.hash = M ∧
      PayStep ctx.nHeight (.registered ctx.nHeight p) s'

theorem Origin.step (horigin : Origin ctx l M txs s) (hstep : PayStep ctx.nHeight s s') :
    Origin ctx l M txs s' := by
  rcases horigin with ⟨dmn, hdmn, hbefore⟩ | ⟨tx, htx, p, hpayload, hhash, hbefore⟩
  · exact Or.inl ⟨dmn, hdmn, hbefore.trans hstep⟩
  · exact Or.inr ⟨tx, htx, p, hpayload, hhash, hbefore.trans hstep⟩

theorem origin_of_applied {acc : CDeterministicMNList × Nat} (happly : ctx.applyTxs l txs = .ok acc)
    (hget : acc.1.getMN M = some dmn') : Origin ctx l M txs dmn'.pdmnState := by
  simp only [applyTxs, Lib.bind_eq_ok] at happly
  obtain ⟨start, hstart, hfold⟩ := happly
  have hstarted : CDeterministicMNList.Related (PayStep ctx.nHeight) l start :=
    related_startList (fun _ => .rfl) .trans
      (fun _ _ _ _ => ⟨rfl, rfl, Or.inl rfl⟩) (fun _ => ⟨rfl, rfl, Or.inl rfl⟩) hstart
  refine (Run.except hfold).invariant_of_mem
    (I := fun acc => ∀ dmn, acc.1.getMN M = some dmn → Origin ctx l M txs dmn.pdmnState)
    ?_ ?_ dmn' hget
  · intro acc tx acc' htx hI hstep dmn' hget
    obtain ⟨dmn, hdmn, heffect⟩ | ⟨hhash, p, hpayload, hstate⟩ :=
      applySpecialTx_under (R := PayStep ctx.nHeight) (fun _ => .rfl) .trans
        (fun _ _ _ => .punished _) hstep hget
    · exact (hI dmn hdmn).step (.of_txEffect heffect)
    · refine Or.inr ⟨tx, htx, p, hpayload, hhash, ?_⟩
      rw [hstate]
      exact .rfl
  · intro dmn hdmn
    obtain ⟨before, hbefore, hstep⟩ := hstarted.of_getMN hdmn
    exact Or.inl ⟨before, hbefore, hstep⟩

def payeeOf (l : CDeterministicMNList) (b : ListBlock) : Option Uint256 :=
  (l.getMNPayee b.ctx.params b.ctx.mnRRActive).map CDeterministicMN.proTxHash

variable {b : ListBlock}

theorem exists_origin (haccept : AcceptsBlock l b l') (hget : l'.getMN M = some dmn') :
    ∃ s, Origin b.ctx l M b.vtx.tail s ∧
      dmn'.pdmnState.nRegisteredHeight = s.nRegisteredHeight ∧
      dmn'.pdmnState.nPoSeRevivedHeight = s.nPoSeRevivedHeight ∧
      dmn'.pdmnState.nLastPaidHeight =
        if payeeOf l b = some M then b.ctx.nHeight else s.nLastPaidHeight := by
  obtain ⟨-, newList, hrebuild, rfl⟩ := haccept
  obtain ⟨acc, hacc, hfinish⟩ := rebuildListFromBlock_ok hrebuild
  obtain ⟨unspent, paidList, hunspent, hrecord, hreset⟩ := finishList_cases hfinish
  have hkept := related_resetPayments
    (R := fun s s' : CDeterministicMNState => s'.nRegisteredHeight = s.nRegisteredHeight ∧
      s'.nPoSeRevivedHeight = s.nPoSeRevivedHeight ∧ s'.nLastPaidHeight = s.nLastPaidHeight)
    (fun _ => ⟨rfl, rfl, rfl⟩) (fun _ => ⟨rfl, rfl, rfl⟩) hreset
  obtain ⟨mid, hmid, hregistered, hrevived, hpaid⟩ := hkept.of_getMN hget
  rw [getMN_recordPayment hrecord] at hmid
  obtain ⟨dmn, hdmn, rfl⟩ := Option.map_eq_some_iff.mp hmid
  refine ⟨dmn.pdmnState, origin_of_applied hacc (hunspent M dmn hdmn), ?_⟩
  rw [hregistered, hrevived, hpaid]
  unfold payeeOf
  split
  · exact ⟨rfl, rfl, rfl⟩
  · exact ⟨rfl, rfl, rfl⟩

/-! ### Heights below the next block -/

structure Below (nHeight : Int) (s : CDeterministicMNState) : Prop where
  nRegisteredHeight : s.nRegisteredHeight < nHeight
  nLastPaidHeight : s.nLastPaidHeight < nHeight
  nPoSeRevivedHeight : s.nPoSeRevivedHeight < nHeight

theorem registered_heights (nHeight : Int) (p : CProRegTx) :
    (CDeterministicMNState.registered nHeight p).nRegisteredHeight = nHeight ∧
      (CDeterministicMNState.registered nHeight p).nLastPaidHeight = 0 ∧
      (CDeterministicMNState.registered nHeight p).nPoSeRevivedHeight = -1 := by
  unfold registered banIfNotBanned
  split_ifs <;> exact ⟨rfl, rfl, rfl⟩

def HeightsBelow (done : List ListBlock) (l : CDeterministicMNList) : Prop :=
  ∀ M dmn, l.getMN M = some dmn → ∀ nHeight : Int, 0 < nHeight →
    (∀ b ∈ done, b.ctx.nHeight < nHeight) → Below nHeight dmn.pdmnState

theorem HeightsBelow.acceptsBlock {done : List ListBlock} (hbelow : HeightsBelow done l)
    (haccept : AcceptsBlock l b l') : HeightsBelow (done ++ [b]) l' := by
  intro M dmn' hget nHeight hpos hdone
  have hblock : b.ctx.nHeight < nHeight := hdone b (mem_append_right _ mem_cons_self)
  obtain ⟨s, horigin, hregistered, hrevived, hpaid⟩ := exists_origin haccept hget
  have hs : Below nHeight s := by
    rcases horigin with ⟨dmn, hdmn, hstep⟩ | ⟨tx, -, p, -, -, hstep⟩
    · have hbefore := hbelow M dmn hdmn nHeight hpos
        fun b hb => hdone b (mem_append_left _ hb)
      refine ⟨?_, ?_, ?_⟩
      · rw [hstep.nRegisteredHeight]
        exact hbefore.nRegisteredHeight
      · rw [hstep.nLastPaidHeight]
        exact hbefore.nLastPaidHeight
      · rcases hstep.nPoSeRevivedHeight with heq | heq
        · rw [heq]
          exact hbefore.nPoSeRevivedHeight
        · rwa [heq]
    · obtain ⟨hfirst, hnever, hunrevived⟩ := registered_heights b.ctx.nHeight p
      refine ⟨?_, ?_, ?_⟩
      · rwa [hstep.nRegisteredHeight, hfirst]
      · rwa [hstep.nLastPaidHeight, hnever]
      · rcases hstep.nPoSeRevivedHeight with heq | heq
        · omega
        · rwa [heq]
  refine ⟨?_, ?_, ?_⟩
  · rw [hregistered]
    exact hs.nRegisteredHeight
  · rw [hpaid]
    split
    · exact hblock
    · exact hs.nLastPaidHeight
  · rw [hrevived]
    exact hs.nPoSeRevivedHeight

theorem heightsBelow_of_run {blocks : List ListBlock} (hrun : Run AcceptsBlock {} blocks l) :
    HeightsBelow blocks l :=
  hrun.history (R := HeightsBelow) (fun hbelow hstep => hbelow.acceptsBlock hstep)
    fun _ _ hget => (nomatch hget)

/-! ### Places in the queue -/

open CDeterministicMNList (compareByLastPaidGetHeight)

theorem height_after (haccept : AcceptsBlock l b l')
    (hbelow : ∀ M dmn, l.getMN M = some dmn → Below b.ctx.nHeight dmn.pdmnState)
    (hget : l'.getMN M = some dmn') :
    compareByLastPaidGetHeight dmn' = b.ctx.nHeight ∨
      payeeOf l b ≠ some M ∧ ∃ dmn, l.getMN M = some dmn ∧
        compareByLastPaidGetHeight dmn' = compareByLastPaidGetHeight dmn := by
  obtain ⟨s, horigin, hregistered, hrevived, hpaid⟩ := exists_origin haccept hget
  have hpos : 0 < b.ctx.nHeight := by
    unfold nHeight
    omega
  unfold compareByLastPaidGetHeight
  simp only [hregistered, hrevived, hpaid]
  rcases horigin with ⟨dmn, hdmn, hstep⟩ | ⟨tx, -, p, -, -, hstep⟩
  · have hbefore := hbelow M dmn hdmn
    have hpaidLt := hbefore.nLastPaidHeight
    have hrevivedLt := hbefore.nPoSeRevivedHeight
    by_cases hpayee : payeeOf l b = some M
    · left
      rw [if_pos hpayee, if_neg, if_neg (by omega)]
      rcases hstep.nPoSeRevivedHeight with heq | heq
      · omega
      · omega
    · rw [if_neg hpayee, hstep.nLastPaidHeight, hstep.nRegisteredHeight]
      rcases hstep.nPoSeRevivedHeight with heq | heq
      · right
        rw [heq]
        exact ⟨hpayee, dmn, hdmn, rfl⟩
      · left
        rw [heq, if_pos ⟨by omega, hpaidLt⟩]
  · left
    obtain ⟨hfirst, hnever, hunrevived⟩ := registered_heights b.ctx.nHeight p
    rw [hstep.nLastPaidHeight, hstep.nRegisteredHeight, hfirst, hnever]
    rcases hstep.nPoSeRevivedHeight with heq | heq
    · rw [heq, hunrevived, if_neg (by simp)]
      split
      · rw [if_neg (by omega)]
      · rw [if_pos rfl]
    · rw [heq]
      split
      · rw [if_neg (by simp), if_neg (by omega)]
      · rw [if_pos ⟨by omega, hpos⟩]

theorem height_kept (haccept : AcceptsBlock l b l') (hfresh : NotRegistered M b.vtx.tail)
    (hnot : payeeOf l b ≠ some M) (hold : l.getMN M = some dmn) (hget : l'.getMN M = some dmn')
    (hrevived : dmn'.pdmnState.nPoSeRevivedHeight = dmn.pdmnState.nPoSeRevivedHeight) :
    compareByLastPaidGetHeight dmn' = compareByLastPaidGetHeight dmn := by
  obtain ⟨s, horigin, hregistered, -, hpaid⟩ := exists_origin haccept hget
  rw [if_neg hnot] at hpaid
  rcases horigin with ⟨before, hbefore, hstep⟩ | ⟨tx, htx, p, hpayload, hhash, -⟩
  · obtain rfl : dmn = before := Option.some.inj (hold.symm.trans hbefore)
    rw [hstep.nRegisteredHeight] at hregistered
    rw [hstep.nLastPaidHeight] at hpaid
    unfold compareByLastPaidGetHeight
    rw [hregistered, hpaid, hrevived]
  · exact absurd hhash (hfresh tx htx p hpayload)

theorem height_lt {nHeight : Int} (hbelow : Below nHeight dmn.pdmnState) :
    compareByLastPaidGetHeight dmn < nHeight := by
  unfold compareByLastPaidGetHeight
  dsimp only
  split_ifs
  · exact hbelow.nPoSeRevivedHeight
  · exact hbelow.nRegisteredHeight
  · exact hbelow.nLastPaidHeight

def place (dmn : CDeterministicMN) : Int ×ₗ Nat :=
  toLex (compareByLastPaidGetHeight dmn, dmn.proTxHash.toNat)

theorem compareByLastPaid_iff {a b : CDeterministicMN} :
    CDeterministicMNList.compareByLastPaid a b = true ↔ place a < place b := by
  rw [place, place, Prod.Lex.toLex_lt_toLex, CDeterministicMNList.compareByLastPaid]
  split
  next heq =>
    rw [decide_eq_true_eq, BitVec.lt_def, heq]
    simp
  next heq =>
    simp [heq]

def ahead (l : CDeterministicMNList) (p : Int ×ₗ Nat) : Finset Uint256 :=
  (((l.mns false).filter fun dmn => place dmn < p).map CDeterministicMN.proTxHash).toFinset

theorem mem_ahead {p : Int ×ₗ Nat} :
    M ∈ ahead l p ↔ ∃ dmn, l.getMN M = some dmn ∧ place dmn < p := by
  simp only [ahead, mem_toFinset, mem_map, mem_filter, decide_eq_true_eq,
    CDeterministicMNList.mem_mns_iff, reduceCtorEq, false_implies, and_true]
  constructor
  · rintro ⟨dmn, ⟨hget, hless⟩, rfl⟩
    exact ⟨dmn, hget, hless⟩
  · rintro ⟨dmn, hget, hless⟩
    obtain rfl := CDeterministicMNList.proTxHash_of_getMN hget
    exact ⟨dmn, ⟨hget, hless⟩, rfl⟩

theorem card_ahead_lt (hdmn : l.getMN M = some dmn) :
    (ahead l (place dmn)).card < l.getAllMNsCount := by
  let all : Finset Uint256 := ((l.mns false).map CDeterministicMN.proTxHash).toFinset
  have hmem : M ∈ all := by
    obtain rfl := CDeterministicMNList.proTxHash_of_getMN hdmn
    exact mem_toFinset.mpr (mem_map_of_mem
      (CDeterministicMNList.mem_mns_of_getMN hdmn))
  have hsub : ahead l (place dmn) ⊆ all.erase M := by
    intro other hother
    refine Finset.mem_erase.mpr ⟨?_, ?_⟩
    · rintro rfl
      obtain ⟨same, hsame, hless⟩ := mem_ahead.mp hother
      rw [hdmn] at hsame
      cases hsame
      exact lt_irrefl _ hless
    · refine mem_toFinset.mpr (List.Sublist.subset ?_ (mem_toFinset.mp hother))
      exact filter_sublist.map _
  have hlength : (l.mns false).length ≤ l.getAllMNsCount := by
    refine (length_filter_le _ _).trans ?_
    rw [length_map, CDeterministicMNList.getAllMNsCount]
  calc (ahead l (place dmn)).card
    _ ≤ (all.erase M).card := Finset.card_le_card hsub
    _ < all.card := Finset.card_erase_lt_of_mem hmem
    _ ≤ ((l.mns false).map CDeterministicMN.proTxHash).length := toFinset_card_le _
    _ ≤ l.getAllMNsCount := by rwa [length_map]

/-! ### The choice of the payee -/

theorem exists_longestUnpaid (hdmn : dmn ∈ l.mns true)
    (hrewarded : dmn.pdmnState.fRewardSuspended = false) :
    ∃ best, l.longestUnpaid = some best ∧ place best ≤ place dmn := by
  refine (Run.computes _ none (l.mns true)).history
    (R := fun done best => ∀ dmn ∈ done, dmn.pdmnState.fRewardSuspended = false →
      ∃ first, best = some first ∧ place first ≤ place dmn) ?_ ?_ dmn hdmn hrewarded
  · rintro done best candidate _ hdone rfl dmn hmem hrewarded
    dsimp only
    obtain hmem | rfl := mem_append.mp hmem |>.imp_right mem_singleton.mp
    · obtain ⟨first, rfl, hle⟩ := hdone dmn hmem hrewarded
      by_cases hsuspended : candidate.pdmnState.fRewardSuspended = true
      · exact ⟨first, if_pos hsuspended, hle⟩
      · rw [if_neg hsuspended]
        dsimp only
        split
        next hless => exact ⟨candidate, rfl, (compareByLastPaid_iff.mp hless).le.trans hle⟩
        · exact ⟨first, rfl, hle⟩
    · rw [if_neg (Bool.eq_false_iff.mp hrewarded)]
      cases best with
      | none => exact ⟨dmn, rfl, le_refl _⟩
      | some first =>
        dsimp only
        split
        · exact ⟨dmn, rfl, le_refl _⟩
        next hless => exact ⟨first, rfl, not_lt.mp fun h => hless (compareByLastPaid_iff.mpr h)⟩
  · intro dmn hmem
    cases hmem

theorem runningPayee_eq_none {params : ConsensusParams}
    (hweights : ∀ dmn ∈ l.mns false, params.paymentWeight dmn.nType = 1) :
    l.runningPayee params = none := by
  refine (Run.computes _ none (l.mns true)).invariant_of_mem (I := fun best => best = none) ?_ rfl
  rintro best candidate _ hmem hnone rfl
  dsimp only
  have hget := (CDeterministicMNList.mem_mns_iff.mp hmem).1
  have hweight := hweights candidate (CDeterministicMNList.mem_mns_of_getMN hget)
  have heffective : ¬1 < l.getEffectivePaymentWeight params candidate := by
    unfold CDeterministicMNList.getEffectivePaymentWeight
    rw [hweight]
    dsimp only
    split_ifs <;> decide
  rw [if_neg fun h => heffective h.2.1]
  exact hnone

theorem exists_payee (hweights : ∀ dmn ∈ l.mns false, b.ctx.params.paymentWeight dmn.nType = 1)
    (hdmn : dmn ∈ l.mns true) (hrewarded : dmn.pdmnState.fRewardSuspended = false)
    (hnot : payeeOf l b ≠ some dmn.proTxHash) :
    ∃ payee ∈ ahead l (place dmn), payeeOf l b = some payee := by
  obtain ⟨best, hbest, hle⟩ := exists_longestUnpaid hdmn hrewarded
  have hget := (CDeterministicMNList.mem_mns_iff.mp hdmn).1
  have hentries : ¬l.mnMap.entries.isEmpty = true := by
    rw [List.isEmpty_iff]
    exact List.ne_nil_of_mem (AList.mem_lookup_iff.mp hget)
  have hpayee : l.getMNPayee b.ctx.params b.ctx.mnRRActive = some best := by
    unfold CDeterministicMNList.getMNPayee
    rw [if_neg hentries, runningPayee_eq_none hweights, Option.none_or, ite_self, hbest]
  have hof : payeeOf l b = some best.proTxHash := by
    rw [payeeOf, hpayee, Option.map_some]
  have hlisted := (CDeterministicMNList.mem_mns_iff.mp
    (CDeterministicMNList.mem_mns_of_getMNPayee hpayee)).1
  refine ⟨best.proTxHash, mem_ahead.mpr ⟨best, hlisted, lt_of_le_of_ne hle fun heq => ?_⟩, hof⟩
  -- masternodes at the same place have the same hash
  have hsame : best.proTxHash.toNat = dmn.proTxHash.toNat :=
    congrArg Prod.snd (toLex.injective heq)
  rw [BitVec.eq_of_toNat_eq hsame] at hof
  exact hnot hof

/-! ### A window of blocks -/

/-- A block of a window in which `y`, valid and not suspended, waits for its payment. -/
structure WindowStep (y : Uint256) (l : CDeterministicMNList) (b : ListBlock)
    (l' : CDeterministicMNList) : Prop where
  accepts : AcceptsBlock l b l'
  weights : ∀ dmn ∈ l.mns false, b.ctx.params.paymentWeight dmn.nType = 1
  waits : ∃ dmn ∈ l.mns true, dmn.proTxHash = y ∧ dmn.pdmnState.fRewardSuspended = false
  notRegistered : NotRegistered y b.vtx.tail
  notRevived : ∀ dmn dmn', l.getMN y = some dmn → l'.getMN y = some dmn' →
    dmn'.pdmnState.nPoSeRevivedHeight = dmn.pdmnState.nPoSeRevivedHeight

def BlockAbove (l : CDeterministicMNList) (b : ListBlock) : Prop :=
  ∀ M dmn, l.getMN M = some dmn → Below b.ctx.nHeight dmn.pdmnState

theorem WindowStep.card_ahead {y : Uint256} {p : Int ×ₗ Nat} (hstep : WindowStep y l b l')
    (habove : BlockAbove l b) (hplace : ∀ dmn, l.getMN y = some dmn → place dmn = p)
    (hnot : payeeOf l b ≠ some y) :
    (∀ dmn, l'.getMN y = some dmn → place dmn = p) ∧ (ahead l' p).card < (ahead l p).card := by
  obtain ⟨dmn, hdmn, rfl, hrewarded⟩ := hstep.waits
  have hget := (CDeterministicMNList.mem_mns_iff.mp hdmn).1
  obtain rfl := hplace dmn hget
  obtain ⟨payee, hpayee, hof⟩ := exists_payee hstep.weights hdmn hrewarded hnot
  constructor
  · intro dmn' hget'
    have hheight := height_kept hstep.accepts hstep.notRegistered hnot hget hget'
      (hstep.notRevived dmn dmn' hget hget')
    rw [place, place, hheight, CDeterministicMNList.proTxHash_of_getMN hget']
  · have hsub : ahead l' (place dmn) ⊆ (ahead l (place dmn)).erase payee := by
      intro M hM
      obtain ⟨dmn', hget', hless⟩ := mem_ahead.mp hM
      have hself := CDeterministicMNList.proTxHash_of_getMN hget'
      rcases height_after hstep.accepts habove hget' with heq | ⟨hunpaid, before, hbefore, heq⟩
      · -- behind the masternode that waits, which is below the block
        have hlast := height_lt (habove _ _ hget)
        rw [place, place, Prod.Lex.toLex_lt_toLex, heq] at hless
        omega
      · refine Finset.mem_erase.mpr ⟨?_, mem_ahead.mpr ⟨before, hbefore, ?_⟩⟩
        · rintro rfl
          exact hunpaid hof
        · have hsame : place dmn' = place before := by
            rw [place, place, heq, hself, CDeterministicMNList.proTxHash_of_getMN hbefore]
          rwa [← hsame]
    calc (ahead l' (place dmn)).card
      _ ≤ ((ahead l (place dmn)).erase payee).card := Finset.card_le_card hsub
      _ < (ahead l (place dmn)).card := Finset.card_erase_lt_of_mem hpayee

variable {chain window : List ListBlock} {y : Uint256}

theorem run_windowSteps (hrun : Run (WindowStep y) l window l') : Run AcceptsBlock l window l' := by
  induction hrun with
  | nil l => exact .nil l
  | cons hhead _ ih => exact .cons hhead.accepts ih

/-- In a window of as many blocks as there are masternodes, one that waits is paid. -/
theorem payee_in_window (hchain : Run AcceptsBlock {} chain l)
    (hwindow : Run (WindowStep y) l window l')
    (hheights : (chain ++ window).Pairwise fun b b' => b.ctx.nHeight < b'.ctx.nHeight)
    (hlisted : l.getMN y = some dmn) (hlength : window.length = l.getAllMNsCount) :
    ∃ pre b post mid, window = pre ++ b :: post ∧ Run (WindowStep y) l pre mid ∧
      payeeOf mid b = some y := by
  have hguarded : Run (Guarded BlockAbove (WindowStep y)) l window l' := by
    refine hwindow.guarded ?_
    intro pre b post mid hsplit hpre M dmn hget
    have hrun := hchain.append (run_windowSteps hpre)
    refine heightsBelow_of_run hrun M dmn hget b.ctx.nHeight ?_ ?_
    · unfold BlockContext.nHeight
      omega
    · rw [hsplit, ← List.append_assoc, List.pairwise_append] at hheights
      exact fun b' hb' => hheights.2.2 b' hb' b List.mem_cons_self
  obtain ⟨pre, b, post, mid, hsplit, hpre, hpaid⟩ := hguarded.exists_of_decreasing
    (I := fun l => ∀ dmn', l.getMN y = some dmn' → place dmn' = place dmn)
    (E := fun l b => payeeOf l b = some y)
    (fun hplace hstep hnot => hstep.2.card_ahead hstep.1 hplace hnot)
    (fun dmn' hget => by rw [Option.some.inj (hget.symm.trans hlisted)])
    (hlength ▸ card_ahead_lt hlisted)
  exact ⟨pre, b, post, mid, hsplit, hpre.of_guarded, hpaid⟩

namespace Sample

/-- The operator key of masternode 2 changes, and the old operator announces its service again. -/
def block₂Revived : ListBlock := block 1 list₁ [rotate 2 9, announce 2 2 5]

def list₂Revived : CDeterministicMNList := extend list₁ block₂Revived

def block₃Revived : ListBlock := block 2 list₂Revived []

def list₃Revived : CDeterministicMNList := extend list₂Revived block₃Revived

def block₂Empty : ListBlock := block 1 list₁ []

def list₂Empty : CDeterministicMNList := extend list₁ block₂Empty

def block₃Empty : ListBlock := block 2 list₂Empty []

def list₃Empty : CDeterministicMNList := extend list₂Empty block₃Empty

def waiting (l : CDeterministicMNList) : Prop :=
  (∃ dmn ∈ l.mns true, dmn.proTxHash = 2 ∧ dmn.pdmnState.fRewardSuspended = false) ∧
    ∀ dmn ∈ l.mns false, params.paymentWeight dmn.nType = 1

instance (l : CDeterministicMNList) : Decidable (waiting l) := by
  unfold waiting
  infer_instance

theorem windowStep_empty {prevHeight : Nat}
    (haccepts : accepts l (block prevHeight l []) = true) (hwaiting : waiting l)
    (hrevived : ((extend l (block prevHeight l [])).getMN 2).map
        (fun dmn => dmn.pdmnState.nPoSeRevivedHeight) =
      (l.getMN 2).map fun dmn => dmn.pdmnState.nPoSeRevivedHeight) :
    WindowStep 2 l (block prevHeight l []) (extend l (block prevHeight l [])) where
  accepts := acceptsBlock_extend haccepts
  weights := hwaiting.2
  waits := hwaiting.1
  notRegistered := fun _ htx => (nomatch htx)
  notRevived := by
    intro dmn dmn' hget hget'
    rw [hget, hget'] at hrevived
    exact Option.some.inj hrevived

end Sample

open Sample

theorem payee_in_window_empty :
    ∃ pre b post mid, [block₂Empty, block₃Empty] = pre ++ b :: post ∧
      Run (WindowStep 2) list₁ pre mid ∧ payeeOf mid b = some 2 := by
  have hchain : Run AcceptsBlock {} [block₁] list₁ :=
    .cons (acceptsBlock_extend (by decide +kernel)) (.nil _)
  have hfirst : WindowStep 2 list₁ block₂Empty list₂Empty :=
    windowStep_empty (by decide +kernel) (by decide +kernel) (by decide +kernel)
  have hsecond : WindowStep 2 list₂Empty block₃Empty list₃Empty :=
    windowStep_empty (by decide +kernel) (by decide +kernel) (by decide +kernel)
  have hlisted : list₁.getMN 2 = some (masternode list₁ 2) := by
    decide +kernel
  exact payee_in_window hchain (.cons hfirst (.cons hsecond (.nil _))) (by decide) hlisted
    (by decide +kernel)

/-- A ban and a revival inside one block push a masternode back that is valid in every list. -/
theorem revived_not_paid_in_window :
    Run AcceptsBlock {} [block₁] list₁ ∧
      Run AcceptsBlock list₁ [block₂Revived, block₃Revived]
        list₃Revived ∧
      list₁.getAllMNsCount = 2 ∧
      waiting list₁ ∧ waiting list₂Revived ∧
      waiting list₃Revived ∧
      payeeOf list₁ block₂Revived = some 1 ∧
      payeeOf list₂Revived block₃Revived = some 1 := by
  refine ⟨.cons (acceptsBlock_extend (by decide +kernel)) (.nil _), ?_, by decide +kernel⟩
  refine .cons (acceptsBlock_extend (by decide +kernel)) ?_
  exact .cons (acceptsBlock_extend (by decide +kernel)) (.nil _)

end Defcon.Evo
