import Defcon.Evo.OperatorKeySafety

/-!
# A change of the operator key

A block that changes or revokes the operator key of a masternode leaves it banned and without an
address, until the new operator announces a service. Transactions are checked against the list of
the previous block, where the old key is still the operator's, and applied to the list as rebuilt
so far. What comes after the change in the same block therefore decides whether the old operator
is locked out.
-/

namespace Defcon.Evo

open Lib (Run Guarded)
open BlockContext List CPoSeServiceCommitment
open CDeterministicMNState
open Lib

def operatorKeyAfter (M : Uint256) (key : CBLSLazyPublicKey) (tx : SpecialTx) : CBLSLazyPublicKey :=
  match tx.payload with
  | .proUpReg (some p) => if p.proTxHash = M ∧ !key.same p.pubKeyOperator then p.pubKeyOperator else key
  | .proUpRev (some p) => if p.proTxHash = M then {} else key
  | _ => key

def updatesService (M : Uint256) (tx : SpecialTx) : Bool :=
  match tx.payload with
  | .proUpServ (some p) => p.proTxHash = M
  | _ => false

def isServiceCommitment (tx : SpecialTx) : Bool :=
  match tx.payload with
  | .serviceCommitment _ => true
  | _ => false

def isQuorumCommitment (tx : SpecialTx) : Bool :=
  match tx.payload with
  | .quorumCommitment _ => true
  | _ => false

def CPoSeServiceCommitment.online (c : CPoSeServiceCommitment) (params : ConsensusParams)
    (nHeight : Int) (i : Nat) : Bool :=
  !c.massOutage params && c.isObserved i && !c.missed.getD i false &&
    decide (params.nDSLEnforcementHeight ≤ nHeight)

def reportsOnline (params : ConsensusParams) (c : CPoSeServiceCommitment)
    (epochBaseList : CDeterministicMNList) (nHeight : Int) (M : Uint256) : Bool :=
  let order := epochBaseList.canonicalOrder
  order.length = c.missed.length ∧
    ¬ (CPoSeServiceCommitment.OBSERVED_VERSION ≤ c.nVersion ∧ c.observed.length ≠ order.length) ∧
    M ∈ order ∧ c.online params nHeight (order.idxOf M)

variable (ctx : BlockContext)

def revivesService (M : Uint256) (tx : SpecialTx) : Bool :=
  match tx.payload with
  | .serviceCommitment (some p) =>
    reportsOnline ctx.params p.commitment (ctx.getListForBlock p.commitment.epochBlockHash)
      ctx.nHeight M
  | _ => false

/-- `tx` is the last transaction of a block that resets the operator of `M`, whose key before
the block is `key`; `pre` comes before it and `post` after it. -/
def LastReset (M : Uint256) (key : CBLSLazyPublicKey) (pre : List SpecialTx) (tx : SpecialTx)
    (post : List SpecialTx) : Prop :=
  resetsOperator M (pre.foldl (operatorKeyAfter M) key) tx = true ∧
    ∀ mid tx' rest, post = mid ++ tx' :: rest →
      ¬ resetsOperator M ((pre ++ tx :: mid).foldl (operatorKeyAfter M) key) tx' = true

/-- After the last reset of the operator of `M`, the block announces no service for it, and ends no
service ban that is its only one. -/
def StaysLocked (prevList : CDeterministicMNList) (M : Uint256)
    (key : CBLSLazyPublicKey) (txs : List SpecialTx) : Prop :=
  ∀ pre tx post acc dmn, txs = pre ++ tx :: post → LastReset M key pre tx post →
    ctx.applyTxs prevList pre = .ok acc → acc.1.getMN M = some dmn →
      (∀ tx' ∈ post, updatesService M tx' = false) ∧
        (dmn.pdmnState.DslBanOnly → ∀ tx' ∈ post, revivesService ctx M tx' = false)

def CDeterministicMNState.Locked (s : CDeterministicMNState) : Prop :=
  s.isBanned = true ∧ s.addr = {} ∧ s.scriptOperatorPayout = []

def announcedBy (M : Uint256) (key : CBLSLazyPublicKey)
    (txs : List SpecialTx) : Bool :=
  txs.any fun tx =>
    match tx.payload with
    | .proUpServ (some p) =>
      p.proTxHash = M ∧ ctx.env.verifyInsecure p.sig key.get (ctx.env.hashProUpServTx p)
    | _ => false

def LockedOut (M : Uint256) (txs : List SpecialTx)
    (state : CDeterministicMNState) : Prop :=
  state.Locked ∨ announcedBy ctx M state.pubKeyOperator txs = true

instance (ctx : BlockContext) (M : Uint256) (txs : List SpecialTx)
    (state : CDeterministicMNState) : Decidable (LockedOut ctx M txs state) :=
  inferInstanceAs (Decidable ((_ ∧ _ ∧ _) ∨ _))

/-! ### Effects on one masternode -/

section Effects

variable {ctx : BlockContext} {prevList : CDeterministicMNList} {s s' : CDeterministicMNState}
  {M : Uint256} {tx : SpecialTx}

theorem TxEffect.pubKeyOperator (heffect : TxEffect ctx M s tx s') :
    s'.pubKeyOperator = operatorKeyAfter M s.pubKeyOperator tx := by
  unfold TxEffect at heffect
  unfold operatorKeyAfter
  split at heffect
  next p hpayload =>
    simp only [hpayload, heffect]
    split
    · exact pubKeyOperator_updateService _ _ _
    · rfl
  next p hpayload =>
    simp only [hpayload, heffect]
    by_cases hM : p.proTxHash = M
    · cases hsame : s.pubKeyOperator.same p.pubKeyOperator with
      | true => simp [hM, updateRegistrar_of_same hsame]
      | false => simp [hM, updateRegistrar_of_not_same hsame]
    · simp [hM]
  next p hpayload =>
    simp only [hpayload, heffect]
    split
    · exact pubKeyOperator_banIfNotBanned _ _
    · rfl
  next hpayload =>
    simp only [hpayload]
    exact heffect.pubKeyOperator
  next p hpayload =>
    simp only [hpayload, heffect]
    obtain ⟨_, _, _, _, heq⟩ := serviceVerdict_eq ctx.params _ _ ctx.nHeight M s
    rw [heq]
  next h₁ h₂ h₃ h₄ h₅ =>
    rw [heffect]
    split
    next p hpayload => exact absurd hpayload (h₂ p)
    next p hpayload => exact absurd hpayload (h₃ p)
    · rfl

theorem TxEffect.reset (heffect : TxEffect ctx M s tx s')
    (hreset : resetsOperator M s.pubKeyOperator tx = true) :
    s'.Locked ∧ s'.nDSLBanHeight = s.nDSLBanHeight ∧
      (s'.nPoSeBanHeight ≠ -1 ↔ ¬ s.DslBanOnly) := by
  have hban (state : CDeterministicMNState)
      (hbans : state.nPoSeBanHeight =
          (s.resetOperatorFields.banIfNotBanned ctx.nHeight).nPoSeBanHeight ∧
        state.nDSLBanHeight = (s.resetOperatorFields.banIfNotBanned ctx.nHeight).nDSLBanHeight)
      (haddr : state.addr = (s.resetOperatorFields.banIfNotBanned ctx.nHeight).addr)
      (hpayout : state.scriptOperatorPayout =
        (s.resetOperatorFields.banIfNotBanned ctx.nHeight).scriptOperatorPayout) :
      state.Locked ∧ state.nDSLBanHeight = s.nDSLBanHeight ∧
        (state.nPoSeBanHeight ≠ -1 ↔ ¬ s.DslBanOnly) := by
    have hbanned : (s.resetOperatorFields.banIfNotBanned ctx.nHeight).isBanned = true :=
      isBanned_banIfNotBanned nHeight_ne
    refine ⟨⟨?_, ?_, ?_⟩, ?_, ?_⟩
    · rw [isBanned_iff] at hbanned ⊢
      rwa [hbans.1, hbans.2]
    · rw [haddr, addr_banIfNotBanned]
      rfl
    · rw [hpayout, scriptOperatorPayout_banIfNotBanned]
      rfl
    · rw [hbans.2, nDSLBanHeight_banIfNotBanned]
      rfl
    · rw [hbans.1]
      exact nPoSeBanHeight_reset nHeight_ne
  unfold resetsOperator at hreset
  unfold TxEffect at heffect
  split at hreset
  next p hpayload =>
    simp only [hpayload] at heffect
    obtain ⟨hM, hsame⟩ := of_decide_eq_true hreset
    rw [Bool.not_eq_true'] at hsame
    rw [heffect, if_pos hM, updateRegistrar_of_not_same hsame]
    exact hban _ ⟨rfl, rfl⟩ rfl rfl
  next p hpayload =>
    simp only [hpayload] at heffect
    rw [heffect, if_pos (of_decide_eq_true hreset)]
    exact hban _ ⟨rfl, rfl⟩ rfl rfl
  · cases hreset

variable {c : CPoSeServiceCommitment} {params : ConsensusParams}

theorem nDSLBanHeight_verdict_of_online {nHeight : Int} {i : Nat}
    (honline : c.online params nHeight i = true) :
    (c.verdict params nHeight i s).nDSLBanHeight = -1 := by
  simp only [online, Bool.and_eq_true, Bool.not_eq_true',
    decide_eq_true_eq] at honline
  obtain ⟨⟨⟨houtage, hobserved⟩, hmissed⟩, henforce⟩ := honline
  simp only [verdict, houtage, hobserved, hmissed, henforce, Bool.not_true,
    Bool.not_false, Bool.false_eq_true, decide_true, if_true, if_false]

theorem nDSLBanHeight_verdict_of_not_online {nHeight : Int} {i : Nat}
    (honline : c.online params nHeight i = false) (hban : s.nDSLBanHeight ≠ -1) :
    (c.verdict params nHeight i s).nDSLBanHeight ≠ -1 := by
  unfold verdict
  by_cases houtage : c.massOutage params = true
  · rwa [if_pos houtage]
  rw [if_neg houtage]
  by_cases hobserved : (!c.isObserved i) = true
  · rwa [if_pos hobserved]
  rw [if_neg hobserved]
  by_cases henforce : params.nDSLEnforcementHeight ≤ nHeight
  · by_cases hmissed : (!c.missed.getD i false) = true
    · -- an online verdict that is enforced is excluded
      exfalso
      rw [Bool.not_eq_true] at houtage hobserved
      rw [Bool.not_eq_false'] at hobserved
      rw [online, houtage, hobserved, hmissed, decide_eq_true henforce]
        at honline
      cases honline
    · simp only [if_neg hmissed, henforce, decide_true, if_true]
      rwa [if_neg fun h => hban h.2]
  · simp only [henforce, decide_false, Bool.false_eq_true, if_false]
    split <;> exact hban

section ReportsOnline

variable {params : ConsensusParams} {c : CPoSeServiceCommitment}
  {epochBaseList : CDeterministicMNList} {nHeight : Int}

theorem nDSLBanHeight_of_reportsOnline
    (honline : reportsOnline params c epochBaseList nHeight M = true) :
    (CDeterministicMNList.serviceVerdict params c epochBaseList nHeight M s).nDSLBanHeight = -1 := by
  obtain ⟨hlen, hobserved, hmem, honline⟩ := of_decide_eq_true honline
  unfold CDeterministicMNList.serviceVerdict
  rw [if_neg (not_not.mpr hlen), if_neg hobserved, if_pos hmem]
  exact nDSLBanHeight_verdict_of_online honline

theorem nDSLBanHeight_of_not_reportsOnline
    (honline : reportsOnline params c epochBaseList nHeight M = false)
    (hban : s.nDSLBanHeight ≠ -1) :
    (CDeterministicMNList.serviceVerdict params c epochBaseList nHeight M s).nDSLBanHeight ≠ -1 := by
  have hnot := of_decide_eq_false honline
  unfold CDeterministicMNList.serviceVerdict
  dsimp only
  split
  · exact hban
  next hlen =>
    split
    · exact hban
    next hobserved =>
      split
      next hmem =>
        refine nDSLBanHeight_verdict_of_not_online ?_ hban
        rw [Bool.eq_false_iff]
        exact fun htrue => hnot ⟨not_not.mp hlen, hobserved, hmem, htrue⟩
      · exact hban

end ReportsOnline

structure Kept (ctx : BlockContext) (M : Uint256) (s : CDeterministicMNState) (tx : SpecialTx)
    (s' : CDeterministicMNState) : Prop where
  addr : s'.addr = s.addr
  scriptOperatorPayout : s'.scriptOperatorPayout = s.scriptOperatorPayout
  nPoSeBanHeight : isQuorumCommitment tx = false ∨ s.nPoSeBanHeight ≠ -1 →
    s'.nPoSeBanHeight = s.nPoSeBanHeight
  nDSLBanHeight : isServiceCommitment tx = false → s'.nDSLBanHeight = s.nDSLBanHeight
  revived : revivesService ctx M tx = true → s'.nDSLBanHeight = -1
  not_revived : revivesService ctx M tx = false → s.nDSLBanHeight ≠ -1 → s'.nDSLBanHeight ≠ -1

theorem kept_of_sameOperator (hsame : s.SameOperator s')
    (hpayload : ∀ p, tx.payload ≠ .serviceCommitment (some p)) : Kept ctx M s tx s' := by
  refine ⟨hsame.addr, hsame.scriptOperatorPayout, fun _ => hsame.nPoSeBanHeight,
    fun _ => hsame.nDSLBanHeight, fun hrevives => ?_, fun _ => by rw [hsame.nDSLBanHeight]; exact id⟩
  unfold revivesService at hrevives
  split at hrevives
  next p hp => exact absurd hp (hpayload p)
  · cases hrevives

theorem TxEffect.kept (heffect : TxEffect ctx M s tx s')
    (hreset : resetsOperator M s.pubKeyOperator tx = false) (hserv : updatesService M tx = false) :
    Kept ctx M s tx s' := by
  unfold TxEffect at heffect
  split at heffect
  next p hpayload =>
    simp only [updatesService, hpayload, decide_eq_false_iff_not] at hserv
    rw [if_neg hserv] at heffect
    subst heffect
    exact kept_of_sameOperator .rfl (by simp [hpayload])
  next p hpayload =>
    refine kept_of_sameOperator ?_ (by simp [hpayload])
    simp only [resetsOperator, hpayload, decide_eq_false_iff_not, not_and] at hreset
    split at heffect
    next hM =>
      have hsame : s.pubKeyOperator.same p.pubKeyOperator = true := by
        simpa using hreset hM
      rw [heffect, updateRegistrar_of_same hsame]
      exact ⟨rfl, rfl, rfl, rfl, rfl⟩
    · rw [heffect]
      exact .rfl
  next p hpayload =>
    simp only [resetsOperator, hpayload, decide_eq_false_iff_not] at hreset
    rw [if_neg hreset] at heffect
    subst heffect
    exact kept_of_sameOperator .rfl (by simp [hpayload])
  next p hpayload =>
    refine ⟨heffect.addr, heffect.scriptOperatorPayout, ?_, fun _ => heffect.nDSLBanHeight, ?_,
      fun _ => by rw [heffect.nDSLBanHeight]; exact id⟩
    · rintro (hnot | hpose)
      · simp [isQuorumCommitment, hpayload] at hnot
      · exact heffect.nPoSeBanHeight (isBanned_iff.mpr (.inl hpose))
    · intro hrevives
      simp [revivesService, hpayload] at hrevives
  next p hpayload =>
    obtain ⟨_, _, _, _, heq⟩ := serviceVerdict_eq ctx.params p.commitment
      (ctx.getListForBlock p.commitment.epochBlockHash) ctx.nHeight M s
    rw [← heffect] at heq
    refine ⟨by rw [heq], by rw [heq], fun _ => by rw [heq], ?_, ?_, ?_⟩
    · intro hnot
      simp [isServiceCommitment, hpayload] at hnot
    · intro hrevives
      simp only [revivesService, hpayload] at hrevives
      rw [heffect]
      exact nDSLBanHeight_of_reportsOnline hrevives
    · intro hrevives hban
      simp only [revivesService, hpayload] at hrevives
      rw [heffect]
      exact nDSLBanHeight_of_not_reportsOnline hrevives hban
  next h₁ h₂ h₃ h₄ h₅ =>
    rw [heffect]
    exact kept_of_sameOperator .rfl h₅

theorem TxEffect.addr_ne (heffect : TxEffect ctx M s tx s')
    (hchecked : ctx.checkSpecialTx prevList tx = .ok ())
    (hreset : resetsOperator M s.pubKeyOperator tx = false)
    (haddr : updatesService M tx = true ∨ s.addr ≠ {}) : s'.addr ≠ {} := by
  cases hserv : updatesService M tx with
  | false =>
    rw [(heffect.kept hreset hserv).addr]
    exact haddr.resolve_left (by simp [hserv])
  | true =>
    unfold updatesService at hserv
    split at hserv
    next p hpayload =>
      simp only [TxEffect, hpayload, if_pos (of_decide_eq_true hserv)] at heffect
      simp only [checkSpecialTx, hpayload, bind_eq_ok, need_eq_ok,
        Option.some.injEq, exists_eq_left'] at hchecked
      rw [heffect, addr_updateService]
      exact addr_ne_of_checkProUpServTx hchecked
    · cases hserv

end Effects

/-! ### Runs of one masternode through a block -/

section Runs

variable {ctx : BlockContext} {prevList : CDeterministicMNList} {s s' u v : CDeterministicMNState}
  {M : Uint256} {key : CBLSLazyPublicKey} {tx : SpecialTx} {txs pre post : List SpecialTx}

def NoReset (M : Uint256) (s : CDeterministicMNState) (tx : SpecialTx) : Prop :=
  resetsOperator M s.pubKeyOperator tx = false

theorem pubKeyOperator_of_run (hrun : Run (TxEffect ctx M) s txs s') :
    s'.pubKeyOperator = txs.foldl (operatorKeyAfter M) s.pubKeyOperator := by
  refine Run.simulation (R := fun key s => s.pubKeyOperator = key) ?_ hrun rfl
  intro key s tx s' hkey heffect
  rw [heffect.pubKeyOperator, hkey]

theorem LastReset.noReset (hlast : LastReset M key pre tx post)
    (hs : s.pubKeyOperator = (pre ++ [tx]).foldl (operatorKeyAfter M) key)
    (hrun : Run (TxEffect ctx M) s post s') :
    Run (Guarded (NoReset M) (TxEffect ctx M)) s post s' := by
  refine hrun.guarded fun {mid tx' rest t} hsplit hmid => ?_
  have hnot := hlast.2 mid tx' rest hsplit
  rw [Bool.not_eq_true] at hnot
  rw [NoReset, pubKeyOperator_of_run hmid, hs, ← foldl_append, append_assoc,
    singleton_append]
  exact hnot

theorem locked_of_run (hrun : Run (Guarded (NoReset M) (TxEffect ctx M)) u post v)
    (hserv : ∀ tx' ∈ post, updatesService M tx' = false) (haddr : u.addr = {})
    (hpayout : u.scriptOperatorPayout = [])
    (hban : u.nPoSeBanHeight ≠ -1 ∨
      u.nDSLBanHeight ≠ -1 ∧ ∀ tx' ∈ post, revivesService ctx M tx' = false) : v.Locked := by
  have hkept {a : CDeterministicMNState} {tx' : SpecialTx} {b : CDeterministicMNState}
      (hmem : tx' ∈ post) (hstep : Guarded (NoReset M) (TxEffect ctx M) a tx' b) :
      Kept ctx M a tx' b :=
    hstep.2.kept hstep.1 (hserv tx' hmem)
  refine ⟨isBanned_iff.mpr ?_, ?_⟩
  · obtain hpose | ⟨hdsl, hnever⟩ := hban
    · left
      refine hrun.invariant_of_mem (I := fun t => t.nPoSeBanHeight ≠ -1) ?_ hpose
      intro a tx' b hmem hI hstep
      rwa [(hkept hmem hstep).nPoSeBanHeight (.inr hI)]
    · right
      refine hrun.invariant_of_mem (I := fun t => t.nDSLBanHeight ≠ -1) ?_ hdsl
      intro a tx' b hmem hI hstep
      exact (hkept hmem hstep).not_revived (hnever tx' hmem) hI
  · refine hrun.invariant_of_mem (I := fun t => t.addr = {} ∧ t.scriptOperatorPayout = []) ?_
      ⟨haddr, hpayout⟩
    intro a tx' b hmem hI hstep
    have hkept := hkept hmem hstep
    exact ⟨hkept.addr.trans hI.1, hkept.scriptOperatorPayout.trans hI.2⟩

theorem addr_ne_of_run (hrun : Run (Guarded (NoReset M) (TxEffect ctx M)) u post v)
    (hchecked : ∀ tx' ∈ post, ctx.checkSpecialTx prevList tx' = .ok ())
    (hserv : ∃ tx' ∈ post, updatesService M tx' = true) : v.addr ≠ {} := by
  obtain ⟨tx', hmem, hserv⟩ := hserv
  obtain ⟨mid, rest, rfl⟩ := append_of_mem hmem
  obtain ⟨a, -, hrun⟩ := hrun.of_append
  cases hrun with
  | cons hstep hrest =>
    have hannounced := hstep.2.addr_ne (hchecked tx' hmem) hstep.1 (.inl hserv)
    refine hrest.invariant_of_mem (I := fun t => t.addr ≠ {}) ?_ hannounced
    intro b tx'' c hmem' hI hstep'
    have hlater := mem_append_right mid (mem_cons_of_mem tx' hmem')
    exact hstep'.2.addr_ne (hchecked tx'' hlater) hstep'.1 (.inr hI)

theorem not_isBanned_of_run {mid rest : List SpecialTx}
    (hrun : Run (Guarded (NoReset M) (TxEffect ctx M)) u (mid ++ tx :: rest) v)
    (hserv : ∀ tx' ∈ mid ++ tx :: rest, updatesService M tx' = false)
    (hquorum : ∀ tx' ∈ mid ++ tx :: rest, isQuorumCommitment tx' = false)
    (hrevives : revivesService ctx M tx = true)
    (honce : ∀ tx' ∈ rest, isServiceCommitment tx' = false) (hpose : u.nPoSeBanHeight = -1) :
    v.isBanned = false := by
  have hfinal : v.nPoSeBanHeight = -1 := by
    refine hrun.invariant_of_mem (I := fun t => t.nPoSeBanHeight = -1) ?_ hpose
    intro a tx' b hmem hI hstep
    rw [(hstep.2.kept hstep.1 (hserv tx' hmem)).nPoSeBanHeight (.inl (hquorum tx' hmem)), hI]
  obtain ⟨a, -, hrun⟩ := hrun.of_append
  have hdsl : v.nDSLBanHeight = -1 := by
    cases hrun with
    | cons hstep hrest =>
      have hmem : tx ∈ mid ++ tx :: rest := mem_append_right _ mem_cons_self
      have hended := (hstep.2.kept hstep.1 (hserv tx hmem)).revived hrevives
      refine hrest.invariant_of_mem (I := fun t => t.nDSLBanHeight = -1) ?_ hended
      intro b tx' c hmem' hI hstep'
      have hlater := mem_append_right mid (mem_cons_of_mem tx hmem')
      rw [(hstep'.2.kept hstep'.1 (hserv tx' hlater)).nDSLBanHeight (honce tx' hmem'), hI]
  rw [Bool.eq_false_iff, ne_eq, isBanned_iff]
  exact fun h => h.elim (· hfinal) (· hdsl)

end Runs

/-! ### Blocks -/

section Blocks

variable {ctx : BlockContext} {prevList l' : CDeterministicMNList} {dmn dmn' : CDeterministicMN}
  {M : Uint256} {key : CBLSLazyPublicKey} {tx : SpecialTx} {txs pre post vtx : List SpecialTx}

theorem operatorKeyAfter_of_not_reset (hnot : resetsOperator M key tx = false) :
    operatorKeyAfter M key tx = key := by
  unfold resetsOperator at hnot
  unfold operatorKeyAfter
  generalize tx.payload = payload at hnot ⊢
  cases payload with
  | proUpReg payload | proUpRev payload =>
    cases payload with
    | none => rfl
    | some p => exact if_neg (of_decide_eq_false hnot)
  | _ => rfl

theorem exists_lastReset (hchange : ∃ tx ∈ txs, resetsOperator M key tx = true) :
    ∃ pre tx post, txs = pre ++ tx :: post ∧ LastReset M key pre tx post := by
  have hcall : ∃ pre tx post, txs = pre ++ tx :: post ∧
      resetsOperator M (pre.foldl (operatorKeyAfter M) key) tx = true := by
    induction txs with
    | nil =>
      obtain ⟨tx, hmem, -⟩ := hchange
      cases hmem
    | cons first txs ih =>
      cases hfirst : resetsOperator M key first with
      | true => exact ⟨[], first, txs, rfl, hfirst⟩
      | false =>
        obtain ⟨tx, hmem, hreset⟩ := hchange
        obtain rfl | hmem := mem_cons.mp hmem
        · rw [hfirst] at hreset
          cases hreset
        · obtain ⟨pre, tx, post, hsplit, hreset⟩ := ih ⟨tx, hmem, hreset⟩
          refine ⟨first :: pre, tx, post, congrArg (first :: ·) hsplit, ?_⟩
          rwa [foldl_cons, operatorKeyAfter_of_not_reset hfirst]
  obtain ⟨pre, tx, post, hsplit, hreset, hlast⟩ := exists_last_call
    (p := fun key tx => resetsOperator M key tx = true) hcall
  exact ⟨pre, tx, post, hsplit, hreset, hlast⟩

theorem applySpecialTx_count {acc acc' : CDeterministicMNList × Nat}
    (happly : ctx.applySpecialTx acc tx = .ok acc') :
    acc'.2 = acc.2 + (if isServiceCommitment tx = true then 1 else 0) ∧ acc'.2 ≤ max acc.2 1 := by
  unfold applySpecialTx at happly
  unfold isServiceCommitment
  generalize tx.payload = payload at happly ⊢
  cases payload with
  | other =>
    cases happly
    exact ⟨rfl, Nat.le_max_left _ _⟩
  | serviceCommitment payload =>
    simp only [bind_eq_ok, refuseIf_eq_ok, pure_eq_ok] at happly
    obtain ⟨_, hfirst, _, -, _, -, rfl⟩ := happly
    exact ⟨rfl, by omega⟩
  | proReg payload | proUpServ payload | proUpReg payload | proUpRev payload
  | quorumCommitment payload =>
    simp only [bind_eq_ok, pure_eq_ok] at happly
    obtain ⟨_, -, _, -, rfl⟩ := happly
    exact ⟨rfl, Nat.le_max_left _ _⟩

variable {fin : CDeterministicMNList × Nat}

theorem not_isServiceCommitment_later (happly : ctx.applyTxs prevList (pre ++ tx :: post) = .ok fin)
    (hservice : isServiceCommitment tx = true) : ∀ tx' ∈ post, isServiceCommitment tx' = false := by
  obtain ⟨acc, -, hrun⟩ := applyTxs_append happly
  intro tx' hmem
  obtain ⟨mid, rest, rfl⟩ := append_of_mem hmem
  cases hrun with
  | @cons _ next _ _ _ hstep hrun =>
    obtain ⟨last, hmid, hrun⟩ := hrun.of_append
    have hone : 1 ≤ last.2 := by
      refine Run.invariant (I := fun acc => 1 ≤ acc.2) ?_ hmid ?_
      · intro acc tx acc' hI hstep
        have hcount := (applySpecialTx_count hstep).1
        omega
      · have hcount := (applySpecialTx_count hstep).1
        rw [if_pos hservice] at hcount
        omega
    cases hrun with
    | cons hstep' _ =>
      rw [Bool.eq_false_iff]
      intro hservice'
      obtain ⟨hcount, hbound⟩ := applySpecialTx_count hstep'
      rw [if_pos hservice'] at hcount
      omega

theorem listed_at (hfresh : NotRegistered M (pre ++ post)) (hold : prevList.getMN M = some dmn)
    (happly : ctx.applyTxs prevList (pre ++ post) = .ok fin) (hget : fin.1.getMN M = some dmn') :
    ∃ acc mid, ctx.applyTxs prevList pre = .ok acc ∧ acc.1.getMN M = some mid ∧
      mid.pdmnState.pubKeyOperator =
        pre.foldl (operatorKeyAfter M) dmn.pdmnState.pubKeyOperator ∧
      Run (TxEffect ctx M) mid.pdmnState post dmn'.pdmnState := by
  obtain ⟨acc, hacc, hpost⟩ := applyTxs_append happly
  obtain ⟨mid, hmid, hrunPost⟩ := txEffects_of_listed hpost
    (fun tx htx => hfresh tx (mem_append_right _ htx)) hget
  refine ⟨acc, mid, hacc, hmid, ?_, hrunPost⟩
  obtain ⟨start, hsame, hpre⟩ := applyTxs_ok hacc
  obtain ⟨first, hfirst, hrunPre⟩ := txEffects_of_listed hpre
    (fun tx htx => hfresh tx (mem_append_left _ htx)) hmid
  obtain ⟨dmn₀, hdmn₀, hstate⟩ := hsame.of_getMN hfirst
  obtain rfl : dmn = dmn₀ := Option.some.inj (hold.symm.trans hdmn₀)
  rw [pubKeyOperator_of_run hrunPre, hstate.pubKeyOperator]

theorem run_after_lastReset (hfresh : NotRegistered M (pre ++ tx :: post))
    (hold : prevList.getMN M = some dmn)
    (happly : ctx.applyTxs prevList (pre ++ tx :: post) = .ok fin)
    (hget : fin.1.getMN M = some dmn')
    (hlast : LastReset M dmn.pdmnState.pubKeyOperator pre tx post) :
    ∃ acc mid u, ctx.applyTxs prevList pre = .ok acc ∧ acc.1.getMN M = some mid ∧ u.Locked ∧
      u.nDSLBanHeight = mid.pdmnState.nDSLBanHeight ∧
      (u.nPoSeBanHeight ≠ -1 ↔ ¬ mid.pdmnState.DslBanOnly) ∧
      Run (Guarded (NoReset M) (TxEffect ctx M)) u post dmn'.pdmnState := by
  obtain ⟨acc, mid, hacc, hmid, hkey, hrun⟩ := listed_at hfresh hold happly hget
  cases hrun with
  | @cons _ u _ _ _ heffect hpost =>
    have hreset := hlast.1
    rw [← hkey] at hreset
    obtain ⟨hlocked, hdsl, hpose⟩ := heffect.reset hreset
    refine ⟨acc, mid, u, hacc, hmid, hlocked, hdsl, hpose, hlast.noReset ?_ hpost⟩
    rw [heffect.pubKeyOperator, hkey, foldl_append, foldl_cons, foldl_nil]

theorem CDeterministicMNState.SameOperator.locked_iff {s s' : CDeterministicMNState}
    (hsame : s.SameOperator s') : s'.Locked ↔ s.Locked := by
  rw [CDeterministicMNState.Locked, CDeterministicMNState.Locked, hsame.isBanned, hsame.addr,
    hsame.scriptOperatorPayout]

/-- A block that changes or revokes the operator key of `M` locks the old operator out when it keeps
`M` locked after the last such change; without quorum commitments and announcements only then. -/
theorem operatorChange_locksOut_iff
    (hchecked : ∀ tx ∈ vtx.tail, ctx.checkSpecialTx prevList tx = .ok ())
    (hrebuild : ctx.rebuildListFromBlock prevList vtx = .ok l')
    (hfresh : NotRegistered M vtx.tail)
    (hold : prevList.getMN M = some dmn) (hnew : l'.getMN M = some dmn')
    (hchange : ∃ tx ∈ vtx.tail, resetsOperator M dmn.pdmnState.pubKeyOperator tx = true) :
    (StaysLocked ctx prevList M dmn.pdmnState.pubKeyOperator vtx.tail →
        LockedOut ctx M vtx.tail dmn'.pdmnState) ∧
      ((∀ tx ∈ vtx.tail, isQuorumCommitment tx = false) →
        announcedBy ctx M dmn'.pdmnState.pubKeyOperator vtx.tail = false →
        LockedOut ctx M vtx.tail dmn'.pdmnState →
        StaysLocked ctx prevList M dmn.pdmnState.pubKeyOperator vtx.tail) := by
  obtain ⟨fin, hfin, hfinish⟩ := BlockContext.rebuildListFromBlock_ok hrebuild
  obtain ⟨last, hlastDmn, hsame⟩ := BlockContext.finishList_ok hfinish hnew
  generalize vtx.tail = txs at *
  constructor
  · intro hstays
    obtain ⟨pre, tx, post, rfl, hlast⟩ := exists_lastReset hchange
    obtain ⟨acc, mid, u, hacc, hmid, ⟨-, haddr, hpayout⟩, hdsl, hpose, hrun⟩ :=
      run_after_lastReset hfresh hold hfin hlastDmn hlast
    obtain ⟨hserv, hrevive⟩ := hstays pre tx post acc mid rfl hlast hacc hmid
    refine .inl (hsame.locked_iff.mpr (locked_of_run hrun hserv haddr hpayout ?_))
    by_cases honly : mid.pdmnState.DslBanOnly
    · exact .inr ⟨hdsl ▸ honly.2, hrevive honly⟩
    · exact .inl (hpose.mpr honly)
  · intro hquorum hnot hlocked pre tx post acc mid hsplit hlast hacc hmid
    subst hsplit
    obtain ⟨hbanned, hempty, -⟩ := hsame.locked_iff.mp
      (hlocked.resolve_right (Bool.eq_false_iff.mp hnot))
    obtain ⟨acc', mid', u, hacc', hmid', -, hdsl, hpose, hrun⟩ :=
      run_after_lastReset hfresh hold hfin hlastDmn hlast
    obtain rfl : acc = acc' := Except.ok.inj (hacc.symm.trans hacc')
    obtain rfl : mid = mid' := Option.some.inj (hmid.symm.trans hmid')
    have hpostMem {tx' : SpecialTx} (hmem : tx' ∈ post) : tx' ∈ pre ++ tx :: post :=
      List.mem_append_right _ (List.mem_cons_of_mem _ hmem)
    have hserv : ∀ tx' ∈ post, updatesService M tx' = false := by
      intro tx' hmem
      rw [Bool.eq_false_iff]
      intro hupdates
      exact addr_ne_of_run hrun (fun tx hmem => hchecked tx (hpostMem hmem))
        ⟨tx', hmem, hupdates⟩ hempty
    refine ⟨hserv, fun honly tx' hmem => ?_⟩
    rw [Bool.eq_false_iff]
    intro hrevives
    have hservice : isServiceCommitment tx' = true := by
      unfold revivesService at hrevives
      split at hrevives
      next p hpayload => simp [isServiceCommitment, hpayload]
      · cases hrevives
    obtain ⟨mid₂, rest, rfl⟩ := List.append_of_mem hmem
    have honce : ∀ tx'' ∈ rest, isServiceCommitment tx'' = false := by
      have happly : ctx.applyTxs prevList ((pre ++ tx :: mid₂) ++ tx' :: rest) = .ok fin := by
        rw [List.append_assoc, List.cons_append]
        exact hfin
      exact not_isServiceCommitment_later happly hservice
    have hpose' : u.nPoSeBanHeight = -1 := by
      by_contra hne
      exact hpose.mp hne honly
    rw [not_isBanned_of_run hrun hserv (fun tx hmem => hquorum tx (hpostMem hmem)) hrevives honce
      hpose'] at hbanned
    cases hbanned

end Blocks

/-! ### A change and the old operator -/

namespace Sample

def rotate (n key : Nat) : SpecialTx :=
  ⟨⟨300, [], []⟩, .proUpReg (some
    { nVersion := 2
      proTxHash := BitVec.ofNat 256 n
      nMode := 0
      pubKeyOperator := ⟨some (BitVec.ofNat 384 key), false⟩
      keyIDVoting := BitVec.ofNat 160 n
      scriptPayout := script
      inputsHash := 0
      vchSig := [] })⟩

def announce (n key ip : Nat) : SpecialTx :=
  ⟨⟨400, [], []⟩, .proUpServ (some
    { nVersion := 2
      nType := .regular
      proTxHash := BitVec.ofNat 256 n
      addr := ⟨BitVec.ofNat 128 ip, 1⟩
      scriptOperatorPayout := []
      computeDescriptor := {}
      inputsHash := 0
      sig := some (BitVec.ofNat 768 key) })⟩

def rotation : ListBlock := block 1 list₁ [announce 1 1 5, rotate 1 9]

def raced : ListBlock := block 1 list₁ [rotate 1 9, announce 1 1 5]

def masternode (l : CDeterministicMNList) (n : Nat) : CDeterministicMN :=
  (l.getMN (BitVec.ofNat 256 n)).getD ⟨0, 0, ⟨0, 0⟩, 0, .regular, {}⟩

theorem staysLocked_rotation :
    StaysLocked rotation.ctx list₁ 1 (masternode list₁ 1).pdmnState.pubKeyOperator
      rotation.vtx.tail := by
  intro pre tx post acc dmn hsplit hlast _ _
  have hpost : post = [] := by
    match pre, hsplit with
    | [], hsplit =>
      cases hsplit
      exact absurd hlast.1 (by decide +kernel)
    | [_], hsplit =>
      obtain ⟨-, hsplit⟩ := cons.inj hsplit
      exact (cons.inj hsplit).2.symm
    | _ :: _ :: _, hsplit =>
      have hlen := congrArg length hsplit
      simp only [length_append, length_cons] at hlen
      simp only [rotation, block, tail_cons, length_cons, length_nil] at hlen
      omega
  subst hpost
  exact ⟨fun _ h => (not_mem_nil h).elim, fun _ _ h => (not_mem_nil h).elim⟩

end Sample

open Sample

theorem operatorChange_locksOut_rotation :
    LockedOut rotation.ctx 1 rotation.vtx.tail
      (masternode (extend list₁ rotation) 1).pdmnState := by
  obtain ⟨hchecked, newList, hrebuild, heq⟩ : AcceptsBlock list₁ rotation
      (extend list₁ rotation) := acceptsBlock_extend (by decide +kernel)
  have hfresh : NotRegistered 1 rotation.vtx.tail := by
    intro tx htx p hpayload
    obtain rfl | htx := List.mem_cons.mp htx
    · cases hpayload
    · obtain rfl := List.mem_singleton.mp htx
      cases hpayload
  have hnew : newList.getMN 1 =
      some (masternode (extend list₁ rotation) 1) := by
    have hsame : newList.getMN 1 = (extend list₁ rotation).getMN 1 := by
      rw [heq]
      rfl
    rw [hsame]
    decide +kernel
  exact (operatorChange_locksOut_iff hchecked hrebuild hfresh (by decide +kernel) hnew
    ⟨rotate 1 9, by decide +kernel, by decide +kernel⟩).1 staysLocked_rotation

/-- Announced after the change in the same block, the service of the old operator counts. -/
theorem oldOperator_not_lockedOut :
    AcceptsBlock list₁ raced (extend list₁ raced) ∧
      resetsOperator 1 (masternode list₁ 1).pdmnState.pubKeyOperator
        (rotate 1 9) = true ∧
      ∃ dmn, (extend list₁ raced).getMN 1 = some dmn ∧
        ¬ LockedOut raced.ctx 1 raced.vtx.tail dmn.pdmnState ∧
        CDeterministicMNList.isMNValid dmn = true ∧
        dmn.pdmnState.pubKeyOperator = ⟨some 9, false⟩ ∧ dmn.pdmnState.addr = ⟨5, 1⟩ := by
  refine ⟨acceptsBlock_extend (by decide +kernel), by decide +kernel, ?_⟩
  exact ⟨masternode (extend list₁ raced) 1, by decide +kernel,
    by decide +kernel⟩

end Defcon.Evo
