import Mathlib.Data.List.Infix
import Defcon.Evo.MasternodeEffects

/-!
# Masternodes without an operator

A masternode that has no operator key or no address cannot serve. What keeps it out of payments,
quorums and sentinel sets is a ban, and the ban that lasts until an operator is back is the PoSe
ban: a service ban ends with the next epoch the masternode is reported online in.
-/

namespace Defcon.Evo

open Lib (Run Guarded)
open CDeterministicMNList CDeterministicMNState List
open BlockContext

namespace CDeterministicMNState

def Operatorless (s : CDeterministicMNState) : Prop :=
  s.pubKeyOperator.isNull = true ∨ s.addr = {}

instance (s : CDeterministicMNState) : Decidable s.Operatorless :=
  inferInstanceAs (Decidable (_ ∨ _))

def PoSeProtected (s : CDeterministicMNState) : Prop :=
  s.Operatorless → s.nPoSeBanHeight ≠ -1

variable {s s' : CDeterministicMNState} {nHeight : Int}

theorem PoSeProtected.of_same (hkey : s'.pubKeyOperator = s.pubKeyOperator) (haddr : s'.addr = s.addr)
    (hpose : s.nPoSeBanHeight ≠ -1 → s'.nPoSeBanHeight ≠ -1) (h : s.PoSeProtected) :
    s'.PoSeProtected := by
  intro hless
  rw [Operatorless, hkey, haddr] at hless
  exact hpose (h hless)

theorem PoSeProtected.sameOperator (hsame : s.SameOperator s') (h : s.PoSeProtected) :
    s'.PoSeProtected :=
  h.of_same hsame.pubKeyOperator hsame.addr (by rw [hsame.nPoSeBanHeight]; exact id)

theorem PoSeProtected.punished (hpunished : Punished s s') (h : s.PoSeProtected) :
    s'.PoSeProtected := by
  refine h.of_same hpunished.pubKeyOperator hpunished.addr fun hpose => ?_
  rwa [hpunished.nPoSeBanHeight (isBanned_iff.mpr (.inl hpose))]

theorem poSeProtected_updateService {p : CProUpServTx} (haddr : p.addr ≠ {}) (h : s.PoSeProtected) :
    (s.updateService nHeight p).PoSeProtected := by
  intro hless
  rw [Operatorless, pubKeyOperator_updateService, addr_updateService] at hless
  have hnull := hless.resolve_right haddr
  rw [nPoSeBanHeight_updateService hnull]
  exact h (.inl hnull)

theorem poSeProtected_updateRegistrar {p : CProUpRegTx} (hheight : nHeight ≠ -1)
    (hreset : s.pubKeyOperator.same p.pubKeyOperator = false → ¬ s.DslBanOnly)
    (h : s.PoSeProtected) : (s.updateRegistrar nHeight p).PoSeProtected := by
  cases hsame : s.pubKeyOperator.same p.pubKeyOperator with
  | true =>
    rw [updateRegistrar_of_same hsame]
    exact h
  | false =>
    rw [updateRegistrar_of_not_same hsame]
    exact fun _ => (nPoSeBanHeight_reset hheight).mpr (hreset hsame)

theorem poSeProtected_revokeOperator {p : CProUpRevTx} (hheight : nHeight ≠ -1)
    (hreset : ¬ s.DslBanOnly) : (s.revokeOperator nHeight p).PoSeProtected :=
  fun _ => (nPoSeBanHeight_reset hheight).mpr hreset

theorem poSeProtected_registered {p : CProRegTx} (hheight : nHeight ≠ -1)
    (hkey : p.pubKeyOperator.isNull = false) : (registered nHeight p).PoSeProtected := by
  intro hless
  unfold registered at hless ⊢
  split
  · exact (nPoSeBanHeight_banIfNotBanned hheight).mpr fun hdsl => hdsl.2 rfl
  next haddr =>
    rw [if_neg haddr] at hless
    obtain hnull | hempty := hless
    · rw [hkey] at hnull
      cases hnull
    · exact absurd hempty haddr

end CDeterministicMNState

/-! ### Transactions, blocks and runs -/

section Steps

variable {ctx : BlockContext} {l l' prevList : CDeterministicMNList} {s s' : CDeterministicMNState}
  {M : Uint256} {tx : SpecialTx}

theorem poSeProtected_txEffect (heffect : TxEffect ctx M s tx s')
    (hchecked : ctx.checkSpecialTx prevList tx = .ok ())
    (hreset : resetsOperator M s.pubKeyOperator tx = true → ¬ s.DslBanOnly)
    (h : s.PoSeProtected) : s'.PoSeProtected := by
  unfold TxEffect at heffect
  unfold resetsOperator at hreset
  unfold checkSpecialTx at hchecked
  split at heffect
  next p hpayload =>
    simp only [hpayload, Lib.bind_eq_ok, Lib.need_eq_ok, Option.some.injEq, exists_eq_left'] at hchecked
    subst heffect
    split
    · exact poSeProtected_updateService
        (addr_ne_of_checkProUpServTx hchecked) h
    · exact h
  next p hpayload =>
    simp only [hpayload] at hreset
    subst heffect
    split
    next hM =>
      refine poSeProtected_updateRegistrar nHeight_ne
        (fun hsame => hreset ?_) h
      simp [hM, hsame]
    · exact h
  next p hpayload =>
    simp only [hpayload] at hreset
    subst heffect
    split
    next hM =>
      exact poSeProtected_revokeOperator nHeight_ne
        (hreset (decide_eq_true hM))
    · exact h
  · exact h.punished heffect
  · subst heffect
    obtain ⟨_, _, _, _, heq⟩ := serviceVerdict_eq ctx.params _ _ ctx.nHeight M s
    rw [heq]
    exact h.of_same rfl rfl id
  · rwa [heffect]

def CDeterministicMNList.PoSeProtected (l : CDeterministicMNList) : Prop :=
  ∀ h dmn, l.getMN h = some dmn → dmn.pdmnState.PoSeProtected

def ResetSafe (l : CDeterministicMNList) (tx : SpecialTx) : Prop :=
  ∀ M dmn, l.getMN M = some dmn → resetsOperator M dmn.pdmnState.pubKeyOperator tx = true →
    ¬ dmn.pdmnState.DslBanOnly

theorem poSeProtected_applySpecialTx {n n' : Nat}
    (happly : ctx.applySpecialTx (l, n) tx = .ok (l', n'))
    (hchecked : ctx.checkSpecialTx prevList tx = .ok ()) (hsafe : ResetSafe l tx)
    (h : l.PoSeProtected) : l'.PoSeProtected := by
  intro M dmn' hget
  obtain ⟨dmn, hdmn, heffect⟩ | ⟨-, p, hpayload, hstate⟩ :=
    applySpecialTx_ok happly hget
  · exact poSeProtected_txEffect heffect hchecked (hsafe M dmn hdmn) (h M dmn hdmn)
  · rw [hstate]
    unfold checkSpecialTx at hchecked
    simp only [hpayload, Lib.bind_eq_ok, Lib.need_eq_ok, Option.some.injEq, exists_eq_left'] at hchecked
    exact poSeProtected_registered nHeight_ne
      (pubKeyOperator_of_checkProRegTx hchecked)

end Steps

structure ListBlock where
  ctx : BlockContext
  vtx : List SpecialTx
  blockHash : Uint256

/-- The special transactions pass their checks against the list of the previous block, and the
list can be rebuilt. -/
def AcceptsBlock (l : CDeterministicMNList) (b : ListBlock) (l' : CDeterministicMNList) : Prop :=
  (∀ tx ∈ b.vtx.tail, b.ctx.checkSpecialTx l tx = .ok ()) ∧
    ∃ newList, b.ctx.rebuildListFromBlock l b.vtx = .ok newList ∧
      l' = { newList with blockHash := b.blockHash }

/-- No transaction of the block resets the operator of a masternode that, when its turn comes,
only a service ban holds. -/
def ResetsSafe (l : CDeterministicMNList) (b : ListBlock) : Prop :=
  ∀ pre tx post acc, b.vtx.tail = pre ++ tx :: post → b.ctx.applyTxs l pre = .ok acc →
    ResetSafe acc.1 tx

variable {l : CDeterministicMNList}

theorem CDeterministicMNList.PoSeProtected.sameOperators {l' : CDeterministicMNList}
    (h : l.PoSeProtected) (hsame : l.SameOperators l') : l'.PoSeProtected := by
  intro M dmn' hget
  obtain ⟨dmn, hdmn, hstate⟩ := hsame.of_getMN hget
  exact (h M dmn hdmn).sameOperator hstate

theorem poSeProtected_applyTxs {b : ListBlock} {pre post : List SpecialTx}
    {acc : CDeterministicMNList × Nat}
    (hchecked : ∀ tx ∈ b.vtx.tail, b.ctx.checkSpecialTx l tx = .ok ()) (hsafe : ResetsSafe l b)
    (hsplit : b.vtx.tail = pre ++ post) (hacc : b.ctx.applyTxs l pre = .ok acc)
    (h : l.PoSeProtected) : acc.1.PoSeProtected := by
  induction pre using reverseRecOn generalizing post acc with
  | nil =>
    obtain ⟨start, hsame, hrun⟩ := applyTxs_ok hacc
    cases hrun
    exact h.sameOperators hsame
  | append_singleton pre tx ih =>
    rw [append_assoc, singleton_append] at hsplit
    obtain ⟨before, hbefore, hstep⟩ := applyTxs_concat.mp hacc
    have hmem : tx ∈ b.vtx.tail := by
      rw [hsplit]
      exact mem_append_right _ mem_cons_self
    exact poSeProtected_applySpecialTx hstep (hchecked tx hmem)
      (hsafe pre tx post before hsplit hbefore) (ih hsplit hbefore)

theorem poSeProtected_acceptsBlock {l' : CDeterministicMNList} {b : ListBlock}
    (hsafe : ResetsSafe l b) (haccept : AcceptsBlock l b l') (h : l.PoSeProtected) :
    l'.PoSeProtected := by
  obtain ⟨hchecked, newList, hrebuild, rfl⟩ := haccept
  obtain ⟨acc, hacc, hfinish⟩ := rebuildListFromBlock_ok hrebuild
  have hprotected := poSeProtected_applyTxs hchecked hsafe (append_nil _).symm hacc h
  intro M dmn' hget
  obtain ⟨dmn, hdmn, hstate⟩ := finishList_ok hfinish hget
  exact (hprotected M dmn hdmn).sameOperator hstate

/-! ### What a ban keeps a masternode out of -/

/-- `dmn` is banned, not valid, and neither a payee nor in any quorum or sentinel set. -/
structure Excluded (l : CDeterministicMNList) (dmn : CDeterministicMN) : Prop where
  isBanned : dmn.pdmnState.isBanned = true
  not_isMNValid : CDeterministicMNList.isMNValid dmn = false
  not_payee : ∀ params isMNRewardReallocation, l.getMNPayee params isMNRewardReallocation ≠ some dmn
  not_quorum : ∀ sha256 maxSize modifier, dmn ∉ l.calculateQuorum sha256 maxSize modifier
  not_sentinel : ∀ sha256 target modifier count,
    dmn.proTxHash ∉ l.calcSentinelsForMN sha256 target modifier count

theorem excluded_of_isBanned {dmn : CDeterministicMN} (hdmn : dmn ∈ l.mns false)
    (hbanned : dmn.pdmnState.isBanned = true) : Excluded l dmn := by
  have hvalid : isMNValid dmn = false := by
    rw [isMNValid, isMNPoSeBanned, hbanned, Bool.not_true]
  have hnot : dmn ∉ l.mns true := by
    intro hmem
    have htrue := (mem_mns_iff.mp hmem).2 rfl
    rw [hvalid] at htrue
    cases htrue
  have hget := (mem_mns_iff.mp hdmn).1
  refine ⟨hbanned, hvalid, ?_, ?_, ?_⟩
  · intro params rr hpayee
    exact hnot (mem_mns_of_getMNPayee hpayee)
  · intro sha256 maxSize modifier hmem
    exact hnot (mem_mns_of_mem_calculateQuorum hmem)
  · intro sha256 target modifier count hmem
    obtain ⟨other, hother, heq⟩ := mem_mns_of_mem_calcSentinelsForMN hmem
    have hget' := (mem_mns_iff.mp hother).1
    rw [heq, hget] at hget'
    cases hget'
    exact hnot hother

/-- In a run in which no operator is reset under a service ban alone, a masternode without an
operator is kept out of everything. -/
theorem operatorless_excluded {blocks : List ListBlock} {l : CDeterministicMNList}
    (hrun : Run (Guarded ResetsSafe AcceptsBlock) {} blocks l) {dmn : CDeterministicMN}
    (hdmn : dmn ∈ l.mns false) (hless : dmn.pdmnState.Operatorless) : Excluded l dmn := by
  have hprotected : l.PoSeProtected := by
    refine Run.invariant (I := CDeterministicMNList.PoSeProtected)
      (fun h hstep => poSeProtected_acceptsBlock hstep.1 hstep.2 h) hrun ?_
    intro M dmn hget
    cases hget
  have hpose := hprotected _ _ (CDeterministicMNList.mem_mns_iff.mp hdmn).1 hless
  exact excluded_of_isBanned hdmn (CDeterministicMNState.isBanned_iff.mpr (.inl hpose))

/-! ### A run -/

namespace Sample

def env : ProTxEnv where
  isValid addr := addr ≠ {}
  isRoutable _ := true
  isIPv4 _ := true
  requireRoutableExternalIP := false
  isMainNet := false
  mainnetDefaultPort := 8192
  isFullyValidPubKey _ := true
  extractDestination _ := some (.scriptHash 0)
  sha256 a b := a + b
  calcTxInputsHash _ := 0
  hashProUpServTx _ := 0
  hashProUpRegTx _ := 0
  hashProUpRevTx _ := 0
  verifyHash _ _ _ := true
  verifyMessage _ _ := true
  blsVerify key _ sig := sig = key.setWidth 768
  isValid_default := rfl

def params : ConsensusParams where
  regularPaymentWeight := 1
  evoPaymentWeight := 1
  computePaymentWeight := 1
  regularMnCollateral := 1000000 * COIN
  evoMnCollateral := 1000000 * COIN
  computeMnCollateral := 1000000 * COIN
  nComputeNodeActivationHeight := 1000
  nMasternodeMinimumConfirmations := 1
  nDSLEpochInterval := 1
  nDSLMassOutagePct := 51
  nDSLEnforcementHeight := 0
  nDSLSuspendEpochs := 1
  nDSLBanEpochs := 1

def ctx (prevHeight : Nat) (prevList : CDeterministicMNList) : BlockContext where
  params := params
  env := env
  nDSLActivationHeight := 0
  nDSLCommitmentV2Height := 0
  getLLMQ _ := none
  prevHeight := prevHeight
  prevHash := BitVec.ofNat 256 prevHeight
  getAncestor h := if 0 ≤ h ∧ h ≤ prevHeight then some (BitVec.ofInt 256 h) else none
  v19Active := true
  mnRRActive := true
  dip0003Enforced := true
  viewHasBestBlock := true
  getCoin _ := some ⟨1000000 * COIN, []⟩
  getListForBlock _ := prevList
  getAllQuorumMembers _ _ := []
  checkLLMQCommitment _ := true
  checkServiceQuorum _ := true

def script : CScript := [0xa9, 0x14] ++ List.replicate 20 0 ++ [0x87]

def coinbase : SpecialTx := ⟨⟨0, [], []⟩, .other⟩

def register (n : Nat) : SpecialTx :=
  ⟨⟨BitVec.ofNat 256 n, [], [⟨1000000 * COIN, script⟩]⟩, .proReg (some
    { nVersion := 2
      nType := .regular
      nMode := 0
      collateralOutpoint := ⟨0, 0⟩
      addr := ⟨BitVec.ofNat 128 n, 1⟩
      keyIDOwner := BitVec.ofNat 160 n
      pubKeyOperator := ⟨some (BitVec.ofNat 384 n), false⟩
      keyIDVoting := BitVec.ofNat 160 n
      nOperatorReward := 0
      scriptPayout := script
      computeDescriptor := {}
      inputsHash := 0
      vchSig := [] })⟩

def revoke (n key : Nat) : SpecialTx :=
  ⟨⟨100, [], []⟩, .proUpRev (some ⟨2, BitVec.ofNat 256 n, 0, 0, some (BitVec.ofNat 768 key)⟩)⟩

def service (nHeight : Nat) (missed : List Bool) : SpecialTx :=
  ⟨⟨200, [], []⟩, .serviceCommitment (some ⟨1,
    { nVersion := 2
      nEpoch := nHeight - 1
      epochBlockHash := BitVec.ofNat 256 (nHeight - 1)
      missed := missed
      observed := missed.map fun _ => true }⟩)⟩

def block (prevHeight : Nat) (prevList : CDeterministicMNList) (txs : List SpecialTx) : ListBlock :=
  ⟨ctx prevHeight prevList, coinbase :: txs, BitVec.ofNat 256 (prevHeight + 1)⟩

def extend (l : CDeterministicMNList) (b : ListBlock) : CDeterministicMNList :=
  match b.ctx.rebuildListFromBlock l b.vtx with
  | .ok newList => { newList with blockHash := b.blockHash }
  | .error _ => l

def accepts (l : CDeterministicMNList) (b : ListBlock) : Bool :=
  (b.vtx.tail.all fun tx => (b.ctx.checkSpecialTx l tx).toBool) &&
    (b.ctx.rebuildListFromBlock l b.vtx).toBool

variable {b : ListBlock} {l : CDeterministicMNList}

theorem checked_of_all (hall : (b.vtx.tail.all fun tx => (b.ctx.checkSpecialTx l tx).toBool) = true) :
    ∀ tx ∈ b.vtx.tail, b.ctx.checkSpecialTx l tx = .ok () := by
  intro tx htx
  have hbool := all_eq_true.mp hall tx htx
  cases hcheck : b.ctx.checkSpecialTx l tx with
  | error e =>
    rw [hcheck] at hbool
    cases hbool
  | ok u => rfl

theorem acceptsBlock_extend (haccepts : accepts l b = true) : AcceptsBlock l b (extend l b) := by
  rw [accepts, Bool.and_eq_true] at haccepts
  obtain ⟨hchecked, hrebuild⟩ := haccepts
  refine ⟨checked_of_all hchecked, ?_⟩
  unfold extend
  cases hlist : b.ctx.rebuildListFromBlock l b.vtx with
  | error e =>
    rw [hlist] at hrebuild
    cases hrebuild
  | ok newList => exact ⟨newList, rfl, rfl⟩

/-- Two registrations; the first masternode misses an epoch, revokes its operator key, and is
then reported online. -/
def block₁ : ListBlock := block 0 {} [register 1, register 2]

def list₁ : CDeterministicMNList := extend {} block₁

def block₂ : ListBlock := block 1 list₁ [service 2 [true, false]]

def list₂ : CDeterministicMNList := extend list₁ block₂

def block₃ : ListBlock := block 2 list₂ [revoke 1 1]

def list₃ : CDeterministicMNList := extend list₂ block₃

def block₄ : ListBlock := block 3 list₃ [service 4 [false, false]]

def list₄ : CDeterministicMNList := extend list₃ block₄

def revocation : ListBlock := block 1 list₁ [revoke 1 1]

def noDslBanOnly (l : CDeterministicMNList) (b : ListBlock) : Bool :=
  b.vtx.tail.inits.all fun pre =>
    match b.ctx.applyTxs l pre with
    | .ok acc => (acc.1.mns false).all fun dmn => !dmn.pdmnState.DslBanOnly
    | .error _ => true

theorem resetsSafe_of_noDslBanOnly (hnone : noDslBanOnly l b = true) : ResetsSafe l b := by
  intro pre tx post acc hsplit hacc M dmn hdmn _
  rw [noDslBanOnly, all_eq_true] at hnone
  have hpre : pre ∈ b.vtx.tail.inits := (mem_inits _ _).mpr ⟨tx :: post, hsplit.symm⟩
  have hall := hnone pre hpre
  rw [hacc, all_eq_true] at hall
  simpa using hall dmn (mem_mns_of_getMN hdmn)

end Sample

open Sample

theorem operatorless_excluded_revoked :
    ∃ dmn ∈ (extend list₁ revocation).mns false,
      dmn.pdmnState.Operatorless ∧
        Excluded (extend list₁ revocation) dmn := by
  have hrun : Run (Guarded ResetsSafe AcceptsBlock) {} [block₁, revocation]
      (extend list₁ revocation) := by
    refine .cons ⟨resetsSafe_of_noDslBanOnly (by decide +kernel),
      acceptsBlock_extend (by decide +kernel)⟩ ?_
    exact .cons ⟨resetsSafe_of_noDslBanOnly (by decide +kernel),
      acceptsBlock_extend (by decide +kernel)⟩ (.nil _)
  have hless : ∃ dmn ∈ (extend list₁ revocation).mns false,
      dmn.pdmnState.Operatorless := by
    decide +kernel
  obtain ⟨dmn, hdmn, hless⟩ := hless
  exact ⟨dmn, hdmn, hless, operatorless_excluded hrun hdmn hless⟩

/-- The service ban hides the ban that the revocation asks for, and its end leaves a valid
masternode without a key. -/
theorem revoked_valid_after_service :
    Run AcceptsBlock {} [block₁, block₂, block₃, block₄] list₄ ∧
      ∃ dmn ∈ list₄.mns true, dmn.pdmnState.Operatorless ∧
        list₄.getMNPayee params true = some dmn := by
  refine ⟨?_, ?_⟩
  · refine .cons (acceptsBlock_extend (by decide +kernel)) ?_
    refine .cons (acceptsBlock_extend (by decide +kernel)) ?_
    refine .cons (acceptsBlock_extend (by decide +kernel)) ?_
    exact .cons (acceptsBlock_extend (by decide +kernel)) (.nil _)
  · decide +kernel

end Defcon.Evo
