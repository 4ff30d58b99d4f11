import Defcon.Llmq.QuorumLookup

/-!
# The mined commitments of the active chain

`ProcessBlock` asks of every block in the mining window of a cycle for one commitment of each
enabled type, until one that is not null is mined. What it records, by quorum and by height, is
exactly what the blocks of the active chain carry.
-/

namespace Defcon.Llmq

open Lib (Run Accepts BlockTree)
open Lib.BlockTree Option List

variable {B : Type}

/-! ### What a commitment is verified against -/

variable (qc : CFinalCommitment)

def CFinalCommitment.isIndexed : Bool :=
  qc.nVersion == 2 || qc.nVersion == 4

def CFinalCommitment.countSigners : Nat :=
  qc.signers.count true

def CFinalCommitment.countValidMembers : Nat :=
  qc.validMembers.count true

/-- `CFinalCommitment::Verify`. `validSigs` stands for the two signature checks. -/
def QuorumContext.verifyCommitment (ctx : QuorumContext B) (isV19ActiveAfter : B → Bool)
    (validSigs : CFinalCommitment → B → Bool) (qc : CFinalCommitment) (pQuorumBaseBlockIndex : B)
    (checkSigs : Bool) : Bool :=
  match ctx.getLLMQ qc.llmqType with
  | none => false
  | some params =>
    let members := ctx.getAllQuorumMembers qc.llmqType pQuorumBaseBlockIndex
    (ctx.tree.parent pQuorumBaseBlockIndex).isSome &&
      qc.nVersion == (if isV19ActiveAfter pQuorumBaseBlockIndex then 3 else 1) &&
      ctx.getBlockHash pQuorumBaseBlockIndex == qc.quorumHash &&
      ((ctx.tree.height pQuorumBaseBlockIndex % params.dkgInterval : Nat) : Int) ==
        qc.quorumIndex &&
      qc.verifySizes params &&
      decide (params.minSize ≤ qc.countValidMembers) &&
      decide (params.minSize ≤ qc.countSigners) &&
      qc.quorumPublicKey.isSome && qc.quorumVvecHash != 0 && qc.membersSig.isSome &&
      qc.quorumSig.isSome &&
      (qc.validMembers.drop members.length).all (! ·) &&
      (qc.signers.drop members.length).all (! ·) &&
      (!checkSigs || validSigs qc pQuorumBaseBlockIndex)

/-- A network: commitments are verified by the code's check, and the mining windows lie within the
cycles. -/
structure Network (B : Type) extends QuorumContext B where
  isV19ActiveAfter : B → Bool
  validSigs : CFinalCommitment → B → Bool
  verify_eq : verify = toQuorumContext.verifyCommitment isV19ActiveAfter validSigs
  quorumIndex_eq_zero : ∀ {b qc}, some qc ∈ commitmentTxs b → qc.isIndexed = false →
    qc.quorumIndex = 0
  getBlockHash_ne_zero : ∀ b, getBlockHash b ≠ 0
  window : ∀ params ∈ llmqs, 0 < params.dkgMiningWindowStart ∧
    params.dkgMiningWindowEnd < params.dkgInterval

instance {B : Type} : Coe (Network B) (QuorumContext B) := ⟨Network.toQuorumContext⟩

variable (net : Network B)

theorem Network.eq_of_hash_eq {a b : B} (hhash : net.getBlockHash a = net.getBlockHash b) : a = b :=
  @getBlockHash_injective _ net _ _ hhash

/-- A commitment that is not null is mined for the quorum based on `base`, at or below `b`. -/
def MinedBelow (b : B) (llmqType : LLMQType) (base : B) : Prop :=
  ∃ c qc, net.tree.Ancestor c b ∧ Mined net c qc ∧ qc.llmqType = llmqType ∧
    qc.quorumHash = net.getBlockHash base

def CycleBase (params : LLMQParams) (b base : B) : Prop :=
  net.tree.Ancestor base b ∧
    net.tree.height base = net.tree.height b - net.tree.height b % params.dkgInterval

def commitmentCount (b : B) (llmqType : LLMQType) : Nat :=
  match net.getCommitmentsFromBlock b with
  | .error _ => 0
  | .ok qcs => qcs.countP fun qc => qc.llmqType = llmqType

/-- A commitment that is mined in `b`, with the parameters of its type and its base block. -/
structure MinedIn (b : B) (qc : CFinalCommitment) (params : LLMQParams) (base : B) : Prop where
  params_eq : net.getLLMQ qc.llmqType = some params
  phase : isMiningPhase params (net.tree.height b) = true
  cycle : CycleBase net params b base
  hash_eq : net.getBlockHash base = qc.quorumHash
  base_parent : net.tree.parent base ≠ none

structure BlockRules (b p : B) : Prop where
  mined : ∀ {qc}, Mined net b qc →
    ∃ params base, MinedIn net b qc params base ∧ ¬MinedBelow net p qc.llmqType base
  outside : ∀ {llmqType params}, net.getLLMQ llmqType = some params →
    net.isQuorumTypeEnabled llmqType p = true →
    isMiningPhase params (net.tree.height b) = false → commitmentCount net b llmqType = 0
  before : ∀ {llmqType params base}, net.getLLMQ llmqType = some params →
    net.isQuorumTypeEnabled llmqType p = true →
    isMiningPhase params (net.tree.height b) = true → CycleBase net params b base →
    ¬MinedBelow net p llmqType base → commitmentCount net b llmqType = 1
  after : ∀ {llmqType params base}, net.getLLMQ llmqType = some params →
    net.isQuorumTypeEnabled llmqType p = true →
    isMiningPhase params (net.tree.height b) = true → CycleBase net params b base →
    MinedBelow net p llmqType base → commitmentCount net b llmqType = 0

def MinedAtHeight (s : QuorumState B) (llmqType : LLMQType) (nHeight baseHeight : Nat) : Prop :=
  ∃ tip b qc base, s.tip = some tip ∧ net.tree.Ancestor b tip ∧ net.tree.height b = nHeight ∧
    Mined net b qc ∧ qc.llmqType = llmqType ∧
    net.getBlockHash base = qc.quorumHash ∧ net.tree.height base = baseHeight

/-- What holds in every reachable state: the records by height are those of the active chain, and
its blocks obey the rules. -/
structure ChainInv (s : QuorumState B) : Prop extends Inv net.toQuorumContext s where
  heights : ∀ {llmqType nHeight baseHeight},
    s.minedByHeight.lookup (llmqType, nHeight) = some baseHeight ↔
      MinedAtHeight net s llmqType nHeight baseHeight
  rules : ∀ {tip b p}, s.tip = some tip → net.tree.Ancestor b tip → net.tree.parent b = some p →
    net.DIP0003Height ≤ net.tree.height b → BlockRules net b p
  rooted : ∀ {tip}, s.tip = some tip → net.tree.Ancestor net.genesis tip

variable {net}

/-! ### Cycles -/

section Cycles

variable {params : LLMQParams} {b p base : B}

variable {nHeight : Nat} {llmqType : LLMQType}

theorem phase_bounds (hphase : isMiningPhase params nHeight = true) :
    nHeight - nHeight % params.dkgInterval + params.dkgMiningWindowStart ≤ nHeight ∧
      nHeight ≤ nHeight - nHeight % params.dkgInterval + params.dkgMiningWindowEnd := by
  simpa [isMiningPhase] using hphase

theorem mem_llmqs {ctx : QuorumContext B} (hparams : ctx.getLLMQ llmqType = some params) :
    params ∈ ctx.llmqs ∧ params.type = llmqType :=
  ⟨mem_of_find?_eq_some hparams, by simpa using find?_some hparams⟩

theorem cycleStart_lt (hparams : net.getLLMQ llmqType = some params)
    (hphase : isMiningPhase params nHeight = true) :
    nHeight - nHeight % params.dkgInterval < nHeight := by
  have hstart := (net.window params (mem_llmqs hparams).1).1
  have hbounds := phase_bounds hphase
  omega

theorem getQuorumBlockHash_eq {s : QuorumState B} (htip : s.tip = some p)
    (hlt : nHeight - nHeight % params.dkgInterval ≤ net.tree.height p) :
    ∃ base, net.tree.ancestorAt p (nHeight - nHeight % params.dkgInterval) = some base ∧
      getQuorumBlockHash net s params nHeight 0 = net.getBlockHash base := by
  obtain ⟨base, hbase⟩ := exists_ancestorAt hlt
  refine ⟨base, hbase, ?_⟩
  rw [getQuorumBlockHash, getBlockHash, htip, add_zero]
  dsimp only
  rw [if_neg (by omega), if_neg (by omega), Int.toNat_natCast, hbase]
  rfl

theorem cycleBase_iff (hparams : net.getLLMQ llmqType = some params)
    (hparent : net.tree.parent b = some p)
    (hphase : isMiningPhase params (net.tree.height b) = true) :
    CycleBase net params b base ↔ net.tree.ancestorAt p
      (net.tree.height b - net.tree.height b % params.dkgInterval) = some base := by
  have hlt := cycleStart_lt hparams hphase
  rw [← ancestorAt_of_parent hparent hlt]
  constructor
  · rintro ⟨hanc, hheight⟩
    rwa [BlockTree.Ancestor, hheight] at hanc
  · intro hbase
    exact ⟨ancestor_of_ancestorAt hbase, height_of_ancestorAt hbase⟩

end Cycles

/-! ### Connecting a block -/

section Connect

variable {s t : QuorumState B} {b p : B} {nHeight : Nat} {blockHash : Uint256}
  {qcs : List CFinalCommitment} {fBLSChecks : Bool}

variable {params : LLMQParams} {qc : CFinalCommitment}

theorem getNumCommitmentsRequired_fst {quorumHash : Uint256} (hagree : HasMinedAgrees s)
    (hparams : net.getLLMQ params.type ≠ none) (hphase : isMiningPhase params nHeight = true)
    (hhash : getQuorumBlockHash net s params nHeight 0 = quorumHash)
    (hne : quorumHash ≠ 0) :
    (getNumCommitmentsRequired net s params nHeight).1 =
      if (params.type, quorumHash) ∈ s.minedCommitments then 0 else 1 := by
  have hmined := hasMinedCommitment_fst net hagree hparams quorumHash
  simp only [getNumCommitmentsRequired, if_pos hphase, hhash, if_neg hne]
  by_cases hmem : (params.type, quorumHash) ∈ s.minedCommitments
  · rw [if_pos hmem, if_pos (hmined.mpr hmem)]
  · rw [if_neg hmem, if_neg (fun htrue => hmem (hmined.mp htrue))]

theorem checkCommitmentCounts_ok {enabled : List LLMQParams} (htip : s.tip ≠ none)
    (hok : checkCommitmentCounts net nHeight qcs s enabled = (.ok (), t)) :
    ∀ params ∈ enabled, ∃ s', OnlyHasMined s s' ∧
      (getNumCommitmentsRequired net s' params nHeight).1 =
        qcs.countP fun qc => qc.llmqType = params.type := by
  induction enabled generalizing s with
  | nil => exact fun _ hmem => absurd hmem not_mem_nil
  | cons params rest ih =>
    have honly := @onlyHasMined_getNumCommitmentsRequired _ net s params nHeight
    simp only [checkCommitmentCounts] at hok
    rw [if_neg (by simpa using htip)] at hok
    split at hok
    · cases hok
    rename_i hnotAllowed
    split at hok
    · cases hok
    rename_i hmissing
    refine forall_mem_cons.mpr ⟨⟨s, .refl s, ?_⟩, ?_⟩
    · exact Nat.le_antisymm (not_lt.mp hmissing) (not_lt.mp hnotAllowed)
    · intro params' hmem
      obtain ⟨s', hs', hcount⟩ := ih (by rwa [honly.tip]) hok params' hmem
      exact ⟨s', honly.trans hs', hcount⟩

structure AcceptedIn (net : Network B) (s : QuorumState B) (nHeight : Nat) (fBLSChecks : Bool)
    (qc : CFinalCommitment) (params : LLMQParams) : Prop where
  params_eq : net.getLLMQ qc.llmqType = some params
  hash_eq : s.tip ≠ none →
    getQuorumBlockHash net s params nHeight qc.quorumIndex = qc.quorumHash
  new : qc.isNull = false → (qc.llmqType, qc.quorumHash) ∉ s.minedCommitments
  phase : qc.isNull = false → isMiningPhase params nHeight = true
  verified : qc.isNull = false → ∃ base, net.lookupBlockIndex qc.quorumHash = some base ∧
    net.verify qc base fBLSChecks = true

theorem getQuorumBlockHash_of_tip {quorumIndex : Int} (htip : t.tip = s.tip) :
    getQuorumBlockHash net t params nHeight quorumIndex =
      getQuorumBlockHash net s params nHeight quorumIndex := by
  rw [getQuorumBlockHash, getQuorumBlockHash, getBlockHash, getBlockHash, htip]

theorem AcceptedIn.of_grown (haccepted : AcceptedIn net t nHeight fBLSChecks qc params)
    (htip : t.tip = s.tip) (hgrown : ∀ k ∈ s.minedCommitments, k ∈ t.minedCommitments) :
    AcceptedIn net s nHeight fBLSChecks qc params where
  params_eq := haccepted.params_eq
  hash_eq hne := by
    rw [← getQuorumBlockHash_of_tip htip]
    exact haccepted.hash_eq (by rwa [htip])
  new hnull hmem := haccepted.new hnull (hgrown _ hmem)
  phase := haccepted.phase
  verified := haccepted.verified

theorem processCommitments_spec (hagree : HasMinedAgrees s)
    (htypes : (qcs.map CFinalCommitment.llmqType).Nodup)
    (hfree : ∀ qc ∈ qcs, s.minedByHeight.lookup (qc.llmqType, nHeight) = none)
    (hok : processCommitments net nHeight blockHash false fBLSChecks s qcs =
      (.ok (), t)) :
    (∀ qc ∈ qcs, ∃ params, AcceptedIn net s nHeight fBLSChecks qc params) ∧
      ∀ k v, t.minedByHeight.lookup k = some v ↔ s.minedByHeight.lookup k = some v ∨
        ∃ qc ∈ qcs, qc.isNull = false ∧ k = (qc.llmqType, nHeight) ∧
          ∃ base, net.lookupBlockIndex qc.quorumHash = some base ∧ net.tree.height base = v := by
  induction qcs generalizing s with
  | nil =>
    obtain rfl : s = t := by simpa [processCommitments] using hok
    refine ⟨fun _ hmem => absurd hmem not_mem_nil, fun k v => ?_⟩
    simp
  | cons qc qcs ih =>
    rw [map_cons, nodup_cons] at htypes
    rw [forall_mem_cons] at hfree
    rw [processCommitments] at hok
    split at hok
    · cases hok
    rename_i s' hstep
    have hprocessed := processed_processCommitment net s nHeight blockHash qc false
      fBLSChecks
    rw [hstep] at hprocessed
    cases hprocessed with
    | null hparams hhash hnull =>
      obtain ⟨haccepted, hheights⟩ := ih hagree htypes.2 hfree.2 hok
      have hnot {p : Prop} (h : qc.isNull = false) : p := Bool.noConfusion (hnull.symm.trans h)
      refine ⟨forall_mem_cons.mpr ⟨⟨_, hparams, hhash, hnot, hnot, hnot⟩, haccepted⟩, ?_⟩
      intro k v
      simp [hheights k v, hnull]
    | @accepted params base hparams hhash hnull hnew hphase hbase hverify =>
      have honly := onlyHasMined_hasMinedCommitment net s qc.llmqType qc.quorumHash
      have hnew := notMem_of_hasMined net hagree hparams hnew
      -- the other commitments of the block are of other types
      have hother : ∀ qc' ∈ qcs, (qc'.llmqType, nHeight) ≠ (qc.llmqType, nHeight) := by
        intro qc' hmem heq
        exact htypes.1 ((Prod.mk.inj heq).1 ▸ mem_map_of_mem hmem)
      obtain ⟨haccepted, hheights⟩ := ih
        (hasMinedAgrees_recordCommitment (honly.agrees hagree) nHeight _ blockHash qc) htypes.2
        (fun qc' hmem => by
          rw [recordCommitment, AList.lookup_insert_eq_ite, if_neg (hother qc' hmem),
            honly.minedByHeight]
          exact hfree.2 qc' hmem) hok
      refine ⟨forall_mem_cons.mpr ⟨⟨params, hparams, hhash, fun _ => hnew, fun _ => hphase,
        fun _ => ⟨base, hbase, hverify⟩⟩, ?_⟩, ?_⟩
      · intro qc' hmem
        obtain ⟨params', haccepted'⟩ := haccepted qc' hmem
        refine ⟨params', haccepted'.of_grown honly.tip fun k hk => ?_⟩
        rw [recordCommitment, AList.mem_insert, honly.minedCommitments]
        exact Or.inr hk
      · intro k v
        rw [hheights k v, recordCommitment, AList.lookup_insert_eq_ite, honly.minedByHeight]
        simp only [exists_mem_cons_iff, hnull, true_and, hbase, some.injEq,
          exists_eq_left']
        by_cases hk : k = (qc.llmqType, nHeight)
        · subst hk
          simp [hfree.1]
        · simp [hk]

theorem verify_spec {base : B} (hverify : net.verify qc base fBLSChecks = true) :
    net.tree.parent base ≠ none ∧ qc.isIndexed = false := by
  rw [net.verify_eq, QuorumContext.verifyCommitment] at hverify
  split at hverify
  · cases hverify
  simp only [Bool.and_eq_true, beq_iff_eq, isSome_iff_ne_none] at hverify
  obtain ⟨⟨⟨⟨⟨⟨⟨⟨⟨⟨⟨⟨⟨hparent, hversion⟩, -⟩, -⟩, -⟩, -⟩, -⟩, -⟩, -⟩, -⟩, -⟩, -⟩, -⟩, -⟩ := hverify
  refine ⟨hparent, ?_⟩
  rw [CFinalCommitment.isIndexed, hversion]
  split <;> rfl

theorem minedBelow_iff (hinv : ChainInv net s) (htip : s.tip = some p) {llmqType : LLMQType}
    {base : B} :
    MinedBelow net p llmqType base ↔ (llmqType, net.getBlockHash base) ∈ s.minedCommitments := by
  rw [← AList.lookup_isSome, isSome_iff_exists]
  constructor
  · rintro ⟨c, qc, hanc, hmined, htype, hhash⟩
    exact ⟨(qc, net.getBlockHash c), hinv.records.mpr ⟨p, c, htip, hanc, hmined, htype, hhash, rfl⟩⟩
  · rintro ⟨⟨qc, minedBlockHash⟩, hlookup⟩
    obtain ⟨tip, c, htip', hanc, hmined, htype, hhash, -⟩ := hinv.records.mp hlookup
    obtain rfl := some.inj (htip.symm.trans htip')
    exact ⟨c, qc, hanc, hmined, htype, hhash⟩

theorem AcceptedIn.minedIn (haccepted : AcceptedIn net s (net.tree.height b) fBLSChecks qc params)
    (htip : s.tip = some p) (hparent : net.tree.parent b = some p)
    (hqcs : net.getCommitmentsFromBlock b = .ok qcs) (hmem : qc ∈ qcs) (hnull : qc.isNull = false) :
    ∃ base, net.lookupBlockIndex qc.quorumHash = some base ∧ MinedIn net b qc params base := by
  have hphase := haccepted.phase hnull
  obtain ⟨base, hlookup, hverify⟩ := haccepted.verified hnull
  obtain ⟨hbaseParent, hindexed⟩ := verify_spec hverify
  have hindex := net.quorumIndex_eq_zero (some_mem_commitmentTxs hqcs hmem) hindexed
  have hhash := haccepted.hash_eq (by rw [htip]; exact some_ne_none p)
  rw [hindex] at hhash
  have hlt := cycleStart_lt haccepted.params_eq hphase
  have hheight := net.tree.height_parent hparent
  obtain ⟨first, hfirst, hfirstHash⟩ := @getQuorumBlockHash_eq _ net params p
    (net.tree.height b) s htip (by omega)
  have hbaseHash : net.getBlockHash base = qc.quorumHash := net.lookupBlockIndex_iff.mp hlookup
  obtain rfl : first = base := net.eq_of_hash_eq (by rw [← hfirstHash, hhash, hbaseHash])
  exact ⟨first, hlookup, haccepted.params_eq, hphase,
    (cycleBase_iff haccepted.params_eq hparent hphase).mpr hfirst, hbaseHash, hbaseParent⟩

theorem lookup_heights_above (hinv : ChainInv net s) (htip : s.tip = some p)
    (hlt : net.tree.height p < nHeight) (llmqType : LLMQType) :
    s.minedByHeight.lookup (llmqType, nHeight) = none := by
  rw [eq_none_iff_forall_ne_some]
  intro baseHeight hlookup
  obtain ⟨tip, c, qc, base, htip', hanc, hheight, -⟩ := hinv.heights.mp hlookup
  obtain rfl := some.inj (htip.symm.trans htip')
  have hle := hanc.height_le
  omega

theorem processBlock_spec (hinv : ChainInv net s) (htip : s.tip = some p)
    (hparent : net.tree.parent b = some p) (hheight : net.DIP0003Height ≤ net.tree.height b)
    (hok : processBlock net s b false fBLSChecks = (.ok (), t)) :
    BlockRules net b p ∧
      ∀ k v, t.minedByHeight.lookup k = some v ↔ s.minedByHeight.lookup k = some v ∨
        ∃ qc, Mined net b qc ∧ k = (qc.llmqType, net.tree.height b) ∧
          ∃ base, net.getBlockHash base = qc.quorumHash ∧ net.tree.height base = v := by
  have hbheight := net.tree.height_parent hparent
  rcases processBlock_cases hok with ⟨hlt, -⟩ | ⟨-, qcs, s', hqcs, honly, hcounts, hprocess⟩
  · omega
  obtain ⟨haccepted, hheights⟩ := processCommitments_spec (honly.agrees hinv.hasMined)
    (getCommitmentsFromBlock_ok hqcs).1
    (fun qc _ => by
      rw [honly.minedByHeight]
      exact lookup_heights_above hinv htip (by omega) _) hprocess
  rw [hparent] at hcounts
  have hcount {llmqType : LLMQType} {params : LLMQParams}
      (hparams : net.getLLMQ llmqType = some params)
      (henabled : net.isQuorumTypeEnabled llmqType p = true) :
      ∃ s'', OnlyHasMined s s'' ∧ commitmentCount net b llmqType =
        (getNumCommitmentsRequired net s'' params (net.tree.height b)).1 := by
    obtain ⟨hmem, rfl⟩ := mem_llmqs hparams
    have henabledMem : params ∈ net.getEnabledQuorumParams p :=
      mem_filter.mpr ⟨hmem, henabled⟩
    obtain ⟨s'', honly'', heq⟩ := checkCommitmentCounts_ok
      (by rw [htip]; exact some_ne_none p) hcounts params henabledMem
    refine ⟨s'', honly'', ?_⟩
    rw [heq, commitmentCount, hqcs]
  -- in the window the number required is decided by what is mined below
  have hwindow {llmqType : LLMQType} {params : LLMQParams} {base : B}
      (hparams : net.getLLMQ llmqType = some params)
      (henabled : net.isQuorumTypeEnabled llmqType p = true)
      (hphase : isMiningPhase params (net.tree.height b) = true)
      (hbase : CycleBase net params b base) :
      commitmentCount net b llmqType =
        if (llmqType, net.getBlockHash base) ∈ s.minedCommitments then 0 else 1 := by
    obtain ⟨s'', honly'', hnum⟩ := hcount hparams henabled
    obtain ⟨hmem, rfl⟩ := mem_llmqs hparams
    have hlt := cycleStart_lt hparams hphase
    obtain ⟨first, hfirst, hhash⟩ := @getQuorumBlockHash_eq _ net params p
      (net.tree.height b) s'' (honly''.tip.trans htip) (by omega)
    obtain rfl : first = base := some.inj
      (hfirst.symm.trans ((cycleBase_iff hparams hparent hphase).mp hbase))
    rw [hnum, getNumCommitmentsRequired_fst (honly''.agrees hinv.hasMined)
      (by rw [hparams]; exact some_ne_none params) hphase hhash
      (net.getBlockHash_ne_zero first), honly''.minedCommitments]
  refine ⟨⟨?_, ?_, ?_, ?_⟩, ?_⟩
  · intro qc hmined
    obtain ⟨hmem, hnull⟩ := (mined_iff hqcs).mp hmined
    obtain ⟨params, hqc⟩ := haccepted qc hmem
    obtain ⟨base, -, hminedIn⟩ := hqc.minedIn (honly.tip.trans htip) hparent hqcs hmem hnull
    refine ⟨params, base, hminedIn, ?_⟩
    rw [minedBelow_iff hinv htip, hminedIn.hash_eq, ← honly.minedCommitments]
    exact hqc.new hnull
  · intro llmqType params hparams henabled hphase
    obtain ⟨s'', -, hnum⟩ := hcount hparams henabled
    rw [hnum, getNumCommitmentsRequired, if_neg (by rw [hphase]; exact Bool.false_ne_true)]
  · intro llmqType params base hparams henabled hphase hbase hnot
    rw [hwindow hparams henabled hphase hbase, if_neg]
    rwa [← minedBelow_iff hinv htip]
  · intro llmqType params base hparams henabled hphase hbase hbelow
    rw [hwindow hparams henabled hphase hbase, if_pos]
    rwa [← minedBelow_iff hinv htip]
  · intro k v
    rw [hheights k v, honly.minedByHeight]
    simp only [mined_iff hqcs, and_assoc, net.lookupBlockIndex_iff]

end Connect

/-! ### The invariant -/

section Invariant

variable {s t : QuorumState B} {b p : B}

theorem minedAtHeight_connect (hparent : net.tree.parent b = some p) (hs : s.tip = some p)
    (ht : t.tip = some b) {llmqType : LLMQType} {nHeight baseHeight : Nat} :
    MinedAtHeight net t llmqType nHeight baseHeight ↔
      MinedAtHeight net s llmqType nHeight baseHeight ∨
        ∃ qc, Mined net b qc ∧ (llmqType, nHeight) = (qc.llmqType, net.tree.height b) ∧
          ∃ base, net.getBlockHash base = qc.quorumHash ∧ net.tree.height base = baseHeight := by
  simp only [MinedAtHeight, hs, ht, some.injEq, exists_and_left, exists_eq_left',
    ancestor_iff_of_parent hparent, or_and_right, exists_or, exists_eq_left, Prod.mk.injEq]
  rw [or_comm]
  refine or_congr_right ⟨?_, ?_⟩
  · rintro ⟨rfl, qc, hmined, rfl, hbase⟩
    exact ⟨qc, hmined, ⟨rfl, rfl⟩, hbase⟩
  · rintro ⟨qc, hmined, ⟨rfl, rfl⟩, hbase⟩
    exact ⟨rfl, qc, hmined, rfl, hbase⟩

theorem ChainInv.connect {fBLSChecks : Bool} (hinv : ChainInv net s) (htip : s.tip = some p)
    (hparent : net.tree.parent b = some p)
    (hok : processBlock net s b false fBLSChecks = (.ok (), t)) :
    ChainInv net { t with tip := some b } := by
  have hancestor {a : B} := @BlockTree.ancestor_iff_of_parent _ net.tree a b p hparent
  refine ⟨hinv.toInv.connect htip hparent hok, ?_, ?_, ?_⟩
  · intro llmqType nHeight baseHeight
    rw [minedAtHeight_connect hparent htip rfl, ← hinv.heights]
    rcases processBlock_cases hok with ⟨hlt, rfl⟩ | ⟨hheight, -⟩
    · -- below the activation nothing is mined
      simp [Mined, not_le.mpr hlt]
    · exact (processBlock_spec hinv htip hparent hheight hok).2 _ _
  · intro tip c q htip' hanc hq hheight
    obtain rfl : b = tip := some.inj htip'
    rcases hancestor.mp hanc with rfl | hanc
    · obtain rfl := some.inj (hparent.symm.trans hq)
      exact (processBlock_spec hinv htip hparent hheight hok).1
    · exact hinv.rules htip hanc hq hheight
  · intro tip htip'
    obtain rfl : b = tip := some.inj htip'
    exact hancestor.mpr (Or.inr (hinv.rooted htip))

theorem lookup_heights_undo {qcs : List CFinalCommitment} {nHeight : Nat} (k : LLMQType × Nat) :
    (qcs.foldl (undoCommitment nHeight) s).minedByHeight.lookup k =
      if ∃ qc ∈ qcs, qc.isNull = false ∧ k = (qc.llmqType, nHeight) then none
      else s.minedByHeight.lookup k := by
  induction qcs generalizing s with
  | nil => simp
  | cons qc qcs ih =>
    rw [foldl_cons, ih]
    unfold undoCommitment
    cases hnull : qc.isNull with
    | true => simp [hnull]
    | false =>
      simp only [Bool.false_eq_true, if_false, AList.lookup_erase_eq_ite,
        exists_mem_cons_iff, hnull, true_and]
      by_cases hk : k = (qc.llmqType, nHeight)
      · simp [hk]
      · simp [hk]

theorem ChainInv.disconnect (hinv : ChainInv net s) (htip : s.tip = some b)
    (hparent : net.tree.parent b = some p)
    (hok : undoBlock net s b = some t) :
    ChainInv net { t with tip := some p } := by
  have hancestor {a : B} := @BlockTree.ancestor_iff_of_parent _ net.tree a b p hparent
  refine ⟨hinv.toInv.disconnect htip hparent hok, ?_, ?_, ?_⟩
  · intro llmqType nHeight baseHeight
    unfold undoBlock at hok
    split at hok
    · cases hok
    rename_i qcs hqcs
    cases hok
    rw [lookup_heights_undo]
    split
    · rename_i hundone
      obtain ⟨qc, -, -, hkey⟩ := hundone
      cases hkey
      refine ⟨(nomatch ·), ?_⟩
      rintro ⟨tip, c, qc', base, htip', hanc, hheight, -⟩
      obtain rfl : p = tip := some.inj htip'
      have hle := hanc.height_le
      have hb := net.tree.height_parent hparent
      omega
    · rename_i hkept
      rw [hinv.heights, minedAtHeight_connect (s := { s with tip := some p }) hparent rfl htip]
      refine or_iff_left ?_
      rintro ⟨qc, hmined, hkey, -⟩
      obtain ⟨hmem, hnull⟩ := (mined_iff hqcs).mp hmined
      exact hkept ⟨qc, hmem, hnull, hkey⟩
  · intro tip c q htip' hanc
    obtain rfl : p = tip := some.inj htip'
    exact hinv.rules htip (hancestor.mpr (Or.inr hanc))
  · intro tip htip'
    obtain rfl : p = tip := some.inj htip'
    rcases hancestor.mp (hinv.rooted htip) with rfl | hanc
    · rw [net.genesis_root] at hparent
      cases hparent
    · exact hanc

theorem ChainInv.of_inv (hinv : ChainInv net s) (ht : Inv net t)
    (htip : t.tip = s.tip) (hheights : t.minedByHeight = s.minedByHeight) : ChainInv net t := by
  refine ⟨ht, ?_, ?_, ?_⟩
  · intro llmqType nHeight baseHeight
    rw [hheights, hinv.heights, MinedAtHeight, MinedAtHeight, htip]
  · intro tip c q htip'
    exact hinv.rules (htip ▸ htip')
  · intro tip htip'
    exact hinv.rooted (htip ▸ htip')

theorem ChainInv.onlyCaches (hinv : ChainInv net s) (hst : OnlyCaches net s t) :
    ChainInv net t :=
  hinv.of_inv (hinv.toInv.onlyCaches hst) hst.tip hst.minedByHeight

variable [DecidableEq B]

theorem ChainInv.step {op : QuorumOp B} (hinv : ChainInv net s)
    (hstep : Accepts (stepQuorum net) s op t) : ChainInv net t := by
  rcases stepQuorum_cases hstep with
    ⟨b, fBLSChecks, p, s', rfl, htip, hparent, hok, rfl⟩ | ⟨b, p, s', rfl, htip, hparent, hok, rfl⟩ |
      hcaches
  · exact hinv.connect htip hparent hok
  · exact hinv.disconnect htip hparent hok
  · exact hinv.onlyCaches hcaches

end Invariant

/-- The state before the first block after genesis is connected, with no quorum lists cached. -/
structure InitialRecords (net : Network B) (s : QuorumState B) : Prop
    extends Initial net.toQuorumContext s where
  minedByHeight : s.minedByHeight = ∅
  scans : ∀ llmqType blockHash, (s.scanQuorumsCache llmqType).find blockHash = none

theorem InitialRecords.chainInv {s : QuorumState B} (hinit : InitialRecords net s) :
    ChainInv net s := by
  refine ⟨hinit.toInitial.inv, ?_, ?_, ?_⟩
  · intro llmqType nHeight baseHeight
    rw [hinit.minedByHeight]
    refine ⟨(nomatch ·), ?_⟩
    rintro ⟨tip, b, qc, base, htip, hanc, -, hmined, -⟩
    obtain rfl := some.inj (hinit.tip.symm.trans htip)
    obtain rfl := (ancestor_root_iff net.genesis_root).mp hanc
    exact absurd hmined (genesis_not_mined qc)
  · intro tip b p htip hanc hparent
    obtain rfl := some.inj (hinit.tip.symm.trans htip)
    obtain rfl := (ancestor_root_iff net.genesis_root).mp hanc
    rw [net.genesis_root] at hparent
    cases hparent
  · intro tip htip
    obtain rfl := some.inj (hinit.tip.symm.trans htip)
    exact .refl _

end Defcon.Llmq
