import Defcon.Llmq.MinedCommitments

/-!
# The cycles with a mined commitment

Walking the records by height down from a block gives the base blocks of the cycles for which a
commitment is mined at or below it, the newest first.
-/

namespace Defcon.Llmq

open Option List
open Lib (Run Accepts BlockTree)

variable {B : Type} {net : Network B}

/-! ### Walking the records down -/

section Walk

variable {s : QuorumState B} {llmqType : LLMQType} {tip pindex : B}

def minedCycles (net : Network B) (s : QuorumState B) (llmqType : LLMQType) (pindex : B) :
    Nat → List B
  | 0 => []
  | nHeight + 1 =>
    ((s.minedByHeight.lookup (llmqType, nHeight + 1)).bind
      (net.tree.ancestorAt pindex)).toList ++ minedCycles net s llmqType pindex nHeight

theorem mem_minedCycles {base : B} {nHeight : Nat} :
    base ∈ minedCycles net s llmqType pindex nHeight ↔
      ∃ minedHeight baseHeight, 0 < minedHeight ∧ minedHeight ≤ nHeight ∧
        s.minedByHeight.lookup (llmqType, minedHeight) = some baseHeight ∧
        net.tree.ancestorAt pindex baseHeight = some base := by
  induction nHeight with
  | zero =>
    refine ⟨fun hmem => absurd hmem not_mem_nil, ?_⟩
    rintro ⟨minedHeight, baseHeight, hpos, hle, -⟩
    omega
  | succ nHeight ih =>
    rw [minedCycles, mem_append, mem_toList, bind_eq_some_iff, ih]
    constructor
    · rintro (⟨baseHeight, hlookup, hbase⟩ | ⟨minedHeight, baseHeight, hpos, hle, hrest⟩)
      · exact ⟨nHeight + 1, baseHeight, by omega, le_refl _, hlookup, hbase⟩
      · exact ⟨minedHeight, baseHeight, hpos, by omega, hrest⟩
    · rintro ⟨minedHeight, baseHeight, hpos, hle, hlookup, hbase⟩
      rcases Nat.lt_or_eq_of_le hle with hlt | rfl
      · exact Or.inr ⟨minedHeight, baseHeight, hpos, by omega, hlookup, hbase⟩
      · exact Or.inl ⟨baseHeight, hlookup, hbase⟩

theorem getMinedCommitmentsUntilBlock_eq {nHeight : Nat}
    (hbelow : ∀ {minedHeight baseHeight}, minedHeight ≤ nHeight →
      s.minedByHeight.lookup (llmqType, minedHeight) = some baseHeight →
      baseHeight ≤ net.tree.height pindex) (maxCount : Nat) :
    getMinedCommitmentsUntilBlock net s llmqType pindex nHeight maxCount =
      some ((minedCycles net s llmqType pindex nHeight).take maxCount) := by
  induction nHeight generalizing maxCount with
  | zero =>
    unfold getMinedCommitmentsUntilBlock
    rw [minedCycles, take_nil]
  | succ nHeight ih =>
    have hrest := ih fun hle => hbelow (Nat.le_succ_of_le hle)
    cases maxCount with
    | zero =>
      unfold getMinedCommitmentsUntilBlock
      rw [take_zero]
    | succ maxCount =>
      unfold getMinedCommitmentsUntilBlock
      rw [minedCycles]
      cases hlookup : s.minedByHeight.lookup (llmqType, nHeight + 1) with
      | none => exact hrest (maxCount + 1)
      | some baseHeight =>
        obtain ⟨base, hbase⟩ := BlockTree.exists_ancestorAt (hbelow (le_refl _) hlookup)
        simp only [hbase, hrest maxCount, bind_eq_bind, bind_some]
        rfl

section

variable (hinv : ChainInv net s) (htip : s.tip = some tip)

include hinv htip

theorem ChainInv.eq_genesis {c : B} (hanc : net.tree.Ancestor c tip)
    (hroot : net.tree.parent c = none) : c = net.genesis := by
  have hheight := net.tree.height_root hroot
  have hgenesis := net.tree.height_root net.genesis_root
  exact (hanc.of_height_le (hinv.rooted htip) (by omega)).eq_of_height_eq (by omega)

theorem ChainInv.mined {c : B} (hanc : net.tree.Ancestor c tip) {qc : CFinalCommitment}
    (hmined : Mined net c qc) :
    ∃ p params base, net.tree.parent c = some p ∧ MinedIn net c qc params base ∧
      ¬MinedBelow net p qc.llmqType base := by
  cases hparent : net.tree.parent c with
  | none =>
    rw [hinv.eq_genesis htip hanc hparent] at hmined
    exact absurd hmined (genesis_not_mined qc)
  | some p =>
    obtain ⟨params, base, hrest⟩ := (hinv.rules htip hanc hparent hmined.1).mined hmined
    exact ⟨p, params, base, rfl, hrest⟩

theorem ChainInv.record {nHeight baseHeight : Nat}
    (hlookup : s.minedByHeight.lookup (llmqType, nHeight) = some baseHeight) :
    ∃ c p qc params base, net.tree.Ancestor c tip ∧ net.tree.height c = nHeight ∧
      net.tree.parent c = some p ∧ Mined net c qc ∧ qc.llmqType = llmqType ∧
      net.tree.height base = baseHeight ∧ MinedIn net c qc params base ∧
      ¬MinedBelow net p llmqType base := by
  obtain ⟨tip', c, qc, base, htip', hanc, hheight, hmined, rfl, hhash, hbase⟩ :=
    hinv.heights.mp hlookup
  obtain rfl := some.inj (htip.symm.trans htip')
  obtain ⟨p, params, first, hparent, hminedIn, hnew⟩ := hinv.mined htip hanc hmined
  obtain rfl : first = base := net.eq_of_hash_eq (hminedIn.hash_eq.trans hhash.symm)
  exact ⟨c, p, qc, params, first, hanc, hheight, hparent, hmined, rfl, hbase, hminedIn, hnew⟩

end

theorem cycleStart_mono {interval low high : Nat} (hlt : low < high) :
    low - low % interval = high - high % interval ∨
      low - low % interval + interval ≤ high - high % interval := by
  have hlow : low - low % interval = interval * (low / interval) := by
    have := Nat.div_add_mod low interval
    omega
  have hhigh : high - high % interval = interval * (high / interval) := by
    have := Nat.div_add_mod high interval
    omega
  rw [hlow, hhigh]
  rcases Nat.eq_or_lt_of_le (Nat.div_le_div_right hlt.le : low / interval ≤ high / interval) with
    heq | hless
  · exact Or.inl (by rw [heq])
  · have := Nat.mul_le_mul_left interval hless
    rw [Nat.mul_succ] at this
    exact Or.inr this

section

variable (hinv : ChainInv net s) (htip : s.tip = some tip)

include hinv htip

theorem ChainInv.record_lt {low high lowBase highBase : Nat} (hlt : low < high)
    (hlow : s.minedByHeight.lookup (llmqType, low) = some lowBase)
    (hhigh : s.minedByHeight.lookup (llmqType, high) = some highBase) :
    lowBase < highBase ∧ low < highBase := by
  obtain ⟨c₁, p₁, qc₁, params, base₁, hanc₁, rfl, hparent₁, hmined₁, htype₁, rfl, hin₁, -⟩ :=
    hinv.record htip hlow
  obtain ⟨c₂, p₂, qc₂, params₂, base₂, hanc₂, rfl, hparent₂, hmined₂, htype₂, rfl, hin₂, hnew⟩ :=
    hinv.record htip hhigh
  obtain rfl : params = params₂ := by
    have hparams := hin₁.params_eq
    rw [htype₁, ← htype₂, hin₂.params_eq] at hparams
    exact (some.inj hparams).symm
  have hbounds := phase_bounds hin₁.phase
  have hwindow := (net.window params (mem_llmqs hin₁.params_eq).1).2
  have hbase₁ := hin₁.cycle.2
  have hbase₂ := hin₂.cycle.2
  rcases @cycleStart_mono params.dkgInterval _ _ hlt with heq | hle
  · -- both would be mined for the same base block
    have hsame : base₁ = base₂ := by
      have hanc : net.tree.Ancestor base₁ base₂ :=
        (hin₁.cycle.1.trans hanc₁).of_height_le (hin₂.cycle.1.trans hanc₂) (by omega)
      exact hanc.eq_of_height_eq (by omega)
    have hheight := net.tree.height_parent hparent₂
    have hbelow : net.tree.Ancestor c₁ p₂ :=
      hanc₁.of_height_le ((BlockTree.ancestor_parent hparent₂).trans hanc₂) (by omega)
    exact absurd ⟨c₁, qc₁, hbelow, hmined₁, htype₁, by rw [← hsame, hin₁.hash_eq]⟩ hnew
  · omega

theorem ChainInv.pairwise_minedCycles (nHeight : Nat) :
    (minedCycles net s llmqType pindex nHeight).Pairwise
      fun newer older => net.tree.height older < net.tree.height newer := by
  induction nHeight with
  | zero => exact Pairwise.nil
  | succ nHeight ih =>
    refine pairwise_append.mpr ⟨?_, ih, ?_⟩
    · cases ((s.minedByHeight.lookup (llmqType, nHeight + 1)).bind
          (net.tree.ancestorAt pindex)) with
      | none => exact Pairwise.nil
      | some base => exact pairwise_singleton _ _
    · intro newer hnewer older holder
      rw [mem_toList] at hnewer
      obtain ⟨highBase, hhigh, hnewer⟩ := bind_eq_some_iff.mp hnewer
      obtain ⟨low, lowBase, -, hle, hlow, holder⟩ := mem_minedCycles.mp holder
      rw [BlockTree.height_of_ancestorAt hnewer, BlockTree.height_of_ancestorAt holder]
      exact (hinv.record_lt htip (by omega) hlow hhigh).1

theorem ChainInv.mem_minedCycles_iff (hanc : net.tree.Ancestor pindex tip) {base : B} :
    base ∈ minedCycles net s llmqType pindex (net.tree.height pindex) ↔
      MinedBelow net pindex llmqType base := by
  rw [mem_minedCycles]
  constructor
  · rintro ⟨minedHeight, baseHeight, hpos, hle, hlookup, hbase⟩
    obtain ⟨c, p, qc, params, first, hc, rfl, -, hmined, htype, rfl, hin, -⟩ :=
      hinv.record htip hlookup
    have hbelow : net.tree.Ancestor c pindex := hc.of_height_le hanc hle
    have hfirst : net.tree.ancestorAt pindex (net.tree.height first) = some first :=
      hin.cycle.1.trans hbelow
    obtain rfl := some.inj (hfirst.symm.trans hbase)
    exact ⟨c, qc, hbelow, hmined, htype, hin.hash_eq.symm⟩
  · rintro ⟨c, qc, hbelow, hmined, rfl, hhash⟩
    have hc := hbelow.trans hanc
    obtain ⟨p, params, first, hparent, hin, -⟩ := hinv.mined htip hc hmined
    obtain rfl : first = base := net.eq_of_hash_eq (hin.hash_eq.trans hhash)
    have hheight := net.tree.height_parent hparent
    refine ⟨net.tree.height c, net.tree.height first, by omega, hbelow.height_le, ?_, ?_⟩
    · exact hinv.heights.mpr ⟨tip, c, qc, first, htip, hc, rfl, hmined, rfl, hin.hash_eq, rfl⟩
    · exact hin.cycle.1.trans hbelow

theorem ChainInv.getMinedCommitments_eq (maxCount : Nat) :
    getMinedCommitmentsUntilBlock net s llmqType pindex (net.tree.height pindex)
      maxCount = some ((minedCycles net s llmqType pindex (net.tree.height pindex)).take maxCount) := by
  apply getMinedCommitmentsUntilBlock_eq
  intro minedHeight baseHeight hle hlookup
  obtain ⟨c, p, qc, params, first, -, rfl, -, -, -, rfl, hin, -⟩ := hinv.record htip hlookup
  exact hin.cycle.1.height_le.trans hle

end

end Walk

/-! ### Whole runs -/

section Runs

variable [DecidableEq B] {s₀ s : QuorumState B} {ops : List (QuorumOp B)}

theorem chainInv_of_run (hinit : InitialRecords net s₀)
    (hrun : Run (Accepts (stepQuorum net)) s₀ ops s) : ChainInv net s :=
  hrun.invariant (fun hinv hstep => hinv.step hstep) hinit.chainInv

end Runs

/-! ### A null commitment for another cycle -/

def nullCommitment (nVersion : Nat) (quorumIndex : Int) (base : Fin 5) : CFinalCommitment :=
  { forkCommitment with
    nVersion := nVersion, quorumHash := forkHash base, quorumIndex := quorumIndex,
    signers := [false], validMembers := [false], quorumPublicKey := none, quorumVvecHash := 0,
    quorumSig := none, membersSig := none }

/-- Blocks 0 to 2 are a chain, 3 and 4 children of 2. Blocks 1, 3 and 4 are in a mining window; 4
carries an indexed null commitment that names block 0. -/
def windowContext : QuorumContext (Fin 5) :=
  { forkContext with
    commitmentTxs := ![[], [some (nullCommitment 3 0 0)], [], [some forkCommitment],
      [some (nullCommitment 2 (-2) 0)]]
    genesis_commitmentTxs := rfl
    isQuorumTypeEnabled := fun _ _ => true
    getAllQuorumMembers := fun _ _ => [1] }

theorem QuorumContext.verifyCommitment_verify {B : Type} (ctx : QuorumContext B)
    (isV19ActiveAfter : B → Bool) (validSigs : CFinalCommitment → B → Bool)
    (verify : CFinalCommitment → B → Bool → Bool) :
    { ctx with verify }.verifyCommitment isV19ActiveAfter validSigs =
      ctx.verifyCommitment isV19ActiveAfter validSigs :=
  rfl

def windowNetwork : Network (Fin 5) where
  toQuorumContext :=
    { windowContext with
      verify := windowContext.verifyCommitment (fun _ => true) fun _ _ => true }
  isV19ActiveAfter := fun _ => true
  validSigs := fun _ _ => true
  verify_eq := (windowContext.verifyCommitment_verify _ _ _).symm
  quorumIndex_eq_zero := by
    have hall : ∀ b, ∀ tx ∈ windowContext.commitmentTxs b, ∀ qc ∈ tx,
        qc.isIndexed = false → qc.quorumIndex = 0 := by
      decide
    intro b qc hmem hindexed
    exact hall b (some qc) hmem qc rfl hindexed
  getBlockHash_ne_zero := by decide
  window := by decide

theorem initial_windowNetwork : InitialRecords windowNetwork forkState where
  toInitial := ⟨rfl, rfl, fun _ _ => rfl, fun _ _ => rfl, fun _ => rfl⟩
  minedByHeight := rfl
  scans _ _ := rfl

end Defcon.Llmq
