import Mathlib.Tactic.Linarith
import Defcon.Llmq.Params

/-!
# Which quorum types form

A quorum type is enabled for the block after a given one until its formation end, and the profile
that takes over the ChainLocks from its formation start on. For a cycle whose base is still to come
the rule is asked at the tip, where that profile may not have started yet.
-/

namespace Defcon.Llmq

open Lib (BlockTree)

structure Options (B : Type) where
  tree : BlockTree B
  llmqs : List LLMQParams
  dkgInterval_pos : ∀ params ∈ llmqs, 0 < params.dkgInterval
  available_llmqs : List LLMQParams
  llmqFormationEndHeights : LLMQType → Option Int
  llmqTypeChainLocksV2 : LLMQType
  nChainLocksV2ActivationHeight : Int
  isDevnet : Bool
  testDummyActiveAfter : B → Bool

namespace Options

def LLMQ_NONE : LLMQType := 0xff
def LLMQ_50_60 : LLMQType := 1
def LLMQ_400_60 : LLMQType := 2
def LLMQ_400_85 : LLMQType := 3
def LLMQ_100_67 : LLMQType := 4
def LLMQ_60_75 : LLMQType := 5
def LLMQ_25_67 : LLMQType := 6
def LLMQ_DEFCON : LLMQType := 7
def LLMQ_TEST : LLMQType := 100
def LLMQ_DEVNET : LLMQType := 101
def LLMQ_TEST_V17 : LLMQType := 102
def LLMQ_TEST_INSTANTSEND : LLMQType := 104
def LLMQ_TEST_PLATFORM : LLMQType := 106
def LLMQ_DEVNET_PLATFORM : LLMQType := 107

def INT_MAX : Int := 2 ^ 31 - 1

variable {B : Type} (o : Options B) (llmqType : LLMQType)

/-- `none` stands for a failed assertion, here and below also for an exception. -/
def chainLocksV2FormationLead : Option Int :=
  if o.llmqTypeChainLocksV2 = LLMQ_NONE ∨ o.nChainLocksV2ActivationHeight = INT_MAX then some 0
  else (o.available_llmqs.find? (·.type = o.llmqTypeChainLocksV2)).map fun profile =>
    ((profile.signingActiveQuorumCount + 1) * profile.dkgInterval : Nat)

def getQuorumFormationEndHeight : Int :=
  (o.llmqFormationEndHeights llmqType).getD INT_MAX

/-- `IsQuorumTypeEnabledInternal` for the block at height `next`. -/
def enabledFor (next : Int) (testDummyActive : Bool) : Option Bool :=
  if o.getQuorumFormationEndHeight llmqType ≤ next then some false
  else if llmqType = LLMQ_DEVNET then some true
  else if llmqType = LLMQ_DEFCON then
    if o.nChainLocksV2ActivationHeight = INT_MAX then some false
    else if o.llmqs.all (·.type ≠ llmqType) then none
    else o.chainLocksV2FormationLead.map fun formation_lead =>
      o.nChainLocksV2ActivationHeight - formation_lead ≤ next
  else if llmqType ∈ [LLMQ_25_67, LLMQ_50_60, LLMQ_60_75] then some o.isDevnet
  else if llmqType ∈ [LLMQ_TEST_INSTANTSEND, LLMQ_TEST, LLMQ_TEST_PLATFORM, LLMQ_400_60,
      LLMQ_400_85, LLMQ_DEVNET_PLATFORM] then some true
  else if llmqType = LLMQ_TEST_V17 then some testDummyActive
  else if llmqType = LLMQ_100_67 then some false
  else none

def isQuorumTypeEnabled : Option B → Option Bool
  | none => some false
  | some pindexPrev =>
    o.enabledFor llmqType (o.tree.height pindexPrev + 1) (o.testDummyActiveAfter pindexPrev)

def getAncestor (pindex : B) (height : Int) : Option B :=
  if height < 0 then none else o.tree.ancestorAt pindex height.toNat

variable (pindexTip : B)

def isQuorumCycleEnabled (cycle_base_height : Int) : Option Bool :=
  let predecessor_height := cycle_base_height - 1
  if predecessor_height ≤ o.tree.height pindexTip then
    o.isQuorumTypeEnabled llmqType (o.getAncestor pindexTip predecessor_height)
  else if o.getQuorumFormationEndHeight llmqType ≤ cycle_base_height then some false
  else o.isQuorumTypeEnabled llmqType (some pindexTip)

def getBlocksUntilNextDKG : Option Int :=
  o.llmqs.foldlM (fun blocks params => do
    let stage : Int := o.tree.height pindexTip % params.dkgInterval
    let cycle_base := o.tree.height pindexTip - stage
    if ← o.isQuorumCycleEnabled params.type pindexTip (cycle_base + params.dkgInterval) then
      pure (min blocks (params.dkgInterval - stage))
    else pure blocks) INT_MAX

/-! ### The forecast -/

variable {o llmqType pindexTip} {p : B}

/-- The ChainLock profile has started to form at height `next`, or has not at height `later`. -/
def NoStartBetween (o : Options B) (next later : Int) : Prop :=
  ∀ formation_lead ∈ o.chainLocksV2FormationLead,
    o.nChainLocksV2ActivationHeight - formation_lead ≤ next ∨
      later < o.nChainLocksV2ActivationHeight - formation_lead

theorem enabledFor_eq (hkind : llmqType ≠ LLMQ_TEST_V17) {next later : Int} (hle : next ≤ later)
    (hend : later < o.getQuorumFormationEndHeight llmqType)
    (hstart : llmqType = LLMQ_DEFCON → o.NoStartBetween next later) (testDummy testDummy' : Bool) :
    o.enabledFor llmqType next testDummy = o.enabledFor llmqType later testDummy' := by
  unfold enabledFor
  rw [if_neg (not_le.mpr hend), if_neg (not_le.mpr (lt_of_le_of_lt hle hend)), if_neg hkind,
    if_neg hkind]
  by_cases hdefcon : llmqType = LLMQ_DEFCON
  · have hsame : (o.chainLocksV2FormationLead.map fun formation_lead =>
          decide (o.nChainLocksV2ActivationHeight - formation_lead ≤ next)) =
        o.chainLocksV2FormationLead.map fun formation_lead =>
          decide (o.nChainLocksV2ActivationHeight - formation_lead ≤ later) := by
      refine Option.map_congr fun lead hlead => decide_eq_decide.mpr ?_
      have := hstart hdefcon lead hlead
      omega
    rw [hsame]
  · rw [if_neg hdefcon, if_neg hdefcon]

theorem isQuorumCycleEnabled_eq_ite {base : Int} (hbase : o.tree.height pindexTip < base) :
    o.isQuorumCycleEnabled llmqType pindexTip base =
      if o.getQuorumFormationEndHeight llmqType ≤ base then some false
      else o.isQuorumTypeEnabled llmqType (some pindexTip) := by
  unfold isQuorumCycleEnabled
  dsimp only
  split
  next hreached =>
    obtain rfl : base = o.tree.height pindexTip + 1 := by omega
    rw [Int.add_sub_cancel, getAncestor, if_neg (by omega), Int.toNat_natCast,
      BlockTree.ancestorAt_self]
    split
    next hend => exact if_pos hend
    · rfl
  · rfl

theorem isQuorumCycleEnabled_eq (hkind : llmqType ≠ LLMQ_TEST_V17)
    (hp : o.tree.Ancestor pindexTip p)
    (hstart : llmqType = LLMQ_DEFCON →
      o.NoStartBetween (o.tree.height pindexTip + 1) (o.tree.height p + 1)) :
    o.isQuorumCycleEnabled llmqType pindexTip (o.tree.height p + 1) =
      o.isQuorumTypeEnabled llmqType (some p) := by
  have hle := hp.height_le
  rw [isQuorumCycleEnabled_eq_ite (by omega)]
  split
  next hend => exact (if_pos hend).symm
  next hend => exact enabledFor_eq hkind (by omega) (not_le.mp hend) hstart _ _

theorem foldlM_min {α : Type} {f : α → Option Bool} {d : α → Int} {l : List α}
    (hf : ∀ a ∈ l, f a ≠ none) (start : Int) :
    ∃ m, l.foldlM (fun m a => do if ← f a then pure (min m (d a)) else pure m) start = some m ∧
      m ≤ start ∧ (∀ a ∈ l, f a = some true → m ≤ d a) ∧
      (m = start ∨ ∃ a ∈ l, f a = some true ∧ m = d a) := by
  induction l generalizing start with
  | nil => exact ⟨start, rfl, le_refl _, by simp, .inl rfl⟩
  | cons a l ih =>
    rw [List.forall_mem_cons] at hf
    obtain ⟨b, hb⟩ := Option.ne_none_iff_exists'.mp hf.1
    obtain ⟨m, hm, hle, hall, hwhere⟩ := ih hf.2 (if b then min start (d a) else start)
    refine ⟨m, ?_, ?_, ?_, ?_⟩
    · rw [List.foldlM_cons, ← hm, hb]
      cases b <;> rfl
    · exact hle.trans (by split <;> omega)
    · simp only [List.forall_mem_cons]
      refine ⟨fun htrue => ?_, hall⟩
      obtain rfl := Option.some.inj (hb.symm.trans htrue)
      exact hle.trans (min_le_right _ _)
    · simp only [List.exists_mem_cons_iff]
      rcases hwhere with hwhere | hwhere
      · cases b with
        | false => exact .inl hwhere
        | true =>
          rcases min_choice start (d a) with hmin | hmin
          · exact .inl (hwhere.trans hmin)
          · exact .inr (.inl ⟨hb, hwhere.trans hmin⟩)
      · exact .inr (.inr hwhere)

theorem nextBase_spec {h k : Int} (hk : 0 < k) :
    h < h - h % k + k ∧ k ∣ h - h % k + k ∧ ∀ base, h < base → k ∣ base → h - h % k + k ≤ base := by
  have hbase : h - h % k + k = k * (h / k + 1) := by
    have := Int.mul_ediv_add_emod h k
    rw [mul_add, mul_one]
    omega
  have := Int.emod_lt_of_pos h hk
  refine ⟨by omega, ⟨_, hbase⟩, ?_⟩
  rintro _ hlt ⟨q, rfl⟩
  rw [hbase]
  refine mul_le_mul_of_nonneg_left ?_ hk.le
  exact Int.ediv_lt_of_lt_mul hk (by rwa [mul_comm])

/-- A line of blocks on which the profile is to take over at height 7, one cycle of four blocks after
its first. -/
def sample : Options Nat where
  tree :=
    { parent := fun | 0 => none | n + 1 => some n
      height := id
      height_root := fun {n} hroot => by cases n <;> [rfl; cases hroot]
      height_parent := fun {n _} hparent => by cases n <;> cases hparent; rfl }
  llmqs := [⟨LLMQ_DEFCON, 1, 1, 1, 4, 2, 3, 1, 0, 0, 1, 1⟩]
  dkgInterval_pos := by decide
  available_llmqs := [⟨LLMQ_DEFCON, 1, 1, 1, 4, 2, 3, 1, 0, 0, 1, 1⟩]
  llmqFormationEndHeights _ := none
  llmqTypeChainLocksV2 := LLMQ_DEFCON
  nChainLocksV2ActivationHeight := 7
  isDevnet := false
  testDummyActiveAfter _ := false

end Options

end Defcon.Llmq
