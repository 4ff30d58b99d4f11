import Mathlib
import Defcon.Primitives

/-!
# The relay graph of a quorum

The members of a quorum stand in a ring, and each relays to the members one, two, four and so on
places after it, at least two of them. The largest gap is between a quarter and a half of the ring,
so a path needs up to three of these and then each smaller gap at most once.
-/

namespace Defcon.Llmq

open List

/-- `b` is reached from `a` by at most that many steps. -/
def Within {α : Type} (R : α → α → Prop) : Nat → α → α → Prop
  | 0, a, b => a = b
  | hops + 1, a, b => Within R hops a b ∨ ∃ c, R a c ∧ Within R hops c b

section

variable {α : Type} {R : α → α → Prop} {a b c : α} {m n : Nat}

theorem Within.trans (hab : Within R m a b) (hbc : Within R n b c) : Within R (m + n) a c := by
  induction m generalizing a with
  | zero =>
    obtain rfl : a = b := hab
    rwa [Nat.zero_add]
  | succ m ih =>
    rw [Nat.succ_add]
    obtain hab | ⟨d, had, hdb⟩ := hab
    · exact .inl (ih hab)
    · exact .inr ⟨d, had, ih hdb⟩

theorem Within.mono (hab : Within R m a b) (hle : m ≤ n) : Within R n a b := by
  induction hle with
  | refl => exact hab
  | step _ ih => exact .inl ih

end

variable (mns : List Uint256)

/-- The loop of `calcOutbound`. -/
def outboundFrom (i : Nat) (proTxHash : Uint256) (gap gap_max k : Nat) : List Uint256 :=
  if gap_max / 2 ≠ 0 ∨ k ≤ 1 then
    (mns[(i + gap) % mns.length]?.filter (· ≠ proTxHash)).toList ++
      outboundFrom i proTxHash (gap * 2) (gap_max / 2) (k + 1)
  else []
termination_by gap_max + (2 - k)

def calcOutbound (i : Nat) (proTxHash : Uint256) : List Uint256 :=
  if mns.length = 1 then [] else outboundFrom mns i proTxHash 1 (mns.length - 1) 0

def getQuorumRelayMembers (forMember : Uint256) (onlyOutbound : Bool) : List Uint256 :=
  mns.zipIdx.flatMap fun (dmn, i) =>
    let r := calcOutbound mns i dmn
    if dmn = forMember then r else if !onlyOutbound && forMember ∈ r then [dmn] else []

def Outbound (a b : Uint256) : Prop :=
  ∃ i, mns[i]? = some a ∧ b ∈ calcOutbound mns i a

variable {mns} {i : Nat} {a b : Uint256}

theorem mem_outboundFrom {gap gap_max k : Nat} :
    b ∈ outboundFrom mns i a gap gap_max k ↔ ∃ j < max gap_max.log2 (2 - k),
      mns[(i + gap * 2 ^ j) % mns.length]? = some b ∧ b ≠ a := by
  fun_induction outboundFrom mns i a gap gap_max k with
  | case1 gap gap_max k hgo ih =>
    have hsteps : max gap_max.log2 (2 - k) = max (gap_max / 2).log2 (2 - (k + 1)) + 1 := by
      clear ih
      rw [Nat.log2_def gap_max]
      split
      · omega
      · have : gap_max / 2 = 0 := by omega
        simp only [this, Nat.log2_zero]
        omega
    rw [hsteps, Nat.exists_lt_succ_left, mem_append, ih]
    simp only [Nat.pow_succ', Nat.pow_zero, Nat.mul_one, Nat.mul_assoc, Option.mem_toList,
      Option.filter_eq_some_iff, decide_eq_true_eq]
  | case2 gap gap_max k hstop =>
    have hlog : gap_max.log2 = 0 := by
      rw [Nat.log2_def, if_neg]
      omega
    have : 2 - k = 0 := by omega
    simp [hlog, this]

theorem mem_calcOutbound (hn : 2 ≤ mns.length) :
    b ∈ calcOutbound mns i a ↔ ∃ j < max (mns.length - 1).log2 2,
      mns[(i + 2 ^ j) % mns.length]? = some b ∧ b ≠ a := by
  rw [calcOutbound, if_neg (by omega), mem_outboundFrom]
  simp only [Nat.one_mul, Nat.sub_zero]

theorem mem_relayMembers {onlyOutbound : Bool} :
    b ∈ getQuorumRelayMembers mns a onlyOutbound ↔
      Outbound mns a b ∨ (onlyOutbound = false ∧ b ≠ a ∧ Outbound mns b a) := by
  simp only [getQuorumRelayMembers, mem_flatMap, Prod.exists, mem_zipIdx_iff_getElem?]
  constructor
  · rintro ⟨dmn, i, hi, hb⟩
    split at hb
    next heq => exact .inl ⟨i, heq ▸ hi, heq ▸ hb⟩
    next hne =>
      split at hb
      next hin =>
        rw [Bool.and_eq_true, Bool.not_eq_true', decide_eq_true_eq] at hin
        rw [mem_singleton.mp hb]
        exact .inr ⟨hin.1, hne, i, hi, hin.2⟩
      · cases hb
  · rintro (⟨i, hi, hb⟩ | ⟨rfl, hne, i, hi, ha⟩)
    · exact ⟨a, i, hi, by rwa [if_pos rfl]⟩
    · exact ⟨b, i, hi, by simp [hne, ha]⟩

section

variable (hn : 2 ≤ mns.length)

include hn

theorem not_outbound_self : ¬ Outbound mns a a := by
  rintro ⟨i, -, ha⟩
  obtain ⟨-, -, -, hne⟩ := (mem_calcOutbound hn).mp ha
  exact hne rfl

theorem exists_at (i : Nat) : ∃ c, mns[i % mns.length]? = some c :=
  ⟨_, getElem?_eq_getElem (Nat.mod_lt i (by omega))⟩

theorem within_hop {j : Nat} (hj : j < max (mns.length - 1).log2 2)
    (ha : mns[i % mns.length]? = some a) (hb : mns[(i + 2 ^ j) % mns.length]? = some b) :
    Within (Outbound mns) 1 a b := by
  by_cases heq : a = b
  · exact .inl heq
  · refine .inr ⟨b, ⟨_, ha, (mem_calcOutbound hn).mpr ⟨j, hj, ?_, Ne.symm heq⟩⟩, rfl⟩
    rwa [Nat.mod_add_mod]

theorem within_hops {j q : Nat} (hj : j < max (mns.length - 1).log2 2)
    (ha : mns[i % mns.length]? = some a) (hb : mns[(i + q * 2 ^ j) % mns.length]? = some b) :
    Within (Outbound mns) q a b := by
  induction q generalizing i a with
  | zero =>
    rw [Nat.zero_mul, Nat.add_zero, ha] at hb
    exact Option.some.inj hb
  | succ q ih =>
    obtain ⟨c, hc⟩ := exists_at hn (i + 2 ^ j)
    rw [Nat.succ_mul, Nat.add_comm (q * 2 ^ j), ← Nat.add_assoc] at hb
    rw [Nat.add_comm]
    exact (within_hop hn hj ha hc).trans (ih hc hb)

/-- The gaps up to `2 ^ j` cover any distance: the largest as often as it fits, each other one at
most once. -/
theorem within_distance {j d : Nat} (hj : j < max (mns.length - 1).log2 2)
    (ha : mns[i % mns.length]? = some a) (hb : mns[(i + d) % mns.length]? = some b) :
    Within (Outbound mns) (d / 2 ^ j + j) a b := by
  induction j generalizing i a d with
  | zero =>
    rw [Nat.pow_zero, Nat.div_one]
    exact within_hops hn hj ha (by rwa [Nat.pow_zero, Nat.mul_one])
  | succ j ih =>
    obtain ⟨c, hc⟩ := exists_at hn (i + d / 2 ^ (j + 1) * 2 ^ (j + 1))
    have hrest : i + d / 2 ^ (j + 1) * 2 ^ (j + 1) + d % 2 ^ (j + 1) = i + d := by
      rw [Nat.add_assoc, Nat.div_add_mod']
    have hlt : d % 2 ^ (j + 1) / 2 ^ j < 2 := by
      rw [Nat.div_lt_iff_lt_mul (Nat.two_pow_pos j), ← Nat.pow_succ']
      exact Nat.mod_lt _ (Nat.two_pow_pos _)
    refine ((within_hops hn hj ha hc).trans (ih (by omega) hc (hrest ▸ hb))).mono ?_
    omega

end

/-- Every member is reached from every other one in a logarithmic number of hops, nobody relays to
itself, and in both directions the relation is symmetric. -/
theorem relay_graph (hn : 2 ≤ mns.length) :
    (∀ a ∈ mns, ∀ b ∈ mns, Within (fun x y => y ∈ getQuorumRelayMembers mns x true)
      ((mns.length - 1).log2 + 2) a b) ∧
    (∀ a onlyOutbound, a ∉ getQuorumRelayMembers mns a onlyOutbound) ∧
    (∀ a b, b ∈ getQuorumRelayMembers mns a false ↔ a ∈ getQuorumRelayMembers mns b false) ∧
    ∀ a b, b ∈ getQuorumRelayMembers mns a false ↔
      b ∈ getQuorumRelayMembers mns a true ∨ a ∈ getQuorumRelayMembers mns b true := by
  have houtbound (a b : Uint256) : b ∈ getQuorumRelayMembers mns a true ↔ Outbound mns a b := by
    simp [mem_relayMembers]
  have hboth (a b : Uint256) : b ∈ getQuorumRelayMembers mns a false ↔
      Outbound mns a b ∨ Outbound mns b a := by
    rw [mem_relayMembers]
    refine or_congr_right ⟨fun h => h.2.2, fun h => ⟨rfl, ?_, h⟩⟩
    rintro rfl
    exact not_outbound_self hn h
  refine ⟨fun a ha b hb => ?_, fun a onlyOutbound => ?_, fun a b => ?_, fun a b => ?_⟩
  · simp only [houtbound]
    obtain ⟨i, hi, rfl⟩ := mem_iff_getElem.mp ha
    obtain ⟨i', hi', rfl⟩ := mem_iff_getElem.mp hb
    obtain ⟨d, hd, hsum⟩ : ∃ d < mns.length, (i + d) % mns.length = i' := by
      rcases Nat.lt_or_ge i' i with hlt | hle
      · refine ⟨mns.length - (i - i'), by omega, ?_⟩
        rw [show i + (mns.length - (i - i')) = mns.length + i' by omega, Nat.add_mod_left,
          Nat.mod_eq_of_lt hi']
      · exact ⟨i' - i, by omega, by rw [Nat.add_sub_of_le hle, Nat.mod_eq_of_lt hi']⟩
    have hdist {j : Nat} (hj : j < max (mns.length - 1).log2 2) :
        Within (Outbound mns) (d / 2 ^ j + j) mns[i] mns[i'] :=
      within_distance hn hj (by rw [Nat.mod_eq_of_lt hi, getElem?_eq_getElem hi])
        (by rw [hsum, getElem?_eq_getElem hi'])
    have hlog : d < 2 ^ ((mns.length - 1).log2 + 1) :=
      Nat.lt_of_le_of_lt (by omega) Nat.lt_log2_self
    generalize (mns.length - 1).log2 = log at hdist hlog ⊢
    match log with
    | 0 => exact (hdist (j := 1) (by omega)).mono (by omega)
    | 1 => exact (hdist (j := 1) (by omega)).mono (by omega)
    | log + 2 =>
      refine (hdist (j := log + 1) (by omega)).mono ?_
      rw [show log + 2 + 1 = 2 + (log + 1) by omega, Nat.pow_add] at hlog
      have := (Nat.div_lt_iff_lt_mul (Nat.two_pow_pos _)).mpr hlog
      omega
  · rw [mem_relayMembers]
    rintro (h | ⟨-, hne, -⟩)
    · exact not_outbound_self hn h
    · exact hne rfl
  · rw [hboth, hboth, or_comm]
  · rw [hboth, houtbound, houtbound]

theorem relay_graph_five :
    2 ≤ [10, 20, 30, 40, (50 : Uint256)].length ∧
      Within (fun x y => y ∈ getQuorumRelayMembers [10, 20, 30, 40, 50] x true) 4 10 50 :=
  ⟨by decide, (@relay_graph [10, 20, 30, 40, 50] (by decide)).1 10 (by decide) 50 (by decide)⟩

end Defcon.Llmq
