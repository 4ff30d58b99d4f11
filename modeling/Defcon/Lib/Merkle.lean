import Mathlib.Data.List.Basic
import Mathlib.Logic.Function.Iterate

/-!
# Merkle trees over a list of leaves

Neighbours are hashed level by level, an odd level repeats its last node, and a level with two
equal neighbours is reported as mutated. Where the node hash has no collisions and no first leaf is
itself a node, the root determines the leaves of a tree that is not mutated: the repeated node of an
odd level is the only way in which two lists share a level above them.
-/

namespace Lib.Merkle

open Function

variable {H : Type*}

def pairUp (node : H → H → H) : List H → List H
  | [] => []
  | [a] => [node a a]
  | a :: b :: rest => node a b :: pairUp node rest

def hasTwins [DecidableEq H] : List H → Bool
  | [] => false
  | [_] => false
  | a :: b :: rest => a = b || hasTwins rest

/-- The loop over the levels. Each halves the list, so its length is enough fuel. -/
def climb [DecidableEq H] (node : H → H → H) : Nat → List H → Bool → List H × Bool
  | 0, hashes, mutation => (hashes, mutation)
  | fuel + 1, hashes, mutation =>
    if 1 < hashes.length then climb node fuel (pairUp node hashes) (mutation || hasTwins hashes)
    else (hashes, mutation)

/-- The root, and whether the tree is mutated. -/
def computeMerkleRoot [DecidableEq H] (node : H → H → H) (null : H) (hashes : List H) : H × Bool :=
  let top := climb node hashes.length hashes false
  (top.1.headD null, top.2)

variable {node : H → H → H}

theorem length_pairUp (hashes : List H) : (pairUp node hashes).length = (hashes.length + 1) / 2 := by
  fun_induction pairUp node hashes with
  | case1 => simp
  | case2 => simp
  | case3 a b rest ih =>
    simp only [List.length_cons, ih]
    omega

theorem head?_pairUp {hashes : List H} (hne : hashes ≠ []) :
    ∃ a b, (pairUp node hashes).head? = some (node a b) := by
  match hashes, hne with
  | [a], _ => exact ⟨a, a, rfl⟩
  | a :: b :: _, _ => exact ⟨a, b, rfl⟩

theorem iterate_pairUp_ne_nil {hashes : List H} (hne : hashes ≠ []) (n : Nat) :
    (pairUp node)^[n] hashes ≠ [] := by
  induction n with
  | zero => exact hne
  | succ n ih =>
    rw [iterate_succ_apply']
    obtain ⟨a, b, hhead⟩ := @head?_pairUp H node _ ih
    intro heq
    rw [heq] at hhead
    cases hhead

variable [DecidableEq H]

def TwinFree (node : H → H → H) (hashes : List H) : Prop :=
  ∀ n, hasTwins ((pairUp node)^[n] hashes) = false

theorem TwinFree.pairUp {hashes : List H} (hfree : TwinFree node hashes) :
    TwinFree node (pairUp node hashes) := by
  intro n
  exact hfree (n + 1)

theorem twinFree_of_length_le_one {hashes : List H} (hle : hashes.length ≤ 1) :
    TwinFree node hashes := by
  intro n
  have hlength : ((pairUp node)^[n] hashes).length ≤ 1 := by
    induction n with
    | zero => exact hle
    | succ n ih =>
      rw [iterate_succ_apply', length_pairUp]
      omega
  match (pairUp node)^[n] hashes, hlength with
  | [], _ => rfl
  | [_], _ => rfl

theorem climb_spec {fuel : Nat} {hashes : List H} {mutation : Bool} (hfuel : hashes.length ≤ fuel + 1) :
    (∃ n, (climb node fuel hashes mutation).1 = (pairUp node)^[n] hashes) ∧
      (climb node fuel hashes mutation).1.length ≤ 1 ∧
      ((climb node fuel hashes mutation).2 = false ↔ mutation = false ∧ TwinFree node hashes) := by
  induction fuel generalizing hashes mutation with
  | zero => exact ⟨⟨0, rfl⟩, hfuel, (⟨·, twinFree_of_length_le_one hfuel⟩), And.left⟩
  | succ fuel ih =>
    rw [climb]
    split
    · have hshorter : (pairUp node hashes).length ≤ fuel + 1 := by
        rw [length_pairUp]
        omega
      obtain ⟨⟨n, hn⟩, hlength, hfree⟩ := @ih _ (mutation || hasTwins hashes) hshorter
      rw [Bool.or_eq_false_iff] at hfree
      refine ⟨⟨n + 1, hn⟩, hlength, fun hmutated => ?_, fun hnot => ?_⟩
      · obtain ⟨hnot, hup⟩ := hfree.mp hmutated
        refine ⟨hnot.1, fun m => ?_⟩
        cases m with
        | zero => exact hnot.2
        | succ m => exact hup m
      · exact hfree.mpr ⟨⟨hnot.1, hnot.2 0⟩, hnot.2.pairUp⟩
    next hnot =>
      have hle : hashes.length ≤ 1 := Nat.not_lt.mp hnot
      exact ⟨⟨0, rfl⟩, hle, (⟨·, twinFree_of_length_le_one hle⟩), And.left⟩

theorem computeMerkleRoot_spec {null : H} {hashes : List H} (hne : hashes ≠ []) :
    (∃ n, (pairUp node)^[n] hashes = [(computeMerkleRoot node null hashes).1]) ∧
      ((computeMerkleRoot node null hashes).2 = false → TwinFree node hashes) := by
  obtain ⟨⟨n, hn⟩, hlength, hfree⟩ :=
    @climb_spec H node _ hashes.length hashes false (Nat.le_succ _)
  refine ⟨⟨n, ?_⟩, fun hmutated => (hfree.mp hmutated).2⟩
  have htop := @iterate_pairUp_ne_nil H node _ hne n
  rw [← hn] at htop ⊢
  simp only [computeMerkleRoot]
  match (climb node hashes.length hashes false).1, hlength, htop with
  | [a], _, _ => rfl

theorem TwinFree.not_mutated {null : H} {hashes : List H} (hfree : TwinFree node hashes) :
    (computeMerkleRoot node null hashes).2 = false :=
  (@climb_spec H node _ hashes.length hashes false (Nat.le_succ _)).2.2.mpr ⟨rfl, hfree⟩

/-! ### The leaves behind a root -/

section Injective

variable (hinj : ∀ a b c d, node a b = node c d → a = c ∧ b = d)

include hinj

theorem pairUp_inj {l l' : List H} (hl : hasTwins l = false) (hl' : hasTwins l' = false)
    (heq : pairUp node l = pairUp node l') : l = l' := by
  fun_induction pairUp node l generalizing l' with
  | case1 =>
    match l' with
    | [] => rfl
    | [_] => cases heq
    | _ :: _ :: _ => cases heq
  | case2 a =>
    match l' with
    | [] => cases heq
    | [b] =>
      obtain ⟨rfl, -⟩ := hinj a a b b (List.cons.inj heq).1
      rfl
    | [b, c] =>
      obtain ⟨rfl, rfl⟩ := hinj a a b c (List.cons.inj heq).1
      simp [hasTwins] at hl'
    | b :: c :: d :: rest =>
      have hlength := congrArg List.length heq
      simp only [pairUp, List.length_cons, length_pairUp, List.length_nil] at hlength
      omega
  | case3 a b rest ih =>
    match l' with
    | [] => cases heq
    | [c] =>
      obtain ⟨hnode, hrest⟩ := List.cons.inj heq
      obtain ⟨rfl, rfl⟩ := hinj a b c c hnode
      simp [hasTwins] at hl
    | c :: d :: rest' =>
      obtain ⟨hnode, hrest⟩ := List.cons.inj heq
      obtain ⟨rfl, rfl⟩ := hinj a b c d hnode
      rw [hasTwins, Bool.or_eq_false_iff] at hl hl'
      rw [ih hl.2 hl'.2 hrest]

theorem iterate_eq_of_iterate_eq {l l' : List H} (hl : TwinFree node l) (hl' : TwinFree node l')
    {m n : Nat} (heq : (pairUp node)^[m] l = (pairUp node)^[m + n] l') :
    l = (pairUp node)^[n] l' := by
  induction m with
  | zero =>
    rw [Nat.zero_add] at heq
    exact heq
  | succ m ih =>
    apply ih
    rw [Nat.add_right_comm, iterate_succ_apply', iterate_succ_apply'] at heq
    exact pairUp_inj hinj (hl m) (hl' (m + n)) heq

/-- A first leaf that is no node lies at the bottom of every tree it starts. -/
theorem eq_of_iterate_eq {l l' : List H} (hl : TwinFree node l) (hl' : TwinFree node l')
    (hne' : l' ≠ []) (hleaf : ∀ a b, l.head? ≠ some (node a b)) {m n : Nat}
    (heq : (pairUp node)^[m] l = (pairUp node)^[m + n] l') : l = l' := by
  have hbelow := iterate_eq_of_iterate_eq hinj hl hl' heq
  cases n with
  | zero => exact hbelow
  | succ n =>
    rw [iterate_succ_apply'] at hbelow
    obtain ⟨a, b, hhead⟩ := @head?_pairUp H node _ (iterate_pairUp_ne_nil hne' n)
    exact absurd (hbelow ▸ hhead) (hleaf a b)

theorem eq_of_computeMerkleRoot_eq {null : H} {l l' : List H} (hne : l ≠ []) (hne' : l' ≠ [])
    (hleaf : ∀ a b, l.head? ≠ some (node a b)) (hleaf' : ∀ a b, l'.head? ≠ some (node a b))
    (hl : (computeMerkleRoot node null l).2 = false)
    (hl' : (computeMerkleRoot node null l').2 = false)
    (hroot : (computeMerkleRoot node null l).1 = (computeMerkleRoot node null l').1) : l = l' := by
  obtain ⟨⟨m, hm⟩, hfree⟩ := @computeMerkleRoot_spec H node _ null _ hne
  obtain ⟨⟨m', hm'⟩, hfree'⟩ := @computeMerkleRoot_spec H node _ null _ hne'
  have hmeet : (pairUp node)^[m] l = (pairUp node)^[m'] l' := by rw [hm, hm', hroot]
  rcases Nat.le_total m m' with hle | hle
  · obtain ⟨n, rfl⟩ := Nat.exists_eq_add_of_le hle
    exact eq_of_iterate_eq hinj (hfree hl) (hfree' hl') hne' hleaf hmeet
  · obtain ⟨n, rfl⟩ := Nat.exists_eq_add_of_le hle
    exact (eq_of_iterate_eq hinj (hfree' hl') (hfree hl) hne hleaf' hmeet.symm).symm

end Injective

end Lib.Merkle
