import Defcon.Lib.AssocMap

/-!
# Tallies

A map that counts has a key exactly while the count is positive: incrementing creates the entry and
decrementing to zero removes it. `TallyOf` says which counts a map has, and every update of the map
is an update of the counts.
-/

namespace Lib

open AList (Map)

variable {κ : Type*} [DecidableEq κ]

def increment (m : Map κ Nat) (k : κ) : Map κ Nat :=
  m.modifyD k 0 (· + 1)

def decrement (m : Map κ Nat) (k : κ) : Map κ Nat :=
  match m.lookup k with
  | none => m
  | some n => if n - 1 = 0 then m.erase k else m.insert k (n - 1)

def TallyOf (m : Map κ Nat) (f : κ → Nat) : Prop :=
  ∀ k, m.lookup k = if f k = 0 then none else some (f k)

namespace TallyOf

variable {m : Map κ Nat} {f g : κ → Nat}

theorem empty : TallyOf (∅ : Map κ Nat) fun _ => 0 :=
  fun _ => rfl

section

variable (h : TallyOf m f)

include h

theorem congr (hfg : ∀ k, f k = g k) : TallyOf m g := by
  intro k
  rw [h k, hfg k]

theorem lookup_getD (k : κ) : (m.lookup k).getD 0 = f k := by
  rw [h k]
  split
  · rename_i hzero
    exact hzero.symm
  · rfl

theorem mem_iff {k : κ} : k ∈ m ↔ f k ≠ 0 := by
  rw [← AList.lookup_isSome, h k]
  split
  · rename_i hzero
    simp [hzero]
  · rename_i hpos
    simp [hpos]

theorem lookup_eq_some {k : κ} {n : Nat} (hlookup : m.lookup k = some n) : f k = n := by
  have hvalue := h.lookup_getD k
  rw [hlookup] at hvalue
  exact hvalue.symm

theorem increment (k : κ) : TallyOf (increment m k) fun j => f j + if j = k then 1 else 0 := by
  intro j
  rw [Lib.increment, AList.lookup_modifyD, h.lookup_getD]
  by_cases hj : j = k
  · subst hj
    simp
  · simpa [hj] using h j

theorem foldl_increment (ks : List κ) :
    TallyOf (ks.foldl Lib.increment m) fun j => f j + ks.count j := by
  induction ks generalizing m f with
  | nil => exact h
  | cons k ks ih =>
    refine (ih (h.increment k)).congr fun j => ?_
    rw [List.count_cons, Nat.add_assoc, Nat.add_comm (ks.count j)]
    simp only [beq_iff_eq, @eq_comm κ k j]

theorem erase (k : κ) : TallyOf (m.erase k) fun j => if j = k then 0 else f j := by
  intro j
  rw [AList.lookup_erase_eq_ite]
  by_cases hj : j = k
  · simp [hj]
  · simpa [hj] using h j

theorem decrement (k : κ) : TallyOf (decrement m k) fun j => f j - if j = k then 1 else 0 := by
  unfold Lib.decrement
  cases hk : m.lookup k with
  | none =>
    have hzero : f k = 0 := by
      by_contra hpos
      rw [h k, if_neg hpos] at hk
      cases hk
    refine h.congr fun j => ?_
    by_cases hj : j = k
    · subst hj
      simp [hzero]
    · simp [hj]
  | some n =>
    obtain rfl := h.lookup_eq_some hk
    dsimp only
    split
    · rename_i hone
      refine (h.erase k).congr fun j => ?_
      by_cases hj : j = k
      · subst hj
        simpa using hone.symm
      · simp [hj]
    · rename_i hmore
      intro j
      by_cases hj : j = k
      · subst hj
        simp [hmore]
      · simpa [hj] using h j

theorem foldl_decrement {ks : List κ} (hnodup : ks.Nodup) :
    TallyOf (ks.foldl Lib.decrement m) fun j => f j - if j ∈ ks then 1 else 0 := by
  induction ks generalizing m f with
  | nil => exact h.congr fun j => by simp
  | cons k ks ih =>
    obtain ⟨hk, hnodup⟩ := List.nodup_cons.mp hnodup
    refine (ih (h.decrement k) hnodup).congr fun j => ?_
    by_cases hj : j = k
    · subst hj
      simp [hk]
    · simp [hj]

end

end TallyOf

end Lib
