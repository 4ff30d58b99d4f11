import Mathlib.Data.List.Sort

/-!
# Sorting with a strict comparison

Code sorts with a strict comparison, which Mathlib's `insertionSort` does not assume to be total.
For a comparison that separates different elements the result still depends on the elements only
and not on the order they come in.
-/

namespace Lib

open List

/-- A strict comparison in which two elements that neither precedes the other are equal. -/
structure StrictComparison {α : Type*} (before : α → α → Prop) : Prop where
  asymm : ∀ {a b}, before a b → ¬before b a
  trans : ∀ {a b c}, before a b → before b c → before a c
  eq_of_not : ∀ {a b}, ¬before a b → ¬before b a → a = b

theorem StrictComparison.of_key {α κ : Type*} [LinearOrder κ] {before : α → α → Prop} (key : α → κ)
    (hinjective : Function.Injective key) (hiff : ∀ {a b}, before a b ↔ key a < key b) :
    StrictComparison before where
  asymm hab hba := lt_asymm (hiff.mp hab) (hiff.mp hba)
  trans hab hbc := hiff.mpr ((hiff.mp hab).trans (hiff.mp hbc))
  eq_of_not hab hba := hinjective
    (le_antisymm (not_lt.mp (mt hiff.mpr hba)) (not_lt.mp (mt hiff.mpr hab)))

variable {α : Type*} {before : α → α → Prop} [DecidableRel before]

section

variable (hcmp : StrictComparison before)

include hcmp

theorem StrictComparison.not_trans {a b c : α} (hab : ¬before b a) (hbc : ¬before c b) :
    ¬before c a := by
  intro hca
  by_cases hcmp' : before a b
  · exact hbc (hcmp.trans hca hcmp')
  · rw [hcmp.eq_of_not hcmp' hab] at hca
    exact hbc hca

theorem StrictComparison.pairwise_orderedInsert (a : α) {l : List α}
    (hsorted : l.Pairwise fun a b => ¬before b a) :
    (l.orderedInsert before a).Pairwise fun a b => ¬before b a := by
  induction l with
  | nil => exact pairwise_singleton _ a
  | cons b l ih =>
    obtain ⟨hhead, htail⟩ := pairwise_cons.mp hsorted
    rw [orderedInsert_cons]
    split
    · rename_i hab
      refine pairwise_cons.mpr ⟨?_, hsorted⟩
      intro c hc
      rcases mem_cons.mp hc with rfl | hc
      · exact hcmp.asymm hab
      · exact hcmp.not_trans (hcmp.asymm hab) (hhead c hc)
    · rename_i hab
      refine pairwise_cons.mpr ⟨?_, ih htail⟩
      intro c hc
      rcases (mem_orderedInsert before).mp hc with rfl | hc
      · exact hab
      · exact hhead c hc

theorem StrictComparison.pairwise_insertionSort (l : List α) :
    (l.insertionSort before).Pairwise fun a b => ¬before b a := by
  induction l with
  | nil => exact List.Pairwise.nil
  | cons a l ih => exact hcmp.pairwise_orderedInsert a ih

theorem StrictComparison.insertionSort_eq_of_perm {l l' : List α} (hperm : l.Perm l') :
    l.insertionSort before = l'.insertionSort before := by
  have hsorted : (l.insertionSort before).Perm (l'.insertionSort before) :=
    (perm_insertionSort before l).trans
      (hperm.trans (perm_insertionSort before l').symm)
  refine hsorted.eq_of_pairwise ?_ (hcmp.pairwise_insertionSort l) (hcmp.pairwise_insertionSort l')
  intro a b _ _ hab hba
  exact hcmp.eq_of_not hba hab

theorem StrictComparison.pairwise_insertionSort_of_nodup {l : List α} (hnodup : l.Nodup) :
    (l.insertionSort before).Pairwise before := by
  have hne := (perm_insertionSort before l).nodup_iff.mpr hnodup
  refine ((hcmp.pairwise_insertionSort l).and hne).imp fun {a b} hab => ?_
  by_contra hnot
  exact hab.2 (hcmp.eq_of_not hnot hab.1)

end

/-- Of the first `n + 1` elements one may be the element that is left out. -/
theorem take_filter_take_succ [DecidableEq α] {l : List α} (hnodup : l.Nodup) (a : α) (n : Nat) :
    ((l.take (n + 1)).filter (· ≠ a)).take n = (l.filter (· ≠ a)).take n := by
  induction l generalizing n with
  | nil => rfl
  | cons b l ih =>
    obtain ⟨hb, hl⟩ := nodup_cons.mp hnodup
    by_cases hba : b = a
    · subst hba
      have hself {l' : List α} (hsub : l' ⊆ l) : l'.filter (· ≠ b) = l' :=
        filter_eq_self.mpr fun c hc => decide_eq_true fun heq => hb (heq ▸ hsub hc)
      rw [take_succ_cons, filter_cons_of_neg (by simp), filter_cons_of_neg (by simp),
        hself (take_subset n l), hself (List.Subset.refl l), take_take, min_self]
    · cases n with
      | zero => rfl
      | succ n =>
        rw [take_succ_cons, filter_cons_of_pos (by simpa using hba),
          filter_cons_of_pos (by simpa using hba), take_succ_cons, take_succ_cons,
          ih hl n]

theorem forall₂_of_ascending {β κ : Type*} [LinearOrder κ] {key : α → κ} {key' : β → κ}
    {R : α → β → Prop} (hkey : ∀ {a b}, R a b → key a = key' b) {l : List α} {l' : List β}
    (hl : l.Pairwise fun a b => key a < key b) (hl' : l'.Pairwise fun a b => key' a < key' b)
    (hleft : ∀ a ∈ l, ∃ b ∈ l', R a b) (hright : ∀ b ∈ l', ∃ a ∈ l, R a b) :
    List.Forall₂ R l l' := by
  induction l generalizing l' with
  | nil =>
    cases l' with
    | nil => exact List.Forall₂.nil
    | cons b l' =>
      obtain ⟨a, ha, -⟩ := hright b mem_cons_self
      cases ha
  | cons a l ih =>
    cases l' with
    | nil =>
      obtain ⟨b, hb, -⟩ := hleft a mem_cons_self
      cases hb
    | cons b l' =>
      obtain ⟨hheadl, htail⟩ := pairwise_cons.mp hl
      obtain ⟨hheadl', htail'⟩ := pairwise_cons.mp hl'
      have hhead : R a b := by
        obtain ⟨c, hc, hac⟩ := hleft a mem_cons_self
        rcases mem_cons.mp hc with rfl | hc
        · exact hac
        -- the partner of `a` comes after `b`, so the partner of `b` would come before `a`
        · obtain ⟨d, hd, hdb⟩ := hright b mem_cons_self
          have hbc := hheadl' c hc
          rw [← hkey hac, ← hkey hdb] at hbc
          rcases mem_cons.mp hd with rfl | hd
          · exact absurd hbc (lt_irrefl _)
          · exact absurd hbc (hheadl d hd).asymm
      refine List.Forall₂.cons hhead (ih htail htail' ?_ ?_)
      · intro c hc
        obtain ⟨d, hd, hcd⟩ := hleft c (mem_cons_of_mem _ hc)
        rcases mem_cons.mp hd with rfl | hd
        · have hlt := hheadl c hc
          rw [hkey hhead, hkey hcd] at hlt
          exact absurd hlt (lt_irrefl _)
        · exact ⟨d, hd, hcd⟩
      · intro d hd
        obtain ⟨c, hc, hcd⟩ := hright d (mem_cons_of_mem _ hd)
        rcases mem_cons.mp hc with rfl | hc
        · have hlt := hheadl' d hd
          rw [← hkey hhead, ← hkey hcd] at hlt
          exact absurd hlt (lt_irrefl _)
        · exact ⟨c, hc, hcd⟩

end Lib
