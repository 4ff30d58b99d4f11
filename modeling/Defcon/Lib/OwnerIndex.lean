import Mathlib.Data.Option.Basic
import Defcon.Lib.AssocMap

/-!
# An index of owners

A map that says who owns a key, with a count of how often the owner has added it. Against a
relation `owns` that no two owners share a key in, the index is exact when it holds an entry with
count one for each pair of the relation and no other entry.
-/

namespace Lib

open List
open AList (Map)

abbrev OwnerIndex (κ ω : Type*) := Map κ (ω × Nat)

namespace OwnerIndex

variable {κ ω : Type*} [DecidableEq κ]

/-- One entry, with count one, for each key that is owned. -/
def Exact (index : OwnerIndex κ ω) (owns : ω → κ → Prop) : Prop :=
  ∀ key owner count, index.lookup key = some (owner, count) ↔ count = 1 ∧ owns owner key

variable {index index' : OwnerIndex κ ω} {owns owns' : ω → κ → Prop} {owner holder : ω} {key : κ}
  {keys : List κ}

theorem exact_empty (hnone : ∀ owner key, ¬ owns owner key) :
    Exact (∅ : OwnerIndex κ ω) owns := by
  intro key owner count
  simp [hnone]

namespace Exact

theorem congr (h : Exact index owns) (hiff : ∀ owner key, owns owner key ↔ owns' owner key) :
    Exact index owns' := by
  intro key owner count
  rw [h key owner count, hiff]

theorem lookup_eq (h : Exact index owns) (howns : owns owner key) :
    index.lookup key = some (owner, 1) :=
  (h key owner 1).mpr ⟨rfl, howns⟩

theorem lookup_eq_none (h : Exact index owns) (hfree : ∀ holder, ¬ owns holder key) :
    index.lookup key = none := by
  cases hlookup : index.lookup key with
  | none => rfl
  | some entry => exact absurd ((h key entry.1 entry.2).mp hlookup).2 (hfree entry.1)

theorem unique (h : Exact index owns) (howns : owns owner key) (hholds : owns holder key) :
    owner = holder := by
  have heq := (h.lookup_eq howns).symm.trans (h.lookup_eq hholds)
  cases heq
  rfl

end Exact

variable [DecidableEq ω]

def add (index : OwnerIndex κ ω) (owner : ω) (key : κ) : Option (OwnerIndex κ ω) :=
  match index.lookup key with
  | none => some (index.insert key (owner, 1))
  | some (holder, count) =>
    if holder ≠ owner then none else some (index.insert key (owner, count + 1))

def delete (index : OwnerIndex κ ω) (owner : ω) (key : κ) : Option (OwnerIndex κ ω) :=
  match index.lookup key with
  | none => none
  | some (holder, count) =>
    if holder ≠ owner then none
    else if count = 1 then some (index.erase key)
    else some (index.insert key (owner, count - 1))

namespace Exact

section

variable (h : Exact index owns)

include h

theorem add (owner : ω) (hfree : ∀ holder, ¬ owns holder key) :
    ∃ index', index.add owner key = some index' ∧
      Exact index' fun owner' key' => owns owner' key' ∨ owner' = owner ∧ key' = key := by
  refine ⟨index.insert key (owner, 1), ?_, ?_⟩
  · rw [OwnerIndex.add, h.lookup_eq_none hfree]
  · intro key' owner' count
    rw [AList.lookup_insert_eq_ite]
    by_cases hkey : key' = key
    · subst hkey
      rw [if_pos rfl, Option.some.injEq, Prod.mk.injEq]
      constructor
      · rintro ⟨rfl, rfl⟩
        exact ⟨rfl, .inr ⟨rfl, rfl⟩⟩
      · rintro ⟨rfl, howns | ⟨rfl, -⟩⟩
        · exact absurd howns (hfree owner')
        · exact ⟨rfl, rfl⟩
    · rw [if_neg hkey, h key' owner' count]
      simp [hkey]

theorem add_eq_none (hholds : owns holder key) (hne : holder ≠ owner) :
    index.add owner key = none := by
  rw [OwnerIndex.add, h.lookup_eq hholds]
  exact if_pos hne

theorem addAll (owner : ω) (hnodup : keys.Nodup) (hfree : ∀ key ∈ keys, ∀ holder, ¬ owns holder key) :
    ∃ index', keys.foldlM (fun index key => OwnerIndex.add index owner key) index = some index' ∧
      Exact index' fun owner' key' => owns owner' key' ∨ owner' = owner ∧ key' ∈ keys := by
  induction keys generalizing index owns with
  | nil => exact ⟨index, rfl, h.congr fun _ _ => by simp⟩
  | cons key keys ih =>
    rw [nodup_cons] at hnodup
    obtain ⟨mid, hmid, hexact⟩ := h.add owner (hfree key mem_cons_self)
    obtain ⟨index', hindex', hexact'⟩ := ih hexact hnodup.2 (by
      rintro key' hkey' holder (howns | ⟨-, rfl⟩)
      · exact hfree key' (mem_cons_of_mem _ hkey') holder howns
      · exact hnodup.1 hkey')
    refine ⟨index', ?_, hexact'.congr fun owner' key' => ?_⟩
    · rw [foldlM_cons, hmid]
      exact hindex'
    · rw [mem_cons, or_assoc, ← and_or_left]

theorem of_addAll
    (hadd : keys.foldlM (fun index key => OwnerIndex.add index owner key) index = some index')
    (hnot : ∀ key ∈ keys, ¬ owns owner key) (hnodup : keys.Nodup) :
    ∀ key ∈ keys, ∀ holder, ¬ owns holder key := by
  induction keys generalizing index owns with
  | nil => simp
  | cons key keys ih =>
    rw [nodup_cons] at hnodup
    have hfree : ∀ holder, ¬ owns holder key := by
      intro holder hholds
      have hne : holder ≠ owner := by
        rintro rfl
        exact hnot key mem_cons_self hholds
      rw [foldlM_cons, h.add_eq_none hholds hne] at hadd
      cases hadd
    obtain ⟨mid, hmid, hexact⟩ := h.add owner hfree
    rw [foldlM_cons, hmid] at hadd
    have hrest := ih hexact hadd (by
      rintro key' hkey' (howns | ⟨-, rfl⟩)
      · exact hnot key' (mem_cons_of_mem _ hkey') howns
      · exact hnodup.1 hkey') hnodup.2
    intro key' hkey' holder hholds
    obtain rfl | hkey' := mem_cons.mp hkey'
    · exact hfree holder hholds
    · exact hrest key' hkey' holder (.inl hholds)

theorem delete (howns : owns owner key) :
    ∃ index', index.delete owner key = some index' ∧
      Exact index' fun owner' key' => owns owner' key' ∧ key' ≠ key := by
  refine ⟨index.erase key, ?_, ?_⟩
  · rw [OwnerIndex.delete, h.lookup_eq howns]
    simp
  · intro key' owner' count
    rw [AList.lookup_erase_eq_ite]
    by_cases hkey : key' = key
    · simp [hkey]
    · rw [if_neg hkey, h key' owner' count]
      simp [hkey]

theorem deleteAll (owner : ω) (hnodup : keys.Nodup) (howns : ∀ key ∈ keys, owns owner key) :
    ∃ index', keys.foldlM (fun index key => OwnerIndex.delete index owner key) index = some index' ∧
      Exact index' fun owner' key' => owns owner' key' ∧ key' ∉ keys := by
  induction keys generalizing index owns with
  | nil => exact ⟨index, rfl, h.congr fun _ _ => by simp⟩
  | cons key keys ih =>
    rw [nodup_cons] at hnodup
    obtain ⟨mid, hmid, hexact⟩ := h.delete (howns key mem_cons_self)
    obtain ⟨index', hindex', hexact'⟩ := ih hexact hnodup.2 (by
      intro key' hkey'
      refine ⟨howns key' (mem_cons_of_mem _ hkey'), ?_⟩
      rintro rfl
      exact hnodup.1 hkey')
    refine ⟨index', ?_, hexact'.congr fun owner' key' => ?_⟩
    · rw [foldlM_cons, hmid]
      exact hindex'
    · rw [mem_cons, not_or, and_assoc]

end

end Exact

end OwnerIndex

end Lib
