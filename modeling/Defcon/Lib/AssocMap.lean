import Mathlib.Algebra.Ring.Int.Defs
import Mathlib.Data.List.AList

/-!
# Association maps

Mathlib's `AList` models a hash map whose iteration order is the order of its entries.
Added here are the updates that hash-map code is written with and Mathlib has no name
for: an insertion that keeps an existing value, and modifications of the value at a key and of
all values.
-/

namespace AList

open List

variable {κ ν : Type*} [DecidableEq κ]

/-- A map from `κ` to `ν`, iterated in the order of its entries. -/
abbrev Map (κ ν : Type*) := AList fun _ : κ => ν

def emplace (k : κ) (v : ν) (m : Map κ ν) : Map κ ν :=
  if k ∈ m then m else m.insert k v

def modifyD (k : κ) (d : ν) (f : ν → ν) (m : Map κ ν) : Map κ ν :=
  m.insert k (f ((m.lookup k).getD d))

def eraseBegin (m : Map κ ν) : Map κ ν :=
  match m.entries with
  | [] => m
  | e :: _ => m.erase e.1

def mapVal (f : ν → ν) (m : Map κ ν) : Map κ ν where
  entries := m.entries.map fun e => ⟨e.1, f e.2⟩
  nodupKeys := by
    have hkeys := m.nodupKeys
    rw [List.NodupKeys, List.keys] at hkeys ⊢
    rw [List.map_map]
    exact hkeys

variable (p : κ → Bool)

def eraseIf (m : Map κ ν) : Map κ ν :=
  m.keys.foldl (fun m k => if p k then m.erase k else m) m

def sumVal (f : ν → Int) (m : Map κ ν) : Int :=
  (m.entries.map fun e => f e.2).sum

variable (k k' : κ)

theorem lookup_insert_eq_ite (v : ν) (m : Map κ ν) :
    (m.insert k v).lookup k' = if k' = k then some v else m.lookup k' := by
  by_cases h : k' = k
  · subst h
    simp [lookup_insert]
  · simp [h, lookup_insert_ne h]

theorem lookup_erase_eq_ite (m : Map κ ν) :
    (m.erase k).lookup k' = if k' = k then none else m.lookup k' := by
  by_cases h : k' = k
  · subst h
    simp [lookup_erase]
  · simp [h, lookup_erase_ne h]

theorem lookup_eraseIf (k : κ) (m : Map κ ν) :
    (m.eraseIf p).lookup k = if p k then none else m.lookup k := by
  have hfold (ks : List κ) (m : Map κ ν) :
      (ks.foldl (fun m k => if p k then m.erase k else m) m).lookup k =
        if k ∈ ks ∧ p k then none else m.lookup k := by
    induction ks generalizing m with
    | nil => simp
    | cons k' ks ih =>
      rw [foldl_cons, ih]
      by_cases hp : p k' = true
      · simp only [hp, if_true, lookup_erase_eq_ite, mem_cons]
        by_cases hk : k = k'
        · subst hk
          simp [hp]
        · simp [hk]
      · by_cases hk : k = k'
        · subst hk
          simp [hp]
        · simp [hp, hk]
  rw [eraseIf, hfold]
  by_cases hmem : k ∈ m.keys
  · simp [hmem]
  · have hnone : m.lookup k = none := lookup_eq_none.mpr fun h => hmem (mem_keys.mpr h)
    simp [hnone]

theorem length_eraseIf_le (m : Map κ ν) :
    (m.eraseIf p).entries.length ≤ m.entries.length := by
  have hfold (ks : List κ) (m : Map κ ν) :
      (ks.foldl (fun m k => if p k then m.erase k else m) m).entries.length ≤ m.entries.length := by
    induction ks generalizing m with
    | nil => exact Nat.le_refl _
    | cons k ks ih =>
      refine Nat.le_trans (ih _) ?_
      dsimp only
      by_cases hp : p k = true
      · rw [if_pos hp]
        exact (kerase_sublist k m.entries).length_le
      · rw [if_neg hp]
  exact hfold m.keys m

theorem lookup_emplace (v : ν) (m : Map κ ν) :
    (m.emplace k v).lookup k' =
      if k' = k then some ((m.lookup k).getD v) else m.lookup k' := by
  unfold emplace
  by_cases hmem : k ∈ m
  · obtain ⟨w, hw⟩ := Option.isSome_iff_exists.mp (lookup_isSome.mpr hmem)
    by_cases h : k' = k
    · subst h
      simp [hmem, hw]
    · simp [hmem, h]
  · rw [if_neg hmem, lookup_insert_eq_ite, lookup_eq_none.mpr hmem, Option.getD_none]

theorem lookup_emplace_of_lookup {k k' : κ} {v w : ν} {m : Map κ ν}
    (h : m.lookup k' = some w) : (m.emplace k v).lookup k' = some w := by
  rw [lookup_emplace]
  by_cases hk : k' = k
  · subst hk
    simp [h]
  · simp [hk, h]

/-! One direction of the equations above: where an entry of an updated map comes from. -/

section

variable {k k' : κ} {v w : ν} {m : Map κ ν}

theorem lookup_of_insert (h : (m.insert k v).lookup k' = some w) :
    k' = k ∧ w = v ∨ m.lookup k' = some w := by
  rw [lookup_insert_eq_ite] at h
  split at h
  next hk => exact Or.inl ⟨hk, (Option.some.inj h).symm⟩
  · exact Or.inr h

theorem lookup_of_erase (h : (m.erase k).lookup k' = some w) : m.lookup k' = some w := by
  rw [lookup_erase_eq_ite] at h
  split at h
  · cases h
  · exact h

theorem lookup_of_eraseIf {p : κ → Bool} (h : (m.eraseIf p).lookup k = some w) :
    m.lookup k = some w := by
  rw [lookup_eraseIf] at h
  split at h
  · cases h
  · exact h

theorem lookup_of_emplace (h : (m.emplace k v).lookup k' = some w) :
    k' = k ∧ w = v ∨ m.lookup k' = some w := by
  unfold emplace at h
  split at h
  · exact Or.inr h
  · exact lookup_of_insert h

theorem lookup_of_foldl_emplace {α : Type*} {key : α → κ} {val : α → ν} {xs : List α}
    (h : (xs.foldl (fun m x => m.emplace (key x) (val x)) m).lookup k = some v) :
    m.lookup k = some v ∨ ∃ x ∈ xs, key x = k ∧ val x = v := by
  induction xs generalizing m with
  | nil => exact Or.inl h
  | cons x xs ih =>
    rcases ih h with h | ⟨x', hmem, hx⟩
    · rcases lookup_of_emplace h with ⟨rfl, rfl⟩ | h
      · exact Or.inr ⟨x, mem_cons_self, rfl, rfl⟩
      · exact Or.inl h
    · exact Or.inr ⟨x', mem_cons_of_mem _ hmem, hx⟩

end

theorem lookup_foldl_emplace {entries : List (κ × ν)} {m : Map κ ν} {k : κ} {v : ν}
    (hnodup : (entries.map Prod.fst).Nodup) (hfresh : ∀ e ∈ entries, m.lookup e.1 = none) :
    (entries.foldl (fun m e => m.emplace e.1 e.2) m).lookup k = some v ↔
      m.lookup k = some v ∨ (k, v) ∈ entries := by
  induction entries generalizing m with
  | nil => simp
  | cons e entries ih =>
    rw [map_cons, nodup_cons] at hnodup
    rw [foldl_cons, ih hnodup.2]
    · have hhead := hfresh e mem_cons_self
      rw [lookup_emplace, hhead, Option.getD_none, mem_cons]
      by_cases hk : k = e.1
      · subst hk
        rw [if_pos rfl, hhead]
        have hnot : (e.1, v) ∉ entries :=
          fun hmem => hnodup.1 (mem_map.mpr ⟨_, hmem, rfl⟩)
        simp [hnot, Prod.ext_iff, eq_comm]
      · simp [hk, Prod.ext_iff]
    · intro e' he'
      rw [lookup_emplace, if_neg, hfresh e' (mem_cons_of_mem _ he')]
      exact fun heq => hnodup.1 (heq ▸ mem_map_of_mem he')

theorem lookup_modifyD (d : ν) (f : ν → ν) (m : Map κ ν) :
    (m.modifyD k d f).lookup k' =
      if k' = k then some (f ((m.lookup k).getD d)) else m.lookup k' :=
  lookup_insert_eq_ite k k' _ m

theorem lookup_foldl_insert {f : κ → ν} {keys : List κ} {m : Map κ ν} {k : κ} :
    (keys.foldl (fun m k => m.insert k (f k)) m).lookup k =
      if k ∈ keys then some (f k) else m.lookup k := by
  induction keys generalizing m with
  | nil => simp
  | cons k' keys ih =>
    rw [foldl_cons, ih, lookup_insert_eq_ite]
    by_cases hmem : k ∈ keys
    · simp [hmem]
    · by_cases hk : k = k'
      · simp [hk]
      · simp [hmem, hk]

theorem lookup_foldl_modifyD {α ι : Type*} {key : ι → κ} {val : ι → List α} {items : List ι}
    {m : Map κ (List α)} {k : κ} {v : List α} (hnodup : (items.map key).Nodup)
    (hfresh : ∀ x ∈ items, m.lookup (key x) = none) :
    (items.foldl (fun m x => m.modifyD (key x) [] (· ++ val x)) m).lookup k = some v ↔
      m.lookup k = some v ∨ ∃ x ∈ items, key x = k ∧ val x = v := by
  induction items generalizing m with
  | nil => simp
  | cons x items ih =>
    rw [map_cons, nodup_cons] at hnodup
    have hhead := hfresh x mem_cons_self
    rw [foldl_cons, ih hnodup.2]
    · rw [lookup_modifyD, hhead, Option.getD_none, nil_append, exists_mem_cons_iff]
      by_cases hk : k = key x
      · subst hk
        rw [if_pos rfl, hhead, Option.some.injEq]
        simp
      · rw [if_neg hk]
        simp [Ne.symm hk]
    · intro y hy
      rw [lookup_modifyD, if_neg, hfresh y (mem_cons_of_mem _ hy)]
      exact fun heq => hnodup.1 (heq ▸ mem_map_of_mem hy)

theorem entries_perm {ι : Type*} {key : ι → κ} {val : ι → ν} {items : List ι} {m : Map κ ν}
    (hnodup : (items.map key).Nodup)
    (hlookup : ∀ k v, m.lookup k = some v ↔ ∃ x ∈ items, key x = k ∧ val x = v) :
    m.entries.Perm (items.map fun x => ⟨key x, val x⟩) := by
  have hitems : (items.map fun x => (⟨key x, val x⟩ : Sigma fun _ : κ => ν)).Nodup := by
    refine List.Nodup.of_map Sigma.fst ?_
    rwa [map_map]
  refine (perm_ext_iff_of_nodup m.nodupKeys.nodup hitems).mpr ?_
  rintro ⟨k, v⟩
  rw [← AList.mem_lookup_iff, Option.mem_def, hlookup, mem_map]
  constructor
  · rintro ⟨x, hx, rfl, rfl⟩
    exact ⟨x, hx, rfl⟩
  · rintro ⟨x, hx, heq⟩
    cases heq
    exact ⟨x, hx, rfl, rfl⟩

theorem lookup_mapVal (f : ν → ν) (k : κ) (m : Map κ ν) :
    (m.mapVal f).lookup k = (m.lookup k).map f := by
  have hlist (l : List (Sigma fun _ : κ => ν)) :
      (l.map fun e => (⟨e.1, f e.2⟩ : Sigma fun _ : κ => ν)).dlookup k = (l.dlookup k).map f := by
    induction l with
    | nil => rfl
    | cons e l ih =>
      obtain ⟨k', v⟩ := e
      by_cases h : k = k'
      · subst h
        simp
      · have hskip (w : ν) (l : List (Sigma fun _ : κ => ν)) :
            dlookup k (⟨k', w⟩ :: l) = l.dlookup k :=
          dlookup_cons_ne l ⟨k', w⟩ h
        rw [map_cons, hskip, hskip, ih]
  exact hlist m.entries

theorem sumVal_erase (f : ν → Int) (k : κ) (m : Map κ ν) :
    sumVal f (m.erase k) = sumVal f m - ((m.lookup k).map f).getD 0 := by
  have hlist (l : List (Sigma fun _ : κ => ν)) :
      ((l.kerase k).map fun e => f e.2).sum =
        (l.map fun e => f e.2).sum - ((l.dlookup k).map f).getD 0 := by
    induction l with
    | nil => rfl
    | cons e l ih =>
      by_cases hk : k = e.1
      · subst hk
        rw [kerase_cons_eq rfl, dlookup_cons_eq, map_cons, sum_cons,
          Option.map_some, Option.getD_some]
        omega
      · rw [kerase_cons_ne hk, dlookup_cons_ne l e hk, map_cons, map_cons,
          sum_cons, sum_cons, ih]
        omega
  exact hlist m.entries

theorem sumVal_insert (f : ν → Int) (k : κ) (v : ν) (m : Map κ ν) :
    sumVal f (m.insert k v) = sumVal f m - ((m.lookup k).map f).getD 0 + f v := by
  rw [← sumVal_erase, sumVal, entries_insert, map_cons, sum_cons, Int.add_comm]
  rfl

end AList
