import Mathlib.Data.List.Sort
import Defcon.Lib.AssocMap

/-!
# The LRU cache of `unordered_lru_cache.h`

A hash map that stamps each entry with an access counter and, past a threshold, drops all
but the `maxSize` entries used last.
-/

namespace Defcon

open AList (Map)

structure UnorderedLruCache (κ ν : Type) where
  cacheMap : Map κ (ν × Int)
  maxSize : Nat
  truncateThreshold : Nat
  accessCounter : Int
  maxSize_ne_zero : maxSize ≠ 0

namespace UnorderedLruCache

variable {κ ν : Type} [DecidableEq κ]

omit [DecidableEq κ] in
def new (maxSize truncateThreshold : Nat) (h : maxSize ≠ 0) : UnorderedLruCache κ ν where
  cacheMap := ∅
  maxSize := maxSize
  truncateThreshold := if truncateThreshold = 0 then maxSize * 2 else truncateThreshold
  accessCounter := 0
  maxSize_ne_zero := h

variable (c : UnorderedLruCache κ ν)

def truncateIfNeeded : UnorderedLruCache κ ν :=
  if c.cacheMap.entries.length ≤ c.truncateThreshold then c
  else
    let vec := c.cacheMap.entries.insertionSort fun e₁ e₂ => e₁.2.2 ≥ e₂.2.2
    { c with cacheMap := (vec.drop c.maxSize).foldl (fun m e => m.erase e.1) c.cacheMap }

variable (key : κ)

def insert (v : ν) : UnorderedLruCache κ ν :=
  truncateIfNeeded { c with
    cacheMap := c.cacheMap.insert key (v, c.accessCounter)
    accessCounter := c.accessCounter + 1 }

def get : Option ν × UnorderedLruCache κ ν :=
  match c.cacheMap.lookup key with
  | some (v, _) =>
    (some v, { c with
      cacheMap := c.cacheMap.insert key (v, c.accessCounter)
      accessCounter := c.accessCounter + 1 })
  | none => (none, c)

def erase : UnorderedLruCache κ ν :=
  { c with cacheMap := c.cacheMap.erase key }

def find : Option ν :=
  (c.cacheMap.lookup key).map Prod.fst

theorem lookup_foldl_erase {es : List (Sigma fun _ : κ => ν × Int)} {m : Map κ (ν × Int)}
    {k : κ} {v : ν × Int} (h : (es.foldl (fun m e => m.erase e.1) m).lookup k = some v) :
    m.lookup k = some v := by
  induction es generalizing m with
  | nil => exact h
  | cons e es ih =>
    exact AList.lookup_of_erase (ih h)

theorem find_truncateIfNeeded {c : UnorderedLruCache κ ν} {k : κ} {v : ν}
    (h : c.truncateIfNeeded.find k = some v) : c.find k = some v := by
  unfold truncateIfNeeded at h
  split at h
  · exact h
  · obtain ⟨w, hw, rfl⟩ := Option.map_eq_some_iff.mp h
    simp [find, lookup_foldl_erase hw]

theorem find_insert {c : UnorderedLruCache κ ν} {key k : κ} {v w : ν}
    (h : (c.insert key v).find k = some w) : if k = key then w = v else c.find k = some w := by
  have hfind := find_truncateIfNeeded h
  rw [find, AList.lookup_insert_eq_ite] at hfind
  split
  · rename_i hk
    simpa [hk, eq_comm] using hfind
  · rename_i hk
    simpa [hk, find] using hfind

@[simp]
theorem get_fst : (c.get key).1 = c.find key := by
  unfold get find
  cases c.cacheMap.lookup key <;> rfl

@[simp]
theorem find_get : (c.get key).2.find = c.find := by
  funext k
  unfold get
  cases hlookup : c.cacheMap.lookup key with
  | none => rfl
  | some e =>
    simp only [find, AList.lookup_insert_eq_ite]
    split
    · rename_i hk
      subst hk
      simp [hlookup]
    · rfl

theorem find_erase (k : κ) : (c.erase key).find k = if k = key then none else c.find k := by
  rw [find, erase, AList.lookup_erase_eq_ite]
  split <;> rfl

end UnorderedLruCache

end Defcon
