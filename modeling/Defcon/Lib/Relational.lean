import Mathlib.Data.List.Forall2

/-!
# Relations on options and lists

What `Option.Rel` and `List.Forall₂` say about related containers.
-/

namespace Lib

variable {α β : Type*} {r : α → β → Prop}

theorem exists_of_rel {o : Option α} {o' : Option β} {a : α} (hrel : Option.Rel r o o')
    (ho : o = some a) : ∃ b, o' = some b ∧ r a b := by
  subst ho
  cases hrel with
  | some hr => exact ⟨_, rfl, hr⟩

theorem exists_of_rel' {o : Option α} {o' : Option β} {b : β} (hrel : Option.Rel r o o')
    (ho : o' = some b) : ∃ a, o = some a ∧ r a b := by
  subst ho
  cases hrel with
  | some hr => exact ⟨_, rfl, hr⟩

theorem exists_of_forall₂ {as : List α} {bs : List β} {a : α} (hall : List.Forall₂ r as bs)
    (hmem : a ∈ as) : ∃ b ∈ bs, r a b := by
  induction hall with
  | nil => cases hmem
  | cons hr _ ih =>
    obtain rfl | hmem := List.mem_cons.mp hmem
    · exact ⟨_, List.mem_cons_self, hr⟩
    · obtain ⟨b, hb, hrel⟩ := ih hmem
      exact ⟨b, List.mem_cons_of_mem _ hb, hrel⟩

variable {r : α → α → Prop}

theorem rel_refl (hrefl : ∀ a, r a a) (o : Option α) : Option.Rel r o o := by
  cases o with
  | none => exact .none
  | some a => exact .some (hrefl a)

theorem rel_trans (htrans : ∀ {a b c}, r a b → r b c → r a c) {o o' o'' : Option α}
    (h : Option.Rel r o o') (h' : Option.Rel r o' o'') : Option.Rel r o o'' := by
  cases h with
  | none => exact h'
  | some hr =>
    cases h' with
    | some hr' => exact .some (htrans hr hr')

theorem forall₂_trans (htrans : ∀ {a b c}, r a b → r b c → r a c) {as bs cs : List α}
    (h : List.Forall₂ r as bs) (h' : List.Forall₂ r bs cs) : List.Forall₂ r as cs := by
  induction h generalizing cs with
  | nil => exact h'
  | cons hr _ ih =>
    cases h' with
    | cons hr' htail => exact .cons (htrans hr hr') (ih htail)

end Lib
