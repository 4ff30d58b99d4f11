import Mathlib.Data.Option.Basic
import Mathlib.Data.Set.Insert

/-!
# Fallible computations

A function that refuses its input at several places is written in `Except`, one check after
another. The lemmas here take a computation that succeeded apart into what each check found, and
`Ensures` states what holds of the result and of the errors of a computation, with one rule for
each way of putting computations together.
-/

namespace Lib

open List

universe u v

variable {ε : Type u} {α β : Type v}

def refuseIf (p : Prop) [Decidable p] (e : ε) : Except ε Unit :=
  if p then .error e else .ok ()

def need (e : ε) : Option α → Except ε α
  | none => .error e
  | some a => .ok a

/-- A check that is made only when `p` holds. -/
def provided (p : Prop) [Decidable p] (check : Except ε Unit) : Except ε Unit :=
  if p then check else .ok ()

@[simp]
theorem bind_eq_ok {x : Except ε α} {f : α → Except ε β} {b : β} :
    (x >>= f) = .ok b ↔ ∃ a, x = .ok a ∧ f a = .ok b := by
  cases x with
  | error e =>
    constructor
    · intro h
      cases h
    · rintro ⟨a, h, -⟩
      cases h
  | ok a =>
    constructor
    · intro h
      exact ⟨a, rfl, h⟩
    · rintro ⟨a', h, hf⟩
      cases h
      exact hf

@[simp]
theorem refuseIf_eq_ok {p : Prop} [Decidable p] {e : ε} {u : Unit} :
    refuseIf p e = .ok u ↔ ¬ p := by
  unfold refuseIf
  split <;> simp [*]

variable {a : α}

@[simp]
theorem need_eq_ok {e : ε} {o : Option α} : need e o = .ok a ↔ o = some a := by
  cases o <;> simp [need]

@[simp]
theorem pure_eq_ok {b : α} : (pure a : Except ε α) = .ok b ↔ a = b := by
  simp [pure, Except.pure]

theorem exists_mapM_of_forall {f : α → Option β} {items : List α}
    (hall : ∀ a ∈ items, (f a).isSome = true) :
    ∃ bs, items.mapM f = some bs ∧ bs.length = items.length := by
  induction items with
  | nil => exact ⟨[], rfl, rfl⟩
  | cons a items ih =>
    obtain ⟨b, hb⟩ := Option.isSome_iff_exists.mp (hall a mem_cons_self)
    obtain ⟨bs, hbs, hlength⟩ := ih fun a ha => hall a (mem_cons_of_mem _ ha)
    exact ⟨b :: bs, by simp [mapM_cons, hb, hbs], by simp [hlength]⟩

theorem mapM_eq_none_of_mem {f : α → Option β} {items : List α} (hmem : a ∈ items)
    (hnone : f a = none) : items.mapM f = none := by
  induction items with
  | nil => cases hmem
  | cons b items ih =>
    rw [mapM_cons]
    obtain rfl | hmem := mem_cons.mp hmem
    · rw [hnone]
      rfl
    · cases hb : f b with
      | none => rfl
      | some _ => rw [ih hmem]; rfl

theorem foldlM_kept {γ δ : Type*} {g : α → δ} {step : α → γ → Except ε α} {items : List γ} {b : α}
    (hstep : ∀ {a c b}, step a c = .ok b → g b = g a) (hfold : items.foldlM step a = .ok b) :
    g b = g a := by
  induction items generalizing a with
  | nil =>
    rw [foldlM_nil, pure_eq_ok] at hfold
    rw [hfold]
  | cons c items ih =>
    rw [foldlM_cons, bind_eq_ok] at hfold
    obtain ⟨mid, hmid, hrest⟩ := hfold
    exact (ih hrest).trans (hstep hmid)

/-- The result of a computation has `I`, its errors have `E`. -/
def Ensures (I : α → Prop) (E : ε → Prop) : Except ε α → Prop
  | .ok a => I a
  | .error e => E e

namespace Ensures

variable {I : α → Prop} {J : β → Prop} {E : ε → Prop}

variable {x : Except ε α} {f : α → Except ε β}

theorem result {a : α} (h : Ensures I E x) (hok : x = .ok a) : I a := by
  rw [hok] at h
  exact h

theorem and {Q : α → Prop} (h : Ensures I E x) (hQ : ∀ a, x = .ok a → Q a) :
    Ensures (fun a => I a ∧ Q a) E x := by
  cases x with
  | error e => exact h
  | ok a => exact ⟨h, hQ a rfl⟩

theorem mono {Q : α → Prop} (h : Ensures I E x) (hQ : ∀ a, I a → Q a) : Ensures Q E x := by
  cases x with
  | error e => exact h
  | ok a => exact hQ a h

theorem bind (h : Ensures I E x) (hf : ∀ a, I a → Ensures J E (f a)) : Ensures J E (x >>= f) := by
  cases x with
  | error e => exact h
  | ok a => exact hf a h

theorem refuseIf {γ : Type} {K : γ → Prop} {p : Prop} [Decidable p] {e : ε} {x : Except ε γ}
    (he : E e) (hx : ¬ p → Ensures K E x) : Ensures K E (Lib.refuseIf p e >>= fun _ => x) := by
  unfold Lib.refuseIf
  split
  · exact he
  next hp => exact hx hp

theorem need {e : ε} {o : Option α} (he : E e) (hf : ∀ a, o = some a → Ensures J E (f a)) :
    Ensures J E (Lib.need e o >>= f) := by
  cases o with
  | none => exact he
  | some a => exact hf a rfl

theorem foldlM_rest {γ : Type*} {I : List γ → α → Prop} {step : α → γ → Except ε α}
    {items : List γ} {a : α} (hinit : I items a)
    (hstep : ∀ {c rest a}, I (c :: rest) a → Ensures (I rest) E (step a c)) :
    Ensures (I []) E (items.foldlM step a) := by
  induction items generalizing a with
  | nil => exact hinit
  | cons c items ih =>
    exact (hstep hinit).bind fun a ha => ih ha

theorem foldlM {γ : Type*} {step : α → γ → Except ε α} {items : List γ} {a : α} (hinit : I a)
    (hstep : ∀ {a c}, c ∈ items → I a → Ensures I E (step a c)) :
    Ensures I E (items.foldlM step a) := by
  refine (foldlM_rest (I := fun rest a => I a ∧ ∀ c ∈ rest, c ∈ items)
    ⟨hinit, fun _ hc => hc⟩ ?_).mono fun a ha => ha.1
  rintro c rest a ⟨ha, hmem⟩
  refine (hstep (hmem c mem_cons_self) ha).mono fun a ha => ⟨ha, fun c hc => ?_⟩
  exact hmem c (mem_cons_of_mem _ hc)

end Ensures

/-- A loop that never fails and marks the key of each item, with a stage for each set of marked
keys. -/
theorem exists_foldlM_marks {γ κ : Type*} {Stage : Set κ → α → Prop} {step : α → γ → Except ε α}
    {items : List γ} {done : Set κ} (key : γ → κ) (hnodup : (items.map key).Nodup)
    (hfresh : ∀ c ∈ items, key c ∉ done) (hinit : Stage done a)
    (hstep : ∀ {c a marked}, c ∈ items → done ⊆ marked → key c ∉ marked → Stage marked a →
      ∃ b, step a c = .ok b ∧ Stage (insert (key c) marked) b) :
    ∃ b, items.foldlM step a = .ok b ∧ Stage (done ∪ {k | k ∈ items.map key}) b := by
  induction items generalizing a done with
  | nil =>
    have hmarks : done ∪ {k | k ∈ ([] : List γ).map key} = done := by
      ext k
      simp
    rw [hmarks]
    exact ⟨a, rfl, hinit⟩
  | cons c items ih =>
    rw [map_cons, nodup_cons] at hnodup
    obtain ⟨b, hb, hstage⟩ :=
      hstep mem_cons_self subset_rfl (hfresh c mem_cons_self) hinit
    have hmarks : done ∪ {k | k ∈ (c :: items).map key} =
        insert (key c) done ∪ {k | k ∈ items.map key} := by
      ext k
      simp only [map_cons, mem_cons, Set.mem_union, Set.mem_insert_iff,
        Set.mem_ofPred_eq]
      rw [or_assoc, or_left_comm]
    rw [foldlM_cons, hb, hmarks]
    refine ih hnodup.2 (fun d hd hmem => ?_) hstage fun hd hsub => ?_
    · obtain heq | hmem := Set.mem_insert_iff.mp hmem
      · exact hnodup.1 (heq ▸ mem_map_of_mem hd)
      · exact hfresh d (mem_cons_of_mem _ hd) hmem
    · exact hstep (mem_cons_of_mem _ hd) ((Set.subset_insert _ _).trans hsub)

end Lib
