import Mathlib.Tactic.Ring

/-!
# Trees of blocks

Blocks with a parent pointer and a height that counts the steps to the root. Two lines of
ancestors that share a block share everything below it, which is what every argument about
forks rests on.
-/

namespace Lib

variable {B : Type*}

structure BlockTree (B : Type*) where
  parent : B → Option B
  height : B → Nat
  height_root : ∀ {b}, parent b = none → height b = 0
  height_parent : ∀ {b p}, parent b = some p → height b = height p + 1

namespace BlockTree

variable (t : BlockTree B)

def up : Nat → B → Option B
  | 0, b => some b
  | n + 1, b => (t.parent b).bind (up n)

/-- The ancestor of `b` at height `h`; a block is its own ancestor. -/
def ancestorAt (b : B) (h : Nat) : Option B :=
  if h ≤ t.height b then t.up (t.height b - h) b else none

def Ancestor (a b : B) : Prop :=
  t.ancestorAt b (t.height a) = some a

instance [DecidableEq B] (a b : B) : Decidable (t.Ancestor a b) :=
  inferInstanceAs (Decidable (_ = _))

variable {t} {a b c p : B} {h k : Nat}

theorem height_of_up {n : Nat} (hup : t.up n b = some a) : t.height b = t.height a + n := by
  induction n generalizing b with
  | zero =>
    obtain rfl : b = a := by simpa [up] using hup
    rfl
  | succ n ih =>
    obtain ⟨q, hq, hrest⟩ := Option.bind_eq_some_iff.mp hup
    rw [t.height_parent hq, ih hrest]
    omega

theorem exists_up {n : Nat} (hn : n ≤ t.height b) : ∃ a, t.up n b = some a := by
  induction n generalizing b with
  | zero => exact ⟨b, rfl⟩
  | succ n ih =>
    cases hp : t.parent b with
    | none =>
      have := t.height_root hp
      omega
    | some q =>
      have hq := t.height_parent hp
      obtain ⟨a, ha⟩ := ih (b := q) (by omega)
      exact ⟨a, by simp [up, hp, ha]⟩

theorem height_of_ancestorAt (ha : t.ancestorAt b h = some a) : t.height a = h := by
  unfold ancestorAt at ha
  split at ha
  · have := height_of_up ha
    omega
  · cases ha

theorem ancestorAt_eq_none (hlt : t.height b < h) : t.ancestorAt b h = none := by
  simp [ancestorAt, not_le.mpr hlt]

theorem exists_ancestorAt (hle : h ≤ t.height b) : ∃ a, t.ancestorAt b h = some a := by
  rw [ancestorAt, if_pos hle]
  exact exists_up (Nat.sub_le _ _)

@[simp]
theorem ancestorAt_self : t.ancestorAt b (t.height b) = some b := by
  simp [ancestorAt, up]

theorem ancestorAt_of_parent (hp : t.parent b = some p) (hlt : h < t.height b) :
    t.ancestorAt b h = t.ancestorAt p h := by
  have hheight := t.height_parent hp
  have hsub : t.height b - h = (t.height p - h) + 1 := by omega
  rw [ancestorAt, ancestorAt, if_pos hlt.le, if_pos (by omega), hsub, up, hp]
  rfl

theorem ancestor_of_ancestorAt (ha : t.ancestorAt b h = some a) : t.Ancestor a b := by
  rw [Ancestor, height_of_ancestorAt ha, ha]

theorem Ancestor.refl (b : B) : t.Ancestor b b :=
  ancestorAt_self

theorem Ancestor.height_le (ha : t.Ancestor a b) : t.height a ≤ t.height b := by
  by_contra hlt
  rw [Ancestor, ancestorAt_eq_none (by omega)] at ha
  cases ha

theorem Ancestor.eq_of_height_eq (ha : t.Ancestor a b) (hh : t.height a = t.height b) : a = b := by
  rw [Ancestor, hh, ancestorAt_self] at ha
  exact (Option.some.inj ha).symm

theorem ancestor_parent (hp : t.parent b = some p) : t.Ancestor p b := by
  have hheight := t.height_parent hp
  rw [Ancestor, ancestorAt_of_parent hp (by omega), ancestorAt_self]

theorem ancestor_iff_of_parent (hp : t.parent b = some p) :
    t.Ancestor a b ↔ a = b ∨ t.Ancestor a p := by
  constructor
  · intro ha
    rcases ha.height_le.lt_or_eq with hlt | heq
    · right
      rwa [Ancestor, ← ancestorAt_of_parent hp hlt]
    · exact Or.inl (ha.eq_of_height_eq heq)
  · rintro (rfl | ha)
    · exact Ancestor.refl a
    · have hheight := t.height_parent hp
      have := ha.height_le
      rwa [Ancestor, ancestorAt_of_parent hp (by omega)]

theorem ancestor_root_iff (hroot : t.parent b = none) : t.Ancestor a b ↔ a = b := by
  constructor
  · intro ha
    have := t.height_root hroot
    have := ha.height_le
    exact ha.eq_of_height_eq (by omega)
  · rintro rfl
    exact Ancestor.refl a

theorem Ancestor.trans (hab : t.Ancestor a b) (hbc : t.Ancestor b c) : t.Ancestor a c := by
  -- induction on the number of steps from `c` down to `b`
  obtain ⟨n, hn⟩ : ∃ n, t.height c = t.height b + n := ⟨_, (Nat.add_sub_of_le hbc.height_le).symm⟩
  induction n generalizing c with
  | zero =>
    obtain rfl := hbc.eq_of_height_eq (by omega)
    exact hab
  | succ n ih =>
    cases hp : t.parent c with
    | none =>
      have := t.height_root hp
      omega
    | some q =>
      have hq := t.height_parent hp
      rw [ancestor_iff_of_parent hp]
      rcases (ancestor_iff_of_parent hp).mp hbc with rfl | hbq
      · omega
      · exact Or.inr (ih hbq (by omega))

theorem Ancestor.ancestorAt_eq (hab : t.Ancestor a b) (hle : h ≤ t.height a) :
    t.ancestorAt b h = t.ancestorAt a h := by
  obtain ⟨c, hc⟩ := exists_ancestorAt hle
  have hcb : t.Ancestor c b := (ancestor_of_ancestorAt hc).trans hab
  rw [Ancestor, height_of_ancestorAt hc] at hcb
  rw [hcb, hc]

theorem Ancestor.of_height_le (hac : t.Ancestor a c) (hbc : t.Ancestor b c)
    (hle : t.height a ≤ t.height b) : t.Ancestor a b := by
  rw [Ancestor, ← hbc.ancestorAt_eq hle]
  exact hac

end BlockTree

end Lib
