import Defcon.Lib.Run

/-!
# Threads over a shared state

Each thread stands at a point of its program, and one thread at a time takes an atomic step on the
shared state. What holds of the shared state and of the point a thread stands at is kept by all
interleavings if the step of a thread keeps it and no step of a thread breaks what another relies
on.
-/

namespace Lib

structure Threads (T σ P : Type*) where
  shared : σ
  pc : T → P

namespace Threads

variable {T σ P E : Type*} [DecidableEq T] {next : σ → P → E → Option (σ × P)}
  {s t : Threads T σ P}

/-- The thread takes its next step, and the others stand still. -/
def step (next : σ → P → E → Option (σ × P)) (s : Threads T σ P) (move : T × E) :
    Option (Threads T σ P) :=
  (next s.shared (s.pc move.1) move.2).map fun moved =>
    ⟨moved.1, Function.update s.pc move.1 moved.2⟩

theorem step_eq_some {move : T × E} (hstep : step next s move = some t) :
    ∃ p, next s.shared (s.pc move.1) move.2 = some (t.shared, p) ∧
      t.pc = Function.update s.pc move.1 p := by
  obtain ⟨⟨shared, p⟩, hnext, rfl⟩ := Option.map_eq_some_iff.mp hstep
  exact ⟨p, hnext, rfl⟩

/-- The shared state meets `I`, and every thread relies on `A` where it stands. -/
structure Inv (I : σ → Prop) (A : σ → P → Prop) (s : Threads T σ P) : Prop where
  shared : I s.shared
  pc : ∀ i, A s.shared (s.pc i)

variable {I : σ → Prop} {A : σ → P → Prop}

theorem Inv.step {move : T × E} (hinv : Inv I A s)
    (hown : ∀ {x p y q}, I x → A x p → next x p move.2 = some (y, q) → I y ∧ A y q)
    (hfree : ∀ {x p y q r}, I x → A x p → next x p move.2 = some (y, q) → A x r → A y r)
    (hstep : Threads.step next s move = some t) : Inv I A t := by
  obtain ⟨p, hnext, hpc⟩ := step_eq_some hstep
  obtain ⟨hshared, hat⟩ := hown hinv.shared (hinv.pc move.1) hnext
  refine ⟨hshared, fun i => ?_⟩
  rw [hpc]
  by_cases hi : i = move.1
  · subst hi
    rwa [Function.update_self]
  · rw [Function.update_of_ne hi]
    exact hfree hinv.shared (hinv.pc move.1) hnext (hinv.pc i)

end Threads

end Lib
