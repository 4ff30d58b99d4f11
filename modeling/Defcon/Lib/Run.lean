import Mathlib.Data.List.Basic

/-!
# Runs of a labelled transition system

A program that serves one call after another is a step relation on its state, labelled
with the calls. This module packages the two inductions every development over such a
relation needs: an invariant of the steps holds after a run, and a relation with an
abstract machine that the steps keep holds after a run.
-/

namespace Lib

variable {σ Op α : Type*}

/-- `Run Step s ops t`: performing `ops` one after another leads from `s` to `t`. -/
inductive Run (Step : σ → Op → σ → Prop) : σ → List Op → σ → Prop where
  | nil (s : σ) : Run Step s [] s
  | cons {s t u : σ} {op : Op} {ops : List Op} :
      Step s op t → Run Step t ops u → Run Step s (op :: ops) u

def Guarded (guard : σ → Op → Prop) (Step : σ → Op → σ → Prop) : σ → Op → σ → Prop :=
  fun s op t => guard s op ∧ Step s op t

def Computes (step : σ → Op → σ) : σ → Op → σ → Prop :=
  fun s op t => step s op = t

def Accepts (step : σ → Op → Option σ) : σ → Op → σ → Prop :=
  fun s op t => step s op = some t

def Admits (guard : σ → Op → Prop) (step : σ → Op → σ) : σ → List Op → Prop
  | _, [] => True
  | s, op :: ops => guard s op ∧ Admits guard step (step s op) ops

instance Admits.decidable {guard : σ → Op → Prop} [∀ s op, Decidable (guard s op)]
    {step : σ → Op → σ} : (s : σ) → (ops : List Op) → Decidable (Admits guard step s ops)
  | _, [] => inferInstanceAs (Decidable True)
  | s, op :: ops =>
    @instDecidableAnd _ _ inferInstance (Admits.decidable (step s op) ops)

namespace Run

variable {Step : σ → Op → σ → Prop} {s t u : σ} {ops : List Op}

theorem computes (step : σ → Op → σ) (s : σ) (ops : List Op) :
    Run (Computes step) s ops (ops.foldl step s) := by
  induction ops generalizing s with
  | nil => exact .nil s
  | cons op ops ih => exact .cons rfl (ih (step s op))

variable {guard : σ → Op → Prop} {I : σ → Prop}

theorem computes_guarded {step : σ → Op → σ} {s : σ} {ops : List Op}
    (hadmits : Admits guard step s ops) :
    Run (Guarded guard (Computes step)) s ops (ops.foldl step s) := by
  induction ops generalizing s with
  | nil => exact .nil s
  | cons op ops ih => exact .cons ⟨hadmits.1, rfl⟩ (ih hadmits.2)

theorem accepts {step : σ → Op → Option σ} {s t : σ} {ops : List Op}
    (hfold : ops.foldlM step s = some t) : Run (Accepts step) s ops t := by
  induction ops generalizing s with
  | nil =>
    obtain rfl : s = t := by simpa using hfold
    exact .nil s
  | cons op ops ih =>
    rw [List.foldlM_cons] at hfold
    obtain ⟨u, hu, hrest⟩ := Option.bind_eq_some_iff.mp hfold
    exact .cons hu (ih hrest)

/-- A loop that can be left early, as a run of its iterations. -/
theorem except {ε : Type*} {step : σ → Op → Except ε σ} {s t : σ} {ops : List Op}
    (hfold : ops.foldlM step s = .ok t) : Run (fun s op t => step s op = .ok t) s ops t := by
  induction ops generalizing s with
  | nil =>
    obtain rfl : s = t := by simpa [pure, Except.pure] using hfold
    exact .nil s
  | cons op ops ih =>
    rw [List.foldlM_cons] at hfold
    cases hstep : step s op with
    | error e =>
      rw [hstep] at hfold
      cases hfold
    | ok u =>
      rw [hstep] at hfold
      exact .cons hstep (ih hfold)

theorem append {ops' : List Op} (hrun : Run Step s ops t) (hrun' : Run Step t ops' u) :
    Run Step s (ops ++ ops') u := by
  induction hrun with
  | nil s => exact hrun'
  | cons hhead _ ih => exact .cons hhead (ih hrun')

theorem of_append {ops' : List Op} (hrun : Run Step s (ops ++ ops') u) :
    ∃ t, Run Step s ops t ∧ Run Step t ops' u := by
  induction ops generalizing s with
  | nil => exact ⟨s, .nil s, hrun⟩
  | cons op ops ih =>
    cases hrun with
    | cons hhead hrest =>
      obtain ⟨t, hfirst, hsecond⟩ := ih hrest
      exact ⟨t, .cons hhead hfirst, hsecond⟩

theorem invariant_of_mem (hrun : Run Step s ops t)
    (hstep : ∀ {s op t}, op ∈ ops → I s → Step s op t → I t) (hinit : I s) : I t := by
  induction hrun with
  | nil s => exact hinit
  | cons hhead _ ih =>
    refine ih (fun hmem => hstep (List.mem_cons_of_mem _ hmem)) ?_
    exact hstep List.mem_cons_self hinit hhead

theorem invariant (hstep : ∀ {s op t}, I s → Step s op t → I t) (hrun : Run Step s ops t)
    (hinit : I s) : I t :=
  hrun.invariant_of_mem (fun _ => hstep) hinit

theorem guarded (hrun : Run Step s ops t)
    (hguard : ∀ {pre op post mid}, ops = pre ++ op :: post → Run Step s pre mid → guard mid op) :
    Run (Guarded guard Step) s ops t := by
  induction hrun with
  | nil s => exact .nil s
  | @cons s u _ op ops hhead _ ih =>
    refine .cons ⟨@hguard [] op ops s rfl (.nil s), hhead⟩ (ih ?_)
    intro pre op' post mid hsplit hpre
    exact hguard (congrArg (op :: ·) hsplit) (.cons hhead hpre)

theorem of_guarded (hrun : Run (Guarded guard Step) s ops t) : Run Step s ops t := by
  induction hrun with
  | nil s => exact .nil s
  | cons hhead _ ih => exact .cons hhead.2 ih

/-- What every step keeps of the calls made so far and the state, a run leads to. -/
theorem history {R : List Op → σ → Prop}
    (hstep : ∀ {done s op t}, R done s → Step s op t → R (done ++ [op]) t)
    (hrun : Run Step s ops t) (hinit : R [] s) : R ops t := by
  have hgeneral (done : List Op) (hdone : R done s) : R (done ++ ops) t := by
    clear hinit
    induction hrun generalizing done with
    | nil s => rwa [List.append_nil]
    | cons hhead _ ih =>
      rw [List.append_cons]
      exact ih _ (hstep hdone hhead)
  exact hgeneral [] hinit

/-- A run that is longer than a measure which goes down until an event has the event. -/
theorem exists_of_decreasing {measure : σ → Nat} {E : σ → Op → Prop}
    (hstep : ∀ {s op t}, I s → Step s op t → ¬E s op → I t ∧ measure t < measure s)
    (hrun : Run Step s ops t) (hinit : I s) (hlong : measure s < ops.length) :
    ∃ pre op post mid, ops = pre ++ op :: post ∧ Run Step s pre mid ∧ E mid op := by
  induction hrun with
  | nil s => exact absurd hlong (Nat.not_lt_zero _)
  | @cons s t u op ops hhead _ ih =>
    by_cases hevent : E s op
    · exact ⟨[], op, ops, s, rfl, .nil s, hevent⟩
    · obtain ⟨hI, hless⟩ := hstep hinit hhead hevent
      rw [List.length_cons] at hlong
      obtain ⟨pre, op', post, mid, rfl, hpre, hfound⟩ := ih hI (by omega)
      exact ⟨op :: pre, op', post, mid, rfl, .cons hhead hpre, hfound⟩

/-- A relation to an abstract machine that every step keeps holds between the state a
run reaches and the abstract state the same calls lead to. -/
theorem simulation {R : α → σ → Prop} {astep : α → Op → α}
    (hstep : ∀ {a s op t}, R a s → Step s op t → R (astep a op) t)
    (hrun : Run Step s ops t) {a : α} (hinit : R a s) : R (ops.foldl astep a) t := by
  induction hrun generalizing a with
  | nil s => exact hinit
  | cons hhead _ ih => exact ih (hstep hinit hhead)

end Run

/-- Where a computing machine meets a call with property `p`, it meets a last one. -/
theorem exists_last_call {step : σ → Op → σ} {p : σ → Op → Prop} {s : σ} {ops : List Op}
    (hcall : ∃ pre op post, ops = pre ++ op :: post ∧ p (pre.foldl step s) op) :
    ∃ pre op post, ops = pre ++ op :: post ∧ p (pre.foldl step s) op ∧
      ∀ mid op' rest, post = mid ++ op' :: rest → ¬ p ((pre ++ op :: mid).foldl step s) op' := by
  induction ops generalizing s with
  | nil =>
    obtain ⟨pre, op, post, hsplit, -⟩ := hcall
    simp at hsplit
  | cons op ops ih =>
    by_cases hlater : ∃ pre op' post, ops = pre ++ op' :: post ∧ p (pre.foldl step (step s op)) op'
    · obtain ⟨pre, op', post, hsplit, hp, hlast⟩ := ih hlater
      exact ⟨op :: pre, op', post, congrArg (op :: ·) hsplit, hp, hlast⟩
    · obtain ⟨pre, op', post, hsplit, hp⟩ := hcall
      cases pre with
      | nil =>
        cases hsplit
        refine ⟨[], op, ops, rfl, hp, ?_⟩
        intro mid op' rest hrest hp'
        exact hlater ⟨mid, op', rest, hrest, hp'⟩
      | cons first pre =>
        obtain ⟨rfl, htail⟩ := List.cons.inj hsplit
        exact absurd ⟨pre, op', post, htail, hp⟩ hlater

end Lib
