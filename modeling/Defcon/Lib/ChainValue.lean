import Mathlib.Data.List.Basic
import Defcon.Lib.BlockTree

/-!
# Values along a line of blocks

A value that every block has by a step from the value of its parent is a fold over the line from
the root. Programs compute it lazily: they walk towards the root until they meet a block whose
value is at hand, stacking the blocks they pass, and then step forward over the stack. Here are
both, and the rule that says when the second gives the first.
-/

namespace Lib.BlockTree

open List

variable {B α σ ε : Type*} (t : BlockTree B)

def line (b : B) : List B :=
  (List.range (t.height b + 1)).filterMap (t.ancestorAt b)

/-- The blocks from the root to a pointer that may be null. -/
def lineTo : Option B → List B
  | none => []
  | some b => t.line b

variable (step : α → B → α)

def valueAt (base : α) (b : Option B) : α :=
  (t.lineTo b).foldl step base

variable {t} {a b c p : B} {pindex target : Option B}

theorem mem_line : a ∈ t.line b ↔ t.Ancestor a b := by
  simp only [line, mem_filterMap, mem_range]
  constructor
  · rintro ⟨h, -, ha⟩
    exact ancestor_of_ancestorAt ha
  · intro ha
    exact ⟨t.height a, Nat.lt_succ_of_le ha.height_le, ha⟩

theorem line_eq (b : B) : t.line b = t.lineTo (t.parent b) ++ [b] := by
  rw [line, range_succ, filterMap_append]
  congr 1
  · cases hp : t.parent b with
    | none => simp [t.height_root hp, lineTo]
    | some p =>
      rw [lineTo, line, t.height_parent hp]
      refine filterMap_congr fun h hh => ?_
      exact ancestorAt_of_parent hp (by rw [t.height_parent hp]; exact mem_range.mp hh)
  · simp

theorem mem_lineTo_step (b : B) :
    c ∈ t.lineTo (some b) ↔ c ∈ t.lineTo (t.parent b) ∨ c = b := by
  rw [lineTo, line_eq, mem_append, mem_singleton]

theorem getElem?_reverse_line (b : B) (n : Nat) : (t.line b).reverse[n]? = t.up n b := by
  induction n generalizing b with
  | zero => simp [line_eq, up]
  | succ n ih =>
    rw [line_eq, reverse_append, reverse_singleton, singleton_append,
      getElem?_cons_succ, up]
    cases hp : t.parent b with
    | none => simp [lineTo]
    | some p => simpa [lineTo] using ih p

theorem ancestor_of_up {n : Nat} (hup : t.up n b = some a) : t.Ancestor a b := by
  rw [← getElem?_reverse_line] at hup
  exact mem_line.mp (mem_reverse.mp (mem_of_getElem? hup))

@[simp]
theorem valueAt_none (base : α) : t.valueAt step base none = base := rfl

theorem valueAt_some (base : α) (b : B) :
    t.valueAt step base (some b) = step (t.valueAt step base (t.parent b)) b := by
  rw [valueAt, lineTo, line_eq, foldl_append]
  rfl

theorem Ancestor.induction {P : B → Prop} (hab : t.Ancestor a b) (hbase : P a)
    (hstep : ∀ {p c}, t.parent c = some p → t.Ancestor a p → t.Ancestor c b → P p → P c) : P b := by
  obtain ⟨n, hn⟩ : ∃ n, t.height b = t.height a + n := ⟨_, (Nat.add_sub_of_le hab.height_le).symm⟩
  induction n generalizing b with
  | zero =>
    obtain rfl := hab.eq_of_height_eq (by omega)
    exact hbase
  | succ n ih =>
    cases hp : t.parent b with
    | none =>
      have := t.height_root hp
      omega
    | some p =>
      have hheight := t.height_parent hp
      have hap : t.Ancestor a p := by
        rcases (ancestor_iff_of_parent hp).mp hab with rfl | hap
        · omega
        · exact hap
      refine hstep hp hap (.refl b) (ih hap (fun hq haq hcp => ?_) (by omega))
      exact hstep hq haq (hcp.trans (ancestor_parent hp))

theorem parent_induction {P : Option B → Prop} (hnone : P none)
    (hstep : ∀ b, P (t.parent b) → P (some b)) (pindex : Option B) : P pindex := by
  have hsome (n : Nat) : ∀ b, t.height b = n → P (some b) := by
    induction n with
    | zero =>
      intro b hb
      refine hstep b ?_
      cases hp : t.parent b with
      | none => exact hnone
      | some p =>
        have := t.height_parent hp
        omega
    | succ n ih =>
      intro b hb
      refine hstep b ?_
      cases hp : t.parent b with
      | none => exact hnone
      | some p =>
        have := t.height_parent hp
        exact ih p (by omega)
  cases pindex with
  | none => exact hnone
  | some b => exact hsome _ b rfl

/-! ### Walking back and stepping forward -/

/-- `Path p stack target`: `stack` holds the blocks after `p` up to `target`, in this order. -/
inductive Path (t : BlockTree B) : Option B → List B → Option B → Prop where
  | nil (p : Option B) : Path t p [] p
  | cons {b : B} {stack : List B} {target : Option B} :
      Path t (some b) stack target → Path t (t.parent b) (b :: stack) target

variable (t)

def depth : Option B → Nat
  | none => 0
  | some b => t.height b + 1

/-- Walk towards the root until `probe` has the value of a block; `base` is the value past the
root. The first argument bounds the walk. -/
def walkBack (probe : B → σ → Option α × σ) (base : α) :
    Nat → Option B → List B → σ → (α × List B) × σ
  | _, none, stack, s => ((base, stack), s)
  | 0, some _, stack, s => ((base, stack), s)
  | n + 1, some b, stack, s =>
    match probe b s with
    | (some v, s) => ((v, stack), s)
    | (none, s) => walkBack probe base n (t.parent b) (b :: stack) s

def stepForward (construct : B → α → σ → Except ε α × σ) : List B → α → σ → Except ε α × σ
  | [], v, s => (.ok v, s)
  | b :: stack, v, s =>
    match construct b v s with
    | (.ok v, s) => stepForward construct stack v s
    | (.error e, s) => (.error e, s)

def lazyValue (probe : B → σ → Option α × σ) (base : α) (construct : B → α → σ → Except ε α × σ)
    (pindex : Option B) (s : σ) : Except ε α × σ :=
  let r := t.walkBack probe base (t.depth pindex) pindex [] s
  stepForward construct r.1.2 r.1.1 r.2

/-- A call that keeps `Inv` and returns, when it returns, a value with `Good`. -/
structure Sound (Inv : σ → Prop) (Good : α → Prop) (r : Except ε α × σ) : Prop where
  inv : Inv r.2
  good : ∀ {v}, r.1 = .ok v → Good v

/-- A look for the value of a block that keeps `Inv`, finds only values with `Good`, and finds
nothing only when `Missed` holds. -/
structure Probes (Inv : σ → Prop) (Good : α → Prop) (Missed : Prop) (r : Option α × σ) : Prop where
  inv : Inv r.2
  hit : ∀ {v}, r.1 = some v → Good v
  miss : r.1 = none → Missed

variable {t} {Inv : σ → Prop} {Good : Option B → α → Prop} {Missed Returns : B → Prop}
  {probe : B → σ → Option α × σ}
  {construct : B → α → σ → Except ε α × σ} {base v : α} {stack : List B} {s : σ}

theorem depth_parent (hp : t.parent b = pindex) : t.depth (some b) = t.depth pindex + 1 := by
  cases pindex with
  | none => rw [depth, depth, t.height_root hp]
  | some p => rw [depth, depth, t.height_parent hp]

theorem Path.ancestor (hpath : t.Path pindex stack target) (htarget : target = some b) :
    (∀ q, pindex = some q → t.Ancestor q b) ∧ ∀ c ∈ stack, t.Ancestor c b := by
  induction hpath with
  | nil p =>
    refine ⟨?_, fun c hc => nomatch hc⟩
    rintro q rfl
    cases htarget
    exact .refl _
  | cons _ ih =>
    obtain ⟨hfirst, hrest⟩ := ih htarget
    refine ⟨fun q hq => (ancestor_parent hq).trans (hfirst _ rfl), fun c hc => ?_⟩
    obtain rfl | hc := mem_cons.mp hc
    · exact hfirst _ rfl
    · exact hrest c hc

theorem walkBack_spec (hbase : Good none base)
    (hprobe : ∀ b {s}, Inv s → Probes Inv (Good (some b)) (Missed b) (probe b s))
    {n : Nat} (hn : t.depth pindex ≤ n) (hpath : t.Path pindex stack target)
    (hstack : ∀ b ∈ stack, Missed b) (hs : Inv s) :
    Inv (t.walkBack probe base n pindex stack s).2 ∧
      (∀ b ∈ (t.walkBack probe base n pindex stack s).1.2, Missed b) ∧
      ∃ p, t.Path p (t.walkBack probe base n pindex stack s).1.2 target ∧
        Good p (t.walkBack probe base n pindex stack s).1.1 := by
  induction n generalizing pindex stack s with
  | zero =>
    cases pindex with
    | none => exact ⟨hs, hstack, none, hpath, hbase⟩
    | some b => exact absurd hn (by simp [depth])
  | succ n ih =>
    cases pindex with
    | none => exact ⟨hs, hstack, none, hpath, hbase⟩
    | some b =>
      have hlook := hprobe b hs
      rw [walkBack]
      split
      next v s' heq =>
        rw [heq] at hlook
        exact ⟨hlook.inv, hstack, some b, hpath, hlook.hit rfl⟩
      next s' heq =>
        rw [heq] at hlook
        have hdepth := depth_parent (t := t) (b := b) rfl
        refine ih (by omega) (.cons hpath) (fun c hc => ?_) hlook.inv
        obtain rfl | hc := mem_cons.mp hc
        · exact hlook.miss rfl
        · exact hstack c hc

theorem stepForward_spec (hpath : t.Path pindex stack target)
    (hconstruct : ∀ b {v s}, b ∈ stack → Inv s → Good (t.parent b) v →
      Sound Inv (Good (some b)) (construct b v s) ∧
        (Returns b → ∃ v', (construct b v s).1 = .ok v'))
    (hs : Inv s) (hv : Good pindex v) :
    Sound Inv (Good target) (stepForward construct stack v s) ∧
      ((∀ b ∈ stack, Returns b) → ∃ v', (stepForward construct stack v s).1 = .ok v') := by
  induction hpath generalizing v s with
  | nil p => exact ⟨⟨hs, fun hok => Except.ok.inj hok ▸ hv⟩, fun _ => ⟨v, rfl⟩⟩
  | @cons b stack target _ ih =>
    obtain ⟨⟨hinv, hgood⟩, hreturns⟩ := hconstruct b mem_cons_self hs hv
    rw [stepForward]
    split
    next v' s' heq =>
      rw [heq] at hinv hgood
      obtain ⟨hsound, hrest⟩ :=
        ih (fun c {_ _} hc => hconstruct c (mem_cons_of_mem _ hc)) hinv (hgood rfl)
      exact ⟨hsound, fun hall => hrest fun c hc => hall c (mem_cons_of_mem _ hc)⟩
    next e s' heq =>
      rw [heq] at hinv hreturns
      refine ⟨⟨hinv, (nomatch ·)⟩, fun hall => ?_⟩
      obtain ⟨v', hv'⟩ := hreturns (hall b mem_cons_self)
      cases hv'

theorem lazyValue_spec (hbase : Good none base)
    (hprobe : ∀ b {s}, Inv s → Probes Inv (Good (some b)) (Missed b) (probe b s))
    (hconstruct : ∀ b {v s}, t.Ancestor b c → Missed b → Inv s → Good (t.parent b) v →
      Sound Inv (Good (some b)) (construct b v s) ∧
        (Returns b → ∃ v', (construct b v s).1 = .ok v'))
    (hs : Inv s) :
    Sound Inv (Good (some c)) (t.lazyValue probe base construct (some c) s) ∧
      ((∀ b, t.Ancestor b c → Missed b → Returns b) →
        ∃ v, (t.lazyValue probe base construct (some c) s).1 = .ok v) := by
  obtain ⟨hinv, hmissed, p, hpath, hgood⟩ :=
    walkBack_spec (t := t) hbase hprobe le_rfl (.nil (some c)) (fun _ hb => nomatch hb) hs
  have hancestor := (hpath.ancestor rfl).2
  obtain ⟨hsound, hreturns⟩ := stepForward_spec hpath
    (fun b {_ _} hb => hconstruct b (hancestor b hb) (hmissed b hb)) hinv hgood
  exact ⟨hsound, fun hall => hreturns fun b hb => hall b (hancestor b hb) (hmissed b hb)⟩

end Lib.BlockTree
