import Mathlib.Data.List.TakeWhile
import Mathlib.Order.Interval.Finset.Nat

/-!
# The set of `util/ranges_set.h`

Numbers of 64 bits kept as maximal ranges, in the order of a `std::set`. The end of a range is the
successor of its last element and wraps for the largest number, which the set therefore cannot
hold. Where that number is not added, the calls are those of a plain set.
-/

namespace Defcon

open List

/-- `CRangesSet::Range`: the numbers from `begin` up to and without `end_`. -/
structure Range where
  begin : Nat
  end_ : Nat
  deriving DecidableEq

def Range.lt (r other : Range) : Bool :=
  if r.begin ≠ other.begin then r.begin < other.begin else r.end_ < other.end_

structure CRangesSet where
  ranges : List Range
  deriving DecidableEq

namespace CRangesSet

def empty : CRangesSet := ⟨[]⟩

def isEmpty (s : CRangesSet) : Bool :=
  s.ranges.isEmpty

def before (s : CRangesSet) (value : Nat) : List Range :=
  s.ranges.takeWhile (·.lt ⟨value, value⟩)

def fromBound (s : CRangesSet) (value : Nat) : List Range :=
  s.ranges.dropWhile (·.lt ⟨value, value⟩)

def contains (s : CRangesSet) (value : Nat) : Bool :=
  (s.fromBound value).head?.any (fun it => it.begin = value) ||
    (s.before value).getLast?.any fun prev => prev.begin ≤ value ∧ value < prev.end_

variable (ranges : List Range)

def insertRange (r : Range) : Option (List Range) :=
  let after := ranges.dropWhile (·.lt r)
  if after.head? = some r then none else some (ranges.takeWhile (·.lt r) ++ r :: after)

def mergePrev (value : Nat) : List Range × Nat :=
  match ranges.getLast? with
  | none => (ranges, value)
  | some prev => if prev.end_ = value then (ranges.dropLast, prev.begin) else (ranges, value)

def mergeNext (succ : Nat) : List Range × Nat :=
  match ranges with
  | [] => ([], succ)
  | next :: rest => if next.begin = succ then (rest, next.end_) else (ranges, succ)

def add (s : CRangesSet) (value : Nat) : Option (Bool × CRangesSet) :=
  if s.contains value then some (false, s)
  else
    let (before, begin) := mergePrev (s.before value) value
    let (after, end_) := mergeNext (s.fromBound value) ((value + 1) % 2 ^ 64)
    (insertRange (before ++ after) ⟨begin, end_⟩).map fun ranges => (true, ⟨ranges⟩)

/-- The range that holds `value`, and the others. -/
def takeRange (s : CRangesSet) (value : Nat) : Option (Range × List Range) :=
  let prev := (s.before value).getLast?.map fun it =>
    (it, (s.before value).dropLast ++ s.fromBound value)
  match s.fromBound value with
  | [] => prev
  | it :: rest => if it.begin ≠ value then prev else some (it, s.before value ++ rest)

/-- What is left of a range on one side of a removed value, unless it is empty. -/
def insertPiece (r : Range) : Option (List Range) :=
  if r.begin ≠ r.end_ then insertRange ranges r else some ranges

def remove (s : CRangesSet) (value : Nat) : Option (Bool × CRangesSet) :=
  if !s.contains value then some (false, s)
  else do
    let (current, ranges) ← s.takeRange value
    let ranges ← insertPiece ranges ⟨current.begin, value⟩
    let ranges ← insertPiece ranges ⟨(value + 1) % 2 ^ 64, current.end_⟩
    some (true, ⟨ranges⟩)

/-- The differences and the sum are those of 64-bit numbers. -/
def size (s : CRangesSet) : Nat :=
  s.ranges.foldl (fun result i => (result + (i.end_ + 2 ^ 64 - i.begin)) % 2 ^ 64) 0

/-! ### The set of numbers -/

def Covers (v : Nat) : Prop :=
  ∃ r ∈ ranges, r.begin ≤ v ∧ v < r.end_

instance : Membership Nat CRangesSet where
  mem s value := Covers s.ranges value

/-- No range is empty, and between two ranges there is a gap. -/
structure Separated (ranges : List Range) : Prop where
  nonempty : ∀ r ∈ ranges, r.begin < r.end_
  gap : ranges.Pairwise fun r r' => r.end_ < r'.begin

theorem separated_nil : Separated [] := by
  constructor <;> simp

variable {l : List Range} {r : Range}

theorem Separated.sublist {l' : List Range} (hl : Separated l) (hsub : l'.Sublist l) :
    Separated l' :=
  ⟨fun r hr => hl.nonempty r (hsub.subset hr), hl.gap.sublist hsub⟩

theorem covers_append {l' : List Range} {v : Nat} :
    Covers (l ++ l') v ↔ Covers l v ∨ Covers l' v := by
  simp only [Covers, mem_append, or_and_right, exists_or]

theorem covers_cons {v : Nat} : Covers (r :: l) v ↔ (r.begin ≤ v ∧ v < r.end_) ∨ Covers l v := by
  simp [Covers]

variable {s : CRangesSet} {value : Nat}

theorem lt_iff {bound : Range} :
    r.lt bound = true ↔ r.begin < bound.begin ∨ r.begin = bound.begin ∧ r.end_ < bound.end_ := by
  unfold Range.lt
  split
  · simp only [decide_eq_true_eq]
    omega
  · simp only [decide_eq_true_eq]
    omega

theorem lt_bound_iff (hr : r.begin < r.end_) : r.lt ⟨value, value⟩ = true ↔ r.begin < value := by
  rw [lt_iff]
  dsimp only
  omega

theorem append_split (s : CRangesSet) (value : Nat) :
    s.before value ++ s.fromBound value = s.ranges :=
  takeWhile_append_dropWhile

theorem begin_lt_of_mem_before (hs : Separated s.ranges) (hr : r ∈ s.before value) :
    r.begin < value := by
  have hmem : r ∈ s.ranges := (takeWhile_sublist _).subset hr
  refine (lt_bound_iff (hs.nonempty r hmem)).mp ?_
  exact mem_takeWhile_imp (p := fun r : Range => r.lt ⟨value, value⟩) hr

theorem not_lt_of_mem_dropWhile {bound : Range} (hl : Separated l)
    (hr : r ∈ l.dropWhile (·.lt bound)) : ¬ r.lt bound = true := by
  have hsep : Separated (l.dropWhile (·.lt bound)) := hl.sublist (dropWhile_sublist _)
  have hhead := head?_dropWhile_not (·.lt bound) l
  cases hdrop : l.dropWhile (·.lt bound) with
  | nil =>
    rw [hdrop] at hr
    cases hr
  | cons it rest =>
    rw [hdrop] at hr hsep hhead
    have hit : ¬ it.lt bound = true := by simpa using hhead
    obtain rfl | hr := mem_cons.mp hr
    · exact hit
    · have hgap := (pairwise_cons.mp hsep.gap).1 r hr
      have := hsep.nonempty it mem_cons_self
      rw [lt_iff] at hit ⊢
      omega

theorem le_begin_of_mem_fromBound (hs : Separated s.ranges) (hr : r ∈ s.fromBound value) :
    value ≤ r.begin := by
  have hlt := not_lt_of_mem_dropWhile hs hr
  rwa [lt_bound_iff (hs.nonempty r ((dropWhile_sublist _).subset hr)), not_lt] at hlt

theorem contains_iff (hs : Separated s.ranges) : s.contains value = true ↔ value ∈ s := by
  rw [contains, Bool.or_eq_true, Option.any_eq_true, Option.any_eq_true]
  constructor
  · rintro (⟨it, hit, hbegin⟩ | ⟨prev, hprev, hin⟩)
    · have hmem : it ∈ s.ranges := (dropWhile_sublist _).subset (mem_of_mem_head? hit)
      have hnonempty := hs.nonempty it hmem
      rw [decide_eq_true_eq] at hbegin
      exact ⟨it, hmem, by omega, by omega⟩
    · have hmem : prev ∈ s.ranges := (takeWhile_sublist _).subset (mem_of_getLast? hprev)
      exact ⟨prev, hmem, of_decide_eq_true hin⟩
  · rintro ⟨r, hr, hle, hlt⟩
    have hbefore : Separated (s.before value) := hs.sublist (takeWhile_sublist _)
    have hfrom : Separated (s.fromBound value) := hs.sublist (dropWhile_sublist _)
    rw [← append_split s value, mem_append] at hr
    obtain hr | hr := hr
    · -- a later range before the bound would begin after `r` ends
      right
      obtain ⟨init, last, hinit⟩ :=
        (eq_nil_or_concat' _).resolve_left (ne_nil_of_mem hr)
      have hlast : last.begin < value := begin_lt_of_mem_before hs (by rw [hinit]; simp)
      rw [hinit] at hr hbefore
      rw [hinit, getLast?_concat]
      obtain hr | hr := mem_append.mp hr
      · have := (pairwise_append.mp hbefore.gap).2.2 r hr last mem_cons_self
        omega
      · rw [mem_singleton] at hr
        subst hr
        exact ⟨r, rfl, by simp [hle, hlt]⟩
    · left
      cases hbound : s.fromBound value with
      | nil =>
        rw [hbound] at hr
        cases hr
      | cons it rest =>
        have hit : value ≤ it.begin :=
          le_begin_of_mem_fromBound hs (by rw [hbound]; exact mem_cons_self)
        rw [hbound] at hr hfrom
        refine ⟨it, rfl, ?_⟩
        obtain rfl | hr := mem_cons.mp hr
        · simp only [decide_eq_true_eq]
          omega
        · have hgap := (pairwise_cons.mp hfrom.gap).1 r hr
          have := hfrom.nonempty it mem_cons_self
          omega

theorem mergePrev_spec (value : Nat) (hl : Separated l) (hends : ∀ r ∈ l, r.end_ ≤ value) :
    (mergePrev l value).1.Sublist l ∧ (∀ r ∈ (mergePrev l value).1, r.end_ < (mergePrev l value).2) ∧
      (mergePrev l value).2 ≤ value ∧
      ∀ v, Covers l v ↔ Covers (mergePrev l value).1 v ∨ ((mergePrev l value).2 ≤ v ∧ v < value) := by
  unfold mergePrev
  rcases eq_nil_or_concat' l with rfl | ⟨init, prev, rfl⟩
  · simp [Covers]
  · simp only [getLast?_concat, dropLast_concat]
    obtain ⟨-, -, hgap⟩ := pairwise_append.mp hl.gap
    have hgap (r : Range) (hr : r ∈ init) : r.end_ < prev.begin := hgap r hr prev mem_cons_self
    have hprev := hl.nonempty prev (by simp)
    have hend := hends prev (by simp)
    split
    next heq =>
      refine ⟨sublist_append_left _ _, hgap, by omega, fun v => ?_⟩
      rw [covers_append, covers_cons, heq]
      simp [Covers]
    next hne =>
      refine ⟨.refl _, fun r hr => ?_, le_rfl, fun v => ?_⟩
      · obtain hr | hr := mem_append.mp hr
        · have := hgap r hr
          omega
        · rw [mem_singleton] at hr
          subst hr
          omega
      · constructor
        · exact Or.inl
        · rintro (h | h)
          · exact h
          · omega

theorem mergeNext_spec (succ : Nat) (hl : Separated l) (hbegins : ∀ r ∈ l, succ ≤ r.begin) :
    (mergeNext l succ).1.Sublist l ∧ (∀ r ∈ (mergeNext l succ).1, (mergeNext l succ).2 < r.begin) ∧
      succ ≤ (mergeNext l succ).2 ∧
      ∀ v, Covers l v ↔ Covers (mergeNext l succ).1 v ∨ (succ ≤ v ∧ v < (mergeNext l succ).2) := by
  unfold mergeNext
  cases l with
  | nil => simp [Covers]
  | cons next rest =>
    have hgap := (pairwise_cons.mp hl.gap).1
    have hnext := hl.nonempty next mem_cons_self
    have hbegin := hbegins next mem_cons_self
    dsimp only
    split
    next heq =>
      refine ⟨sublist_cons_self _ _, hgap, by omega, fun v => ?_⟩
      rw [covers_cons, heq, or_comm]
    next hne =>
      refine ⟨.refl _, fun r hr => ?_, le_rfl, fun v => ?_⟩
      · obtain rfl | hr := mem_cons.mp hr
        · omega
        · have := hgap r hr
          omega
      · constructor
        · exact Or.inl
        · rintro (h | h)
          · exact h
          · omega

theorem insertRange_spec (hl : Separated l) (hr : r.begin < r.end_)
    (hfits : ∀ p ∈ l, p.end_ < r.begin ∨ r.end_ < p.begin) :
    ∃ l', insertRange l r = some l' ∧ Separated l' ∧ ∀ p, p ∈ l' ↔ p = r ∨ p ∈ l := by
  have hpre (p : Range) (hp : p ∈ l.takeWhile (·.lt r)) : p.end_ < r.begin := by
    have hlt := lt_iff.mp (mem_takeWhile_imp (p := fun p : Range => p.lt r) hp)
    have := hfits p ((takeWhile_sublist _).subset hp)
    omega
  have hpost (n : Range) (hn : n ∈ l.dropWhile (·.lt r)) : r.end_ < n.begin := by
    have hlt := not_lt_of_mem_dropWhile hl hn
    have hmem := (dropWhile_sublist _).subset hn
    have := hfits n hmem
    have := hl.nonempty n hmem
    rw [lt_iff] at hlt
    omega
  have hsplit (p : Range) : p ∈ l ↔ p ∈ l.takeWhile (·.lt r) ∨ p ∈ l.dropWhile (·.lt r) := by
    rw [← mem_append, takeWhile_append_dropWhile]
  refine ⟨l.takeWhile (·.lt r) ++ r :: l.dropWhile (·.lt r), ?_, ⟨fun p hp => ?_, ?_⟩, fun p => ?_⟩
  · refine if_neg fun hhead => ?_
    have := hpost r (mem_of_mem_head? hhead)
    omega
  · rw [mem_append, mem_cons, or_left_comm, ← hsplit] at hp
    obtain rfl | hp := hp
    · exact hr
    · exact hl.nonempty p hp
  · rw [pairwise_append, pairwise_cons]
    refine ⟨hl.gap.sublist (takeWhile_sublist _), ⟨hpost, hl.gap.sublist (dropWhile_sublist _)⟩, ?_⟩
    intro p hp n hn
    have hp := hpre p hp
    obtain rfl | hn := mem_cons.mp hn
    · exact hp
    · have := hpost n hn
      omega
  · rw [mem_append, mem_cons, or_left_comm, ← hsplit]

theorem covers_of_mem {l' : List Range} (hmem : ∀ p, p ∈ l' ↔ p = r ∨ p ∈ l) (v : Nat) :
    Covers l' v ↔ (r.begin ≤ v ∧ v < r.end_) ∨ Covers l v := by
  simp [Covers, hmem, or_and_right, exists_or]

theorem add_eq_some (hs : Separated s.ranges) (hnew : value ∉ s) (hvalue : value + 1 < 2 ^ 64) :
    ∃ s', s.add value = some (true, s') ∧ Separated s'.ranges ∧
      ∀ v, v ∈ s' ↔ v = value ∨ v ∈ s := by
  have hcontains : ¬ s.contains value = true := fun hcontains => hnew ((contains_iff hs).mp hcontains)
  have hmem {r : Range} (hr : r ∈ s.before value ∨ r ∈ s.fromBound value) : r ∈ s.ranges := by
    rw [← append_split s value]
    exact mem_append.mpr hr
  have hbefore : Separated (s.before value) := hs.sublist (takeWhile_sublist _)
  have hfrom : Separated (s.fromBound value) := hs.sublist (dropWhile_sublist _)
  obtain ⟨hsub, hends, hbegin, hcover⟩ := mergePrev_spec value hbefore fun r hr => by
    have := begin_lt_of_mem_before hs hr
    by_contra hlt
    exact hnew ⟨r, hmem (Or.inl hr), by omega, by omega⟩
  obtain ⟨hsub', hbegins, hend, hcover'⟩ := mergeNext_spec (value + 1) hfrom fun r hr => by
    have := le_begin_of_mem_fromBound hs hr
    have := hs.nonempty r (hmem (Or.inr hr))
    by_contra hlt
    exact hnew ⟨r, hmem (Or.inr hr), by omega, by omega⟩
  simp only [add, if_neg hcontains, Nat.mod_eq_of_lt hvalue]
  generalize mergePrev (s.before value) value = p at hsub hends hbegin hcover ⊢
  generalize mergeNext (s.fromBound value) (value + 1) = n at hsub' hbegins hend hcover' ⊢
  obtain ⟨l, begin⟩ := p
  obtain ⟨l', end_⟩ := n
  have hrest : Separated (l ++ l') := by
    refine hs.sublist ?_
    rw [← append_split s value]
    exact hsub.append hsub'
  obtain ⟨ranges, hinsert, hranges, hin⟩ := insertRange_spec (r := ⟨begin, end_⟩) hrest
    (by dsimp only; omega) fun p hp => (mem_append.mp hp).imp (hends p) (hbegins p)
  rw [hinsert]
  refine ⟨⟨ranges⟩, rfl, hranges, fun v => ?_⟩
  have hold : v ∈ s ↔ Covers (s.before value) v ∨ Covers (s.fromBound value) v := by
    rw [← covers_append, append_split]
    rfl
  show Covers ranges v ↔ _
  rw [covers_of_mem hin, hold, hcover, hcover', covers_append]
  by_cases hl : Covers l v
  · simp [hl]
  · by_cases hl' : Covers l' v
    · simp [hl']
    · simp only [hl, hl', false_or, or_false]
      omega

theorem takeRange_spec (hs : Separated s.ranges) (hmem : value ∈ s) :
    ∃ l r l', s.ranges = l ++ r :: l' ∧ (r.begin ≤ value ∧ value < r.end_) ∧
      s.takeRange value = some (r, l ++ l') := by
  have hcontains := (contains_iff hs).mpr hmem
  have hsplit := append_split s value
  rw [contains, Bool.or_eq_true, Option.any_eq_true, Option.any_eq_true] at hcontains
  -- the case where the range begins before `value`
  have hlast (hnot : ¬ ∃ it, (s.fromBound value).head? = some it ∧ decide (it.begin = value) = true) :
      ∃ init prev, s.before value = init ++ [prev] ∧ prev.begin ≤ value ∧ value < prev.end_ := by
    obtain ⟨prev, hprev, hin⟩ := hcontains.resolve_left hnot
    obtain ⟨init, hinit⟩ := getLast?_eq_some_iff.mp hprev
    exact ⟨init, prev, hinit, of_decide_eq_true hin⟩
  unfold takeRange
  cases hfrom : s.fromBound value with
  | nil =>
    obtain ⟨init, prev, hinit, hin⟩ := hlast (by simp [hfrom])
    exact ⟨init, prev, [], by rw [← hsplit, hfrom, hinit, append_nil], hin, by simp [hinit]⟩
  | cons it rest =>
    rw [hfrom] at hsplit
    by_cases hbegin : it.begin = value
    · have hit : it ∈ s.ranges := by simp [← hsplit]
      have := hs.nonempty it hit
      exact ⟨s.before value, it, rest, hsplit.symm, ⟨by omega, by omega⟩, by simp [hbegin]⟩
    · obtain ⟨init, prev, hinit, hin⟩ := hlast (by simp [hfrom, hbegin])
      exact ⟨init, prev, it :: rest, by simp [← hsplit, hinit], hin, by simp [hinit, hbegin]⟩

theorem insertPiece_spec (hl : Separated l) (hr : r.begin ≤ r.end_)
    (hfits : ∀ p ∈ l, p.end_ < r.begin ∨ r.end_ < p.begin) :
    ∃ l', insertPiece l r = some l' ∧ Separated l' ∧ (∀ p ∈ l', p = r ∨ p ∈ l) ∧
      ∀ v, Covers l' v ↔ (r.begin ≤ v ∧ v < r.end_) ∨ Covers l v := by
  unfold insertPiece
  split
  · obtain ⟨l', hinsert, hl', hmem⟩ := insertRange_spec hl (by omega) hfits
    exact ⟨l', hinsert, hl', fun p => (hmem p).mp, covers_of_mem hmem⟩
  · refine ⟨l, rfl, hl, fun p => .inr, fun v => ?_⟩
    rw [or_iff_right]
    omega

theorem remove_eq_some (hs : Separated s.ranges) (hmem : value ∈ s)
    (hbound : ∀ r ∈ s.ranges, r.end_ < 2 ^ 64) :
    ∃ s', s.remove value = some (true, s') ∧ Separated s'.ranges ∧
      ∀ v, v ∈ s' ↔ v ≠ value ∧ v ∈ s := by
  obtain ⟨l, r, l', hranges, hin, htake⟩ := takeRange_spec hs hmem
  have hr : r ∈ s.ranges := by simp [hranges]
  have hrest : Separated (l ++ l') := hs.sublist (by simp [hranges])
  have hfits (p : Range) (hp : p ∈ l ++ l') : p.end_ < r.begin ∨ r.end_ < p.begin := by
    obtain ⟨-, hafter, hbefore⟩ := pairwise_append.mp (hranges ▸ hs.gap)
    exact (mem_append.mp hp).imp (hbefore p · r mem_cons_self) ((pairwise_cons.mp hafter).1 p)
  obtain ⟨first, hfirst, hsep, hold, hcover⟩ :=
    insertPiece_spec (r := ⟨r.begin, value⟩) hrest hin.1 fun p hp => by
      have := hfits p hp
      dsimp only
      omega
  obtain ⟨both, hboth, hsep', -, hcover'⟩ :=
    insertPiece_spec (r := ⟨value + 1, r.end_⟩) hsep hin.2 fun p hp => by
      dsimp only
      obtain rfl | hp := hold p hp
      · exact .inl (Nat.lt_succ_self value)
      · have := hfits p hp
        omega
  have hsucc : (value + 1) % 2 ^ 64 = value + 1 := by
    have := hbound r hr
    exact Nat.mod_eq_of_lt (by omega)
  refine ⟨⟨both⟩, ?_, hsep', fun v => ?_⟩
  · rw [remove, (contains_iff hs).mpr hmem, Bool.not_true, if_neg Bool.false_ne_true, htake]
    simp only [Option.bind_eq_bind, Option.bind_some, hsucc, hfirst, hboth]
  · have hnot : ¬ Covers (l ++ l') value := by
      rintro ⟨p, hp, hp'⟩
      have := hfits p hp
      omega
    have hsplit : v ∈ s ↔ (r.begin ≤ v ∧ v < r.end_) ∨ Covers (l ++ l') v := by
      show Covers s.ranges v ↔ _
      rw [hranges, covers_append, covers_cons, covers_append, or_left_comm]
    show Covers both v ↔ _
    rw [hcover', hcover, hsplit]
    by_cases hv : v = value
    · simp [hv, hnot]
    · simp only [hv, ne_eq, not_false_eq_true, true_and, ← or_assoc]
      refine or_congr_left ?_
      omega

/-! ### Runs of calls -/

theorem foldl_size {S : Finset Nat} {start : Nat} (hl : Separated l) (hS : ∀ v, Covers l v ↔ v ∈ S)
    (hstart : start + S.card < 2 ^ 64) :
    l.foldl (fun result i => (result + (i.end_ + 2 ^ 64 - i.begin)) % 2 ^ 64) start =
      start + S.card := by
  induction l generalizing S start with
  | nil =>
    obtain rfl : S = ∅ := Finset.eq_empty_of_forall_notMem fun v hv => by
      simpa [Covers] using (hS v).mpr hv
    rfl
  | cons r l ih =>
    have hr := hl.nonempty r mem_cons_self
    have hgap := (pairwise_cons.mp hl.gap).1
    have hsub : Finset.Ico r.begin r.end_ ⊆ S := fun v hv =>
      (hS v).mp (covers_cons.mpr (.inl (Finset.mem_Ico.mp hv)))
    have hcard := Finset.card_sdiff_add_card_eq_card hsub
    rw [Nat.card_Ico] at hcard
    rw [foldl_cons, ih (S := S \ Finset.Ico r.begin r.end_) (hl.sublist (sublist_cons_self _ _))]
    · omega
    · intro v
      rw [Finset.mem_sdiff, ← hS v, covers_cons, Finset.mem_Ico, or_and_right, and_not_self_iff,
        false_or, iff_self_and]
      rintro ⟨p, hp, hp'⟩
      have := hgap p hp
      omega
    · omega

inductive Call where
  | add (value : UInt64)
  | remove (value : UInt64)
  deriving DecidableEq

def call (s : CRangesSet) : Call → Option (Bool × CRangesSet)
  | .add value => s.add value.toNat
  | .remove value => s.remove value.toNat

/-- What a call does to a plain set. -/
def plainCall (S : Finset Nat) : Call → Finset Nat
  | .add value => insert value.toNat S
  | .remove value => S.erase value.toNat

/-- The range set shows the numbers of a plain set. -/
structure Shows (s : CRangesSet) (S : Finset Nat) : Prop where
  separated : Separated s.ranges
  mem_iff : ∀ v, v ∈ s ↔ v ∈ S
  small : ∀ v ∈ S, v + 1 < 2 ^ 64

variable {S : Finset Nat}

theorem Shows.size_eq (h : s.Shows S) : s.size = S.card := by
  have hcard : S.card ≤ 2 ^ 64 - 1 := by
    rw [← Finset.card_range (2 ^ 64 - 1)]
    refine Finset.card_le_card fun v hv => Finset.mem_range.mpr ?_
    have := h.small v hv
    omega
  refine (foldl_size h.separated h.mem_iff ?_).trans (Nat.zero_add _)
  omega

theorem Shows.call (h : s.Shows S) {c : Call} (hc : c ≠ .add 0xffffffffffffffff) :
    ∃ changed s', s.call c = some (changed, s') ∧ (changed = true ↔ plainCall S c ≠ S) ∧
      s'.Shows (plainCall S c) := by
  have hcontains (value : UInt64) : s.contains value.toNat = decide (value.toNat ∈ S) := by
    rw [Bool.eq_iff_iff, contains_iff h.separated, h.mem_iff, decide_eq_true_iff]
  cases c with
  | add value =>
    by_cases hmem : value.toNat ∈ S
    · refine ⟨false, s, by simp [CRangesSet.call, add, hcontains, hmem], ?_⟩
      rw [plainCall, Finset.insert_eq_of_mem hmem]
      exact ⟨by simp, h⟩
    · have hlt : value.toNat + 1 < 2 ^ 64 := by
        have := value.toNat_lt
        have hne : value.toNat ≠ 2 ^ 64 - 1 := fun heq =>
          hc (congrArg Call.add (UInt64.toNat.inj heq))
        omega
      obtain ⟨s', hadd, hsep, hin⟩ := add_eq_some h.separated (mt (h.mem_iff _).mp hmem) hlt
      refine ⟨true, s', hadd, by simpa [plainCall] using hmem, hsep, fun v => ?_, ?_⟩
      · rw [hin, h.mem_iff, plainCall, Finset.mem_insert]
      · simpa [plainCall] using ⟨hlt, h.small⟩
  | remove value =>
    by_cases hmem : value.toNat ∈ S
    · have hbound (r : Range) (hr : r ∈ s.ranges) : r.end_ < 2 ^ 64 := by
        have hnonempty := h.separated.nonempty r hr
        have := h.small (r.end_ - 1) ((h.mem_iff _).mp ⟨r, hr, by omega, by omega⟩)
        omega
      obtain ⟨s', hremove, hsep, hin⟩ := remove_eq_some h.separated ((h.mem_iff _).mpr hmem) hbound
      refine ⟨true, s', hremove, by simpa [plainCall] using hmem, hsep, fun v => ?_, fun v hv => ?_⟩
      · rw [hin, h.mem_iff, plainCall, Finset.mem_erase]
      · exact h.small v (Finset.mem_of_mem_erase hv)
    · refine ⟨false, s, by simp [CRangesSet.call, remove, hcontains, hmem], ?_⟩
      rw [plainCall, Finset.erase_eq_of_notMem hmem]
      exact ⟨by simp, h⟩

def run (calls : List Call) : Option CRangesSet :=
  calls.foldlM (fun s c => (s.call c).map Prod.snd) empty

/-- The numbers that were added after their last removal. -/
def contents (calls : List Call) : Finset Nat :=
  calls.foldl plainCall ∅

theorem mem_contents_of_added {calls : List Call} {value : UInt64} (hadded : .add value ∈ calls)
    (hkept : .remove value ∉ calls) : value.toNat ∈ contents calls := by
  unfold contents
  induction calls using reverseRecOn with
  | nil => cases hadded
  | append_singleton calls c ih =>
    rw [mem_append, mem_singleton] at hadded hkept
    rw [foldl_append, foldl_cons, foldl_nil]
    obtain hadded | rfl := hadded
    · have hmem := ih hadded fun h => hkept (.inl h)
      cases c with
      | add other => exact Finset.mem_insert_of_mem hmem
      | remove other =>
        refine Finset.mem_erase.mpr ⟨fun heq => hkept (.inr ?_), hmem⟩
        rw [UInt64.toNat.inj heq]
    · exact Finset.mem_insert_self _ _

theorem exists_run {calls : List Call} (hcalls : ∀ c ∈ calls, c ≠ .add 0xffffffffffffffff) :
    ∃ s, run calls = some s ∧ s.Shows (contents calls) := by
  unfold run contents
  induction calls using reverseRecOn with
  | nil =>
    refine ⟨empty, rfl, separated_nil, fun v => ?_, by simp⟩
    exact iff_of_false (fun ⟨_, hr, _⟩ => nomatch hr) (Finset.notMem_empty v)
  | append_singleton calls c ih =>
    obtain ⟨s, hrun, hshows⟩ := ih fun c hc => hcalls c (mem_append_left _ hc)
    obtain ⟨changed, s', hcall, -, hshows⟩ := hshows.call (hcalls c (by simp))
    refine ⟨s', ?_, by rwa [foldl_append]⟩
    rw [foldlM_append, hrun]
    simp [hcall]

end CRangesSet

end Defcon
