import Mathlib.Data.Finset.Card
import Defcon.Lib.AssocMap
import Defcon.Primitives

/-!
# Two blocks signed with one kernel

`StakeDoubleSignMonitor` keeps, for each height and kernel near the tip, the blocks that the owner of
the kernel has signed, and counts the pair when a second one comes in. What it answers about a pair
depends on the calls for that pair and on the tips of all calls, which move the window of heights
that are kept.
-/

namespace Defcon.Pos

open List
open AList (Map)

def WINDOW : Int := 100

def MAX_KERNELS : Nat := 10000

def MAX_BLOCKS_PER_KERNEL : Nat := 4

/-! ### The owner of a kernel -/

inductive TxoutType where
  | pubkey
  | pubkeyhash
  | other
  deriving DecidableEq

/-- Scripts and keys by their bytes: `Solver`, `CPubKey::Decompress` and `CPubKey::GetID`. -/
structure KeyContext where
  solver : CScript → TxoutType × List (List UInt8)
  decompress : List UInt8 → Option (List UInt8)
  getID : List UInt8 → List UInt8

namespace KeyContext

variable (ctx : KeyContext)

def keyPoint (bytes : List UInt8) : Option (List UInt8) :=
  ctx.decompress bytes

/-- Whether `id` hashes the uncompressed, the hybrid or the compressed encoding of `point`. -/
def paysKeyHash (point id : List UInt8) : Bool :=
  let odd := point.getD 64 0 &&& 1
  ctx.getID point = id || ctx.getID (point.set 0 (0x06 ||| odd)) = id ||
    ctx.getID ((point.set 0 (0x02 ||| odd)).take 33) = id

def signerOwnsKernel (signer kernel_script : CScript) : Bool :=
  match ctx.solver signer with
  | (.pubkey, signer_solutions) =>
    match ctx.keyPoint (signer_solutions.headD []) with
    | none => false
    | some key =>
      match ctx.solver kernel_script with
      | (.pubkey, kernel_solutions) => ctx.keyPoint (kernel_solutions.headD []) = some key
      | (.pubkeyhash, kernel_solutions) => ctx.paysKeyHash key (kernel_solutions.headD [])
      | (.other, _) => false
  | _ => false

end KeyContext

/-! ### The monitor -/

structure Seen where
  hash : Uint256
  signer : CScript

structure Slot where
  owner : CScript
  blocks : List Seen := []
  counted : Bool := false

structure DoubleSignEvent where
  height : Int
  kernel : COutPoint
  first : Uint256
  second : Uint256

structure StakeDoubleSignMonitor where
  m_slots : Map (Int × COutPoint) Slot := ∅
  m_count : Nat := 0
  m_last : Option DoubleSignEvent := none

structure Observation where
  tip_height : Int
  height : Int
  hash : Uint256
  kernel : COutPoint
  signer : CScript
  kernel_script : Option CScript

namespace Observation

def key (c : Observation) : Int × COutPoint := (c.height, c.kernel)

def floor (c : Observation) : Int := c.tip_height - WINDOW

end Observation

/-- What `Observe` does with the slot of a block that the owner signed. -/
def Slot.add (slot : Slot) (c : Observation) : Bool × Slot :=
  if slot.blocks.any fun seen => seen.hash = c.hash then (false, slot)
  else
    let blocks := if slot.blocks.length < MAX_BLOCKS_PER_KERNEL
      then slot.blocks ++ [⟨c.hash, c.signer⟩] else slot.blocks
    if blocks.length < 2 then (false, { slot with blocks })
    else if slot.counted then (false, { slot with blocks })
    else (true, { slot with blocks, counted := true })

namespace KeyContext

variable (ctx : KeyContext)

/-- `Observe`. The map is sorted by height first, so the loop at its beginning drops what is below
the floor. -/
def observe (s : StakeDoubleSignMonitor) (c : Observation) : Bool × StakeDoubleSignMonitor :=
  let s := { s with m_slots := s.m_slots.eraseIf fun key => key.1 < c.floor }
  if c.height < c.floor then (false, s)
  else
    let found := s.m_slots.lookup c.key
    match found.map Slot.owner <|> c.kernel_script with
    | none => (false, s)
    | some owner =>
      if ctx.signerOwnsKernel c.signer owner = false then (false, s)
      else if found.isNone ∧ MAX_KERNELS ≤ s.m_slots.entries.length then (false, s)
      else
        match (found.getD { owner }).add c with
        | (false, slot) => (false, { s with m_slots := s.m_slots.insert c.key slot })
        | (true, slot) =>
          (true,
            { m_slots := s.m_slots.insert c.key slot
              m_count := s.m_count + 1
              m_last := some
                { height := c.height
                  kernel := c.kernel
                  first := (slot.blocks.map Seen.hash).getD 0 0
                  second := (slot.blocks.map Seen.hash).getD 1 0 } })

def after (calls : List Observation) : StakeDoubleSignMonitor :=
  calls.foldl (fun s c => (ctx.observe s c).2) {}

def answer (calls : List Observation) (c : Observation) : Bool :=
  (ctx.observe (ctx.after calls) c).1

/-! ### One pair -/

def pairStep (P : Int × COutPoint) (x : Option Slot) (c : Observation) : Bool × Option Slot :=
  if P.1 < c.floor then (false, none)
  else if c.key ≠ P then (false, x)
  else
    match x.map Slot.owner <|> c.kernel_script with
    | none => (false, x)
    | some owner =>
      if ctx.signerOwnsKernel c.signer owner = false then (false, x)
      else (((x.getD { owner }).add c).1, some ((x.getD { owner }).add c).2)

variable {ctx} {s : StakeDoubleSignMonitor} {c : Observation} {P : Int × COutPoint}
  {x : Option Slot} {slot : Slot}

theorem pairStep_of_ne (hkey : c.key ≠ P) :
    ctx.pairStep P x c = (false, if P.1 < c.floor then none else x) := by
  unfold pairStep
  by_cases hbelow : P.1 < c.floor
  · rw [if_pos hbelow, if_pos hbelow]
  · rw [if_neg hbelow, if_pos hkey, if_neg hbelow]

theorem observe_pair (hroom : s.m_slots.entries.length < MAX_KERNELS) :
    (ctx.observe s c).2.m_slots.lookup P = (ctx.pairStep P (s.m_slots.lookup P) c).2 ∧
      (c.key = P → (ctx.observe s c).1 = (ctx.pairStep P (s.m_slots.lookup P) c).1) := by
  unfold observe
  generalize hkept : s.m_slots.eraseIf (fun key => key.1 < c.floor) = kept
  have hlookup (k : Int × COutPoint) :
      kept.lookup k = if k.1 < c.floor then none else s.m_slots.lookup k := by
    rw [← hkept, AList.lookup_eraseIf]
    simp only [decide_eq_true_eq]
  have hsize : ¬(MAX_KERNELS ≤ kept.entries.length) := by
    have hle := AList.length_eraseIf_le (fun key => key.1 < c.floor) s.m_slots
    rw [hkept] at hle
    omega
  dsimp only
  by_cases hkey : c.key = P
  · subst hkey
    unfold pairStep
    by_cases hbelow : c.height < c.floor
    · rw [if_pos hbelow, if_pos (show c.key.1 < c.floor from hbelow)]
      exact ⟨(hlookup c.key).trans (if_pos hbelow), fun _ => rfl⟩
    have hown : kept.lookup c.key = s.m_slots.lookup c.key :=
      (hlookup c.key).trans (if_neg hbelow)
    rw [if_neg hbelow, if_neg (show ¬c.key.1 < c.floor from hbelow), if_neg (not_not.mpr rfl), hown]
    cases (s.m_slots.lookup c.key).map Slot.owner <|> c.kernel_script with
    | none => exact ⟨hown, fun _ => rfl⟩
    | some owner =>
      dsimp only
      split
      · exact ⟨hown, fun _ => rfl⟩
      rw [if_neg fun h => hsize h.2]
      rcases hadd : ((s.m_slots.lookup c.key).getD { owner }).add c with ⟨counted, slot⟩
      cases counted with
      | false | true => exact ⟨AList.lookup_insert _, fun _ => rfl⟩
  · refine ⟨?_, fun h => absurd h hkey⟩
    rw [pairStep_of_ne hkey]
    -- what the call writes is under its own pair
    have hwritten (slot : Slot) : (kept.insert c.key slot).lookup P =
        if P.1 < c.floor then none else s.m_slots.lookup P := by
      rw [AList.lookup_insert_eq_ite, if_neg (Ne.symm hkey)]
      exact hlookup P
    split
    · exact hlookup P
    cases (kept.lookup c.key).map Slot.owner <|> c.kernel_script with
    | none => exact hlookup P
    | some owner =>
      dsimp only
      split
      · exact hlookup P
      rw [if_neg fun h => hsize h.2]
      rcases hadd : ((kept.lookup c.key).getD { owner }).add c with ⟨counted, slot⟩
      cases counted with
      | false => exact hwritten slot
      | true => exact hwritten slot

/-! ### What a slot remembers -/

/-- The hashes of the blocks that the owner signed, from the first call that gives the script of
the kernel on. -/
def tracked (ctx : KeyContext) (own : COutPoint → CScript) (P : Int × COutPoint)
    (calls : List Observation) : List Uint256 :=
  ((calls.filter fun c => c.key = P ∧ ctx.signerOwnsKernel c.signer (own P.2)).dropWhile
    fun c => c.kernel_script.isNone).map Observation.hash

/-- The slot holds the first blocks of the owner, up to the bound, and is counted from the second
one on. -/
structure Remembers (script : CScript) (hashes : List Uint256) (slot : Slot) : Prop where
  owner : slot.owner = script
  nonempty : slot.blocks ≠ []
  nodup : (slot.blocks.map Seen.hash).Nodup
  tracked : ∀ h ∈ slot.blocks.map Seen.hash, h ∈ hashes
  held : slot.blocks.length < MAX_BLOCKS_PER_KERNEL → ∀ h ∈ hashes, h ∈ slot.blocks.map Seen.hash
  counted : slot.counted = true ↔ 2 ≤ slot.blocks.length

def Slotted (script : CScript) (hashes : List Uint256) : Option Slot → Prop
  | none => hashes = []
  | some slot => Remembers script hashes slot

variable {script : CScript} {hashes : List Uint256}

theorem Remembers.card_eq_one_iff (hslot : Remembers script hashes slot) :
    hashes.toFinset.card = 1 ↔ slot.blocks.length = 1 := by
  have hheld : (slot.blocks.map Seen.hash).toFinset.card = slot.blocks.length := by
    rw [toFinset_card_of_nodup hslot.nodup, length_map]
  have hsub : (slot.blocks.map Seen.hash).toFinset ⊆ hashes.toFinset := by
    intro h hh
    rw [mem_toFinset] at hh ⊢
    exact hslot.tracked h hh
  have hpos := length_pos_of_ne_nil hslot.nonempty
  constructor
  · intro hone
    have hle := Finset.card_le_card hsub
    omega
  · intro hone
    have hsame : (slot.blocks.map Seen.hash).toFinset = hashes.toFinset := by
      refine Finset.Subset.antisymm hsub fun h hh => ?_
      rw [mem_toFinset] at hh ⊢
      exact hslot.held (by rw [hone]; decide) h hh
    rw [← hsame, hheld, hone]

theorem mem_hashes_iff {h : Uint256} :
    (slot.blocks.any fun seen => seen.hash = h) = true ↔ h ∈ slot.blocks.map Seen.hash := by
  rw [any_eq_true, mem_map]
  simp only [decide_eq_true_eq]

theorem Remembers.second_iff (hslot : Remembers script hashes slot) {h : Uint256} :
    (hashes.toFinset.card = 1 ∧ (hashes ++ [h]).toFinset.card = 2) ↔
      slot.blocks.length = 1 ∧ h ∉ slot.blocks.map Seen.hash := by
  have hinsert : (hashes ++ [h]).toFinset = insert h hashes.toFinset := by
    ext h'
    simp
  rw [hslot.card_eq_one_iff, hinsert]
  constructor
  · rintro ⟨hone, htwo⟩
    refine ⟨hone, fun hheld => ?_⟩
    have hmem : h ∈ hashes.toFinset := mem_toFinset.mpr (hslot.tracked h hheld)
    rw [Finset.insert_eq_of_mem hmem, hslot.card_eq_one_iff.mpr hone] at htwo
    omega
  · rintro ⟨hone, hnew⟩
    refine ⟨hone, ?_⟩
    have hnot : h ∉ hashes.toFinset := by
      intro hmem
      exact hnew (hslot.held (by rw [hone]; decide) h (mem_toFinset.mp hmem))
    rw [Finset.card_insert_of_notMem hnot, hslot.card_eq_one_iff.mpr hone]

theorem Remembers.add (hslot : Remembers script hashes slot) (c : Observation) :
    Remembers script (hashes ++ [c.hash]) (slot.add c).2 ∧
      ((slot.add c).1 = true ↔
        slot.blocks.length = 1 ∧ c.hash ∉ slot.blocks.map Seen.hash) := by
  have hpos := length_pos_of_ne_nil hslot.nonempty
  unfold Slot.add
  split
  next hheld =>
    have hmem := mem_hashes_iff.mp hheld
    refine ⟨⟨hslot.owner, hslot.nonempty, hslot.nodup, ?_, ?_, hslot.counted⟩, ?_⟩
    · exact fun h hh => mem_append_left _ (hslot.tracked h hh)
    · intro hroom h hh
      rcases mem_append.mp hh with hh | hh
      · exact hslot.held hroom h hh
      · rwa [mem_singleton.mp hh]
    · exact ⟨(nomatch ·), fun h => absurd hmem h.2⟩
  next hheld =>
  have hnew : c.hash ∉ slot.blocks.map Seen.hash := fun hmem => hheld (mem_hashes_iff.mpr hmem)
  split
  next hroom =>
    have hlength : (slot.blocks ++ [(⟨c.hash, c.signer⟩ : Seen)]).length = slot.blocks.length + 1 := by
      rw [length_append, length_singleton]
    -- the block is kept, and with it there are two at least
    have hkept (counted : Bool) (hcounted : counted = true) :
        Remembers script (hashes ++ [c.hash])
          { slot with blocks := slot.blocks ++ [⟨c.hash, c.signer⟩], counted } := by
      refine ⟨hslot.owner, append_ne_nil_of_right_ne_nil _ (cons_ne_nil _ _), ?_, ?_, ?_, ?_⟩
      · rw [map_append]
        exact nodup_append'.mpr ⟨hslot.nodup, nodup_singleton _,
          disjoint_singleton.mpr hnew⟩
      · intro h hh
        rw [map_append, mem_append] at hh
        rcases hh with hh | hh
        · exact mem_append_left _ (hslot.tracked h hh)
        · exact mem_append_right _ hh
      · intro _ h hh
        rw [map_append]
        rcases mem_append.mp hh with hh | hh
        · exact mem_append_left _ (hslot.held hroom h hh)
        · exact mem_append_right _ hh
      · dsimp only
        exact ⟨fun _ => by omega, fun _ => hcounted⟩
    rw [if_neg (by rw [hlength]; omega)]
    split
    next hcounted =>
      refine ⟨hkept slot.counted hcounted, (nomatch ·), fun h => ?_⟩
      have htwo := hslot.counted.mp hcounted
      omega
    next hcounted =>
      refine ⟨hkept true rfl, fun _ => ⟨?_, hnew⟩, fun _ => rfl⟩
      have hfew : ¬2 ≤ slot.blocks.length := fun h => hcounted (hslot.counted.mpr h)
      omega
  next hroom =>
    have hmany : 4 ≤ slot.blocks.length := Nat.not_lt.mp hroom
    have hcounted : slot.counted = true := hslot.counted.mpr (by omega)
    rw [if_neg (by omega), if_pos hcounted]
    refine ⟨⟨hslot.owner, hslot.nonempty, hslot.nodup, ?_, fun h => absurd h hroom, hslot.counted⟩,
      (nomatch ·), fun h => by omega⟩
    exact fun h hh => mem_append_left _ (hslot.tracked h hh)

theorem remembers_first (script : CScript) (c : Observation) :
    (Slot.add { owner := script } c).1 = false ∧
      Remembers script [c.hash] (Slot.add { owner := script } c).2 := by
  refine ⟨rfl, rfl, cons_ne_nil _ _, nodup_singleton _, fun h hh => hh,
    fun _ h hh => hh, ?_⟩
  exact ⟨(nomatch ·), fun h => absurd h (show ¬2 ≤ 1 by decide)⟩

variable {own : COutPoint → CScript} {calls : List Observation}

theorem tracked_append_other
    (hother : ¬(c.key = P ∧ ctx.signerOwnsKernel c.signer (own P.2) = true)) :
    ctx.tracked own P (calls ++ [c]) = ctx.tracked own P calls := by
  unfold tracked
  rw [filter_append, filter_cons_of_neg (by simpa using hother), filter_nil,
    append_nil]

theorem tracked_append_own (hkey : c.key = P)
    (hsigner : ctx.signerOwnsKernel c.signer (own P.2) = true) :
    ctx.tracked own P (calls ++ [c]) =
      if ctx.tracked own P calls = [] ∧ c.kernel_script = none then []
      else ctx.tracked own P calls ++ [c.hash] := by
  unfold tracked
  rw [filter_append, filter_cons_of_pos (by simpa using ⟨hkey, hsigner⟩), filter_nil,
    dropWhile_append]
  generalize (calls.filter fun c => c.key = P ∧ ctx.signerOwnsKernel c.signer (own P.2)).dropWhile
    (fun c => c.kernel_script.isNone) = kept
  cases kept with
  | nil =>
    cases hscript : c.kernel_script with
    | none => simp [hscript]
    | some script => simp [hscript]
  | cons first rest => simp

/-- While the pair is in the window, its slot remembers the blocks that are tracked, and the answer
tells where the second one comes in. -/
theorem Slotted.step (hslotted : Slotted (own P.2) (ctx.tracked own P calls) x)
    (hwindow : c.floor ≤ P.1)
    (hagree : ∀ given, c.kernel_script = some given → given = own c.kernel) :
    Slotted (own P.2) (ctx.tracked own P (calls ++ [c])) (ctx.pairStep P x c).2 ∧
      ((ctx.pairStep P x c).1 = true ↔ (ctx.tracked own P calls).toFinset.card = 1 ∧
        (ctx.tracked own P (calls ++ [c])).toFinset.card = 2) := by
  -- a call that is not tracked brings no hash
  have hidle (hsame : ctx.tracked own P (calls ++ [c]) = ctx.tracked own P calls)
      (hstep : ctx.pairStep P x c = (false, x)) :
      Slotted (own P.2) (ctx.tracked own P (calls ++ [c])) (ctx.pairStep P x c).2 ∧
        ((ctx.pairStep P x c).1 = true ↔ (ctx.tracked own P calls).toFinset.card = 1 ∧
          (ctx.tracked own P (calls ++ [c])).toFinset.card = 2) := by
    rw [hsame, hstep]
    exact ⟨hslotted, (nomatch ·), fun h => by omega⟩
  by_cases hkey : c.key = P
  swap
  · refine hidle (tracked_append_other fun h => hkey h.1) ?_
    rw [pairStep_of_ne hkey, if_neg (Int.not_lt.mpr hwindow)]
  have hkernel : c.kernel = P.2 := congrArg Prod.snd hkey
  have hstep : ctx.pairStep P x c =
      match x.map Slot.owner <|> c.kernel_script with
      | none => (false, x)
      | some owner =>
        if ctx.signerOwnsKernel c.signer owner = false then (false, x)
        else (((x.getD { owner }).add c).1, some ((x.getD { owner }).add c).2) := by
    rw [pairStep, if_neg (Int.not_lt.mpr hwindow), if_neg (not_not.mpr hkey)]
  cases x with
  | none =>
    have hnothing : ctx.tracked own P calls = [] := hslotted
    cases hscript : c.kernel_script with
    | none =>
      rw [hscript] at hstep
      refine hidle ?_ hstep
      by_cases hsigner : ctx.signerOwnsKernel c.signer (own P.2) = true
      · rw [tracked_append_own hkey hsigner, if_pos ⟨hnothing, hscript⟩, hnothing]
      · exact tracked_append_other fun h => hsigner h.2
    | some given =>
      obtain rfl : given = own P.2 := hkernel ▸ hagree given hscript
      rw [hscript] at hstep
      change ctx.pairStep P none c = if ctx.signerOwnsKernel c.signer (own P.2) = false then _
        else _ at hstep
      by_cases hsigner : ctx.signerOwnsKernel c.signer (own P.2) = true
      · rw [if_neg (by rw [hsigner]; decide)] at hstep
        obtain ⟨hanswer, hremembers⟩ := remembers_first (own P.2) c
        rw [hstep, tracked_append_own hkey hsigner, if_neg (by rw [hscript]; exact (nomatch ·.2)),
          hnothing]
        refine ⟨hremembers, fun h => ?_, fun h => absurd h.1 (by decide)⟩
        exact absurd (hanswer.symm.trans h) Bool.false_ne_true
      · rw [if_pos (by simpa using hsigner)] at hstep
        exact hidle (tracked_append_other fun h => hsigner h.2) hstep
  | some slot =>
    have hremembers : Remembers (own P.2) (ctx.tracked own P calls) slot := hslotted
    change ctx.pairStep P (some slot) c = if ctx.signerOwnsKernel c.signer slot.owner = false then _
      else _ at hstep
    rw [hremembers.owner] at hstep
    by_cases hsigner : ctx.signerOwnsKernel c.signer (own P.2) = true
    · rw [if_neg (by rw [hsigner]; decide)] at hstep
      have hsome : ctx.tracked own P calls ≠ [] := by
        obtain ⟨seen, hseen⟩ := exists_mem_of_ne_nil _ hremembers.nonempty
        exact ne_nil_of_mem (hremembers.tracked _ (mem_map_of_mem hseen))
      obtain ⟨hadd, hanswer⟩ := hremembers.add c
      rw [hstep, tracked_append_own hkey hsigner, if_neg fun h => hsome h.1]
      exact ⟨hadd, hanswer.trans hremembers.second_iff.symm⟩
    · rw [if_pos (by simpa using hsigner)] at hstep
      exact hidle (tracked_append_other fun h => hsigner h.2) hstep

theorem add_cases (slot : Slot) (c : Observation) :
    (slot.add c).1 = false ∧ (slot.add c).2.counted = slot.counted ∨
      (slot.add c).1 = true ∧ slot.counted = false ∧ (slot.add c).2.counted = true := by
  unfold Slot.add
  split
  · exact Or.inl ⟨rfl, rfl⟩
  generalize (if slot.blocks.length < MAX_BLOCKS_PER_KERNEL
    then slot.blocks ++ [(⟨c.hash, c.signer⟩ : Seen)] else slot.blocks) = blocks
  dsimp only
  split
  · exact Or.inl ⟨rfl, rfl⟩
  split
  · exact Or.inl ⟨rfl, rfl⟩
  next hcounted => exact Or.inr ⟨rfl, Bool.not_eq_true _ ▸ hcounted, rfl⟩

theorem pairStep_counted (hcounted : slot.counted = true) (hwindow : c.floor ≤ P.1) :
    (ctx.pairStep P (some slot) c).1 = false ∧
      ∃ slot', (ctx.pairStep P (some slot) c).2 = some slot' ∧ slot'.counted = true := by
  unfold pairStep
  rw [if_neg (Int.not_lt.mpr hwindow)]
  split
  · exact ⟨rfl, slot, rfl, hcounted⟩
  change (if ctx.signerOwnsKernel c.signer slot.owner = false then (false, some slot)
    else ((slot.add c).1, some (slot.add c).2)).1 = false ∧ ∃ slot',
      (if ctx.signerOwnsKernel c.signer slot.owner = false then (false, some slot)
        else ((slot.add c).1, some (slot.add c).2)).2 = some slot' ∧ slot'.counted = true
  split
  · exact ⟨rfl, slot, rfl, hcounted⟩
  rcases add_cases slot c with ⟨hanswer, hsame⟩ | ⟨-, hnot, -⟩
  · exact ⟨hanswer, _, rfl, hsame.trans hcounted⟩
  · exact absurd (hnot.symm.trans hcounted) Bool.false_ne_true

theorem pairStep_answer (hanswer : (ctx.pairStep P x c).1 = true) :
    c.floor ≤ P.1 ∧ ∃ slot, (ctx.pairStep P x c).2 = some slot ∧ slot.counted = true := by
  unfold pairStep at hanswer ⊢
  by_cases hbelow : P.1 < c.floor
  · rw [if_pos hbelow] at hanswer
    cases hanswer
  rw [if_neg hbelow] at hanswer ⊢
  refine ⟨Int.not_lt.mp hbelow, ?_⟩
  by_cases hkey : c.key ≠ P
  · rw [if_pos hkey] at hanswer
    cases hanswer
  rw [if_neg hkey] at hanswer ⊢
  cases howner : x.map Slot.owner <|> c.kernel_script with
  | none =>
    rw [howner] at hanswer
    cases hanswer
  | some owner =>
    rw [howner] at hanswer
    dsimp only at hanswer ⊢
    by_cases hsigner : ctx.signerOwnsKernel c.signer owner = false
    · rw [if_pos hsigner] at hanswer
      cases hanswer
    rw [if_neg hsigner] at hanswer ⊢
    refine ⟨_, rfl, ?_⟩
    rcases add_cases (x.getD { owner }) c with ⟨hno, -⟩ | ⟨-, -, hflag⟩
    · exact absurd (hno.symm.trans hanswer) Bool.false_ne_true
    · exact hflag

/-! ### Whole histories -/

def Roomy (ctx : KeyContext) (calls : List Observation) : Prop :=
  ∀ pre, pre <+: calls → (ctx.after pre).m_slots.entries.length < MAX_KERNELS

theorem after_append (pre : List Observation) :
    ctx.after (pre ++ [c]) = (ctx.observe (ctx.after pre) c).2 := by
  rw [after, foldl_append]
  rfl

variable {pre mid post : List Observation} {c' : Observation}

theorem lookup_after (hroomy : ctx.Roomy calls) (hcalls : calls = pre ++ c :: post) :
    (ctx.after (pre ++ [c])).m_slots.lookup P =
        (ctx.pairStep P ((ctx.after pre).m_slots.lookup P) c).2 ∧
      (c.key = P → ctx.answer pre c = (ctx.pairStep P ((ctx.after pre).m_slots.lookup P) c).1) := by
  rw [after_append]
  exact observe_pair (hroomy pre ⟨c :: post, hcalls.symm⟩)

theorem counted_after (hroomy : ctx.Roomy calls) (hcalls : calls = pre ++ (mid ++ post))
    (hcounted : ∃ slot, (ctx.after pre).m_slots.lookup P = some slot ∧ slot.counted = true)
    (hwindow : ∀ c ∈ mid, c.floor ≤ P.1) :
    ∃ slot, (ctx.after (pre ++ mid)).m_slots.lookup P = some slot ∧ slot.counted = true := by
  induction mid generalizing pre with
  | nil => rwa [append_nil]
  | cons c mid ih =>
    obtain ⟨slot, hslot, hflag⟩ := hcounted
    have hnext := (@lookup_after _ _ P _ _ _ hroomy hcalls).1
    rw [hslot] at hnext
    obtain ⟨-, slot', hslot', hflag'⟩ :=
      @pairStep_counted ctx c P slot hflag (hwindow c mem_cons_self)
    rw [append_cons]
    refine ih ?_ ⟨slot', hnext.trans hslot', hflag'⟩ fun c hmem =>
      hwindow c (mem_cons_of_mem _ hmem)
    exact hcalls.trans (append_cons pre c (mid ++ post))

theorem slotted_after (hroomy : ctx.Roomy calls)
    (hagree : ∀ c ∈ calls, ∀ given, c.kernel_script = some given → given = own c.kernel)
    (hwindow : ∀ c ∈ calls, c.floor ≤ P.1) (hpre : pre <+: calls) :
    Slotted (own P.2) (ctx.tracked own P pre) ((ctx.after pre).m_slots.lookup P) := by
  induction pre using reverseRecOn with
  | nil => exact rfl
  | append_singleton pre c ih =>
    obtain ⟨post, hcalls⟩ := hpre
    have hsplit : calls = pre ++ c :: post := by rw [← hcalls, ← append_cons]
    have hmem : c ∈ calls := by
      rw [hsplit]
      exact mem_append_right _ mem_cons_self
    rw [(lookup_after hroomy hsplit).1]
    exact ((ih ⟨c :: post, hsplit.symm⟩).step (hwindow c hmem) (hagree c hmem)).1

/-- **The monitor counts exactly.** A pair is counted once at most, unless a tip goes more than the
window above it and comes back, and then at the second block of the owner. -/
theorem observe_counts (hroomy : ctx.Roomy calls)
    (hagree : ∀ c ∈ calls, ∀ given, c.kernel_script = some given → given = own c.kernel)
    (P : Int × COutPoint) :
    ((∀ pre c post, calls = pre ++ c :: post → c.key = P → c.floor ≤ P.1 →
        ∀ c' ∈ pre, c'.floor ≤ P.1) →
      ∀ pre c mid c' post, calls = pre ++ c :: (mid ++ c' :: post) → c.key = P → c'.key = P →
        ctx.answer pre c = true → ctx.answer (pre ++ c :: mid) c' = false) ∧
    ((∀ c ∈ calls, c.tip_height ≤ P.1 + WINDOW) → ∀ pre c post, calls = pre ++ c :: post →
      (c.key = P ∧ ctx.answer pre c = true ↔ (ctx.tracked own P pre).toFinset.card = 1 ∧
        (ctx.tracked own P (pre ++ [c])).toFinset.card = 2)) := by
  constructor
  · intro hreturn pre c mid c' post hcalls hkey hkey' hanswer
    have hcalls' : calls = (pre ++ c :: mid) ++ c' :: post := by
      rw [hcalls, append_assoc]
      rfl
    obtain ⟨hslot, hfirst⟩ := @lookup_after _ _ P _ _ _ hroomy hcalls
    rw [hfirst hkey] at hanswer
    obtain ⟨-, slot, hcounted, hflag⟩ := pairStep_answer hanswer
    by_cases hwindow : c'.floor ≤ P.1
    · -- no call since the first answer has moved the window past the pair
      have hbetween : ∀ d ∈ mid, d.floor ≤ P.1 := by
        intro d hd
        refine hreturn _ c' post hcalls' hkey' hwindow d ?_
        exact mem_append_right _ (mem_cons_of_mem _ hd)
      have hsplit : calls = (pre ++ [c]) ++ (mid ++ c' :: post) := by
        rw [hcalls, ← append_cons]
      obtain ⟨slot', hslot', hflag'⟩ :=
        counted_after hroomy hsplit ⟨slot, hslot.trans hcounted, hflag⟩ hbetween
      rw [← append_cons] at hslot'
      rw [(lookup_after hroomy hcalls').2 hkey', hslot']
      exact (pairStep_counted hflag' hwindow).1
    · rw [(lookup_after hroomy hcalls').2 hkey', pairStep, if_pos (Int.not_le.mp hwindow)]
  · intro htips pre c post hcalls
    have hwindow : ∀ c ∈ calls, c.floor ≤ P.1 := by
      intro c hmem
      have htip := htips c hmem
      rw [Observation.floor]
      omega
    have hmem : c ∈ calls := by
      rw [hcalls]
      exact mem_append_right _ mem_cons_self
    have hslotted := slotted_after hroomy hagree hwindow ⟨c :: post, hcalls.symm⟩
    rw [← (hslotted.step (hwindow c hmem) (hagree c hmem)).2]
    by_cases hkey : c.key = P
    · rw [(lookup_after hroomy hcalls).2 hkey]
      exact and_iff_right hkey
    · rw [pairStep_of_ne hkey]
      exact ⟨fun h => absurd h.1 hkey, (nomatch ·)⟩

end KeyContext

/-! ### A tip that comes back -/

namespace DoubleSignSample

def keys : KeyContext where
  solver script := (.pubkey, [script])
  decompress := some
  getID bytes := bytes

def signed (tip_height : Int) (hash : Uint256) : Observation :=
  { tip_height, height := 10, hash, kernel := ⟨7, 0⟩, signer := [1], kernel_script := some [1] }

def owner (_ : COutPoint) : CScript := [1]

theorem roomy_of_inits {calls : List Observation}
    (hall : ∀ pre ∈ calls.inits, (keys.after pre).m_slots.entries.length < MAX_KERNELS) :
    keys.Roomy calls :=
  fun pre hpre => hall pre ((mem_inits pre calls).mpr hpre)

theorem agree_of_script {calls : List Observation}
    (hall : ∀ c ∈ calls, c.kernel_script = some [1]) :
    ∀ c ∈ calls, ∀ given, c.kernel_script = some given → given = owner c.kernel :=
  fun c hmem _ hgiven => Option.some.inj (hgiven.symm.trans (hall c hmem))

def quietHistory : List Observation :=
  [signed 10 1, signed 10 2, signed 10 1]

theorem observe_counts_pair :
    keys.answer [signed 10 1] (signed 10 2) = true ∧
      keys.answer [signed 10 1, signed 10 2] (signed 10 1) = false := by
  have htips : ∀ c ∈ quietHistory, c.tip_height ≤ 10 + WINDOW := by decide
  obtain ⟨honce, hsecond⟩ := KeyContext.observe_counts
    (@roomy_of_inits quietHistory (by decide +kernel)) (agree_of_script (by decide))
    (10, ⟨7, 0⟩)
  have hanswer := (hsecond htips [signed 10 1] (signed 10 2) [signed 10 1] rfl).mpr (by decide +kernel)
  refine ⟨hanswer.2, ?_⟩
  refine honce ?_ [signed 10 1] (signed 10 2) [] (signed 10 1) [] rfl rfl rfl hanswer.2
  intro pre c post hcalls _ _ c' hmem
  have htip := htips c' (by rw [hcalls]; exact mem_append_left _ hmem)
  rw [Observation.floor]
  omega

def history : List Observation :=
  [signed 10 1] ++ signed 10 2 :: ([signed 200 3, signed 10 1] ++ [signed 10 2])

/-- The tip goes more than the window above the pair and comes back: the pair is counted again. -/
theorem counted_twice_after_reorganisation :
    keys.Roomy history ∧
      (∀ c ∈ history, ∀ given, c.kernel_script = some given → given = owner c.kernel) ∧
      keys.answer [signed 10 1] (signed 10 2) = true ∧
      keys.answer ([signed 10 1] ++ signed 10 2 :: [signed 200 3, signed 10 1]) (signed 10 2) =
        true :=
  ⟨roomy_of_inits (by decide +kernel), agree_of_script (by decide), by decide +kernel,
    by decide +kernel⟩

end DoubleSignSample

end Defcon.Pos
