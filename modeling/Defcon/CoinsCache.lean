import Defcon.Coins
import Defcon.Lib.Fallible
import Defcon.Lib.Run

/-!
# Layered coin caches

A `CCoinsViewCache` keeps coins of the view below it, with two flags: DIRTY for an entry that may
differ from the view below, FRESH for one of which the view below has no unspent coin. Caches are
stacked over a base map. This module says what the flags mean and proves that reading and writing
one cache keeps that.
-/

namespace Defcon.CoinsCache

open AList Function
open AList (Map)

/-! ### Caches -/

def isSpent (coin : Coin) : Bool :=
  coin.out.nValue = -1

def visible (coin : Coin) : Option Coin :=
  if isSpent coin then none else some coin

structure CCoinsCacheEntry where
  coin : Coin := CoinsView.coinEmpty
  dirty : Bool := false
  fresh : Bool := false
  deriving DecidableEq

/-- `CCoinsViewCache` without its best block. -/
structure CCoinsViewCache where
  cacheCoins : Map COutPoint CCoinsCacheEntry := ∅
  cachedCoinsUsage : Int := 0

/-- `DynamicMemoryUsage` of a script. An empty script allocates nothing. -/
structure Memory where
  usage : CScript → Nat
  usage_nil : usage [] = 0

/-- The caches, top first, over the base map. -/
structure Stack where
  caches : List CCoinsViewCache
  base : CoinsView

namespace Memory

variable (mem : Memory)

def coinUsage (coin : Coin) : Int :=
  mem.usage coin.out.scriptPubKey

variable (cache : CCoinsViewCache)

/-- `FetchCoin`. `fromBase` is the answer of `base->GetCoin` with the caches below after it. -/
def fetchCoin (outpoint : COutPoint) (below : List CCoinsViewCache)
    (fromBase : Option Coin × List CCoinsViewCache) :
    Option CCoinsCacheEntry × CCoinsViewCache × List CCoinsViewCache :=
  match cache.cacheCoins.lookup outpoint with
  | some entry => (some entry, cache, below)
  | none =>
    match fromBase with
    | (none, below) => (none, cache, below)
    | (some tmp, below) =>
      let entry : CCoinsCacheEntry := { coin := tmp, fresh := isSpent tmp }
      (some entry,
        { cacheCoins := cache.cacheCoins.insert outpoint entry
          cachedCoinsUsage := cache.cachedCoinsUsage + mem.coinUsage tmp },
        below)

/-- `GetCoin` through a stack of caches; every cache on the way keeps what it was asked for. -/
def getCoin (base : CoinsView) (outpoint : COutPoint) :
    List CCoinsViewCache → Option Coin × List CCoinsViewCache
  | [] => (base.lookup outpoint, [])
  | cache :: below =>
    let (entry, cache, below) := mem.fetchCoin cache outpoint below (getCoin base outpoint below)
    (entry.bind fun entry => visible entry.coin, cache :: below)

variable (base : CoinsView)

def haveCoin (outpoint : COutPoint) (caches : List CCoinsViewCache) : Bool :=
  (mem.getCoin base outpoint caches).1.isSome

def accessCoin (outpoint : COutPoint) : List CCoinsViewCache → Coin
  | [] => (base.lookup outpoint).getD CoinsView.coinEmpty
  | cache :: below =>
    match (mem.fetchCoin cache outpoint below (mem.getCoin base outpoint below)).1 with
    | none => CoinsView.coinEmpty
    | some entry => entry.coin

def addCoin (outpoint : COutPoint) (coin : Coin)
    (possible_overwrite : Bool) : Except String CCoinsViewCache :=
  if isSpent coin then .error "AddCoin: assertion !coin.IsSpent()"
  else if CScript.isUnspendable coin.out.scriptPubKey then .ok cache
  else
    let found := cache.cacheCoins.lookup outpoint
    let entry := found.getD {}
    let cachedCoinsUsage :=
      if found.isSome then cache.cachedCoinsUsage - mem.coinUsage entry.coin
      else cache.cachedCoinsUsage
    if !possible_overwrite ∧ !isSpent entry.coin then
      .error "Attempted to overwrite an unspent coin (when possible_overwrite is false)"
    else
      let fresh := !possible_overwrite && !entry.dirty
      .ok
        { cacheCoins := cache.cacheCoins.insert outpoint ⟨coin, true, entry.fresh || fresh⟩
          cachedCoinsUsage := cachedCoinsUsage + mem.coinUsage coin }

/-- `SpendCoin` of the top cache. A cleared entry is found as well. -/
def spendCoin (outpoint : COutPoint) :
    List CCoinsViewCache → Bool × List CCoinsViewCache
  | [] => (false, [])
  | cache :: below =>
    match mem.fetchCoin cache outpoint below (mem.getCoin base outpoint below) with
    | (none, cache, below) => (false, cache :: below)
    | (some entry, cache, below) =>
      let cachedCoinsUsage := cache.cachedCoinsUsage - mem.coinUsage entry.coin
      let cacheCoins :=
        if entry.fresh then cache.cacheCoins.erase outpoint
        else cache.cacheCoins.insert outpoint ⟨CoinsView.coinEmpty, true, false⟩
      (true, ⟨cacheCoins, cachedCoinsUsage⟩ :: below)

def batchWriteEntry (it : Sigma fun _ : COutPoint => CCoinsCacheEntry) :
    Except String CCoinsViewCache :=
  if !it.2.dirty then .ok cache
  else
    match cache.cacheCoins.lookup it.1 with
    | none =>
      if it.2.fresh && isSpent it.2.coin then .ok cache
      else .ok
        { cacheCoins := cache.cacheCoins.insert it.1 ⟨it.2.coin, true, it.2.fresh⟩
          cachedCoinsUsage := cache.cachedCoinsUsage + mem.coinUsage it.2.coin }
    | some itUs =>
      if it.2.fresh && !isSpent itUs.coin then
        .error "FRESH flag misapplied to coin that exists in parent cache"
      else if itUs.fresh && isSpent it.2.coin then .ok
        { cacheCoins := cache.cacheCoins.erase it.1
          cachedCoinsUsage := cache.cachedCoinsUsage - mem.coinUsage itUs.coin }
      else .ok
        { cacheCoins := cache.cacheCoins.insert it.1 ⟨it.2.coin, true, itUs.fresh⟩
          cachedCoinsUsage :=
            cache.cachedCoinsUsage - mem.coinUsage itUs.coin + mem.coinUsage it.2.coin }

def baseWriteEntry (it : Sigma fun _ : COutPoint => CCoinsCacheEntry) :
    CoinsView :=
  if !it.2.dirty then base
  else if isSpent it.2.coin then base.erase it.1
  else base.insert it.1 it.2.coin

def leftOver (mapCoins : Map COutPoint CCoinsCacheEntry) (erase : Bool) :
    Map COutPoint CCoinsCacheEntry :=
  if erase then mapCoins.entries.foldl (fun mapCoins it => mapCoins.erase it.1) mapCoins
  else mapCoins

def batchWrite (stack : Stack) (mapCoins : Map COutPoint CCoinsCacheEntry) (erase : Bool) :
    Except String (Stack × Map COutPoint CCoinsCacheEntry) :=
  match stack.caches with
  | [] => .ok ({ stack with base := mapCoins.entries.foldl baseWriteEntry stack.base },
      leftOver mapCoins erase)
  | cache :: below =>
    match mapCoins.entries.foldlM mem.batchWriteEntry cache with
    | .error what => .error what
    | .ok cache => .ok ({ stack with caches := cache :: below }, leftOver mapCoins erase)

def flush (stack : Stack) : Except String Stack :=
  match stack.caches with
  | [] => .ok stack
  | cache :: below =>
    match mem.batchWrite { stack with caches := below } cache.cacheCoins true with
    | .error what => .error what
    | .ok (stack, cacheCoins) =>
      if !cacheCoins.entries.isEmpty then .error "Not all cached coins were erased"
      else .ok { stack with caches := ⟨cacheCoins, 0⟩ :: stack.caches }

def synced : CCoinsViewCache :=
  cache.cacheCoins.entries.foldl (fun cache it =>
    if isSpent it.2.coin then
      { cacheCoins := cache.cacheCoins.erase it.1
        cachedCoinsUsage := cache.cachedCoinsUsage - mem.coinUsage it.2.coin }
    else { cache with cacheCoins := cache.cacheCoins.insert it.1 { coin := it.2.coin } }) cache

def sync (stack : Stack) : Except String Stack :=
  match stack.caches with
  | [] => .ok stack
  | cache :: below =>
    match mem.batchWrite { stack with caches := below } cache.cacheCoins false with
    | .error what => .error what
    | .ok (stack, _) => .ok { stack with caches := mem.synced cache :: stack.caches }

def uncache (outpoint : COutPoint) : CCoinsViewCache :=
  match cache.cacheCoins.lookup outpoint with
  | none => cache
  | some entry =>
    if !entry.dirty && !entry.fresh then
      { cacheCoins := cache.cacheCoins.erase outpoint
        cachedCoinsUsage := cache.cachedCoinsUsage - mem.coinUsage entry.coin }
    else cache

end Memory

/-! ### Calls -/

inductive Call where
  | getCoin (outpoint : COutPoint)
  | haveCoin (outpoint : COutPoint)
  | accessCoin (outpoint : COutPoint)
  | addCoin (outpoint : COutPoint) (coin : Coin) (possible_overwrite : Bool)
  | spendCoin (outpoint : COutPoint)
  | flush
  | sync
  | batchWrite (mapCoins : Map COutPoint CCoinsCacheEntry) (erase : Bool)
  | uncache (outpoint : COutPoint)

def Memory.call (mem : Memory) (stack : Stack) : Call → Except String Stack
  | .getCoin o | .haveCoin o | .accessCoin o =>
    .ok { stack with caches := (mem.getCoin stack.base o stack.caches).2 }
  | .addCoin o coin possible_overwrite =>
    match stack.caches with
    | [] => .ok stack
    | cache :: below =>
      match mem.addCoin cache o coin possible_overwrite with
      | .error what => .error what
      | .ok cache => .ok { stack with caches := cache :: below }
  | .spendCoin o => .ok { stack with caches := (mem.spendCoin stack.base o stack.caches).2 }
  | .flush => mem.flush stack
  | .sync => mem.sync stack
  | .batchWrite mapCoins erase =>
    match mem.batchWrite stack mapCoins erase with
    | .error what => .error what
    | .ok (stack, _) => .ok stack
  | .uncache o =>
    match stack.caches with
    | [] => .ok stack
    | cache :: below => .ok { stack with caches := mem.uncache cache o :: below }

def Memory.step (mem : Memory) (stack : Stack) (op : Nat × Call) : Except String Stack :=
  match mem.call { stack with caches := stack.caches.drop op.1 } op.2 with
  | .error what => .error what
  | .ok lower => .ok { lower with caches := stack.caches.take op.1 ++ lower.caches }

/-! ### What is visible -/

abbrev View := COutPoint → Option Coin

def baseView (base : CoinsView) : View :=
  fun o => (base.lookup o).bind visible

def cacheView (cache : CCoinsViewCache) (view : View) : View :=
  fun o => match cache.cacheCoins.lookup o with
    | some entry => visible entry.coin
    | none => view o

def layersView (caches : List CCoinsViewCache) (view : View) : View :=
  caches.foldr cacheView view

def Stack.view (stack : Stack) : View :=
  layersView stack.caches (baseView stack.base)

def written (view : View) (mapCoins : Map COutPoint CCoinsCacheEntry) : View :=
  fun o => match mapCoins.lookup o with
    | some entry => if entry.dirty then visible entry.coin else view o
    | none => view o

/-- What the flags and the usage of a cache over a view mean. -/
structure Memory.CacheOk (mem : Memory) (cache : CCoinsViewCache) (view : View) : Prop where
  clean : ∀ {o entry}, cache.cacheCoins.lookup o = some entry → entry.dirty = false →
    visible entry.coin = view o
  fresh : ∀ {o entry}, cache.cacheCoins.lookup o = some entry → entry.fresh = true → view o = none
  usage : cache.cachedCoinsUsage =
    cache.cacheCoins.sumVal fun entry => mem.coinUsage entry.coin

def Memory.LayersOk (mem : Memory) : List CCoinsViewCache → View → Prop
  | [], _ => True
  | cache :: below, view => mem.CacheOk cache (layersView below view) ∧ mem.LayersOk below view

variable {mem : Memory} {cache : CCoinsViewCache} {below : List CCoinsViewCache} {view : View}
  {base : CoinsView} {o o' : COutPoint} {coin : Coin}

theorem layersView_append (upper lower : List CCoinsViewCache) (view : View) :
    layersView (upper ++ lower) view = layersView upper (layersView lower view) :=
  List.foldr_append

theorem Memory.layersOk_append {upper lower : List CCoinsViewCache} :
    mem.LayersOk (upper ++ lower) view ↔
      mem.LayersOk upper (layersView lower view) ∧ mem.LayersOk lower view := by
  induction upper with
  | nil => simp [LayersOk]
  | cons cache upper ih =>
    rw [List.cons_append, LayersOk, LayersOk, ih, layersView_append]
    exact and_assoc.symm

theorem visible_of_not_isSpent (hcoin : isSpent coin = false) : visible coin = some coin := by
  rw [visible, hcoin]
  rfl

theorem visible_of_isSpent (hcoin : isSpent coin = true) : visible coin = none := by
  rw [visible, if_pos hcoin]

theorem visible_visible (coin : Coin) : (visible coin).bind visible = visible coin := by
  cases hcoin : isSpent coin with
  | true => rw [visible_of_isSpent hcoin]; rfl
  | false => rw [visible_of_not_isSpent hcoin, Option.bind_some, visible_of_not_isSpent hcoin]

variable {entry : CCoinsCacheEntry} {usage : Int} {caches : List CCoinsViewCache}

theorem cacheView_of_lookup (hlookup : cache.cacheCoins.lookup o = some entry) :
    cacheView cache view o = visible entry.coin := by
  rw [cacheView, hlookup]

theorem cacheView_of_lookup_none (hlookup : cache.cacheCoins.lookup o = none) :
    cacheView cache view o = view o := by
  rw [cacheView, hlookup]

/-! ### Updates of one entry -/

theorem cacheView_insert :
    cacheView ⟨cache.cacheCoins.insert o entry, usage⟩ view =
      Function.update (cacheView cache view) o (visible entry.coin) := by
  funext o'
  rw [cacheView, lookup_insert_eq_ite, update_apply]
  by_cases ho : o' = o
  · rw [if_pos ho, if_pos ho]
  · rw [if_neg ho, if_neg ho]
    rfl

theorem cacheView_erase :
    cacheView ⟨cache.cacheCoins.erase o, usage⟩ view =
      Function.update (cacheView cache view) o (view o) := by
  funext o'
  rw [cacheView, lookup_erase_eq_ite, update_apply]
  by_cases ho : o' = o
  · rw [if_pos ho, if_pos ho, ho]
  · rw [if_neg ho, if_neg ho]
    rfl

def Memory.entryUsage (mem : Memory) (cache : CCoinsViewCache) (o : COutPoint) : Int :=
  ((cache.cacheCoins.lookup o).map fun entry => mem.coinUsage entry.coin).getD 0

theorem Memory.CacheOk.insert (hok : mem.CacheOk cache view)
    (hclean : entry.dirty = false → visible entry.coin = view o)
    (hfresh : entry.fresh = true → view o = none)
    (husage : usage = cache.cachedCoinsUsage - mem.entryUsage cache o + mem.coinUsage entry.coin) :
    mem.CacheOk ⟨cache.cacheCoins.insert o entry, usage⟩ view where
  clean {o' entry'} hlookup hdirty := by
    rcases lookup_of_insert hlookup with ⟨rfl, rfl⟩ | hlookup
    · exact hclean hdirty
    · exact hok.clean hlookup hdirty
  fresh {o' entry'} hlookup hfresh' := by
    rcases lookup_of_insert hlookup with ⟨rfl, rfl⟩ | hlookup
    · exact hfresh hfresh'
    · exact hok.fresh hlookup hfresh'
  usage := by
    rw [husage, hok.usage, sumVal_insert, entryUsage]

theorem Memory.CacheOk.erase (hok : mem.CacheOk cache view)
    (husage : usage = cache.cachedCoinsUsage - mem.entryUsage cache o) :
    mem.CacheOk ⟨cache.cacheCoins.erase o, usage⟩ view where
  clean hlookup hdirty := hok.clean (lookup_of_erase hlookup) hdirty
  fresh hlookup hfresh := hok.fresh (lookup_of_erase hlookup) hfresh
  usage := by
    rw [husage, hok.usage, sumVal_erase, entryUsage]

theorem Memory.entryUsage_of_lookup (hlookup : cache.cacheCoins.lookup o = some entry) :
    mem.entryUsage cache o = mem.coinUsage entry.coin := by
  rw [entryUsage, hlookup]
  rfl

theorem Memory.entryUsage_of_lookup_none (hlookup : cache.cacheCoins.lookup o = none) :
    mem.entryUsage cache o = 0 := by
  rw [entryUsage, hlookup]
  rfl

@[simp]
theorem Memory.coinUsage_coinEmpty : mem.coinUsage CoinsView.coinEmpty = 0 := by
  rw [coinUsage, CoinsView.coinEmpty, mem.usage_nil]
  rfl

theorem Memory.cacheOk_empty : mem.CacheOk ⟨∅, 0⟩ view where
  clean hlookup := nomatch hlookup
  fresh hlookup := nomatch hlookup
  usage := rfl

/-! ### Reading -/

theorem Memory.fetchCoin_spec (hok : mem.CacheOk cache (layersView below view))
    {fromBase : Option Coin × List CCoinsViewCache}
    (hanswer : fromBase.1.bind visible = layersView below view o)
    (hview : layersView fromBase.2 view = layersView below view) :
    let fetched := mem.fetchCoin cache o below fromBase
    fetched.2.1.cacheCoins.lookup o = fetched.1 ∧
      (fetched.1.bind fun entry => visible entry.coin) = cacheView cache (layersView below view) o ∧
      layersView fetched.2.2 view = layersView below view ∧
      mem.CacheOk fetched.2.1 (layersView below view) ∧
      cacheView fetched.2.1 (layersView below view) = cacheView cache (layersView below view) ∧
      (fetched.2.2 = below ∨ fetched.2.2 = fromBase.2) := by
  intro fetched
  unfold fetched fetchCoin
  split
  next entry hlookup =>
    exact ⟨hlookup, (cacheView_of_lookup hlookup).symm, rfl, hok, rfl, Or.inl rfl⟩
  next hlookup =>
  have hshown : cacheView cache (layersView below view) o = layersView below view o :=
    cacheView_of_lookup_none hlookup
  split
  next below' =>
    exact ⟨hlookup, hanswer.trans hshown.symm, hview, hok, rfl, Or.inr rfl⟩
  next tmp below' =>
    rw [Option.bind_some] at hanswer
    refine ⟨lookup_insert _, hanswer.trans hshown.symm, hview, ?_, ?_, Or.inr rfl⟩
    · apply hok.insert
      · exact fun _ => hanswer
      · intro hfresh
        rw [← hanswer, visible_of_isSpent hfresh]
      · rw [entryUsage_of_lookup_none hlookup, sub_zero]
    · rw [cacheView_insert]
      funext o'
      rw [update_apply]
      split
      next ho => rw [ho, hshown, hanswer]
      · rfl

theorem Memory.getCoin_spec (hok : mem.LayersOk caches (baseView base)) :
    (mem.getCoin base o caches).1.bind visible = layersView caches (baseView base) o ∧
      layersView (mem.getCoin base o caches).2 (baseView base) =
        layersView caches (baseView base) ∧
      mem.LayersOk (mem.getCoin base o caches).2 (baseView base) ∧
      (mem.getCoin base o caches).2.length = caches.length := by
  induction caches with
  | nil => exact ⟨rfl, rfl, trivial, rfl⟩
  | cons cache below ih =>
    obtain ⟨hanswer, hview, hbelow, hlength⟩ := ih hok.2
    obtain ⟨-, hshown, hviewBelow, hcache, hsame, hwhich⟩ :=
      fetchCoin_spec (o := o) hok.1 hanswer hview
    simp only [getCoin]
    generalize mem.fetchCoin cache o below (mem.getCoin base o below) = fetched at *
    obtain ⟨entry, cache', below'⟩ := fetched
    refine ⟨?_, ?_, ⟨?_, ?_⟩, ?_⟩
    · rw [Option.bind_assoc]
      simp only [visible_visible]
      exact hshown
    · change cacheView cache' (layersView below' _) = cacheView cache (layersView below _)
      rw [hviewBelow, hsame]
    · rw [hviewBelow]
      exact hcache
    · rcases hwhich with rfl | rfl
      · exact hok.2
      · exact hbelow
    · rcases hwhich with rfl | rfl
      · rfl
      · rw [List.length_cons, List.length_cons, hlength]

/-! ### Writing -/

def plainAdd (view : View) (o : COutPoint) (coin : Coin) : View :=
  if CScript.isUnspendable coin.out.scriptPubKey then view else Function.update view o (some coin)

theorem Memory.addCoin_spec (hok : mem.CacheOk cache view) {possible_overwrite : Bool}
    (hcoin : isSpent coin = false)
    (hspent : possible_overwrite = false → cacheView cache view o = none) :
    ∃ cache', mem.addCoin cache o coin possible_overwrite = .ok cache' ∧ mem.CacheOk cache' view ∧
      cacheView cache' view = plainAdd (cacheView cache view) o coin := by
  unfold addCoin plainAdd
  rw [if_neg (by rw [hcoin]; exact Bool.false_ne_true)]
  split
  · exact ⟨cache, rfl, hok, rfl⟩
  dsimp only
  -- without an entry the view below decides, and the new entry may be fresh
  cases hlookup : cache.cacheCoins.lookup o with
  | none =>
    rw [Option.getD_none, if_neg (by rintro ⟨-, hnot⟩; exact absurd hnot (by decide))]
    refine ⟨_, rfl, ?_, ?_⟩
    · apply hok.insert
      · exact fun h => nomatch h
      · intro hfresh
        exact (cacheView_of_lookup_none hlookup).symm.trans (hspent (by simpa using hfresh))
      · rw [entryUsage_of_lookup_none hlookup, sub_zero]
        rfl
    · rw [cacheView_insert, visible_of_not_isSpent hcoin]
  | some entry =>
    rw [Option.getD_some, if_neg]
    · refine ⟨_, rfl, ?_, ?_⟩
      · apply hok.insert
        · exact fun h => nomatch h
        · intro hfresh
          rcases (Bool.or_eq_true _ _).mp hfresh with hold | hnew
          · exact hok.fresh hlookup hold
          · rw [Bool.and_eq_true, Bool.not_eq_true', Bool.not_eq_true'] at hnew
            rw [← hok.clean hlookup hnew.2, ← cacheView_of_lookup hlookup]
            exact hspent hnew.1
        · rw [entryUsage_of_lookup hlookup]
          rfl
      · rw [cacheView_insert, visible_of_not_isSpent hcoin]
    · rintro ⟨hnot, hunspent⟩
      have hnone := hspent (by simpa using hnot)
      rw [cacheView_of_lookup hlookup, visible_of_not_isSpent (by simpa using hunspent)] at hnone
      cases hnone

theorem visible_coinEmpty : visible CoinsView.coinEmpty = none :=
  visible_of_isSpent (by decide)

theorem Memory.spendCoin_spec (hne : caches ≠ []) (hok : mem.LayersOk caches (baseView base)) :
    mem.LayersOk (mem.spendCoin base o caches).2 (baseView base) ∧
      layersView (mem.spendCoin base o caches).2 (baseView base) =
        Function.update (layersView caches (baseView base)) o none ∧
      (mem.spendCoin base o caches).2.length = caches.length := by
  cases caches with
  | nil => exact absurd rfl hne
  | cons cache below =>
    obtain ⟨hanswer, hview, hbelow, hlength⟩ := getCoin_spec (o := o) hok.2
    obtain ⟨hlookup, hshown, hviewBelow, hcache, hsame, hwhich⟩ :=
      fetchCoin_spec (o := o) hok.1 hanswer hview
    simp only [spendCoin]
    generalize mem.fetchCoin cache o below (mem.getCoin base o below) = fetched at *
    obtain ⟨entry, cache', below'⟩ := fetched
    have hbelow' : mem.LayersOk below' (baseView base) ∧ below'.length = below.length := by
      rcases hwhich with rfl | rfl
      · exact ⟨hok.2, rfl⟩
      · exact ⟨hbelow, hlength⟩
    have hchanged : update (layersView (cache :: below) (baseView base)) o none =
        update (cacheView cache' (layersView below (baseView base))) o none := by
      rw [hsame]
      rfl
    rw [hchanged]
    cases entry with
    | none =>
      refine ⟨⟨by rwa [hviewBelow], hbelow'.1⟩, ?_, by simp [hbelow'.2]⟩
      change cacheView cache' (layersView below' _) = _
      rw [hviewBelow, eq_comm, update_eq_self_iff, hsame, ← hshown]
      rfl
    | some entry =>
      refine ⟨⟨?_, hbelow'.1⟩, ?_, by simp [hbelow'.2]⟩
      · rw [hviewBelow]
        split
        · exact hcache.erase (by rw [entryUsage_of_lookup hlookup])
        · apply hcache.insert
          · exact fun h => nomatch h
          · exact fun h => nomatch h
          · rw [entryUsage_of_lookup hlookup, coinUsage_coinEmpty, add_zero]
      · change cacheView _ (layersView below' _) = _
        rw [hviewBelow]
        split
        next hfresh => rw [cacheView_erase, hcache.fresh hlookup hfresh]
        · rw [cacheView_insert, visible_coinEmpty]

end Defcon.CoinsCache
