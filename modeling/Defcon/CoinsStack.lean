import Defcon.CoinsCache

/-!
# A stack of coin caches is one map

Writing a child through keeps what is shown, whichever entries the flags allow to be dropped, so a
run of calls on the layers of a stack is a run on a plain map of the unspent coins.
-/

namespace Defcon.CoinsCache

open List AList Function Lib
open AList (Map)

variable {mem : Memory} {cache : CCoinsViewCache} {view : View} {base : CoinsView} {o : COutPoint}

/-! ### Writing a child through -/

abbrev CoinsItem := Sigma fun _ : COutPoint => CCoinsCacheEntry

def writtenEntry (view : View) (it : CoinsItem) : View :=
  if it.2.dirty then Function.update view it.1 (visible it.2.coin) else view

theorem Memory.batchWriteEntry_spec (hok : mem.CacheOk cache view) {it : CoinsItem}
    (hfresh : it.2.dirty = true → it.2.fresh = true → cacheView cache view it.1 = none) :
    ∃ cache', mem.batchWriteEntry cache it = .ok cache' ∧ mem.CacheOk cache' view ∧
      cacheView cache' view = writtenEntry (cacheView cache view) it := by
  obtain ⟨o, coin, dirty, fresh⟩ := it
  unfold batchWriteEntry writtenEntry
  cases dirty with
  | false => exact ⟨cache, rfl, hok, rfl⟩
  | true =>
    simp only [Bool.not_true, Bool.false_eq_true, if_false, if_true]
    cases hlookup : cache.cacheCoins.lookup o with
    | none =>
      have hbelow : fresh = true → view o = none := by
        intro h
        exact (cacheView_of_lookup_none hlookup).symm.trans (hfresh rfl h)
      dsimp only
      split
      next hdrop =>
        rw [Bool.and_eq_true] at hdrop
        refine ⟨cache, rfl, hok, ?_⟩
        rw [eq_comm, update_eq_self_iff, visible_of_isSpent hdrop.2]
        exact (hfresh rfl hdrop.1).symm
      · refine ⟨_, rfl, ?_, cacheView_insert⟩
        apply hok.insert
        · exact fun h => nomatch h
        · exact hbelow
        · rw [entryUsage_of_lookup_none hlookup, sub_zero]
    | some itUs =>
      dsimp only
      rw [if_neg]
      · split
        next hdrop =>
          rw [Bool.and_eq_true] at hdrop
          refine ⟨_, rfl, hok.erase (by rw [entryUsage_of_lookup hlookup]), ?_⟩
          rw [cacheView_erase, hok.fresh hlookup hdrop.1, visible_of_isSpent hdrop.2]
        · refine ⟨_, rfl, ?_, cacheView_insert⟩
          apply hok.insert
          · exact fun h => nomatch h
          · intro h
            exact hok.fresh hlookup h
          · rw [entryUsage_of_lookup hlookup]
      · rw [Bool.and_eq_true, Bool.not_eq_true']
        rintro ⟨h, hunspent⟩
        have hnone := hfresh rfl h
        rw [cacheView_of_lookup hlookup, visible_of_not_isSpent hunspent] at hnone
        cases hnone

theorem baseView_baseWriteEntry (it : CoinsItem) :
    baseView (Memory.baseWriteEntry base it) = writtenEntry (baseView base) it := by
  obtain ⟨o, coin, dirty, fresh⟩ := it
  unfold Memory.baseWriteEntry writtenEntry
  cases dirty with
  | false => rfl
  | true =>
    simp only [Bool.not_true, Bool.false_eq_true, if_false, if_true]
    funext o'
    rw [update_apply]
    split
    next hspent =>
      rw [visible_of_isSpent hspent, baseView, lookup_erase_eq_ite]
      split
      · rfl
      · rfl
    · rw [baseView, lookup_insert_eq_ite]
      split
      · rfl
      · rfl

variable {items : List CoinsItem} {mapCoins : Map COutPoint CCoinsCacheEntry} {stack : Stack}
  {upper caches : List CCoinsViewCache}

theorem foldl_writtenEntry (hkeys : items.NodupKeys) (view : View) :
    items.foldl writtenEntry view = fun o => match items.dlookup o with
      | some entry => if entry.dirty then visible entry.coin else view o
      | none => view o := by
  induction items generalizing view with
  | nil => rfl
  | cons it items ih =>
    rw [nodupKeys_cons] at hkeys
    rw [foldl_cons, ih hkeys.2]
    funext o
    by_cases ho : o = it.1
    · subst ho
      rw [dlookup_cons_eq, dlookup_eq_none.mpr hkeys.1]
      dsimp only
      unfold writtenEntry
      split
      · rw [update_self]
      · rfl
    · rw [dlookup_cons_ne items it ho]
      have hsame : writtenEntry view it o = view o := by
        unfold writtenEntry
        split
        · rw [update_of_ne ho]
        · rfl
      rw [hsame]

theorem foldl_writtenEntry_entries (mapCoins : Map COutPoint CCoinsCacheEntry) (view : View) :
    mapCoins.entries.foldl writtenEntry view = written view mapCoins :=
  foldl_writtenEntry mapCoins.nodupKeys view

theorem Memory.batchWriteEntries_spec (hkeys : items.NodupKeys) (hok : mem.CacheOk cache view)
    (hfresh : ∀ it ∈ items, it.2.dirty = true → it.2.fresh = true →
      cacheView cache view it.1 = none) :
    ∃ cache', items.foldlM mem.batchWriteEntry cache = .ok cache' ∧ mem.CacheOk cache' view ∧
      cacheView cache' view = items.foldl writtenEntry (cacheView cache view) := by
  induction items generalizing cache with
  | nil => exact ⟨cache, rfl, hok, rfl⟩
  | cons it items ih =>
    rw [nodupKeys_cons] at hkeys
    obtain ⟨mid, hmid, hmidOk, hmidView⟩ :=
      batchWriteEntry_spec hok (hfresh it mem_cons_self)
    obtain ⟨cache', hrest, hcacheOk, hcacheView⟩ := ih hkeys.2 hmidOk (by
      intro it' hmem hdirty hfresh'
      have hne : it'.1 ≠ it.1 := by
        intro heq
        exact hkeys.1 (heq ▸ mem_keys_of_mem hmem)
      rw [hmidView, writtenEntry]
      split
      · rw [update_of_ne hne]
        exact hfresh it' (mem_cons_of_mem _ hmem) hdirty hfresh'
      · exact hfresh it' (mem_cons_of_mem _ hmem) hdirty hfresh')
    refine ⟨cache', ?_, hcacheOk, ?_⟩
    · rw [foldlM_cons, hmid]
      exact hrest
    · rw [hcacheView, hmidView, foldl_cons]

theorem Memory.batchWrite_spec (hok : mem.LayersOk stack.caches (baseView stack.base))
    (erase : Bool)
    (hfresh : ∀ {o entry}, mapCoins.lookup o = some entry → entry.dirty = true →
      entry.fresh = true → stack.view o = none) :
    ∃ stack', mem.batchWrite stack mapCoins erase = .ok (stack', leftOver mapCoins erase) ∧
      mem.LayersOk stack'.caches (baseView stack'.base) ∧
      stack'.view = written stack.view mapCoins ∧ stack'.caches.length = stack.caches.length := by
  obtain ⟨caches, base⟩ := stack
  unfold batchWrite
  cases caches with
  | nil =>
    refine ⟨_, rfl, trivial, ?_, rfl⟩
    exact (foldl_hom baseView fun base it =>
      (baseView_baseWriteEntry it).symm).symm.trans (foldl_writtenEntry_entries mapCoins _)
  | cons cache below =>
    obtain ⟨hcache, hbelow⟩ := hok
    obtain ⟨cache', hwrite, hcacheOk, hcacheView⟩ :=
      batchWriteEntries_spec mapCoins.nodupKeys hcache (by
        intro it hmem hdirty hfresh'
        exact hfresh (mem_lookup_iff.mpr hmem) hdirty hfresh')
    dsimp only
    rw [hwrite]
    refine ⟨_, rfl, ⟨hcacheOk, hbelow⟩, ?_, rfl⟩
    exact hcacheView.trans (foldl_writtenEntry_entries mapCoins _)

theorem keys_foldl_erase (hkeys : ∀ o ∈ mapCoins, o ∈ items.keys) :
    (items.foldl (fun mapCoins it => mapCoins.erase it.1) mapCoins).entries = [] := by
  induction items generalizing mapCoins with
  | nil =>
    rw [foldl_nil, eq_nil_iff_forall_not_mem]
    intro it hmem
    exact absurd (hkeys it.1 (mem_keys_of_mem hmem)) not_mem_nil
  | cons it items ih =>
    apply ih
    intro o hmem
    rw [mem_erase] at hmem
    have hkey := hkeys o hmem.2
    rw [keys_cons, mem_cons] at hkey
    exact hkey.resolve_left hmem.1

theorem entries_leftOver_true (mapCoins : Map COutPoint CCoinsCacheEntry) :
    (Memory.leftOver mapCoins true).entries = [] :=
  keys_foldl_erase fun _ hmem => hmem

theorem Memory.CacheOk.written_eq (hok : mem.CacheOk cache view) :
    written view cache.cacheCoins = cacheView cache view := by
  funext o
  unfold written cacheView
  split
  next entry hlookup =>
    split
    · rfl
    next hdirty => exact (hok.clean hlookup (by simpa using hdirty)).symm
  · rfl

theorem Memory.flush_spec (hok : mem.LayersOk stack.caches (baseView stack.base)) :
    ∃ stack', mem.flush stack = .ok stack' ∧ mem.LayersOk stack'.caches (baseView stack'.base) ∧
      stack'.view = stack.view ∧ stack'.caches.length = stack.caches.length := by
  obtain ⟨caches, base⟩ := stack
  unfold flush
  cases caches with
  | nil => exact ⟨_, rfl, hok, rfl, rfl⟩
  | cons cache below =>
    obtain ⟨lower, hwrite, hlowerOk, hlowerView, hlength⟩ :=
      @batchWrite_spec mem cache.cacheCoins ⟨below, base⟩ hok.2 true
        (fun hlookup _ hfresh => hok.1.fresh hlookup hfresh)
    have hempty := entries_leftOver_true cache.cacheCoins
    dsimp only
    rw [hwrite]
    have hmap : leftOver cache.cacheCoins true = ∅ := ext hempty
    rw [hmap]
    refine ⟨_, rfl, ⟨cacheOk_empty, hlowerOk⟩, ?_, congrArg (· + 1) hlength⟩
    exact hlowerView.trans hok.1.written_eq

/-- A cache in the loop of `Sync`: `items` are still to be looked at, and every other entry is
clean. -/
structure Memory.Syncing (mem : Memory) (view : View) (items : List CoinsItem)
    (cache : CCoinsViewCache) : Prop where
  shown : ∀ {o entry}, cache.cacheCoins.lookup o = some entry → visible entry.coin = view o
  cleared : ∀ {o entry}, cache.cacheCoins.lookup o = some entry → o ∉ items.keys →
    entry.fresh = false
  ahead : ∀ it ∈ items, cache.cacheCoins.lookup it.1 = some it.2
  usage : cache.cachedCoinsUsage =
    cache.cacheCoins.sumVal fun entry => mem.coinUsage entry.coin

theorem Memory.Syncing.cacheOk (hsyncing : mem.Syncing view [] cache) : mem.CacheOk cache view where
  clean hlookup _ := hsyncing.shown hlookup
  fresh hlookup hfresh := by
    rw [hsyncing.cleared hlookup not_mem_nil] at hfresh
    cases hfresh
  usage := hsyncing.usage

theorem Memory.Syncing.run (hkeys : items.NodupKeys) (hsyncing : mem.Syncing view items cache) :
    mem.Syncing view [] (items.foldl (fun cache it =>
      if isSpent it.2.coin then
        { cacheCoins := cache.cacheCoins.erase it.1
          cachedCoinsUsage := cache.cachedCoinsUsage - mem.coinUsage it.2.coin }
      else { cache with cacheCoins := cache.cacheCoins.insert it.1 { coin := it.2.coin } }) cache) := by
  induction items generalizing cache with
  | nil => exact hsyncing
  | cons it items ih =>
    rw [nodupKeys_cons] at hkeys
    have hlookup := hsyncing.ahead it mem_cons_self
    have hne : ∀ it' ∈ items, it'.1 ≠ it.1 := by
      intro it' hmem heq
      exact hkeys.1 (heq ▸ mem_keys_of_mem hmem)
    rw [foldl_cons]
    apply ih hkeys.2
    split
    · refine ⟨?_, ?_, ?_, ?_⟩
      · exact fun ho => hsyncing.shown (lookup_of_erase ho)
      · intro o entry ho hnot
        rw [lookup_erase_eq_ite] at ho
        split at ho
        · cases ho
        next hother =>
          apply hsyncing.cleared ho
          rw [keys_cons, mem_cons]
          exact not_or_intro hother hnot
      · intro it' hmem
        rw [lookup_erase_eq_ite, if_neg (hne it' hmem)]
        exact hsyncing.ahead it' (mem_cons_of_mem _ hmem)
      · rw [hsyncing.usage, sumVal_erase, hlookup]
        rfl
    · refine ⟨?_, ?_, ?_, ?_⟩
      · intro o entry ho
        rcases lookup_of_insert ho with ⟨rfl, rfl⟩ | ho
        · have hshown := hsyncing.shown hlookup
          exact hshown
        · exact hsyncing.shown ho
      · intro o entry ho hnot
        rw [lookup_insert_eq_ite] at ho
        split at ho
        · cases ho
          rfl
        next hother =>
          apply hsyncing.cleared ho
          rw [keys_cons, mem_cons]
          exact not_or_intro hother hnot
      · intro it' hmem
        rw [lookup_insert_eq_ite, if_neg (hne it' hmem)]
        exact hsyncing.ahead it' (mem_cons_of_mem _ hmem)
      · rw [sumVal_insert, hlookup, ← hsyncing.usage]
        simp

theorem Memory.synced_spec (hok : mem.CacheOk cache view) :
    mem.CacheOk (mem.synced cache) (cacheView cache view) ∧
      cacheView (mem.synced cache) (cacheView cache view) = cacheView cache view := by
  have hstart : mem.Syncing (cacheView cache view) cache.cacheCoins.entries cache :=
    { shown := fun hlookup => (cacheView_of_lookup hlookup).symm
      cleared := fun hlookup hnot => by
        have hmem : _ ∈ cache.cacheCoins := lookup_isSome.mp (by rw [hlookup]; rfl)
        exact absurd hmem hnot
      ahead := fun it hmem => mem_lookup_iff.mpr hmem
      usage := hok.usage }
  have hend := hstart.run cache.cacheCoins.nodupKeys
  refine ⟨hend.cacheOk, ?_⟩
  funext o
  cases hlookup : (mem.synced cache).cacheCoins.lookup o with
  | none => exact cacheView_of_lookup_none hlookup
  | some entry => exact (cacheView_of_lookup hlookup).trans (hend.shown hlookup)

theorem Memory.sync_spec (hok : mem.LayersOk stack.caches (baseView stack.base)) :
    ∃ stack', mem.sync stack = .ok stack' ∧ mem.LayersOk stack'.caches (baseView stack'.base) ∧
      stack'.view = stack.view ∧ stack'.caches.length = stack.caches.length := by
  obtain ⟨caches, base⟩ := stack
  unfold sync
  cases caches with
  | nil => exact ⟨_, rfl, hok, rfl, rfl⟩
  | cons cache below =>
    obtain ⟨lower, hwrite, hlowerOk, hlowerView, hlength⟩ :=
      @batchWrite_spec mem cache.cacheCoins ⟨below, base⟩ hok.2 false
        (fun hlookup _ hfresh => hok.1.fresh hlookup hfresh)
    have hbelow : layersView lower.caches (baseView lower.base) =
        cacheView cache (layersView below (baseView base)) :=
      hlowerView.trans hok.1.written_eq
    obtain ⟨hsynced, hshown⟩ := synced_spec hok.1
    dsimp only
    rw [hwrite]
    refine ⟨_, rfl, ⟨?_, hlowerOk⟩, ?_, congrArg (· + 1) hlength⟩
    · rw [hbelow]
      exact hsynced
    · change cacheView _ (layersView lower.caches _) = _
      rw [hbelow]
      exact hshown

theorem Memory.uncache_spec (hok : mem.CacheOk cache view) :
    mem.CacheOk (mem.uncache cache o) view ∧
      cacheView (mem.uncache cache o) view = cacheView cache view := by
  unfold uncache
  split
  · exact ⟨hok, rfl⟩
  next entry hlookup =>
  split
  next hclean =>
    rw [Bool.and_eq_true, Bool.not_eq_true'] at hclean
    refine ⟨hok.erase (by rw [entryUsage_of_lookup hlookup]), ?_⟩
    rw [cacheView_erase, update_eq_self_iff, cacheView_of_lookup hlookup,
      hok.clean hlookup hclean.1]
  · exact ⟨hok, rfl⟩

/-! ### One map -/

/-- What a call does to a map of unspent coins. -/
def plainCall (view : View) : Call → View
  | .addCoin o coin _ => plainAdd view o coin
  | .spendCoin o => Function.update view o none
  | .batchWrite mapCoins _ => written view mapCoins
  | .getCoin _ | .haveCoin _ | .accessCoin _ | .flush | .sync | .uncache _ => view

def plainStep (view : View) (op : Nat × Call) : View :=
  plainCall view op.2

def Call.modifies : Call → Bool
  | .addCoin .. | .spendCoin _ | .batchWrite .. => true
  | .getCoin _ | .haveCoin _ | .accessCoin _ | .flush | .sync | .uncache _ => false

/-- A coin added is unspent, and where it must not overwrite there is no unspent coin; an entry of a
written child is fresh only where there is none. -/
def Call.Fits (view : View) : Call → Prop
  | .addCoin o coin possible_overwrite =>
    isSpent coin = false ∧ (possible_overwrite = false → view o = none)
  | .batchWrite mapCoins _ => ∀ {o entry}, mapCoins.lookup o = some entry → entry.dirty = true →
      entry.fresh = true → view o = none
  | _ => True

/-- The calls considered: on a layer of the stack, and no layer is modified below one that holds
coins. -/
structure Allowed (stack : Stack) (op : Nat × Call) : Prop where
  layer : op.1 < stack.caches.length
  flushed : op.2.modifies = true → ∀ cache ∈ stack.caches.take op.1, cache.cacheCoins = ∅
  fits : op.2.Fits stack.view

theorem plainCall_of_not_modifies {call : Call} (hcall : call.modifies = false) :
    plainCall view call = view := by
  cases call <;> first | rfl | cases hcall

theorem Memory.call_spec (hok : mem.LayersOk stack.caches (baseView stack.base)) {call : Call}
    (hne : stack.caches ≠ []) (hfits : call.Fits stack.view) :
    ∃ stack', mem.call stack call = .ok stack' ∧
      mem.LayersOk stack'.caches (baseView stack'.base) ∧
      stack'.view = plainCall stack.view call ∧ stack'.caches.length = stack.caches.length := by
  obtain ⟨caches, base⟩ := stack
  cases call with
  | getCoin o | haveCoin o | accessCoin o =>
    obtain ⟨-, hview, hlayers, hlength⟩ := getCoin_spec (o := o) hok
    exact ⟨_, rfl, hlayers, hview, hlength⟩
  | addCoin o coin possible_overwrite =>
    cases caches with
    | nil => exact absurd rfl hne
    | cons cache below =>
      obtain ⟨cache', hadd, hcache, hview⟩ := addCoin_spec hok.1 hfits.1 hfits.2
      simp only [call, hadd]
      exact ⟨_, rfl, ⟨hcache, hok.2⟩, hview, rfl⟩
  | spendCoin o =>
    obtain ⟨hlayers, hview, hlength⟩ := spendCoin_spec (o := o) hne hok
    exact ⟨_, rfl, hlayers, hview, hlength⟩
  | flush => exact flush_spec hok
  | sync => exact sync_spec hok
  | batchWrite mapCoins erase =>
    obtain ⟨stack', hwrite, hlayers, hview, hlength⟩ := batchWrite_spec hok erase hfits
    simp only [call, hwrite]
    exact ⟨_, rfl, hlayers, hview, hlength⟩
  | uncache o =>
    cases caches with
    | nil => exact absurd rfl hne
    | cons cache below =>
      obtain ⟨hcache, hview⟩ := uncache_spec (o := o) hok.1
      exact ⟨_, rfl, ⟨hcache, hok.2⟩, hview, rfl⟩

/-! ### A call on a lower layer -/

theorem layersView_of_empty (hempty : ∀ cache ∈ upper, cache.cacheCoins = ∅) (view : View) :
    layersView upper view = view := by
  induction upper with
  | nil => rfl
  | cons cache upper ih =>
    rw [forall_mem_cons] at hempty
    have hshown : cacheView cache (layersView upper view) = layersView upper view := by
      funext o
      exact cacheView_of_lookup_none (by rw [hempty.1]; rfl)
    exact hshown.trans (ih hempty.2)

theorem Memory.layersOk_of_empty {view' : View} (hempty : ∀ cache ∈ upper, cache.cacheCoins = ∅)
    (hok : mem.LayersOk upper view) : mem.LayersOk upper view' := by
  induction upper with
  | nil => trivial
  | cons cache upper ih =>
    rw [forall_mem_cons] at hempty
    refine ⟨⟨?_, ?_, hok.1.usage⟩, ih hempty.2 hok.2⟩
    · intro o entry hlookup
      rw [hempty.1] at hlookup
      cases hlookup
    · intro o entry hlookup
      rw [hempty.1] at hlookup
      cases hlookup

theorem Memory.step_spec (hok : mem.LayersOk stack.caches (baseView stack.base)) {op : Nat × Call}
    (hallowed : Allowed stack op) :
    ∃ stack', mem.step stack op = .ok stack' ∧ mem.LayersOk stack'.caches (baseView stack'.base) ∧
      stack'.view = plainStep stack.view op ∧ stack'.caches.length = stack.caches.length := by
  obtain ⟨caches, base⟩ := stack
  obtain ⟨layer, call⟩ := op
  obtain ⟨hlayer, hflushed, hfits⟩ := hallowed
  dsimp only at hlayer hflushed hfits hok
  have hsplit := take_append_drop layer caches
  have hlengthSplit : (caches.take layer).length + (caches.drop layer).length = caches.length := by
    rw [← length_append, hsplit]
  have hne : caches.drop layer ≠ [] := by
    rw [Ne, drop_eq_nil_iff]
    omega
  rw [← hsplit, layersOk_append] at hok
  have hview : Stack.view ⟨caches, base⟩ =
      layersView (caches.take layer) (layersView (caches.drop layer) (baseView base)) := by
    rw [← layersView_append, hsplit]
    rfl
  simp only [step, plainStep]
  -- a call that modifies nothing is seen by no layer; any other has empty layers above
  cases hmodifies : call.modifies with
  | false =>
    obtain ⟨lower, hcall, hlower, hlowerView, hlength⟩ :=
      @call_spec mem ⟨caches.drop layer, base⟩ hok.2 call hne (by cases call <;> trivial)
    rw [plainCall_of_not_modifies hmodifies] at hlowerView ⊢
    have hsame : layersView lower.caches (baseView lower.base) =
        layersView (caches.drop layer) (baseView base) := hlowerView
    rw [hcall]
    refine ⟨_, rfl, layersOk_append.mpr ⟨?_, hlower⟩, ?_, ?_⟩
    · rw [hsame]
      exact hok.1
    · rw [hview, ← hsame]
      exact layersView_append _ _ _
    · rw [length_append, hlength, hlengthSplit]
  | true =>
    have hempty := hflushed hmodifies
    rw [hview, layersView_of_empty hempty] at hfits ⊢
    obtain ⟨lower, hcall, hlower, hlowerView, hlength⟩ :=
      @call_spec mem ⟨caches.drop layer, base⟩ hok.2 call hne hfits
    rw [hcall]
    refine ⟨_, rfl, layersOk_append.mpr ⟨layersOk_of_empty hempty hok.1, hlower⟩, ?_, ?_⟩
    · refine (layersView_append _ _ _).trans ?_
      rw [layersView_of_empty hempty]
      exact hlowerView
    · rw [length_append, hlength, hlengthSplit]

/-! ### Whole runs -/

def Stack.new (layers : Nat) (base : CoinsView) : Stack :=
  ⟨List.replicate layers {}, base⟩

structure Memory.Shows (mem : Memory) (layers : Nat) (view : View) (stack : Stack) : Prop where
  layersOk : mem.LayersOk stack.caches (baseView stack.base)
  view_eq : stack.view = view
  length_eq : stack.caches.length = layers

theorem Memory.shows_new (mem : Memory) (layers : Nat) (base : CoinsView) :
    mem.Shows layers (baseView base) (Stack.new layers base) := by
  have hempty : ∀ cache ∈ replicate layers ({} : CCoinsViewCache), cache.cacheCoins = ∅ := by
    intro cache hmem
    rw [eq_of_mem_replicate hmem]
  refine ⟨?_, layersView_of_empty hempty _, length_replicate⟩
  clear hempty
  induction layers with
  | zero => trivial
  | succ layers ih => exact ⟨cacheOk_empty, ih⟩

theorem Memory.Shows.run {layers : Nat} {stack' : Stack} {ops : List (Nat × Call)}
    (hshows : mem.Shows layers view stack)
    (hrun : Run (Guarded Allowed fun stack op stack' => mem.step stack op = .ok stack')
      stack ops stack') : mem.Shows layers (ops.foldl plainStep view) stack' := by
  refine hrun.simulation ?_ hshows
  rintro view stack op next ⟨hok, rfl, hlength⟩ ⟨hallowed, hstep⟩
  obtain ⟨stack', hstep', hok', hview', hlength'⟩ := step_spec hok hallowed
  obtain rfl : stack' = next := Except.ok.inj (hstep'.symm.trans hstep)
  exact ⟨hok', hview', hlength'.trans hlength⟩

theorem Memory.LayersOk.usage (hok : mem.LayersOk caches view) :
    ∀ cache ∈ caches, cache.cachedCoinsUsage =
      cache.cacheCoins.sumVal fun entry => mem.coinUsage entry.coin := by
  induction caches with
  | nil => exact fun _ hmem => absurd hmem not_mem_nil
  | cons cache caches ih => exact forall_mem_cons.mpr ⟨hok.1.usage, ih hok.2⟩

theorem Memory.reads_spec (hne : caches ≠ []) (hok : mem.LayersOk caches (baseView base))
    (o : COutPoint) :
    (mem.getCoin base o caches).1 = layersView caches (baseView base) o ∧
      mem.haveCoin base o caches = (layersView caches (baseView base) o).isSome ∧
      visible (mem.accessCoin base o caches) = layersView caches (baseView base) o := by
  cases caches with
  | nil => exact absurd rfl hne
  | cons cache below =>
    obtain ⟨hanswer, hview, -, -⟩ := getCoin_spec (o := o) hok.2
    obtain ⟨-, hshown, -⟩ := fetchCoin_spec (o := o) hok.1 hanswer hview
    have hget : (mem.getCoin base o (cache :: below)).1 =
        layersView (cache :: below) (baseView base) o := hshown
    refine ⟨hget, congrArg Option.isSome hget, ?_⟩
    refine Eq.trans ?_ hshown
    simp only [accessCoin]
    cases (mem.fetchCoin cache o below (mem.getCoin base o below)).1 with
    | none => exact visible_coinEmpty
    | some entry => rfl

/-- In every run of allowed calls a stack of caches over a base map is one map, and the usage of
every cache is that of its coins. -/
theorem Memory.layers_one_map (mem : Memory) (layers : Nat) (base : CoinsView)
    {ops : List (Nat × Call)} {stack : Stack}
    (hrun : Run (Guarded Allowed fun stack op stack' => mem.step stack op = .ok stack')
      (Stack.new (layers + 1) base) ops stack) :
    (∀ o, (mem.getCoin stack.base o stack.caches).1 = ops.foldl plainStep (baseView base) o ∧
      mem.haveCoin stack.base o stack.caches =
        (ops.foldl plainStep (baseView base) o).isSome ∧
      visible (mem.accessCoin stack.base o stack.caches) =
        ops.foldl plainStep (baseView base) o) ∧
    (∀ op, Allowed stack op → ∃ stack', mem.step stack op = .ok stack') ∧
    (∀ layer < layers + 1, ∃ stack', mem.step stack (layer, .flush) = .ok stack' ∧
      stack'.view = stack.view) ∧
    ∀ cache ∈ stack.caches, cache.cachedCoinsUsage =
      cache.cacheCoins.sumVal fun entry => mem.coinUsage entry.coin := by
  obtain ⟨hok, hview, hlength⟩ := (mem.shows_new (layers + 1) base).run hrun
  have hne : stack.caches ≠ [] := by
    intro hnil
    rw [hnil] at hlength
    cases hlength
  refine ⟨?_, ?_, ?_, hok.usage⟩
  · intro o
    rw [← hview]
    exact reads_spec hne hok o
  · intro op hallowed
    obtain ⟨stack', hstep, -⟩ := step_spec hok hallowed
    exact ⟨stack', hstep⟩
  · intro layer hlayer
    have hallowed : Allowed stack (layer, .flush) :=
      ⟨by rwa [hlength], (nomatch ·), trivial⟩
    obtain ⟨stack', hstep, -, hsame, -⟩ := step_spec hok hallowed
    exact ⟨stack', hstep, hsame⟩

namespace Sample

def memory : Memory := ⟨List.length, rfl⟩

def first : COutPoint := ⟨1, 0⟩

def second : COutPoint := ⟨2, 0⟩

def coinOf (nValue : CAmount) : Coin := ⟨⟨nValue, [0x51]⟩, 7, false, false⟩

def coins : CoinsView := (∅ : CoinsView).insert first (coinOf 10)

/-- The coin of the base is spent and another added; after the flush an outpoint is used again
below. -/
def calls : List (Nat × Call) :=
  [(0, .spendCoin first), (0, .addCoin second (coinOf 20) false), (0, .flush),
    (1, .addCoin first (coinOf 30) false)]

end Sample

open Sample

theorem Memory.layers_one_map_sample :
    ∃ stack,
      Run (Guarded Allowed fun stack op stack' => memory.step stack op = .ok stack')
        (Stack.new 2 coins) calls stack ∧
      (memory.getCoin stack.base first stack.caches).1 = some (coinOf 30) ∧
      (memory.getCoin stack.base second stack.caches).1 = some (coinOf 20) := by
  have hrun : ∃ stack,
      Run (Guarded Allowed fun stack op stack' => memory.step stack op = .ok stack')
        (Stack.new 2 coins) calls stack := by
    refine ⟨_, .cons ⟨⟨by decide, ?_, trivial⟩, rfl⟩ <|
      .cons ⟨⟨by decide, ?_, ⟨by decide, fun _ => rfl⟩⟩, rfl⟩ <|
      .cons ⟨⟨by decide, (nomatch ·), trivial⟩, rfl⟩ <|
      .cons ⟨⟨by decide, ?_, ⟨by decide, fun _ => rfl⟩⟩, rfl⟩ (.nil _)⟩
    · exact fun _ _ hmem => absurd hmem List.not_mem_nil
    · exact fun _ _ hmem => absurd hmem List.not_mem_nil
    · intro _ cache hmem
      obtain rfl := List.mem_singleton.mp hmem
      rfl
  obtain ⟨stack, hrun⟩ := hrun
  obtain ⟨hreads, -⟩ := layers_one_map memory 1 coins hrun
  exact ⟨stack, hrun, (hreads first).1.trans rfl, (hreads second).1.trans rfl⟩

/-- A fresh entry for a coin that the cache has makes `BatchWrite` throw. -/
theorem batchWrite_fresh_misapplied :
    [(0, .accessCoin first),
      (0, .batchWrite (AList.insert first ⟨coinOf 20, true, true⟩ ∅) true)].foldlM
      memory.step (Stack.new 1 coins) =
    .error "FRESH flag misapplied to coin that exists in parent cache" :=
  rfl

end Defcon.CoinsCache
