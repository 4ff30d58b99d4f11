import Defcon.Evo.RebuildDiff

/-!
# What is stored of a masternode list

A list is written as its masternodes only. Reading adds them one after another, which files their
internal ids and unique properties anew.
-/

namespace Defcon.Evo

open Sample

open Lib (Bytes)
open Lib.Codec List
open CDeterministicMNList

def listFormat : Lib.Codec (Uint256 × Int × Nat × List MasternodeWire) :=
  (bitVec 32).pair <| int32.pair <| (le 4).pair <| counted compactSize masternodeFormat

namespace CDeterministicMNState

def serialize (enc : BlsEncoding) (s : CDeterministicMNState) : Bytes :=
  stateFormat.put (s.toWire enc)

def unserialize (enc : BlsEncoding) (bytes : Bytes) : Option (CDeterministicMNState × Bytes) :=
  (stateFormat.get bytes).map fun (wire, bytes) => (.ofWire enc wire, bytes)

def encoded (s : CDeterministicMNState) : CDeterministicMNState :=
  { s with pubKeyOperator := ⟨s.pubKeyOperator.get, s.legacyScheme⟩ }

variable {enc : BlsEncoding} {s : CDeterministicMNState}

theorem KeyEncoded.same_encoded (hkey : s.KeyEncoded) : s.encoded.Same s := by
  refine ⟨?_, rfl⟩
  cases hget : s.pubKeyOperator.get with
  | none => simp [encoded, CBLSLazyPublicKey.serialized, hget]
  | some point =>
    have hlegacy : s.pubKeyOperator.legacy = s.legacyScheme := by
      simpa [KeyEncoded, CBLSLazyPublicKey.isNull, hget] using hkey
    simp [encoded, CBLSLazyPublicKey.serialized, hget, hlegacy]

theorem InRange.encoded (hs : s.InRange enc) : s.encoded.InRange enc :=
  ⟨hs.nRegisteredHeight, hs.nLastPaidHeight, hs.nConsecutivePayments, hs.nPoSePenalty,
    hs.nPoSeRevivedHeight, hs.nPoSeBanHeight, hs.nDSLBanHeight, hs.nMissedEpochs,
    hs.nLastServiceEpoch, hs.scriptPayout, hs.scriptOperatorPayout, hs.computeDescriptor,
    hs.pubKeyOperator⟩

theorem InRange.unserialize_serialize (hs : s.InRange enc) (rest : Bytes) :
    ∃ s', unserialize enc (s.serialize enc ++ rest) = some (s', rest) ∧ s'.Same s.encoded := by
  refine ⟨.ofWire enc (s.toWire enc), ?_, ?_⟩
  · rw [unserialize, serialize, stateFormat.get_put hs.fits]
    rfl
  · exact same_ofWire hs.encoded (Or.inr rfl)

end CDeterministicMNState

namespace CDeterministicMNStateDiff

def serialize (enc : BlsEncoding) (d : CDeterministicMNStateDiff) : Bytes :=
  stateDiffFormat.put (d.toWire enc)

def unserialize (enc : BlsEncoding) (bytes : Bytes) : Option (CDeterministicMNStateDiff × Bytes) :=
  (stateDiffFormat.get bytes).map fun (wire, bytes) => (.ofWire enc wire, bytes)

theorem Writable.unserialize_serialize {enc : BlsEncoding} {d : CDeterministicMNStateDiff}
    (hd : d.Writable enc) (rest : Bytes) :
    ∃ d', unserialize enc (d.serialize enc ++ rest) = some (d', rest) ∧ d'.Same d := by
  refine ⟨.ofWire enc (d.toWire enc), ?_, hd.same_ofWire⟩
  rw [unserialize, serialize, stateDiffFormat.get_put hd.fits]
  rfl

end CDeterministicMNStateDiff

namespace CDeterministicMNList

def serialize (enc : BlsEncoding) (l : CDeterministicMNList) : Bytes :=
  listFormat.put (l.blockHash, l.nHeight, l.nTotalRegisteredCount,
    (l.mns false).map (CDeterministicMN.toWire enc))

/-- The result is `none` also when `AddMN` throws. -/
def unserialize (enc : BlsEncoding) (bytes : Bytes) : Option (CDeterministicMNList × Bytes) := do
  let ((blockHash, nHeight, nTotalRegisteredCount, wires), bytes) ← listFormat.get bytes
  let l ← (wires.foldlM (fun (l : CDeterministicMNList) wire => l.addMN (.ofWire enc wire) false)
    { blockHash, nHeight, nTotalRegisteredCount }).toOption
  return (l, bytes)

variable {enc : BlsEncoding} {l c : CDeterministicMNList} {dmns : List CDeterministicMN}

/-- A list that is being read has some of the masternodes that were written. -/
structure Reading (l : CDeterministicMNList) (pending : List CDeterministicMN)
    (c : CDeterministicMNList) : Prop where
  repOk : c.RepOk
  header : c.header = l.header
  count : c.nTotalRegisteredCount = l.nTotalRegisteredCount
  listed : ∀ {h d'}, c.getMN h = some d' → ∃ d, l.getMN h = some d ∧ d'.Same d
  complete : ∀ {h d}, l.getMN h = some d → c.getMN h = none → d ∈ pending
  new : ∀ {d}, d ∈ pending → c.getMN d.proTxHash = none

theorem Reading.add {d d' : CDeterministicMN} (hl : l.Sound) (hc : l.Reading (d :: dmns) c)
    (hnodup : ((d :: dmns).map CDeterministicMN.proTxHash).Nodup)
    (hget : l.getMN d.proTxHash = some d) (hsame : d'.Same d) :
    ∃ c', c.addMN d' false = .ok c' ∧ l.Reading dmns c' := by
  have haddable : c.Addable d' := by
    refine ⟨hsame.proTxHash ▸ hc.new mem_cons_self, ?_,
      hsame.symm.hasRequired (hl.required hget), ?_⟩
    · intro h other hother heq
      obtain ⟨listed, hlisted, hlike⟩ := hc.listed hother
      obtain rfl := hl.repOk.hash_eq_of_id hlisted hget
        (hlike.internalId.symm.trans (heq.trans hsame.internalId))
      rw [hc.new mem_cons_self] at hother
      cases hother
    · rintro v h hholds ⟨other, hother, hholds'⟩
      obtain ⟨listed, hlisted, hlike⟩ := hc.listed hother
      obtain rfl := hl.repOk.properties.unique ⟨listed, hlisted, hlike.holds hholds'⟩
        ⟨d, hget, hsame.holds hholds⟩
      rw [hc.new mem_cons_self] at hother
      cases hother
  obtain ⟨c', hadd, hrep⟩ := hc.repOk.exists_addMN haddable false
  have hget' := (addMN_ok hadd).2
  rw [hsame.proTxHash] at hget'
  rw [map_cons, nodup_cons] at hnodup
  refine ⟨c', hadd, hrep, (header_addMN hadd).trans hc.header, ?_, ?_, ?_, ?_⟩
  · obtain ⟨-, -, m, -, rfl⟩ := addMN_eq_ok_iff.mp hadd
    exact hc.count
  · intro h other hother
    rw [hget'] at hother
    split at hother
    · rename_i heq
      cases hother
      exact ⟨d, heq ▸ hget, hsame⟩
    · exact hc.listed hother
  · intro h other hother hnone
    rw [hget'] at hnone
    split at hnone
    · cases hnone
    · rename_i hne
      rcases mem_cons.mp (hc.complete hother hnone) with rfl | hmem
      · exact absurd (proTxHash_of_getMN hother).symm hne
      · exact hmem
  · intro other hother
    rw [hget', if_neg]
    · exact hc.new (mem_cons_of_mem _ hother)
    · exact fun heq => hnodup.1 (heq ▸ mem_map_of_mem hother)

theorem Reading.addAll (hl : l.Sound) (hstored : l.Storable enc) (hc : l.Reading dmns c)
    (hnodup : (dmns.map CDeterministicMN.proTxHash).Nodup)
    (hlisted : ∀ d ∈ dmns, l.getMN d.proTxHash = some d) :
    ∃ c', (dmns.map (CDeterministicMN.toWire enc)).foldlM
        (fun c wire => c.addMN (.ofWire enc wire) false) c = .ok c' ∧ l.Reading [] c' := by
  induction dmns generalizing c with
  | nil => exact ⟨c, rfl, hc⟩
  | cons d dmns ih =>
    have hget := hlisted d mem_cons_self
    obtain ⟨c₁, hadd, hc₁⟩ := hc.add hl hnodup hget (hstored.writable hget).same_ofWire
    obtain ⟨c', hfold, hc'⟩ := ih hc₁ (nodup_cons.mp hnodup).2
      fun d hd => hlisted d (mem_cons_of_mem _ hd)
    refine ⟨c', ?_, hc'⟩
    rw [map_cons, foldlM_cons, hadd]
    exact hfold

theorem Sound.unserialize_serialize (hl : l.Sound) (hstored : l.Storable enc)
    (hheight : InInt32 l.nHeight) (hcount : l.nTotalRegisteredCount < 2 ^ 32) (rest : Bytes) :
    ∃ l', unserialize enc (l.serialize enc ++ rest) = some (l', rest) ∧ l'.SameMaps l ∧
      l'.header = l.header ∧ l'.nTotalRegisteredCount = l.nTotalRegisteredCount := by
  have hmem {d : CDeterministicMN} : d ∈ l.mns false ↔ l.getMN d.proTxHash = some d := by
    simp [mem_mns_iff]
  have hempty : l.Reading (l.mns false)
      { blockHash := l.blockHash, nHeight := l.nHeight,
        nTotalRegisteredCount := l.nTotalRegisteredCount } := by
    refine ⟨⟨repOk_empty.ids, repOk_empty.properties⟩, rfl, rfl, nofun, ?_, fun _ => rfl⟩
    intro h d hget _
    exact hmem.mpr (by rwa [proTxHash_of_getMN hget])
  obtain ⟨l', hfold, hread⟩ := hempty.addAll hl hstored (l.nodup_mns false) fun d => hmem.mp
  have hfits : listFormat.Fits (l.blockHash, l.nHeight, l.nTotalRegisteredCount,
      (l.mns false).map (CDeterministicMN.toWire enc)) := by
    refine ⟨fits_bitVec (n := 32) _, fits_int32 hheight, hcount, ?_, fun wire hwire => ?_⟩
    · rw [length_map]
      exact length_mns_le.trans hstored.size
    · obtain ⟨d, hd, rfl⟩ := mem_map.mp hwire
      exact (hstored.writable (hmem.mp hd)).fits
  refine ⟨l', ?_, ?_, hread.header, hread.count⟩
  · rw [unserialize, serialize, listFormat.get_put hfits]
    simp only [Option.bind_eq_bind, Option.bind_some, hfold]
    rfl
  · refine hread.repOk.sameMaps hl.repOk fun h => ?_
    cases hget' : l'.getMN h with
    | some d' =>
      obtain ⟨d, hget, hsame⟩ := hread.listed hget'
      rw [hget]
      exact .some hsame
    | none =>
      cases hget : l.getMN h with
      | none => exact .none
      | some d => cases hread.complete hget hget'

end CDeterministicMNList

/-- **Stored masternode data round-trips.** -/
theorem storedData_roundTrips (enc : BlsEncoding) (rest : Bytes) :
    (∀ s : CDeterministicMNState, s.InRange enc →
      ∃ s', CDeterministicMNState.unserialize enc (s.serialize enc ++ rest) = some (s', rest) ∧
        s'.Same s.encoded ∧ (s.KeyEncoded → s'.Same s)) ∧
    (∀ a b : CDeterministicMNState, b.InRange enc → b.KeyEncoded →
      ∃ d, CDeterministicMNStateDiff.unserialize enc
          ((CDeterministicMNStateDiff.ofStates a b).serialize enc ++ rest) = some (d, rest) ∧
        d.Same (.ofStates a b) ∧ ∀ target : CDeterministicMNState,
          (d.applyToState target).Same
            ((CDeterministicMNStateDiff.ofStates a b).applyToState target)) ∧
    (∀ l : CDeterministicMNList, l.Sound → l.Storable enc → InInt32 l.nHeight →
      l.nTotalRegisteredCount < 2 ^ 32 →
      ∃ l', CDeterministicMNList.unserialize enc (l.serialize enc ++ rest) = some (l', rest) ∧
        l'.SameMaps l ∧ l'.header = l.header ∧
        l'.nTotalRegisteredCount = l.nTotalRegisteredCount) ∧
    ∀ diff : CDeterministicMNListDiff, diff.Writable enc →
      ∃ diff', CDeterministicMNListDiff.unserialize enc (diff.serialize enc ++ rest) =
        some (diff', rest) ∧ diff'.Same diff := by
  refine ⟨fun s hs => ?_, fun a b hb hkey => ?_, fun l hl hstored hheight hcount => ?_,
    fun diff hdiff => ?_⟩
  · obtain ⟨s', hread, hsame⟩ := hs.unserialize_serialize rest
    exact ⟨s', hread, hsame, fun hkey => hsame.trans hkey.same_encoded⟩
  · obtain ⟨d, hread, hsame⟩ :=
      (CDeterministicMNStateDiff.writable_ofStates hb hkey).unserialize_serialize rest
    exact ⟨d, hread, hsame, hsame.applyToState⟩
  · exact hl.unserialize_serialize hstored hheight hcount rest
  · exact ⟨diff.readBack enc, hdiff.unserialize_serialize rest, hdiff.same_readBack⟩

theorem storedData_roundTrips_list₁ :
    ∃ l', CDeterministicMNList.unserialize encoding
        (list₁.serialize encoding) = some (l', []) ∧
      l'.SameMaps list₁ ∧ list₁.getAllMNsCount = 2 := by
  obtain ⟨l', hread, hmaps, -⟩ := (storedData_roundTrips encoding []).2.2.1 list₁
    sound_list₁ (storable_of_all (by decide +kernel) (by decide +kernel))
    (by decide +kernel) (by decide +kernel)
  rw [List.append_nil] at hread
  exact ⟨l', hread, hmaps, by decide +kernel⟩

end Defcon.Evo
