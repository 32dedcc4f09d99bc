import Mathlib.Data.Finmap
import ItchParser.FlatHashMap.Update
import ItchParser.Lib.Machine

/-!
# Runs of a FlatHashMap

A table that starts empty stands for a finite map after any sequence of calls that keep the rules of
the class: no call uses the reserved key, and a new key is only inserted while a slot is free.
-/

namespace ItchParser.FlatHashMap

open Probing Machine

variable {KeyT V : Type} [DecidableEq KeyT] {L : MapLayout KeyT} {m : FlatHashMap KeyT V}
  {k : KeyT} {v : Option V} {f : KeyT → Option (Option V)}

/-- A finite map from keys to values. -/
abbrev Contents (KeyT V : Type) := Finmap fun _ : KeyT => Option V

/-- A call that changes a table. -/
inductive MapCall (KeyT V : Type) where
  | insert (k : KeyT) (v : Option V)
  | erase (k : KeyT)
  | clear
  deriving DecidableEq

/-- What a call does to a table. -/
def MapCall.apply (L : MapLayout KeyT) (m : FlatHashMap KeyT V) :
    MapCall KeyT V → FlatHashMap KeyT V
  | .insert k v => (m.insert L k v).1
  | .erase k => m.erase L k
  | .clear => m.clear L

/-- What a call does to a finite map. -/
def MapCall.update (F : Contents KeyT V) : MapCall KeyT V → Contents KeyT V
  | .insert k v => F.insert k v
  | .erase k => F.erase k
  | .clear => ∅

/-- The rules for a call, when the table holds the keys of `F`. -/
def MapCall.Allowed (L : MapLayout KeyT) (F : Contents KeyT V) : MapCall KeyT V → Prop
  | .insert k _ => k ≠ L.kEmpty ∧ (k ∈ F ∨ F.keys.card < L.kCapacity)
  | .erase k => k ≠ L.kEmpty
  | .clear => True

instance (L : MapLayout KeyT) (F : Contents KeyT V) : DecidablePred (MapCall.Allowed L F)
  | .insert _ _ => inferInstanceAs (Decidable (_ ∧ _))
  | .erase _ => inferInstanceAs (Decidable (_ ≠ _))
  | .clear => inferInstanceAs (Decidable True)

/-- The table stands for the finite map `F` and counts its keys. -/
structure Stores (L : MapLayout KeyT) (m : FlatHashMap KeyT V) (F : Contents KeyT V) : Prop where
  represents : Represents L m fun k => F.lookup k
  size : m.size = UInt64.ofNat F.keys.card
  fits : F.keys.card ≤ L.kCapacity

variable {F : Contents KeyT V} {c : MapCall KeyT V}

/-- `insert` on the contents, as an update of their lookup. -/
theorem lookup_insert_eq (F : Contents KeyT V) (k : KeyT) (v : Option V) :
    (fun k' => (F.insert k v).lookup k') = Function.update (fun k' => F.lookup k') k (some v) := by
  funext k'
  by_cases hk : k' = k
  · subst hk
    rw [Function.update_self, Finmap.lookup_insert]
  · rw [Function.update_of_ne hk, Finmap.lookup_insert_of_ne _ hk]

/-- `erase` on the contents, as an update of their lookup. -/
theorem lookup_erase_eq (F : Contents KeyT V) (k : KeyT) :
    (fun k' => (F.erase k).lookup k') = Function.update (fun k' => F.lookup k') k none := by
  funext k'
  by_cases hk : k' = k
  · subst hk
    rw [Function.update_self, Finmap.lookup_erase]
  · rw [Function.update_of_ne hk, Finmap.lookup_erase_ne hk]

/-- The keys after an `insert` on the contents. -/
theorem keys_insert_eq (F : Contents KeyT V) (k : KeyT) (v : Option V) :
    (F.insert k v).keys = Insert.insert k F.keys := by
  ext k'
  rw [Finmap.mem_keys, Finmap.mem_insert, Finset.mem_insert, Finmap.mem_keys]

/-! ## One call -/

/-- An empty table stores the empty contents. -/
theorem Stores.empty : Stores L (empty L : FlatHashMap KeyT V) ∅ := by
  refine ⟨?_, rfl, Nat.zero_le _⟩
  simpa only [Finmap.lookup_empty] using Represents.empty

/-- A new key. -/
theorem Stores.insert_new (h : Stores L m F) (hk : k ≠ L.kEmpty) (hnew : k ∉ F)
    (hroom : F.keys.card < L.kCapacity) :
    (m.insert L k v).2 = true ∧ Stores L (m.insert L k v).1 (F.insert k v) := by
  have hf : F.lookup k = none := Finmap.lookup_eq_none.mpr hnew
  have hcard : (F.insert k v).keys.card = F.keys.card + 1 := by
    rw [keys_insert_eq, Finset.card_insert_of_notMem (mt Finmap.mem_keys.mp hnew)]
  have hfree := h.represents.room F.keys.toList (fun k' v' hk' => by
    rw [Finset.mem_toList, Finmap.mem_keys]
    exact Finmap.mem_of_lookup_eq_some hk') (by rwa [Finset.length_toList])
  obtain ⟨hres, hsize, hrep⟩ := h.represents.insert_new (v := v) hk hf hfree
  refine ⟨hres, by rwa [lookup_insert_eq], ?_, by omega⟩
  rw [hsize, h.size, hcard, UInt64.ofNat_add]
  rfl

/-- A present key. -/
theorem Stores.insert_present (h : Stores L m F) (hk : k ∈ F) :
    (m.insert L k v).2 = false ∧ Stores L (m.insert L k v).1 (F.insert k v) := by
  obtain ⟨w, hf⟩ := Finmap.mem_iff.mp hk
  have hkeys : (F.insert k v).keys = F.keys := by
    rw [keys_insert_eq, Finset.insert_eq_self.mpr (Finmap.mem_keys.mpr hk)]
  obtain ⟨hres, hsize, hrep⟩ := h.represents.insert_present (v := v) hf
  refine ⟨hres, by rwa [lookup_insert_eq], ?_, by rw [hkeys]; exact h.fits⟩
  rw [hsize, h.size, hkeys]

/-- `erase` returns, whether the key is present or not and also when every slot is occupied. -/
theorem Stores.erase (h : Stores L m F) (k : KeyT) :
    Erases L m k (m.erase L k) ∧ Stores L (m.erase L k) (F.erase k) := by
  by_cases hk : k ∈ F
  · obtain ⟨w, hf⟩ := Finmap.mem_iff.mp hk
    have hcard : (F.erase k).keys.card + 1 = F.keys.card := by
      rw [Finmap.keys_erase, Finset.card_erase_add_one (Finmap.mem_keys.mpr hk)]
    obtain ⟨hends, hsize, hrep⟩ := h.represents.erase_present hf
    refine ⟨hends, by rwa [lookup_erase_eq], ?_, by have hfits := h.fits; omega⟩
    rw [hsize, h.size, ← hcard, UInt64.ofNat_add]
    exact UInt64.add_sub_cancel _ _
  · have hf : F.lookup k = none := Finmap.lookup_eq_none.mpr hk
    have hsame : F.erase k = F := by
      refine Finmap.ext_lookup fun k' => ?_
      by_cases hk' : k' = k
      · rw [hk', Finmap.lookup_erase, hf]
      · rw [Finmap.lookup_erase_ne hk']
    rw [h.represents.erase_absent hf, hsame]
    exact ⟨h.represents.erases_absent hf, h⟩

/-- Every call that keeps the rules does to the table what it does to the finite map. -/
theorem Stores.apply (h : Stores L m F) (hc : c.Allowed L F) :
    Stores L (c.apply L m) (c.update F) := by
  cases c with
  | insert k v =>
      obtain ⟨hk, hroom⟩ := hc
      by_cases hmem : k ∈ F
      · exact (h.insert_present hmem).2
      · exact (h.insert_new hk hmem (hroom.resolve_left hmem)).2
  | erase k => exact (h.erase k).2
  | clear => exact Stores.empty

/-! ## What a table shows -/

/-- The number of keys, as `size()` returns it. -/
theorem Stores.size_toNat (h : Stores L m F) (hcap : L.kCapacity < 18446744073709551616) :
    m.size.toNat = F.keys.card := by
  have hfits := h.fits
  rw [h.size, UInt64.toNat_ofNat_of_lt' (by show F.keys.card < 18446744073709551616; omega)]

/-- `for_each` visits the pairs of the map and nothing else. -/
theorem Represents.mem_forEach (h : Represents L m f) :
    (k, v) ∈ m.forEach L ↔ f k = some v := by
  rw [h.content, forEach, List.mem_filterMap]
  refine exists_congr fun i => ?_
  rw [List.mem_range, slots_eq_some]
  split
  · next hempty => simp [hempty, eq_comm]
  · next hne =>
      simp only [Option.some.injEq, Prod.mk.injEq]
      refine and_congr_right fun _ => ⟨fun hi => ⟨⟨hi.1, hi.1 ▸ hne⟩, hi.2⟩, fun hi => ?_⟩
      exact ⟨hi.1.1, hi.2⟩

/-- `for_each` visits no key twice. -/
theorem Represents.forEach_nodup (h : Represents L m f) : ((m.forEach L).map Prod.fst).Nodup := by
  unfold forEach List.Nodup
  rw [List.pairwise_map, List.pairwise_filterMap]
  refine List.Pairwise.imp_of_mem ?_ List.nodup_range
  intro i j hi hj hij p hp q hq
  rw [List.mem_range] at hi hj
  split at hp
  · cases hp
  · next hne =>
      split at hq
      · cases hq
      · next hne' =>
          cases hp
          cases hq
          intro hsame
          exact hij (h.valid.distinct i hi j hj (m.keys i) (slots_eq_some.mpr ⟨rfl, hne⟩)
            (slots_eq_some.mpr ⟨hsame.symm, hne⟩))

/-- What the methods of a table that stands for `F` return. -/
structure Behaves (L : MapLayout KeyT) (m : FlatHashMap KeyT V) (F : Contents KeyT V) : Prop where
  find : ∀ k, m.find L k = (F.lookup k).join
  insert : ∀ k v, (MapCall.insert k v).Allowed L F → ((m.insert L k v).2 = true ↔ k ∉ F)
  erase : ∀ k, Erases L m k (m.erase L k)
  size : m.size.toNat = F.keys.card
  visits : ∀ k v, (k, v) ∈ m.forEach L ↔ F.lookup k = some v
  once : ((m.forEach L).map Prod.fst).Nodup

/-- A table behaves like the contents that it stores. -/
theorem Stores.behaves (h : Stores L m F) (hcap : L.kCapacity < 18446744073709551616) :
    Behaves L m F := by
  refine ⟨h.represents.find_eq, fun k v hc => ?_, fun k => (h.erase k).1, h.size_toNat hcap,
    fun k v => h.represents.mem_forEach, h.represents.forEach_nodup⟩
  obtain ⟨hk, hroom⟩ := hc
  by_cases hmem : k ∈ F
  · simp [(h.insert_present (v := v) hmem).1, hmem]
  · simp [(h.insert_new (v := v) hk hmem (hroom.resolve_left hmem)).1, hmem]

/-- The finite map after the calls `cs`. -/
abbrev contents (cs : List (MapCall KeyT V)) : Contents KeyT V :=
  run MapCall.update ∅ cs

/-- The table after the calls `cs`. -/
abbrev tableAfter (L : MapLayout KeyT) (cs : List (MapCall KeyT V)) : FlatHashMap KeyT V :=
  run (MapCall.apply L) (empty L) cs

/-- A run of allowed calls keeps table and contents together. -/
theorem Stores.run (h : Stores L m F) (cs : List (MapCall KeyT V))
    (hcs : Along MapCall.update (MapCall.Allowed L) F cs) :
    Stores L (run (MapCall.apply L) m cs) (run MapCall.update F cs) := by
  induction cs generalizing m F with
  | nil => exact h
  | cons c cs ih =>
      obtain ⟨hc, hrest⟩ := hcs
      exact ih (h.apply hc) hrest

/-- A table is a finite map: after every sequence of calls that keep the rules, whatever the hash
function and the capacity, its methods return, and they return what the finite map says. -/
theorem behaves_after (L : MapLayout KeyT) (hcap : L.kCapacity < 18446744073709551616)
    (cs : List (MapCall KeyT V)) (hcs : Along MapCall.update (MapCall.Allowed L) ∅ cs) :
    Behaves L (tableAfter L cs) (contents cs) :=
  (Stores.empty.run cs hcs).behaves hcap

/-- Four slots, and one home slot for all keys. -/
def crowdedLayout : MapLayout UInt32 :=
  ⟨4, 0, fun _ => 2, 2, rfl⟩

/-- A full table whose keys all start at slot 2, with an erase and an overwrite. -/
def crowdedCalls : List (MapCall UInt32 Nat) :=
  [.insert 1 (some 10), .insert 2 (some 20), .insert 3 (some 30), .insert 4 (some 40),
    .erase 1, .insert 2 (some 21)]

/-- Calls on a table of four slots whose keys share their hash. -/
theorem behaves_after_sample :
    Behaves crowdedLayout (tableAfter crowdedLayout crowdedCalls) (contents crowdedCalls) :=
  behaves_after crowdedLayout (by decide) crowdedCalls (by decide +kernel)

end ItchParser.FlatHashMap
