import ItchParser.FlatHashMap

/-!
# FlatHashMap updates as finite-map updates

`Represents` is carried through `insert`, `erase` and `clear`. Inserting a new key needs an empty
slot. `erase` needs that its repair loop comes to an end before the fuel does, which holds also
when every other slot is occupied: a round either moves a key closer to its home slot or leaves the
table as it is and moves one slot closer to an empty one.
-/

namespace ItchParser.FlatHashMap

open Probing

variable {KeyT V : Type} [DecidableEq KeyT] {L : MapLayout KeyT} {m : FlatHashMap KeyT V}
  {k k' : KeyT} {v w : Option V} {i j z : Nat} {f : KeyT → Option (Option V)}

/-- Some slot holds the key `k` with the value `v`. -/
def Holds (L : MapLayout KeyT) (m : FlatHashMap KeyT V) (k : KeyT) (v : Option V) : Prop :=
  ∃ i < L.kCapacity, m.slots L i = some k ∧ m.values i = v

/-- Writing a key fills its slot. -/
theorem slots_write (hk : k ≠ L.kEmpty) :
    (m.write i k v).slots L = Function.update (m.slots L) i (some k) := by
  funext x
  by_cases hx : x = i <;> simp [slots, write, hx, hk]

/-- `erase` frees the slot before it mends the table. -/
theorem slots_vacate : (m.vacate L i).slots L = Function.update (m.slots L) i none := by
  funext x
  by_cases hx : x = i <;> simp [slots, vacate, write, hx]

/-- Writing a key into an empty slot adds it to the contents. -/
theorem holds_write (hz : z < L.kCapacity) (hfree : m.keys z = L.kEmpty) (hk : k ≠ L.kEmpty) :
    Holds L (m.write z k w) k' v ↔ (k' = k ∧ v = w) ∨ Holds L m k' v := by
  unfold Holds
  rw [slots_write hk]
  constructor
  · rintro ⟨i, hi, hslot, hv⟩
    by_cases hiz : i = z
    · subst hiz
      simp only [Function.update_self, Option.some.injEq, write] at hslot hv
      exact .inl ⟨hslot.symm, hv.symm⟩
    · simp only [Function.update_of_ne hiz, write] at hslot hv
      exact .inr ⟨i, hi, hslot, hv⟩
  · rintro (⟨rfl, rfl⟩ | ⟨i, hi, hslot, hv⟩)
    · exact ⟨z, hz, by simp, by simp [write]⟩
    · have hiz : i ≠ z := by
        rintro rfl
        rw [slots_eq_none.mpr hfree] at hslot
        cases hslot
      exact ⟨i, hi, by rwa [Function.update_of_ne hiz], by simpa [write, hiz] using hv⟩

/-- Emptying the slot of a key removes that key from the contents. -/
theorem holds_vacate (hd : Distinct L.kCapacity (m.slots L)) (hi : i < L.kCapacity)
    (hk : m.slots L i = some k) : Holds L (m.vacate L i) k' v ↔ k' ≠ k ∧ Holds L m k' v := by
  unfold Holds
  rw [slots_vacate]
  constructor
  · rintro ⟨x, hx, hslot, hv⟩
    have hxi : x ≠ i := by
      rintro rfl
      simp at hslot
    simp only [Function.update_of_ne hxi, vacate, write] at hslot hv
    exact ⟨fun he => hxi (hd x hx i hi k (he ▸ hslot) hk), x, hx, hslot, hv⟩
  · rintro ⟨hne, x, hx, hslot, hv⟩
    have hxi : x ≠ i := by
      rintro rfl
      rw [hslot] at hk
      exact hne (Option.some.inj hk)
    exact ⟨x, hx, by rwa [Function.update_of_ne hxi],
      by simpa [vacate, write, hxi] using hv⟩

/-! ## Insertion -/

/-- A table whose keys come from a list shorter than the capacity has an empty slot. -/
theorem Represents.room (h : Represents L m f) (keys : List KeyT)
    (hkeys : ∀ k v, f k = some v → k ∈ keys) (hshort : keys.length < L.kCapacity) :
    ∃ i < L.kCapacity, m.slots L i = none :=
  exists_empty h.valid.distinct keys
    (fun i hi k hk => hkeys k _ ((h.content k _).mpr ⟨i, hi, hk, rfl⟩)) hshort

/-- Inserting a new key adds it, provided a slot is empty. -/
theorem Represents.insert_new (h : Represents L m f) (hk : k ≠ L.kEmpty) (hf : f k = none)
    (hroom : ∃ i < L.kCapacity, m.slots L i = none) :
    (m.insert L k v).2 = true ∧ (m.insert L k v).1.size = m.size + 1 ∧
      Represents L (m.insert L k v).1 (Function.update f k (some v)) := by
  obtain ⟨z, hz, hseek, hfree, hreach⟩ := seek_free (h.absent hf) hroom
  have hins : m.insert L k v = ({ m.write z k v with size := m.size + 1 }, true) := by
    simp [insert, hseek, hfree]
  rw [hins]
  refine ⟨rfl, rfl, ?_, fun k' v' => ?_⟩
  · show Valid _ _ ((m.write z k v).slots L)
    rw [slots_write hk]
    exact h.valid.insert (h.absent hf) hreach
  · show _ ↔ Holds L (m.write z k v) k' v'
    rw [holds_write hz hfree hk, Function.update_apply]
    split
    · next he =>
        subst he
        have hnot : ¬ Holds L m k' v' := fun hh => by
          rw [(h.content k' v').mpr hh] at hf
          cases hf
        simp [hnot, eq_comm]
    · next hne => rw [h.content]; simp [hne, Holds]

/-- Inserting a present key overwrites its value. -/
theorem Represents.insert_present (h : Represents L m f) (hf : f k = some w) :
    (m.insert L k v).2 = false ∧ (m.insert L k v).1.size = m.size ∧
      Represents L (m.insert L k v).1 (Function.update f k (some v)) := by
  obtain ⟨i, hi, hslot, hv⟩ := (h.content _ _).mp hf
  have hseek := seek_hit h.valid.distinct hi hslot (h.valid.reaches i hi k hslot)
  obtain ⟨hkey, hne⟩ := slots_eq_some.mp hslot
  have hins : m.insert L k v = ({ m with values := Function.update m.values i v }, false) := by
    simp [insert, hseek, hkey, hne]
  rw [hins]
  refine ⟨rfl, rfl, h.valid, fun k' v' => ?_⟩
  show _ ↔ ∃ x < L.kCapacity, m.slots L x = some k' ∧ Function.update m.values i v x = v'
  rw [Function.update_apply]
  split
  · next he =>
      subst he
      constructor
      · intro hv'
        exact ⟨i, hi, hslot, by simpa using hv'⟩
      · rintro ⟨x, hx, hx', hv'⟩
        obtain rfl := h.valid.distinct x hx i hi k' hx' hslot
        simpa using hv'
  · next hne' =>
      rw [h.content]
      refine exists_congr fun x => and_congr_right fun hx => and_congr_right fun hx' => ?_
      have hxi : x ≠ i := by
        rintro rfl
        rw [hx'] at hslot
        exact hne' (Option.some.inj hslot)
      rw [Function.update_of_ne hxi]

/-! ## A full table -/

/-- A search ends at a slot of the table. -/
theorem probe_lt (probes : Nat) (hi : i < L.kCapacity) :
    ∀ z, m.probe L k probes i = some z → z < L.kCapacity := by
  induction probes generalizing i with
  | zero => simp [probe]
  | succ probes ih =>
      intro z hz
      rw [probe] at hz
      split at hz
      · cases hz
        exact hi
      · split at hz
        · cases hz
          exact hi
        · rw [next_slot hi] at hz
          exact ih (advance_lt hi capacity_pos) z hz

/-- A table with as many keys as slots has no empty slot. -/
theorem Represents.full (h : Represents L m f) {keys : List KeyT} (hnodup : keys.Nodup)
    (hkeys : ∀ k ∈ keys, f k ≠ none) (hlen : L.kCapacity ≤ keys.length) :
    ∀ i < L.kCapacity, m.slots L i ≠ none := by
  intro i hi hempty
  have hsub : keys ⊆ (List.range L.kCapacity).filterMap (m.slots L) := by
    intro k hk
    obtain ⟨v, hv⟩ := Option.ne_none_iff_exists'.mp (hkeys k hk)
    obtain ⟨j, hj, hslot, -⟩ := (h.content k v).mp hv
    exact List.mem_filterMap.mpr ⟨j, List.mem_range.mpr hj, hslot⟩
  have hshort : ((List.range L.kCapacity).filterMap (m.slots L)).length <
      (List.range L.kCapacity).length :=
    List.length_filterMap_lt_length_iff_exists.mpr ⟨i, List.mem_range.mpr hi, hempty⟩
  have hcount := (hnodup.subperm hsub).length_le
  rw [List.length_range] at hshort
  omega

/-- A full table turns a new key away, without a sign of it. -/
theorem Represents.insert_full (h : Represents L m f) (hf : f k = none)
    (hfull : ∀ i < L.kCapacity, m.slots L i ≠ none) : m.insert L k v = (m, false) := by
  unfold insert
  cases hs : m.seek L k with
  | none => rfl
  | some z =>
      have hempty := probe_miss (h.absent hf) _ (home_lt k) z hs
      exact absurd (slots_eq_none.mpr hempty) (hfull z (probe_lt _ (home_lt k) z hs))

/-- The reserved key leaves the contents alone: it only overwrites the value of an empty slot. -/
theorem Represents.insert_reserved (h : Represents L m f) :
    Represents L (m.insert L L.kEmpty v).1 f := by
  unfold insert
  cases hs : m.seek L L.kEmpty with
  | none => exact h
  | some z =>
      have hz := probe_miss (fun i _ hi => (slots_eq_some.mp hi).2 rfl) _ (home_lt _) z hs
      simp only [hz, ↓reduceIte]
      have hslots : (m.write z L.kEmpty v).slots L = m.slots L := by
        funext x
        by_cases hx : x = z <;> simp [slots, write, hx, hz]
      refine ⟨?_, fun k' v' => ?_⟩
      · show Valid _ _ ((m.write z L.kEmpty v).slots L)
        rw [hslots]
        exact h.valid
      · show _ ↔ ∃ x < L.kCapacity, (m.write z L.kEmpty v).slots L x = some k' ∧ _
        rw [h.content, hslots]
        refine exists_congr fun x => and_congr_right fun hx => and_congr_right fun hx' => ?_
        have hxz : x ≠ z := by
          rintro rfl
          rw [slots_eq_none.mpr hz] at hx'
          cases hx'
        simp [write, Function.update_of_ne hxz]

/-! ## Erasure -/

/-- What holds between two rounds of the repair loop, at slot `j`. -/
structure Mending (L : MapLayout KeyT) (m : FlatHashMap KeyT V) (f : KeyT → Option (Option V))
    (j : Nat) : Prop where
  repairing : Repairing L.kCapacity (home L) (m.slots L) j
  content : ∀ k v, f k = some v ↔ Holds L m k v

/-- One round: the key of slot `j` moves to the first empty slot `z` that its search reaches. -/
theorem Mending.round (h : Mending L m f j) (hj : j < L.kCapacity) (hkey : m.keys j ≠ L.kEmpty) :
    ∃ z < L.kCapacity,
      (m.vacate L j).slots L z = none ∧
      Reaches L.kCapacity (home L) (Function.update (m.slots L) j none) (m.keys j) z ∧
      (((m.vacate L j).insert L (m.keys j) (m.values j)).1).slots L =
        Function.update (Function.update (m.slots L) j none) z (some (m.keys j)) ∧
      ((m.vacate L j).insert L (m.keys j) (m.values j)).1.size = m.size ∧
      Mending L ((m.vacate L j).insert L (m.keys j) (m.values j)).1 f
        (advance L.kCapacity j 1) := by
  have hslot : m.slots L j = some (m.keys j) := slots_eq_some.mpr ⟨rfl, hkey⟩
  have hnew : ∀ i < L.kCapacity, (m.vacate L j).slots L i ≠ some (m.keys j) := by
    intro i hi hi'
    exact ((holds_vacate h.repairing.distinct hj hslot).mp ⟨i, hi, hi', rfl⟩).1 rfl
  have hroom : ∃ i < L.kCapacity, (m.vacate L j).slots L i = none :=
    ⟨j, hj, by rw [slots_vacate, Function.update_self]⟩
  obtain ⟨z, hz, hseek, hfree, hreach⟩ := seek_free hnew hroom
  rw [slots_vacate] at hreach
  have hins : ((m.vacate L j).insert L (m.keys j) (m.values j)).1 =
      { (m.vacate L j).write z (m.keys j) (m.values j) with size := (m.vacate L j).size + 1 } := by
    simp [insert, hseek, hfree]
  have hslots : (((m.vacate L j).insert L (m.keys j) (m.values j)).1).slots L =
      Function.update (Function.update (m.slots L) j none) z (some (m.keys j)) := by
    rw [hins]
    show ((m.vacate L j).write z (m.keys j) (m.values j)).slots L = _
    rw [slots_write hkey, slots_vacate]
  have hsize : ((m.vacate L j).insert L (m.keys j) (m.values j)).1.size = m.size := by
    rw [hins]
    exact UInt64.sub_add_cancel m.size 1
  refine ⟨z, hz, slots_eq_none.mpr hfree, hreach, hslots, hsize, ?_, fun k' v' => ?_⟩
  · rw [hslots]
    exact h.repairing.step home_lt hj hslot hreach
  · rw [h.content, hins]
    show _ ↔ Holds L ((m.vacate L j).write z (m.keys j) (m.values j)) k' v'
    rw [holds_write hz hfree hkey, holds_vacate h.repairing.distinct hj hslot]
    -- the only pair that leaves and comes back is the one of slot `j`
    constructor
    · rintro ⟨x, hx, hx', hv⟩
      by_cases hk' : k' = m.keys j
      · subst hk'
        obtain rfl := h.repairing.distinct x hx j hj _ hx' hslot
        exact .inl ⟨rfl, hv.symm⟩
      · exact .inr ⟨hk', x, hx, hx', hv⟩
    · rintro (⟨rfl, rfl⟩ | ⟨_, hh⟩)
      · exact ⟨j, hj, hslot, rfl⟩
      · exact hh

/-- The repair loop ends at an empty slot, and then the table is searchable again and has the same
size. Here `gap` is the distance from `j` to the next empty slot. -/
theorem repair_exits (fuel gap : Nat) (h : Mending L m f j) (hj : j < L.kCapacity)
    (hgap : gap < L.kCapacity) (hrun : Occupied L.kCapacity (m.slots L) j gap)
    (hstop : m.slots L (advance L.kCapacity j gap) = none)
    (hfuel : work L.kCapacity (home L) (m.slots L) * L.kCapacity + gap < fuel) :
    Repairs L j m (repair L fuel j m) ∧ (repair L fuel j m).size = m.size ∧
      Represents L (repair L fuel j m) f := by
  induction fuel generalizing m j gap with
  | zero => omega
  | succ fuel ih =>
      unfold repair
      split
      · next hempty =>
          exact ⟨.done hempty, rfl, h.repairing.done hj (slots_eq_none.mpr hempty), h.content⟩
      · next hkey =>
          obtain ⟨z, hz, hfree, hreach, hslots, hsize, hnext⟩ := h.round hj hkey
          have hslot : m.slots L j = some (m.keys j) := slots_eq_some.mpr ⟨rfl, hkey⟩
          rw [slots_vacate] at hfree
          rw [← hsize]
          have hj' := advance_lt hj (capacity_pos (L := L))
          rw [← next_slot hj] at hnext hj'
          -- some gap is left behind `j`, and with it the loop needs less fuel
          have hrest : ∃ gap' < L.kCapacity,
              Occupied L.kCapacity (((m.vacate L j).insert L (m.keys j) (m.values j)).1.slots L)
                ((j + 1) &&& (L.kCapacity - 1)) gap' ∧
              ((m.vacate L j).insert L (m.keys j) (m.values j)).1.slots L
                (advance L.kCapacity ((j + 1) &&& (L.kCapacity - 1)) gap') = none ∧
              work L.kCapacity (home L)
                (((m.vacate L j).insert L (m.keys j) (m.values j)).1.slots L) * L.kCapacity + gap' <
                  fuel := by
            rw [hslots, next_slot hj]
            by_cases hzj : z = j
            · -- the key came back to slot `j`: the table is as before and the gap shrinks
              have hsame : Function.update (Function.update (m.slots L) j none) z
                  (some (m.keys j)) = m.slots L := by
                rw [hzj, Function.update_idem, ← hslot, Function.update_eq_self]
              have hpos : gap ≠ 0 := by
                rintro rfl
                rw [advance_zero hj, hslot] at hstop
                cases hstop
              rw [hsame]
              refine ⟨gap - 1, by omega, fun e he => ?_, ?_, by omega⟩
              · rw [advance_advance hj (by omega), Nat.add_comm]
                exact hrun (e + 1) (by omega)
              · rw [advance_advance hj (by omega), show 1 + (gap - 1) = gap by omega]
                exact hstop
            · -- the key moved closer to its home slot
              have hless := work_step (home_lt _) hj hz hzj hslot hfree hreach
              have hgone : Function.update (Function.update (m.slots L) j none) z
                  (some (m.keys j)) j = none := by
                rw [Function.update_of_ne (Ne.symm hzj), Function.update_self]
              obtain ⟨gap', hgap', hrun', hstop'⟩ :=
                exists_first_empty (advance_lt hj (capacity_pos (L := L))) ⟨j, hj, hgone⟩
              have hmul := Nat.mul_le_mul_right L.kCapacity (Nat.succ_le_of_lt hless)
              rw [Nat.succ_mul] at hmul
              exact ⟨gap', hgap', hrun', hstop', by omega⟩
          obtain ⟨gap', hgap', hrun', hstop', hfuel'⟩ := hrest
          obtain ⟨hends, hrest⟩ := ih gap' hnext hj' hgap' hrun' hstop' hfuel'
          exact ⟨.round hkey hends, hrest⟩

/-- `erase` returns, and removes the key. -/
theorem Represents.erase_present (h : Represents L m f) (hf : f k = some w) :
    Erases L m k (m.erase L k) ∧ (m.erase L k).size = m.size - 1 ∧
      Represents L (m.erase L k) (Function.update f k none) := by
  obtain ⟨i, hi, hslot, hv⟩ := (h.content _ _).mp hf
  obtain ⟨hkey, hne⟩ := slots_eq_some.mp hslot
  have hseek := seek_hit h.valid.distinct hi hslot (h.valid.reaches i hi k hslot)
  have hi' := advance_lt hi (capacity_pos (L := L))
  have hgone : (m.vacate L i).slots L i = none := by rw [slots_vacate, Function.update_self]
  obtain ⟨gap, hgap, hrun, hstop⟩ := exists_first_empty hi' ⟨i, hi, hgone⟩
  have hmending : Mending L (m.vacate L i) (Function.update f k none)
      (advance L.kCapacity i 1) := by
    refine ⟨?_, fun k' v' => ?_⟩
    · rw [slots_vacate]
      exact h.valid.clear home_lt hi
    · rw [holds_vacate h.valid.distinct hi hslot, Function.update_apply]
      split
      · next he => simp [he]
      · next hne' => rw [h.content]; simp [hne', Holds]
  have hwork := Nat.mul_le_mul_right L.kCapacity
    (work_le (t := (m.vacate L i).slots L) (home_lt (L := L)))
  have hrepaired := repair_exits (repairFuel L) gap hmending hi' hgap hrun hstop
    (by unfold repairFuel; omega)
  rw [← next_slot hi] at hrepaired
  have hers : m.erase L k =
      repair L (repairFuel L) ((i + 1) &&& (L.kCapacity - 1)) (m.vacate L i) := by
    simp [FlatHashMap.erase, hseek, hkey, hne]
  have hends : Erases L m k (m.erase L k) ↔
      Repairs L ((i + 1) &&& (L.kCapacity - 1)) (m.vacate L i) (m.erase L k) := by
    simp [Erases, hseek, hkey, hne]
  rw [hends, hers]
  exact hrepaired

/-- `erase` takes a key out of the map. -/
theorem Represents.erase (h : Represents L m f) (hf : f k = some w) :
    Represents L (m.erase L k) (Function.update f k none) :=
  (h.erase_present hf).2.2

/-- Erasing an absent key changes nothing. -/
theorem Represents.erase_absent (h : Represents L m f) (hf : f k = none) : m.erase L k = m := by
  unfold FlatHashMap.erase
  cases hs : m.seek L k with
  | none => rfl
  | some z => simp [probe_miss (h.absent hf) _ (home_lt k) z hs]

/-- Erasing an absent key leaves the table as it is. -/
theorem Represents.erases_absent (h : Represents L m f) (hf : f k = none) : Erases L m k m := by
  unfold Erases
  cases hs : m.seek L k with
  | none => rfl
  | some z => simp [probe_miss (h.absent hf) _ (home_lt k) z hs]

/-- `clear` forgets every key. -/
theorem Represents.clear : Represents L (m.clear L) fun _ => none :=
  Represents.empty

end ItchParser.FlatHashMap
