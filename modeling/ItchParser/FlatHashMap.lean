import ItchParser.Lib.Probing

/-!
# FlatHashMap: open addressing with linear probing

The template of `OrderBook.hpp` that maps a price to its level. The template parameters and the
hash are collected in a `MapLayout`. The three probe loops of the source stop at the same slot, the
first one that is empty or holds the key, so they are one definition, `probe`, and the methods
branch on what they find there. `erase` reinserts the rest of the cluster (`repair`).
-/

namespace ItchParser

open Probing

/-- The template parameters of a map: its capacity, which the source asserts to be a power of two,
the key that marks an empty slot, and the hash function. -/
structure MapLayout (KeyT : Type) where
  kCapacity : Nat
  kEmpty : KeyT
  hash : KeyT → UInt64
  bits : Nat
  capacity_eq : kCapacity = 2 ^ bits

/-- The arrays `keys_` and `values_` and the counter `size_`. A value is a pointer, with `none` for
`nullptr`. -/
structure FlatHashMap (KeyT V : Type) where
  keys : Nat → KeyT
  values : Nat → Option V
  size : UInt64

namespace FlatHashMap

variable {KeyT V : Type} [DecidableEq KeyT] (L : MapLayout KeyT)

/-- The constructor: every slot is empty. -/
def empty : FlatHashMap KeyT V :=
  ⟨fun _ => L.kEmpty, fun _ => none, 0⟩

/-- The slot where the search for `k` starts, `hash(k) & mask`. -/
def home (k : KeyT) : Nat :=
  (L.hash k).toNat &&& (L.kCapacity - 1)

/-- The probe loop: the first slot from `i` on that is empty or holds `k`, within `probes` slots. -/
def probe (m : FlatHashMap KeyT V) (k : KeyT) : Nat → Nat → Option Nat
  | 0, _ => none
  | probes + 1, i =>
      if m.keys i = L.kEmpty then some i
      else if m.keys i = k then some i
      else probe m k probes ((i + 1) &&& (L.kCapacity - 1))

/-- The slot at which `insert`, `find` and `erase` stop probing for `k`. -/
def seek (m : FlatHashMap KeyT V) (k : KeyT) : Option Nat :=
  m.probe L k L.kCapacity (home L k)

/-- Writes a key and a value into slot `i`. -/
def write (m : FlatHashMap KeyT V) (i : Nat) (k : KeyT) (v : Option V) : FlatHashMap KeyT V :=
  { m with keys := Function.update m.keys i k, values := Function.update m.values i v }

/-- Returns `true` when the key was new. A full table without the key is left alone, which the
source guards with an assertion. -/
def insert (m : FlatHashMap KeyT V) (k : KeyT) (v : Option V) : FlatHashMap KeyT V × Bool :=
  match m.seek L k with
  | some i =>
      if m.keys i = L.kEmpty then ({ m.write i k v with size := m.size + 1 }, true)
      else ({ m with values := Function.update m.values i v }, false)
  | none => (m, false)

/-- Returns `nullptr` if the key is not found. -/
def find (m : FlatHashMap KeyT V) (k : KeyT) : Option V :=
  match m.seek L k with
  | some i => if m.keys i = L.kEmpty then none else m.values i
  | none => none

/-- Empties slot `i`. -/
def vacate (m : FlatHashMap KeyT V) (i : Nat) : FlatHashMap KeyT V :=
  { m.write i L.kEmpty none with size := m.size - 1 }

/-- The repair loop of `erase`: as long as slot `j` holds a key, that key is taken out and inserted
again. `repair_exits` shows that `repairFuel` rounds are enough. -/
def repair : Nat → Nat → FlatHashMap KeyT V → FlatHashMap KeyT V
  | 0, _, m => m
  | fuel + 1, j, m =>
      if m.keys j = L.kEmpty then m
      else
        repair fuel ((j + 1) &&& (L.kCapacity - 1))
          ((m.vacate L j).insert L (m.keys j) (m.values j)).1

/-- A bound on the rounds of one repair. -/
def repairFuel : Nat :=
  L.kCapacity * L.kCapacity * L.kCapacity + L.kCapacity

/-- Removes a key and repairs the probe chain behind it. -/
def erase (m : FlatHashMap KeyT V) (k : KeyT) : FlatHashMap KeyT V :=
  match m.seek L k with
  | some i =>
      if m.keys i = L.kEmpty then m
      else repair L (repairFuel L) ((i + 1) &&& (L.kCapacity - 1)) (m.vacate L i)
  | none => m

/-- The runs of the repair loop from slot `j` that come to an end, without a bound on the rounds. -/
inductive Repairs : Nat → FlatHashMap KeyT V → FlatHashMap KeyT V → Prop where
  | done {j : Nat} {m : FlatHashMap KeyT V} (hempty : m.keys j = L.kEmpty) : Repairs j m m
  | round {j : Nat} {m m' : FlatHashMap KeyT V} (hkey : m.keys j ≠ L.kEmpty)
      (hrest : Repairs ((j + 1) &&& (L.kCapacity - 1))
        ((m.vacate L j).insert L (m.keys j) (m.values j)).1 m') : Repairs j m m'

/-- `erase` returns with the table `m'`. -/
def Erases (m : FlatHashMap KeyT V) (k : KeyT) (m' : FlatHashMap KeyT V) : Prop :=
  match m.seek L k with
  | some i =>
      if m.keys i = L.kEmpty then m' = m
      else Repairs L ((i + 1) &&& (L.kCapacity - 1)) (m.vacate L i) m'
  | none => m' = m

/-- The pairs that `for_each` visits, in order. -/
def forEach (m : FlatHashMap KeyT V) : List (KeyT × Option V) :=
  (List.range L.kCapacity).filterMap fun i =>
    if m.keys i = L.kEmpty then none else some (m.keys i, m.values i)

/-- Empties every slot. -/
def clear (_m : FlatHashMap KeyT V) : FlatHashMap KeyT V :=
  empty L

/-! ## Where a search ends -/

variable {L} {m : FlatHashMap KeyT V} {k : KeyT} {v : Option V} {i z d : Nat}

/-- The table that probing works on: the key in each slot. -/
def slots (L : MapLayout KeyT) (m : FlatHashMap KeyT V) : Table KeyT :=
  fun i => if m.keys i = L.kEmpty then none else some (m.keys i)

/-- A slot is free when it holds the empty key. -/
theorem slots_eq_none : m.slots L i = none ↔ m.keys i = L.kEmpty := by
  simp [slots]

/-- A slot in use holds its key. -/
theorem slots_eq_some : m.slots L i = some k ↔ m.keys i = k ∧ k ≠ L.kEmpty := by
  unfold slots
  split
  · next h => simp only [reduceCtorEq, false_iff, not_and, not_not]; rintro rfl; exact h
  · next h =>
      simp only [Option.some.injEq]
      exact ⟨fun he => ⟨he, he ▸ h⟩, fun he => he.1⟩

omit [DecidableEq KeyT] in

/-- The hash of a key is taken into the table. -/
theorem home_lt (k : KeyT) : home L k < L.kCapacity := by
  have hpos : 0 < 2 ^ L.bits := Nat.two_pow_pos _
  rw [home, L.capacity_eq, Nat.and_two_pow_sub_one_eq_mod]
  exact Nat.mod_lt _ hpos

omit [DecidableEq KeyT] in

/-- The capacity is a power of two, so there is a slot. -/
theorem capacity_pos : 0 < L.kCapacity := by
  rw [L.capacity_eq]; exact Nat.two_pow_pos _

omit [DecidableEq KeyT] in

/-- The mask moves the probe on by one slot, around the end of the table. -/
theorem next_slot (hi : i < L.kCapacity) :
    (i + 1) &&& (L.kCapacity - 1) = advance L.kCapacity i 1 := by
  rw [L.capacity_eq] at hi ⊢
  exact succ_and_mask hi

/-- The probe loop stops at the first slot, `d` places from home, that is empty or holds the key. -/
theorem probe_stops (hd : d < L.kCapacity)
    (hpass : ∀ e < d, m.keys (advance L.kCapacity (home L k) e) ≠ L.kEmpty ∧
      m.keys (advance L.kCapacity (home L k) e) ≠ k)
    (hstop : m.keys (advance L.kCapacity (home L k) d) = L.kEmpty ∨
      m.keys (advance L.kCapacity (home L k) d) = k)
    (c rest : Nat) (hc : c + rest = d) :
    m.probe L k (L.kCapacity - c) (advance L.kCapacity (home L k) c) =
      some (advance L.kCapacity (home L k) d) := by
  induction rest generalizing c with
  | zero =>
      obtain rfl : c = d := by omega
      rw [show L.kCapacity - c = L.kCapacity - c - 1 + 1 by omega, probe]
      split
      · rfl
      · next hne => rw [if_pos (hstop.resolve_left hne)]
  | succ rest ih =>
      obtain ⟨hempty, hkey⟩ := hpass c (by omega)
      rw [show L.kCapacity - c = L.kCapacity - (c + 1) + 1 by omega, probe, if_neg hempty,
        if_neg hkey, next_slot (advance_lt (home_lt k) (by omega)),
        advance_advance (home_lt k) (by omega)]
      exact ih (c + 1) (by omega)

/-- The probe of a key ends at the first slot that is free or holds the key. -/
theorem seek_stops (hd : d < L.kCapacity)
    (hpass : ∀ e < d, m.keys (advance L.kCapacity (home L k) e) ≠ L.kEmpty ∧
      m.keys (advance L.kCapacity (home L k) e) ≠ k)
    (hstop : m.keys (advance L.kCapacity (home L k) d) = L.kEmpty ∨
      m.keys (advance L.kCapacity (home L k) d) = k) :
    m.seek L k = some (advance L.kCapacity (home L k) d) := by
  have h := probe_stops hd hpass hstop 0 d (by omega)
  rwa [advance_zero (home_lt k), Nat.sub_zero] at h

/-- A present key is found at the slot that holds it. -/
theorem seek_hit (hd : Distinct L.kCapacity (m.slots L)) (hi : i < L.kCapacity)
    (hk : m.slots L i = some k) (hreach : Reaches L.kCapacity (home L) (m.slots L) k i) :
    m.seek L k = some i := by
  have hdist := distance_lt (home_lt k) hi
  have hat := advance_distance (home_lt k) hi
  have h := seek_stops (m := m) (k := k) hdist ?_ (Or.inr ?_)
  · rwa [hat] at h
  · intro e he
    refine ⟨fun hempty => hreach e he (slots_eq_none.mpr hempty), fun hkey => ?_⟩
    have hslot : m.slots L (advance L.kCapacity (home L k) e) = some k :=
      slots_eq_some.mpr ⟨hkey, (slots_eq_some.mp hk).2⟩
    have hsame := hd _ (advance_lt (home_lt k) (he.trans hdist).le) i hi k hslot hk
    have hback := distance_advance (home_lt k) (he.trans hdist)
    rw [hsame] at hback
    omega
  · rw [hat]; exact (slots_eq_some.mp hk).1

/-- A key that is not in the table leads to the first empty slot from its home. -/
theorem seek_free (hnew : ∀ i < L.kCapacity, m.slots L i ≠ some k)
    (hroom : ∃ i < L.kCapacity, m.slots L i = none) :
    ∃ z < L.kCapacity, m.seek L k = some z ∧ m.keys z = L.kEmpty ∧
      Reaches L.kCapacity (home L) (m.slots L) k z := by
  obtain ⟨d, hd, hrun, hfree⟩ := exists_first_empty (home_lt k) hroom
  refine ⟨advance L.kCapacity (home L k) d, advance_lt (home_lt k) hd.le, ?_,
    slots_eq_none.mp hfree, by rwa [Reaches, distance_advance (home_lt k) hd]⟩
  refine seek_stops hd (fun e he => ?_) (Or.inl (slots_eq_none.mp hfree))
  have hne : m.keys (advance L.kCapacity (home L k) e) ≠ L.kEmpty :=
    fun hempty => hrun e he (slots_eq_none.mpr hempty)
  refine ⟨hne, fun hkey => ?_⟩
  exact hnew _ (advance_lt (home_lt k) (he.trans hd).le) (slots_eq_some.mpr ⟨hkey, hkey ▸ hne⟩)

/-- Without the key, a search ends nowhere or at an empty slot. -/
theorem probe_miss (hnew : ∀ i < L.kCapacity, m.slots L i ≠ some k) (probes : Nat) {i : Nat}
    (hi : i < L.kCapacity) : ∀ z, m.probe L k probes i = some z → m.keys z = L.kEmpty := by
  induction probes generalizing i with
  | zero => simp [probe]
  | succ probes ih =>
      intro z hz
      rw [probe] at hz
      split at hz
      · next hempty => cases hz; exact hempty
      · next hne =>
          have hkey : m.keys i ≠ k := fun hkey => hnew i hi (slots_eq_some.mpr ⟨hkey, hkey ▸ hne⟩)
          rw [if_neg hkey, next_slot hi] at hz
          exact ih (advance_lt hi capacity_pos) z hz

/-! ## The finite map a table stands for -/

/-- The table stands for the finite map `f`: a search finds exactly the keys of `f`, with their
values. -/
structure Represents (L : MapLayout KeyT) (m : FlatHashMap KeyT V)
    (f : KeyT → Option (Option V)) : Prop where
  valid : Valid L.kCapacity (home L) (m.slots L)
  content : ∀ k v, f k = some v ↔ ∃ i < L.kCapacity, m.slots L i = some k ∧ m.values i = v

variable {f : KeyT → Option (Option V)}

/-- An empty table represents the map without keys. -/
theorem Represents.empty : Represents L (empty L : FlatHashMap KeyT V) fun _ => none := by
  have hslots : ∀ i, (FlatHashMap.empty L : FlatHashMap KeyT V).slots L i = none := fun i =>
    slots_eq_none.mpr rfl
  refine ⟨⟨fun i _ j _ k hk => ?_, fun i _ k hk => ?_⟩, fun k v => ?_⟩ <;> simp_all

/-- A key outside the map is in no slot. -/
theorem Represents.absent (h : Represents L m f) (hk : f k = none) :
    ∀ i < L.kCapacity, m.slots L i ≠ some k := by
  intro i hi hslot
  have := (h.content k (m.values i)).mpr ⟨i, hi, hslot, rfl⟩
  rw [hk] at this
  cases this

/-- `find` returns the value of a present key, and `nullptr` for an absent one. -/
theorem Represents.find_eq (h : Represents L m f) (k : KeyT) : m.find L k = (f k).join := by
  cases hf : f k with
  | none =>
      unfold find
      cases hs : m.seek L k with
      | none => rfl
      | some z => simp [probe_miss (h.absent hf) _ (home_lt k) z hs]
  | some v =>
      obtain ⟨i, hi, hslot, hv⟩ := (h.content _ _).mp hf
      have hne : m.keys i ≠ L.kEmpty := by
        obtain ⟨hkey, hne⟩ := slots_eq_some.mp hslot
        exact fun he => hne (hkey ▸ he)
      simp [find, seek_hit h.valid.distinct hi hslot (h.valid.reaches i hi k hslot), hne, hv]

end FlatHashMap
end ItchParser
