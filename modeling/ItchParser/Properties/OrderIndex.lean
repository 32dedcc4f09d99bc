import Mathlib.Data.Finmap
import ItchParser.DirectOrderIndex
import ItchParser.Lib.Machine

/-!
# The order index as a finite map

An index should stand for a finite map from ids to orders. It does as long as no id is inserted that
the overflow map holds while its array slot is empty: `insert` does not look into the overflow map
then, and the id is present twice.

The orders are in memory that changes during a run. An order keeps its id while it is indexed.
-/

namespace ItchParser.DirectOrderIndex

open Machine

/-- The finite map that an index should stand for. -/
abbrev Entries := Finmap fun _ : OrderReferenceNumber => Ptr

/-- An index with the order memory, and the finite map of the calls so far. -/
structure Tracked where
  index : DirectOrderIndex
  orders : Ptr → Order
  entries : Entries

/-- A call of the index, or a write to the memory of an order. -/
inductive IndexCall where
  | write (p : Ptr) (order : Order)
  | insert (id : OrderReferenceNumber) (o : Ptr)
  | erase (id : OrderReferenceNumber)
  | clear

namespace Tracked

/-- A new index, whatever the order memory holds. -/
def start (orders : Ptr → Order) : Tracked :=
  ⟨create, orders, ∅⟩

/-- What a call does to the index, and what it should do to the finite map. -/
def step (t : Tracked) : IndexCall → Tracked
  | .write p order => { t with orders := Function.update t.orders p order }
  | .insert id o =>
      { t with
        index := (t.index.insert t.orders id o).1
        entries := if id ∈ t.entries then t.entries else t.entries.insert id o }
  | .erase id => { t with index := (t.index.erase t.orders id).1, entries := t.entries.erase id }
  | .clear => { t with index := t.index.clear, entries := ∅ }

/-- An order is inserted under its own id, and keeps it while it is indexed. -/
def Legal (t : Tracked) : IndexCall → Prop
  | .write p order => ∀ id ∈ t.entries.keys, t.entries.lookup id = some p → order.orderId = id
  | .insert id o => (t.orders o).orderId = id
  | _ => True

/-- The index finds what the finite map holds, and counts it. -/
structure Agrees (t : Tracked) : Prop where
  find : ∀ id, t.index.find t.orders id = t.entries.lookup id
  size : t.index.count.toNat = t.entries.keys.card

/-- The call returns what it should. -/
def Returns (t : Tracked) : IndexCall → Prop
  | .insert id o =>
      ((t.index.insert t.orders id o).2 = false ↔ id ∈ t.entries) ∧
        (id ∈ t.entries → (t.index.insert t.orders id o).1 = t.index)
  | .erase id => (t.index.erase t.orders id).2 = true ↔ id ∈ t.entries
  | _ => True

/-- The call does what it should: the index agrees with the finite map before and after it. -/
structure Conforms (t : Tracked) (c : IndexCall) : Prop where
  before : t.Agrees
  returns : t.Returns c
  after : (t.step c).Agrees

/-- The call inserts an id that the overflow map holds while its array slot is empty. -/
def Collides (t : Tracked) : IndexCall → Prop
  | .insert id _ => t.index.Hidden id
  | _ => False

variable {t : Tracked} {c : IndexCall} {id : OrderReferenceNumber} {o : Ptr}

/-! ## Runs without collisions -/

/-- The index holds each of the orders `live` once, and they are the entries of the map. -/
structure Holds (t : Tracked) (live : List Ptr) : Prop where
  represents : t.index.Represents t.orders live
  entries : ∀ id p, t.entries.lookup id = some p ↔ p ∈ live ∧ (t.orders p).orderId = id

variable {live : List Ptr}

/-- An index that holds the live orders agrees with the entries. -/
theorem Holds.agrees (h : t.Holds live) : t.Agrees := by
  refine ⟨fun id => Option.ext fun p => h.represents.find_some.trans (h.entries id p).symm, ?_⟩
  have hkeys : t.entries.keys = (live.map fun p => (t.orders p).orderId).toFinset := by
    ext id
    rw [Finmap.mem_keys, Finmap.mem_iff, List.mem_toFinset, List.mem_map]
    exact exists_congr fun p => h.entries id p
  have hlen : live.length ≤ maxNodes := length_le_maxNodes (h.represents.distinct.of_map _)
  rw [hkeys, List.toFinset_card_of_nodup h.represents.distinct, List.length_map,
    h.represents.count_eq, UInt64.toNat_ofNat_of_lt' (hlen.trans_lt (by decide))]

/-- The entries are the ids that are found. -/
theorem Holds.mem_iff (h : t.Holds live) : id ∈ t.entries ↔ (t.index.find t.orders id).isSome := by
  rw [h.agrees.find, Finmap.lookup_isSome]

/-- A new index holds nothing. -/
theorem holds_start (orders : Ptr → Order) : (start orders).Holds [] :=
  ⟨create_represents orders, fun id p => by simp [start]⟩

/-- Writing an order that is not in the index. -/
theorem Holds.write (h : t.Holds live) {p : Ptr} {order : Order}
    (hlegal : t.Legal (.write p order)) : (t.step (.write p order)).Holds live := by
  have hid : ∀ q ∈ live, (Function.update t.orders p order q).orderId = (t.orders q).orderId := by
    intro q hq
    by_cases hqp : q = p
    · subst hqp
      have hentry := (h.entries _ q).mpr ⟨hq, rfl⟩
      rw [Function.update_self]
      exact hlegal _ (Finmap.mem_keys.mpr (Finmap.mem_of_lookup_eq_some hentry)) hentry
    · rw [Function.update_of_ne hqp]
  refine ⟨h.represents.congr hid, fun id q => (h.entries id q).trans (and_congr_right fun hq => ?_)⟩
  show _ ↔ (Function.update t.orders p order q).orderId = id
  rw [hid q hq]

/-- An insert that does not collide. -/
theorem Holds.insert (h : t.Holds live) (hlegal : t.Legal (.insert id o))
    (hfree : ¬ t.index.Hidden id) :
    t.Returns (.insert id o) ∧ ∃ live', (t.step (.insert id o)).Holds live' := by
  by_cases hmem : id ∈ t.entries
  · have hsame : t.index.insert t.orders id o = (t.index, false) :=
      insert_found (h.mem_iff.mp hmem) hfree
    refine ⟨⟨by simp [hsame, hmem], fun _ => by rw [hsame]⟩, live, ?_, ?_⟩
    · show (t.index.insert t.orders id o).1.Represents t.orders live
      rw [hsame]
      exact h.represents
    · simp only [step, if_pos hmem]
      exact h.entries
  · have hfresh : ∀ q ∈ live, (t.orders q).orderId ≠ id := h.represents.find_none.mp <| by
      rwa [h.mem_iff, Option.not_isSome_iff_eq_none] at hmem
    obtain ⟨hres, hrep⟩ := h.represents.insert hlegal hfresh
    refine ⟨⟨by simp [hres, hmem], fun hc => absurd hc hmem⟩, live ++ [o], hrep, fun id' p => ?_⟩
    simp only [step, if_neg hmem]
    by_cases hid : id' = id
    · subst hid
      rw [Finmap.lookup_insert]
      simp only [Option.some.injEq, List.mem_append, List.mem_singleton]
      constructor
      · rintro rfl
        exact ⟨.inr rfl, hlegal⟩
      · rintro ⟨hp | hp, hpid⟩
        · exact absurd hpid (hfresh p hp)
        · exact hp.symm
    · rw [Finmap.lookup_insert_of_ne _ hid, h.entries]
      simp only [List.mem_append, List.mem_singleton]
      refine ⟨fun hp => ⟨.inl hp.1, hp.2⟩, fun hp => ⟨hp.1.resolve_right ?_, hp.2⟩⟩
      rintro rfl
      exact hid (hp.2.symm.trans hlegal)

/-- `erase` takes the order of an id out. -/
theorem Holds.erase (h : t.Holds live) (id : OrderReferenceNumber) :
    ∃ live', (t.step (.erase id)).Holds live' := by
  cases hfind : t.index.find t.orders id with
  | none =>
      have hlookup : t.entries.lookup id = none := by rw [← h.agrees.find, hfind]
      refine ⟨live, ?_, fun id' p => ?_⟩
      · show (t.index.erase t.orders id).1.Represents t.orders live
        rw [erase_missing hfind]
        exact h.represents
      · show (t.entries.erase id).lookup id' = some p ↔ p ∈ live ∧ (t.orders p).orderId = id'
        rw [← h.entries]
        by_cases hid : id' = id
        · rw [hid, Finmap.lookup_erase, hlookup]
        · rw [Finmap.lookup_erase_ne hid]
  | some o =>
      obtain ⟨ho, hoid⟩ := h.represents.find_some.mp hfind
      refine ⟨_, h.represents.erase ho hoid, fun id' p => ?_⟩
      show (t.entries.erase id).lookup id' = some p ↔ _ ∧ (t.orders p).orderId = id'
      simp only [List.mem_filter, decide_eq_true_eq]
      by_cases hid : id' = id
      · rw [hid, Finmap.lookup_erase]
        refine iff_of_false (by simp) fun hp => hp.1.2 ?_
        exact h.represents.eq_of_id hp.1.1 ho (hp.2.trans hoid.symm)
      · rw [Finmap.lookup_erase_ne hid, h.entries]
        refine ⟨fun hp => ⟨⟨hp.1, ?_⟩, hp.2⟩, fun hp => ⟨hp.1.1, hp.2⟩⟩
        rintro rfl
        exact hid (hp.2.symm.trans hoid)

/-- Every call that does not collide conforms. -/
theorem Holds.conforms (h : t.Holds live) (hlegal : t.Legal c) (hfree : ¬ t.Collides c) :
    t.Conforms c ∧ ∃ live', (t.step c).Holds live' := by
  have hnext : t.Returns c ∧ ∃ live', (t.step c).Holds live' := by
    cases c with
    | write p order => exact ⟨trivial, live, h.write hlegal⟩
    | insert id o => exact h.insert hlegal hfree
    | erase id => exact ⟨by rw [Returns, erase_result, h.mem_iff], h.erase id⟩
    | clear => exact ⟨trivial, [], clear_represents _ _, fun id p => by simp [step]⟩
  obtain ⟨hreturns, live', hholds⟩ := hnext
  exact ⟨⟨h.agrees, hreturns, hholds.agrees⟩, live', hholds⟩

/-- A call that conforms does not collide. -/
theorem Conforms.not_collides (h : t.Conforms c) : ¬ t.Collides c := by
  intro hcollides
  cases c with
  | insert id o =>
      obtain ⟨hfound, hinserted⟩ : (t.index.find t.orders id).isSome ∧
        (t.index.insert t.orders id o).2 = true := insert_hidden hcollides
      rw [h.before.find, Finmap.lookup_isSome] at hfound
      have hreturns := h.returns.1.mpr hfound
      rw [hinserted] at hreturns
      cases hreturns
  | _ => exact hcollides

/-- In a run that follows the rules for orders, every call does what it should if and only if no
call inserts an id that the overflow map holds while its array slot is empty. -/
theorem conforms_iff (orders : Ptr → Order) (cs : List IndexCall)
    (hlegal : Along step Legal (start orders) cs) :
    Along step Conforms (start orders) cs ↔
      Along step (fun t c => ¬ t.Collides c) (start orders) cs := by
  refine ⟨fun h => h.mono fun _ _ => Conforms.not_collides, fun h => ?_⟩
  refine ((hlegal.and h).invariant (I := fun t => ∃ live, t.Holds live)
    ⟨[], holds_start orders⟩ ?_).1
  rintro t c ⟨live, hholds⟩ ⟨hlegal, hfree⟩
  exact hholds.conforms hlegal hfree

/-- An order with the id `id`. -/
def sampleOrder (id : OrderReferenceNumber) : Order :=
  Order.create id 1 1000000 100 .buy 1 MPID.blank

/-- Two ids with the same array slot, and the first one erased. -/
def collidingCalls : List IndexCall :=
  [.write (Ptr.ofNat 0) (sampleOrder 1), .insert 1 (Ptr.ofNat 0),
    .write (Ptr.ofNat 1) (sampleOrder 33554433), .insert 33554433 (Ptr.ofNat 1), .erase 1]

instance (t : Tracked) : (c : IndexCall) → Decidable (t.Legal c)
  | .write _ _ => Finset.decidableDforallFinset
  | .insert _ _ => inferInstanceAs (Decidable (_ = _))
  | .erase _ => inferInstanceAs (Decidable True)
  | .clear => inferInstanceAs (Decidable True)

/-- An insert behind a colliding id that was erased. -/
theorem conforms_iff_sample :
    Along step Conforms (start fun _ => sampleOrder 0) collidingCalls ↔
      Along step (fun t c => ¬ t.Collides c) (start fun _ => sampleOrder 0) collidingCalls :=
  conforms_iff (fun _ => sampleOrder 0) collidingCalls (by decide +kernel)

/-- Inserting the second id again is not turned away. -/
theorem duplicate_not_conforms :
    Along step Legal (start fun _ => sampleOrder 0)
        (collidingCalls ++ [.insert 33554433 (Ptr.ofNat 1)]) ∧
      ¬ Along step Conforms (start fun _ => sampleOrder 0)
        (collidingCalls ++ [.insert 33554433 (Ptr.ofNat 1)]) := by
  refine ⟨by decide +kernel, fun h => ?_⟩
  obtain ⟨-, -, -, -, -, hlast, -⟩ := h
  have hturned := hlast.returns.1.mpr (by decide +kernel)
  revert hturned
  decide +kernel

end Tracked
end ItchParser.DirectOrderIndex
