import Mathlib.Algebra.BigOperators.Group.List.Basic
import Mathlib.Algebra.Order.Group.Multiset
import Mathlib.Data.List.AList
import Mathlib.Data.Multiset.Count
import Mathlib.Data.Multiset.UnionInter
import ItchParser.Lib.Machine

/-!
# Custody of resources

A system hands out resources and takes them back. Its world is what it has handed out, and the
number of faults: releases of what is not held, and uses that nothing held allows. A triple says
what a list of events does to the resources that it is about, whatever else is held, so triples
compose, and a program that keeps its resources in objects can be checked one object at a time.
-/

namespace Custody

open Machine

/-- What a program does with the resources `R`. -/
inductive Event (R : Type*) where
  | acquire (r : R)
  | release (r : R)
  /-- A use that needs a resource with the property `p`. -/
  | use (p : R → Bool)

/-- The resources that are handed out, and the events that had no right to theirs. -/
structure World (R : Type*) where
  held : Multiset R
  faults : Nat

section

variable {R : Type*} [DecidableEq R]

/-- A release or a use of what is not held is a fault. -/
def World.step (w : World R) : Event R → World R
  | .acquire r => { w with held := r ::ₘ w.held }
  | .release r =>
      if r ∈ w.held then { w with held := w.held.erase r } else { w with faults := w.faults + 1 }
  | .use p =>
      if 0 < w.held.countP (fun r => p r = true) then w
      else { w with faults := w.faults + 1 }

/-! ## Triples -/

/-- The events turn the resources `pre` into `post` without a fault, whatever else is held. -/
def Triple (pre : Multiset R) (events : List (Event R)) (post : Multiset R) : Prop :=
  ∀ (w : World R) (rest : Multiset R), w.held = pre + rest →
    run World.step w events = ⟨post + rest, w.faults⟩

variable {pre mid post : Multiset R} {events events' : List (Event R)} {r : R}

/-- No event, no change of hands. -/
theorem Triple.nil (pre : Multiset R) : Triple pre [] pre := by
  intro w rest h
  rw [run_nil, ← h]

/-- What is acquired is held afterwards. -/
theorem Triple.acquire (r : R) : Triple 0 [.acquire r] {r} := by
  intro w rest h
  rw [zero_add] at h
  rw [run_cons, run_nil, World.step, h]
  rfl

/-- What is released was held and is gone. -/
theorem Triple.release (r : R) : Triple {r} [.release r] 0 := by
  intro w rest h
  have hmem : r ∈ w.held := by
    rw [h]
    exact Multiset.mem_add.mpr (.inl (Multiset.mem_singleton_self r))
  rw [run_cons, run_nil, World.step, if_pos hmem, h, zero_add, Multiset.singleton_add,
    Multiset.erase_cons_head]

/-- Using a resource that is held leaves the custody alone. -/
theorem Triple.use {p : R → Bool} (hr : r ∈ pre) (hp : p r = true) :
    Triple pre [.use p] pre := by
  intro w rest h
  have hpos : 0 < w.held.countP (fun r => p r = true) := by
    rw [h]
    exact Multiset.countP_pos.mpr ⟨r, Multiset.mem_add.mpr (.inl hr), hp⟩
  rw [run_cons, run_nil, World.step, if_pos hpos, ← h]

/-- Triples compose along the events. -/
theorem Triple.append (h : Triple pre events mid) (h' : Triple mid events' post) :
    Triple pre (events ++ events') post := by
  intro w rest hw
  rw [run_append, h w rest hw]
  exact h' ⟨mid + rest, w.faults⟩ rest rfl

/-- What a triple is not about stays. -/
theorem Triple.frame (h : Triple pre events post) (other : Multiset R) :
    Triple (pre + other) events (post + other) := by
  intro w rest hw
  rw [add_assoc] at hw ⊢
  exact h w (other + rest) hw

/-- A list of uses that the resources allow. -/
theorem Triple.uses (h : ∀ event ∈ events, ∃ p r, event = .use p ∧ r ∈ pre ∧ p r = true) :
    Triple pre events pre := by
  induction events with
  | nil => exact Triple.nil pre
  | cons event events ih =>
      obtain ⟨p, r, rfl, hr, hp⟩ := h event List.mem_cons_self
      exact (Triple.use hr hp).append (ih fun e he => h e (List.mem_cons_of_mem _ he))

end

/-! ## Objects that own resources -/

section Owners

variable {R N O : Type*} [DecidableEq N] {objects : AList fun _ : N => O} {x : N} {o o' : O}

/-- What all objects own together. -/
def total (owned : O → Multiset R) (objects : AList fun _ : N => O) : Multiset R :=
  (objects.entries.map fun entry => owned entry.2).sum

variable {owned : O → Multiset R}

/-- The total with one more object, which may replace another. -/
theorem total_insert : total owned (objects.insert x o) =
    owned o + total owned (objects.erase x) := by
  unfold total
  rw [AList.entries_insert, List.map_cons, List.sum_cons]
  rfl

/-- The total with a new object. -/
theorem total_insert_of_notMem (h : x ∉ objects) :
    total owned (objects.insert x o) = owned o + total owned objects := by
  unfold total
  rw [AList.entries_insert_of_notMem h, List.map_cons, List.sum_cons]

/-- What an object owns is a part of what all own. -/
theorem total_of_lookup (owned : O → Multiset R) (h : objects.lookup x = some o) :
    total owned objects = owned o + total owned (objects.erase x) := by
  have hmem : x ∈ objects.entries.keys :=
    AList.mem_keys.mp (AList.lookup_isSome.mp (by rw [h]; rfl))
  obtain ⟨o', l, r, -, hsplit, herase⟩ := List.exists_of_kerase hmem
  have hentry : (⟨x, o⟩ : Sigma fun _ : N => O) ∈ objects.entries := AList.mem_lookup_iff.mp h
  have hentry' : (⟨x, o'⟩ : Sigma fun _ : N => O) ∈ objects.entries := by
    rw [hsplit]
    exact List.mem_append_right _ List.mem_cons_self
  obtain rfl := objects.nodupKeys.eq_of_mk_mem hentry hentry'
  unfold total
  rw [show (objects.erase x).entries = l ++ r from herase, hsplit]
  simp only [List.map_append, List.map_cons, List.sum_append, List.sum_cons]
  exact add_left_comm _ _ _

/-- What the objects own together is owned by one of them. -/
theorem mem_total {r : R} :
    r ∈ total owned objects ↔ ∃ x o, objects.lookup x = some o ∧ r ∈ owned o := by
  have hsum : ∀ entries : List (Sigma fun _ : N => O),
      r ∈ (entries.map fun entry => owned entry.2).sum ↔ ∃ entry ∈ entries, r ∈ owned entry.2 := by
    intro entries
    induction entries with
    | nil => simp
    | cons entry entries ih => simp [ih]
  rw [total, hsum]
  constructor
  · rintro ⟨⟨x, o⟩, hentry, hr⟩
    exact ⟨x, o, AList.mem_lookup_iff.mpr hentry, hr⟩
  · rintro ⟨x, o, hlookup, hr⟩
    exact ⟨⟨x, o⟩, AList.mem_lookup_iff.mp hlookup, hr⟩

/-- When nothing is held twice, a resource has one owner. -/
theorem owner_unique (h : (total owned objects).Nodup) {r : R} {y : N}
    (hx : objects.lookup x = some o) (hr : r ∈ owned o) (hy : objects.lookup y = some o')
    (hr' : r ∈ owned o') : x = y := by
  by_contra hne
  rw [total_of_lookup _ hx, Multiset.nodup_add] at h
  refine Multiset.disjoint_left.mp h.2.2 hr (mem_total.mpr ⟨y, o', ?_, hr'⟩)
  rw [AList.lookup_erase_ne (Ne.symm hne)]
  exact hy

end Owners
end Custody
