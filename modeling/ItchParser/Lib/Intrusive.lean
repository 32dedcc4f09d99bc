import Mathlib.Data.List.Nodup
import Mathlib.Logic.Function.Basic

/-!
# Intrusive linked lists

Lists threaded through link functions on an arbitrary address type. `walk` is the traversal loop,
`Chain` says a singly linked list ends and visits the given nodes, and `Linked` says the nodes form
a doubly linked list. `Linked.insert` and `Linked.remove` are the two rules a client needs: they
take the link functions after the update as hypotheses, so they apply to any representation of the
nodes.
-/

namespace Intrusive

variable {α : Type*}

/-- The nodes visited from `cursor` by following `next`, stopping after `fuel` nodes. -/
def walk (next : α → Option α) : Nat → Option α → List α
  | 0, _ => []
  | _ + 1, none => []
  | fuel + 1, some a => a :: walk next fuel (next a)

/-- The singly linked list that starts at `cursor` ends, and its nodes are `xs` in order. -/
def Chain (next : α → Option α) : Option α → List α → Prop
  | cursor, [] => cursor = none
  | cursor, a :: xs => cursor = some a ∧ Chain next (next a) xs

/-- Taking one node out of a list without duplicates. -/
theorem length_filter_ne [DecidableEq α] {xs : List α} {x : α} (hnodup : xs.Nodup) (hx : x ∈ xs) :
    (xs.filter fun y => y ≠ x).length + 1 = xs.length := by
  have hfilter : (xs.filter fun y => y ≠ x) = xs.erase x := by
    rw [hnodup.erase_eq_filter]
    exact List.filter_congr fun y _ => by rw [Bool.eq_iff_iff]; simp
  rw [hfilter]
  exact List.length_erase_add_one hx

variable {next prev next' prev' : α → Option α} {cursor : Option α} {xs l r : List α} {x : α}

@[simp] theorem walk_none (fuel : Nat) : walk next fuel none = [] := by
  cases fuel <;> rfl

/-- A chain starts at its first node. -/
theorem Chain.cursor_eq (h : Chain next cursor xs) : cursor = xs.head? := by
  cases xs with
  | nil => exact h
  | cons a xs => exact h.1

/-- A chain depends only on the links of its own nodes. -/
theorem Chain.congr (h : Chain next cursor xs) (hn : ∀ a ∈ xs, next' a = next a) :
    Chain next' cursor xs := by
  induction xs generalizing cursor with
  | nil => exact h
  | cons a xs ih =>
      refine ⟨h.1, ?_⟩
      rw [hn a (by simp)]
      exact ih h.2 fun b hb => hn b (by simp [hb])

/-- With enough fuel the traversal of a chain visits exactly its nodes. -/
theorem Chain.walk_eq (h : Chain next cursor xs) {fuel : Nat} (hfuel : xs.length ≤ fuel) :
    walk next fuel cursor = xs := by
  induction xs generalizing cursor fuel with
  | nil => rw [show cursor = none from h, walk_none]
  | cons a xs ih =>
      obtain ⟨rfl, hrest⟩ := h
      cases fuel with
      | zero => simp at hfuel
      | succ fuel =>
          rw [walk, ih hrest (by simpa using hfuel)]

/-- Following `next` from any node of `xs` leads to the node after it. -/
def Follows (next : α → Option α) (xs : List α) : Prop :=
  ∀ l x r, xs = l ++ x :: r → next x = r.head?

/-- Consecutive links from the head make a chain. -/
theorem Follows.chain (h : Follows next xs) : Chain next xs.head? xs := by
  induction xs with
  | nil => rfl
  | cons a xs ih =>
      refine ⟨rfl, ?_⟩
      rw [h [] a xs rfl]
      exact ih fun l x r hx => h (a :: l) x r (by simp [hx])

/-- Links that agree on the nodes follow the same nodes. -/
theorem Follows.congr (h : Follows next xs) (hn : ∀ a ∈ xs, next' a = next a) :
    Follows next' xs := by
  intro l x r hx
  rw [hn x (by simp [hx])]
  exact h l x r hx

/-- The last node of the first part is not a node of the second part. -/
theorem getLast?_ne_of_mem_right (hnodup : (l ++ r).Nodup) (hx : x ∈ r) :
    l.getLast? ≠ some x := by
  intro hlast
  exact (List.nodup_append.mp hnodup).2.2 x (List.mem_of_getLast? hlast) x hx rfl

/-- The nodes `xs` form a doubly linked list under `next` and `prev`. -/
structure Linked (next prev : α → Option α) (xs : List α) : Prop where
  nodup : xs.Nodup
  forward : Follows next xs
  backward : Follows prev xs.reverse

/-- The empty list is linked by anything. -/
theorem Linked.nil : Linked next prev [] :=
  ⟨List.nodup_nil, by simp [Follows], by simp [Follows]⟩

/-- The forward link of a node is the head of what follows it. -/
theorem Linked.next_eq (h : Linked next prev (l ++ x :: r)) : next x = r.head? :=
  h.forward l x r rfl

/-- The backward link of a node is the last node before it. -/
theorem Linked.prev_eq (h : Linked next prev (l ++ x :: r)) : prev x = l.getLast? := by
  rw [h.backward r.reverse x l.reverse (by simp), List.head?_reverse]

/-- A doubly linked list depends only on the links of its own nodes. -/
theorem Linked.congr (h : Linked next prev xs)
    (hlinks : ∀ a ∈ xs, next' a = next a ∧ prev' a = prev a) : Linked next' prev' xs :=
  ⟨h.nodup, h.forward.congr fun a ha => (hlinks a ha).1,
    h.backward.congr fun a ha => (hlinks a (by simpa using ha)).2⟩

/-- The forward traversal of a doubly linked list visits its nodes. -/
theorem Linked.walk_eq (h : Linked next prev xs) {fuel : Nat} (hfuel : xs.length ≤ fuel) :
    walk next fuel xs.head? = xs :=
  h.forward.chain.walk_eq hfuel

variable [DecidableEq α]

/-- Putting `x` between `l` and `r` keeps the forward links when `x` points into `r` and the last
node of `l` points to `x`. -/
theorem Follows.insert (h : Follows next (l ++ r)) (hnodup : (l ++ r).Nodup)
    (hx : next' x = r.head?)
    (hn : ∀ y ∈ l ++ r, next' y = if l.getLast? = some y then some x else next y) :
    Follows next' (l ++ x :: r) := by
  intro l' y r' heq
  rcases List.append_eq_append_iff.mp heq with ⟨mid, rfl, hmid⟩ | ⟨mid, rfl, hmid⟩
  · cases mid with
    | nil =>
        obtain ⟨rfl, rfl⟩ : x = y ∧ r = r' := by simpa using hmid
        exact hx
    | cons z mid =>
        obtain ⟨rfl, rfl⟩ : x = z ∧ r = mid ++ y :: r' := by simpa using hmid
        rw [hn y (by simp), if_neg (getLast?_ne_of_mem_right hnodup (by simp))]
        exact h (l ++ mid) y r' (by simp)
  · cases mid with
    | nil =>
        obtain ⟨rfl, rfl⟩ : y = x ∧ r' = r := by simpa using hmid
        exact hx
    | cons z mid =>
        obtain ⟨rfl, rfl⟩ : y = z ∧ r' = mid ++ x :: r := by simpa using hmid
        rw [hn y (by simp)]
        cases mid with
        | nil => simp
        | cons w mid =>
            -- `y` is not the last node of `l`, because `w` comes after it
            have hne : (l' ++ y :: w :: mid).getLast? ≠ some y := by
              intro hlast
              have hmem : y ∈ w :: mid := by
                rw [List.getLast?_append_cons, List.getLast?_cons_cons] at hlast
                exact List.mem_of_getLast? hlast
              simp_all [List.nodup_append]
            rw [if_neg hne]
            exact h l' y (w :: mid ++ r) (by simp)

/-- Taking `x` out from between `l` and `r` keeps the forward links when the last node of `l` now
points into `r`. -/
theorem Follows.remove (h : Follows next (l ++ x :: r)) (hnodup : (l ++ x :: r).Nodup)
    (hn : ∀ y ∈ l ++ r, next' y = if l.getLast? = some y then r.head? else next y) :
    Follows next' (l ++ r) := by
  intro l' y r' heq
  rcases List.append_eq_append_iff.mp heq with ⟨mid, rfl, hmid⟩ | ⟨mid, rfl, hmid⟩
  · subst hmid
    have hne : l.getLast? ≠ some y := getLast?_ne_of_mem_right hnodup (by simp)
    rw [hn y (by simp), if_neg hne]
    exact h (l ++ x :: mid) y r' (by simp)
  · cases mid with
    | nil =>
        obtain rfl : y :: r' = r := by simpa using hmid
        have hne : l'.getLast? ≠ some y :=
          getLast?_ne_of_mem_right (r := x :: y :: r') (by simpa using hnodup) (by simp)
        rw [hn y (by simp), if_neg (by simpa using hne)]
        exact h (l' ++ [x]) y r' (by simp)
    | cons z mid =>
        obtain ⟨rfl, rfl⟩ : y = z ∧ r' = mid ++ r := by simpa using hmid
        rw [hn y (by simp)]
        cases mid with
        | nil => simp
        | cons w mid =>
            have hne : (l' ++ y :: w :: mid).getLast? ≠ some y := by
              intro hlast
              have hmem : y ∈ w :: mid := by
                rw [List.getLast?_append_cons, List.getLast?_cons_cons] at hlast
                exact List.mem_of_getLast? hlast
              simp_all [List.nodup_append]
            rw [if_neg hne]
            exact h l' y (w :: mid ++ x :: r) (by simp)

/-- Linking a fresh node between `l` and `r`. -/
theorem Linked.insert (h : Linked next prev (l ++ r)) (hfresh : x ∉ l ++ r)
    (hnx : next' x = r.head?) (hpx : prev' x = l.getLast?)
    (hn : ∀ y ∈ l ++ r, next' y = if l.getLast? = some y then some x else next y)
    (hp : ∀ y ∈ l ++ r, prev' y = if r.head? = some y then some x else prev y) :
    Linked next' prev' (l ++ x :: r) := by
  have hperm : (l ++ x :: r).Perm (x :: (l ++ r)) := List.perm_middle
  refine ⟨hperm.nodup_iff.mpr (List.nodup_cons.mpr ⟨hfresh, h.nodup⟩),
    h.forward.insert h.nodup hnx hn, ?_⟩
  have hback : Follows prev (r.reverse ++ l.reverse) := by simpa using h.backward
  rw [List.reverse_append, List.reverse_cons, List.append_assoc]
  refine hback.insert ?_ ?_ ?_
  · simpa using List.nodup_reverse.mpr h.nodup
  · simpa using hpx
  · intro y hy
    rw [hp y (by simpa [or_comm] using hy), List.getLast?_reverse]

/-- Unlinking the node between `l` and `r`. -/
theorem Linked.remove (h : Linked next prev (l ++ x :: r))
    (hn : ∀ y ∈ l ++ r, next' y = if l.getLast? = some y then r.head? else next y)
    (hp : ∀ y ∈ l ++ r, prev' y = if r.head? = some y then l.getLast? else prev y) :
    Linked next' prev' (l ++ r) := by
  have hperm : (l ++ x :: r).Perm (x :: (l ++ r)) := List.perm_middle
  refine ⟨(List.nodup_cons.mp (hperm.nodup_iff.mp h.nodup)).2,
    h.forward.remove h.nodup hn, ?_⟩
  have hback : Follows prev (r.reverse ++ x :: l.reverse) := by simpa using h.backward
  rw [List.reverse_append]
  refine hback.remove ?_ ?_
  · simpa using List.nodup_reverse.mpr h.nodup
  · intro y hy
    rw [hp y (by simpa [or_comm] using hy), List.getLast?_reverse, List.head?_reverse]

end Intrusive
