import Mathlib.Data.List.Induction
import Mathlib.Data.List.Perm.Basic
import Mathlib.Data.List.Pairwise

/-!
# Ladders: arrivals grouped by key

A ladder is a list of groups in key order. Within a group the elements stand in order of arrival. An
arriving element joins the group with its key, or opens a new group where its key belongs. Keys may
be declared unshared: an element with such a key always opens a group of its own, in front of the
other groups with that key.

`ladder` builds the groups from the whole arrival sequence. It commutes with dropping elements
(`ladder_filter`) and with renaming them (`ladder_map`), so a client that adds and removes elements
one at a time can be compared with the arrival sequence alone.
-/

namespace Ladder

variable {α β κ : Type*}

/-- Which keys come first and which keys can be shared. -/
structure Policy (κ : Type*) where
  ahead : κ → κ → Bool
  shared : κ → Bool

/-- The keys are strictly and totally ordered. -/
structure Policy.Lawful (P : Policy κ) : Prop where
  irrefl : ∀ a, P.ahead a a = false
  trans : ∀ {a b c}, P.ahead a b = true → P.ahead b c = true → P.ahead a c = true
  total : ∀ a b, P.ahead a b = true ∨ a = b ∨ P.ahead b a = true

/-- No two keys are ahead of each other. -/
theorem Policy.Lawful.asymm {P : Policy κ} (hP : P.Lawful) {a b : κ} (h : P.ahead a b = true) :
    P.ahead b a = false := by
  cases hba : P.ahead b a with
  | false => rfl
  | true =>
      have haa := hP.trans h hba
      rw [hP.irrefl] at haa
      cases haa

/-- A key is not ahead of itself. -/
theorem Policy.Lawful.ne {P : Policy κ} (hP : P.Lawful) {a b : κ} (h : P.ahead a b = true) :
    a ≠ b := by
  rintro rfl
  rw [hP.irrefl] at h
  cases h

/-- The groups are in key order, and only unshared keys repeat. -/
def Sorted (P : Policy κ) (ls : List (κ × List α)) : Prop :=
  ls.Pairwise fun a b => P.ahead a.1 b.1 = true ∨ (a.1 = b.1 ∧ P.shared a.1 = false)

/-- No group is empty, and every group holds elements of its own key. -/
def Grouped (key : α → κ) (ls : List (κ × List α)) : Prop :=
  ∀ g ∈ ls, g.2 ≠ [] ∧ ∀ x ∈ g.2, key x = g.1

variable [DecidableEq κ] (P : Policy κ) (key : α → κ)

/-- The arrival of `x`. -/
def enqueue (x : α) : List (κ × List α) → List (κ × List α)
  | [] => [(key x, [x])]
  | (k, xs) :: rest =>
      if k = key x ∧ P.shared (key x) = true then (k, xs ++ [x]) :: rest
      else if P.ahead k (key x) then (k, xs) :: enqueue x rest
      else (key x, [x]) :: (k, xs) :: rest

/-- The ladder of a sequence of arrivals. -/
def ladder (xs : List α) : List (κ × List α) :=
  xs.foldl (fun ls x => enqueue P key x ls) []

/-- Whether `x` opens a group. -/
def opens (x : α) (ls : List (κ × List α)) : Bool :=
  !(P.shared (key x) && ls.any fun g => g.1 = key x)

/-- What one arrival does to a ladder: `join` adds to a group, `open` adds a group. -/
inductive Places (x : α) : List (κ × List α) → List (κ × List α) → Prop
  | join (l : List (κ × List α)) (xs : List α) (r : List (κ × List α))
      (shared : P.shared (key x) = true)
      (before : ∀ a ∈ l, P.ahead a.1 (key x) = true)
      (behind : ∀ a ∈ r, P.ahead a.1 (key x) = false ∧ a.1 ≠ key x) :
      Places x (l ++ (key x, xs) :: r) (l ++ (key x, xs ++ [x]) :: r)
  | «open» (l r : List (κ × List α))
      (before : ∀ a ∈ l, P.ahead a.1 (key x) = true)
      (behind : ∀ a ∈ r, P.ahead a.1 (key x) = false)
      (fresh : P.shared (key x) = true → ∀ a ∈ r, a.1 ≠ key x) :
      Places x (l ++ r) (l ++ (key x, [x]) :: r)

variable {P key} {x y : α} {ls ls' l r : List (κ × List α)} {xs : List α} {k : κ}

@[simp] theorem ladder_nil : ladder P key [] = [] := rfl

@[simp] theorem ladder_concat (xs : List α) (x : α) :
    ladder P key (xs ++ [x]) = enqueue P key x (ladder P key xs) := by
  simp [ladder]

/-! ## The effect of one arrival -/

/-- Groups that stay ahead of the key are passed over. -/
theorem enqueue_append (hP : P.Lawful) (hbefore : ∀ a ∈ l, P.ahead a.1 (key x) = true) :
    enqueue P key x (l ++ r) = l ++ enqueue P key x r := by
  induction l with
  | nil => rfl
  | cons g l ih =>
      have hg := hbefore g (by simp)
      rw [List.cons_append, enqueue, if_neg fun he => hP.ne hg he.1, if_pos hg,
        ih fun a ha => hbefore a (by simp [ha]), List.cons_append]

/-- The effect of an arrival is determined by the cases of `Places`. -/
theorem Places.eq (hP : P.Lawful) (h : Places P key x ls ls') : ls' = enqueue P key x ls := by
  cases h with
  | join l xs r shared before behind =>
      rw [enqueue_append hP before, enqueue, if_pos ⟨rfl, shared⟩]
  | «open» l r before behind fresh =>
      rw [enqueue_append hP before]
      cases r with
      | nil => rfl
      | cons g r =>
          have hne : ¬ (g.1 = key x ∧ P.shared (key x) = true) :=
            fun he => fresh he.2 g (by simp) he.1
          rw [enqueue, if_neg hne, if_neg (by simp [behind g (by simp)])]

omit [DecidableEq κ] in

/-- A group ahead of the place is passed. -/
theorem Places.cons {g : κ × List α} (hg : P.ahead g.1 (key x) = true)
    (h : Places P key x ls ls') : Places P key x (g :: ls) (g :: ls') := by
  cases h with
  | join l xs r shared before behind =>
      refine Places.join (g :: l) xs r shared (fun a ha => ?_) behind
      rcases List.mem_cons.mp ha with rfl | ha
      · exact hg
      · exact before a ha
  | «open» l r before behind fresh =>
      refine Places.open (g :: l) r (fun a ha => ?_) behind fresh
      rcases List.mem_cons.mp ha with rfl | ha
      · exact hg
      · exact before a ha

variable (key x) in
/-- Every arrival falls under one of the cases. -/
theorem enqueue_places (hP : P.Lawful) (hs : Sorted P ls) :
    Places P key x ls (enqueue P key x ls) := by
  induction ls with
  | nil => exact Places.open [] [] (by simp) (by simp) (by simp)
  | cons g ls ih =>
      obtain ⟨k, xs⟩ := g
      obtain ⟨hhead, htail⟩ := List.pairwise_cons.mp hs
      rw [enqueue]
      split
      · next hjoin =>
          obtain ⟨rfl, hshared⟩ := hjoin
          refine Places.join [] xs ls hshared (by simp) fun a ha => ?_
          have hlt : P.ahead (key x) a.1 = true :=
            (hhead a ha).resolve_right fun he => by simp [hshared] at he
          exact ⟨hP.asymm hlt, (hP.ne hlt).symm⟩
      · next hjoin =>
          split
          · next hahead => exact (ih htail).cons hahead
          · next hahead =>
              -- the first group is not ahead of the key, so none of the others is
              have hnot : ∀ a ∈ (k, xs) :: ls, P.ahead a.1 (key x) = false := by
                intro a ha
                rcases List.mem_cons.mp ha with rfl | ha
                · simpa using hahead
                · cases hlt : P.ahead a.1 (key x) with
                  | false => rfl
                  | true =>
                      exfalso
                      rcases hhead a ha with hka | ⟨he, _⟩
                      · exact hahead (hP.trans hka hlt)
                      · exact hahead (by rwa [← he] at hlt)
              refine Places.open [] _ (by simp) hnot fun hshared a ha he => ?_
              rcases List.mem_cons.mp ha with rfl | ha
              · exact hjoin ⟨he, hshared⟩
              · rcases hhead a ha with hka | ⟨hka, hun⟩
                · exact hahead (he ▸ hka)
                · have hke : k = key x := hka.trans he
                  exact hjoin ⟨hke, hshared⟩

/-- An arrival that opens no group joins one. -/
theorem enqueue_joins (hP : P.Lawful) (hs : Sorted P ls) (hopens : opens P key x ls = false) :
    P.shared (key x) = true ∧ ∃ l xs r, ls = l ++ (key x, xs) :: r ∧
      enqueue P key x ls = l ++ (key x, xs ++ [x]) :: r := by
  have hplaces := enqueue_places key x hP hs
  generalize enqueue P key x ls = ls' at hplaces ⊢
  cases hplaces with
  | join l xs r shared before behind => exact ⟨shared, l, xs, r, rfl, rfl⟩
  | «open» l r before behind fresh =>
      exfalso
      simp only [opens, Bool.not_eq_false', Bool.and_eq_true, List.any_eq_true,
        decide_eq_true_eq] at hopens
      obtain ⟨hshared, a, ha, he⟩ := hopens
      rcases List.mem_append.mp ha with ha | ha
      · exact hP.ne (before a ha) he
      · exact fresh hshared a ha he

/-- Where an arrival opens its group. -/
theorem enqueue_opens (hP : P.Lawful) (hs : Sorted P ls) (hopens : opens P key x ls = true) :
    ∃ l r, ls = l ++ r ∧ enqueue P key x ls = l ++ (key x, [x]) :: r ∧
      (∀ a ∈ l, P.ahead a.1 (key x) = true) ∧ (∀ a ∈ r, P.ahead a.1 (key x) = false) ∧
      (P.shared (key x) = true → ∀ a ∈ l ++ r, a.1 ≠ key x) := by
  have hplaces := enqueue_places key x hP hs
  generalize enqueue P key x ls = ls' at hplaces ⊢
  cases hplaces with
  | join l xs r shared before behind => simp [opens, shared] at hopens
  | «open» l r before behind fresh =>
      refine ⟨l, r, rfl, rfl, before, behind, fun hshared a ha => ?_⟩
      rcases List.mem_append.mp ha with ha | ha
      · exact hP.ne (before a ha)
      · exact fresh hshared a ha

/-! ## What a ladder looks like -/

/-- `enqueue` keeps the groups in order. -/
theorem Sorted.enqueue (hP : P.Lawful) (hs : Sorted P ls) : Sorted P (enqueue P key x ls) := by
  have hplaces := enqueue_places key x hP hs
  revert hs
  generalize Ladder.enqueue P key x ls = ls' at hplaces
  cases hplaces with
  | join l xs r shared before behind =>
      intro hs
      unfold Sorted at hs ⊢
      rw [List.pairwise_append, List.pairwise_cons] at hs ⊢
      obtain ⟨hl, ⟨hkr, hr⟩, hlr⟩ := hs
      refine ⟨hl, ⟨hkr, hr⟩, fun a ha b hb => ?_⟩
      rcases List.mem_cons.mp hb with rfl | hb
      · exact hlr a ha (key x, xs) List.mem_cons_self
      · exact hlr a ha b (List.mem_cons_of_mem _ hb)
  | «open» l r before behind fresh =>
      intro hs
      unfold Sorted at hs ⊢
      rw [List.pairwise_append] at hs ⊢
      obtain ⟨hl, hr, hlr⟩ := hs
      refine ⟨hl, List.pairwise_cons.mpr ⟨fun b hb => ?_, hr⟩, fun a ha b hb => ?_⟩
      · rcases hP.total (key x) b.1 with hlt | he | hgt
        · exact .inl hlt
        · refine .inr ⟨he, ?_⟩
          cases hshared : P.shared (key x) with
          | false => rfl
          | true => exact absurd he.symm (fresh hshared b hb)
        · rw [behind b hb] at hgt
          cases hgt
      · rcases List.mem_cons.mp hb with rfl | hb
        · exact .inl (before a ha)
        · exact hlr a ha b hb

/-- A ladder is in order. -/
theorem ladder_sorted (hP : P.Lawful) (xs : List α) : Sorted P (ladder P key xs) := by
  induction xs using List.reverseRecOn with
  | nil => exact List.Pairwise.nil
  | append_singleton xs x ih => rw [ladder_concat]; exact ih.enqueue hP

/-- `enqueue` keeps the groups under their keys. -/
theorem Grouped.enqueue (hg : Grouped key ls) : Grouped key (enqueue P key x ls) := by
  induction ls with
  | nil => simp [Grouped, Ladder.enqueue]
  | cons g ls ih =>
      obtain ⟨k, xs⟩ := g
      have hhead := hg (k, xs) (by simp)
      have htail : Grouped key ls := fun g hmem => hg g (by simp [hmem])
      rw [Ladder.enqueue]
      split
      · next hjoin =>
          intro g hmem
          rcases List.mem_cons.mp hmem with rfl | hmem
          · refine ⟨by simp, fun y hy => ?_⟩
            rcases List.mem_append.mp hy with hy | hy
            · exact hhead.2 y hy
            · rw [List.mem_singleton.mp hy, hjoin.1]
          · exact htail g hmem
      · split
        · intro g hmem
          rcases List.mem_cons.mp hmem with rfl | hmem
          · exact hhead
          · exact ih htail g hmem
        · intro g hmem
          rcases List.mem_cons.mp hmem with rfl | hmem
          · simp
          · exact hg g hmem

/-- The groups of a ladder have the key of their members. -/
theorem ladder_grouped (xs : List α) : Grouped key (ladder P key xs) := by
  induction xs using List.reverseRecOn with
  | nil => intro g hg; simp at hg
  | append_singleton xs x ih => rw [ladder_concat]; exact ih.enqueue

/-- A group with an unshared key holds the element that opened it. -/
theorem unshared_group {g : κ × List α} (hg : g ∈ ladder P key xs)
    (hunshared : P.shared g.1 = false) : ∃ x, g.2 = [x] := by
  have hstep : ∀ (x : α) (ls : List (κ × List α)), g ∈ Ladder.enqueue P key x ls →
      g ∈ ls ∨ g.2 = [x] := by
    intro x ls
    induction ls with
    | nil =>
        intro hmem
        rw [List.mem_singleton.mp hmem]
        exact .inr rfl
    | cons a ls ih =>
        intro hmem
        rw [Ladder.enqueue] at hmem
        split at hmem
        · next hjoin =>
            rcases List.mem_cons.mp hmem with rfl | hmem
            · rw [show a.1 = key x from hjoin.1, hjoin.2] at hunshared
              cases hunshared
            · exact .inl (List.mem_cons_of_mem _ hmem)
        · split at hmem
          · rcases List.mem_cons.mp hmem with rfl | hmem
            · exact .inl List.mem_cons_self
            · exact (ih hmem).imp_left (List.mem_cons_of_mem _)
          · rcases List.mem_cons.mp hmem with rfl | hmem
            · exact .inr rfl
            · exact .inl hmem
  induction xs using List.reverseRecOn with
  | nil => cases hg
  | append_singleton xs x ih =>
      rw [ladder_concat] at hg
      exact (hstep x _ hg).elim ih fun h => ⟨x, h⟩

/-- A ladder holds the elements that arrived. -/
theorem enqueue_perm (x : α) (ls : List (κ × List α)) :
    ((enqueue P key x ls).flatMap Prod.snd).Perm (ls.flatMap Prod.snd ++ [x]) := by
  induction ls with
  | nil => simp [enqueue]
  | cons g ls ih =>
      obtain ⟨k, xs⟩ := g
      rw [enqueue]
      split
      · simp only [List.flatMap_cons, List.append_assoc]
        exact List.perm_append_comm.append_left xs
      · split
        · simp only [List.flatMap_cons, List.append_assoc]
          exact ih.append_left xs
        · simp only [List.flatMap_cons]
          exact List.perm_append_comm

variable (P key) in

/-- A ladder holds what was put into it. -/
theorem ladder_perm (xs : List α) : ((ladder P key xs).flatMap Prod.snd).Perm xs := by
  induction xs using List.reverseRecOn with
  | nil => simp
  | append_singleton xs x ih =>
      rw [ladder_concat]
      exact (enqueue_perm x _).trans (ih.append_right [x])

/-- A group exists for the key of every element. -/
theorem exists_group (hx : x ∈ xs) : ∃ g ∈ ladder P key xs, x ∈ g.2 := by
  have hmem := (ladder_perm P key xs).mem_iff.mpr hx
  simpa using hmem

/-- A member of a group is one of the elements. -/
theorem mem_of_group {g : κ × List α} (hg : g ∈ ladder P key xs) (hx : x ∈ g.2) : x ∈ xs :=
  (ladder_perm P key xs).mem_iff.mp (List.mem_flatMap.mpr ⟨g, hg, hx⟩)

/-- An arrival opens a group or leaves the number of groups alone. -/
theorem length_enqueue (hP : P.Lawful) (hs : Sorted P ls) :
    (enqueue P key x ls).length = ls.length + if opens P key x ls then 1 else 0 := by
  have hplaces := enqueue_places key x hP hs
  generalize enqueue P key x ls = ls' at hplaces ⊢
  cases hplaces with
  | join l xs r shared before behind => simp [opens, shared]
  | «open» l r before behind fresh =>
      have hopens : opens P key x (l ++ r) = true := by
        cases hshared : P.shared (key x) with
        | false => simp [opens, hshared]
        | true =>
            simp only [opens, hshared, Bool.true_and, Bool.not_eq_true', List.any_eq_false,
              decide_eq_true_eq]
            intro a ha
            rcases List.mem_append.mp ha with ha | ha
            · exact hP.ne (before a ha)
            · exact fresh hshared a ha
      simp [hopens]
      omega

/-! ## Dropping elements -/

/-- A group without the elements that `p` rejects, if any are left. -/
def trim (p : α → Bool) (g : κ × List α) : Option (κ × List α) :=
  if g.2.filter p = [] then none else some (g.1, g.2.filter p)

/-- A ladder without the elements that `p` rejects. -/
def restrict (p : α → Bool) (ls : List (κ × List α)) : List (κ × List α) :=
  ls.filterMap (trim p)

variable {p : α → Bool}

omit [DecidableEq κ] in

/-- Restricting two parts one by one. -/
theorem restrict_append : restrict p (l ++ r) = restrict p l ++ restrict p r :=
  List.filterMap_append

omit [DecidableEq κ] in

/-- A group that is left empty disappears. -/
theorem restrict_cons (g : κ × List α) :
    restrict p (g :: r) =
      if g.2.filter p = [] then restrict p r else (g.1, g.2.filter p) :: restrict p r := by
  unfold restrict
  rw [List.filterMap_cons, trim]
  split <;> simp_all

omit [DecidableEq κ] in
/-- A group that is left over has the key of a group that was there. -/
theorem key_of_mem_restrict {g : κ × List α} (hg : g ∈ restrict p ls) : ∃ g' ∈ ls, g'.1 = g.1 := by
  obtain ⟨g', hmem, htrim⟩ := List.mem_filterMap.mp hg
  unfold trim at htrim
  split at htrim
  · cases htrim
  · cases htrim; exact ⟨g', hmem, rfl⟩

omit [DecidableEq κ] in
/-- Groups that keep an element keep their places. -/
theorem restrict_keys (hkeep : ∀ g ∈ ls, g.2.filter p ≠ []) :
    (restrict p ls).map Prod.fst = ls.map Prod.fst := by
  induction ls with
  | nil => rfl
  | cons g ls ih =>
      rw [restrict_cons, if_neg (hkeep g (by simp)), List.map_cons, List.map_cons,
        ih fun g' hg' => hkeep g' (by simp [hg'])]

omit [DecidableEq κ] in
/-- A group that loses all its elements is gone. -/
theorem length_restrict_lt {g : κ × List α} (hg : g ∈ ls) (hgone : g.2.filter p = []) :
    (restrict p ls).length < ls.length := by
  refine List.length_filterMap_lt_length_iff_exists.mpr ⟨g, hg, ?_⟩
  rw [trim, if_pos hgone]

omit [DecidableEq κ] in
/-- Groups that keep all their elements stay as they are. -/
theorem restrict_eq_self (hne : ∀ g ∈ ls, g.2 ≠ []) (hp : ∀ g ∈ ls, ∀ x ∈ g.2, p x = true) :
    restrict p ls = ls := by
  induction ls with
  | nil => rfl
  | cons g ls ih =>
      have hself : g.2.filter p = g.2 := List.filter_eq_self.mpr (hp g (by simp))
      rw [restrict_cons, hself, if_neg (hne g (by simp)),
        ih (fun a ha => hne a (by simp [ha])) fun a ha => hp a (by simp [ha])]

/-- Restricting after `enqueue` is restricting first, when the element passes the test. -/
theorem restrict_enqueue (hP : P.Lawful) (hs : Sorted P ls) :
    restrict p (enqueue P key x ls) =
      if p x then enqueue P key x (restrict p ls) else restrict p ls := by
  have hplaces := enqueue_places key x hP hs
  generalize enqueue P key x ls = ls' at hplaces
  cases hplaces with
  | join l xs r shared before behind =>
      have hbefore : ∀ a ∈ restrict p l, P.ahead a.1 (key x) = true := fun a ha => by
        obtain ⟨b, hb, he⟩ := key_of_mem_restrict ha
        exact he ▸ before b hb
      have hbehind : ∀ a ∈ restrict p r, P.ahead a.1 (key x) = false ∧ a.1 ≠ key x :=
        fun a ha => by
          obtain ⟨b, hb, he⟩ := key_of_mem_restrict ha
          exact he ▸ behind b hb
      rw [restrict_append, restrict_append, restrict_cons, restrict_cons]
      simp only [List.filter_append]
      cases hx : p x with
      | false => simp [hx]
      | true =>
          simp only [hx, List.filter_cons_of_pos, List.filter_nil, List.append_eq_nil_iff,
            List.cons_ne_nil, and_false, ↓reduceIte]
          split
          · -- nobody else of the group is left, so `x` opens it anew
            next hnil =>
              rw [hnil, List.nil_append]
              exact (Places.open _ _ hbefore (fun a ha => (hbehind a ha).1)
                fun _ a ha => (hbehind a ha).2).eq hP
          · exact (Places.join _ _ _ shared hbefore hbehind).eq hP
  | «open» l r before behind fresh =>
      have hbefore : ∀ a ∈ restrict p l, P.ahead a.1 (key x) = true := fun a ha => by
        obtain ⟨b, hb, he⟩ := key_of_mem_restrict ha
        exact he ▸ before b hb
      have hbehind : ∀ a ∈ restrict p r, P.ahead a.1 (key x) = false := fun a ha => by
        obtain ⟨b, hb, he⟩ := key_of_mem_restrict ha
        exact he ▸ behind b hb
      have hfresh : P.shared (key x) = true → ∀ a ∈ restrict p r, a.1 ≠ key x :=
        fun hshared a ha => by
          obtain ⟨b, hb, he⟩ := key_of_mem_restrict ha
          exact he ▸ fresh hshared b hb
      rw [restrict_append, restrict_append, restrict_cons]
      cases hx : p x with
      | false => simp [hx]
      | true =>
          simp only [hx, List.filter_cons_of_pos, List.filter_nil, List.cons_ne_nil, ↓reduceIte]
          exact (Places.open _ _ hbefore hbehind hfresh).eq hP

/-- The ladder of the arrivals that `p` accepts. -/
theorem ladder_filter (hP : P.Lawful) (p : α → Bool) (xs : List α) :
    ladder P key (xs.filter p) = restrict p (ladder P key xs) := by
  induction xs using List.reverseRecOn with
  | nil => rfl
  | append_singleton xs x ih =>
      rw [List.filter_append, ladder_concat, restrict_enqueue hP (ladder_sorted hP xs), ← ih]
      cases hx : p x <;> simp [hx]

/-- The arrivals of one shared key make one group. -/
theorem ladder_const {k : κ} (hk : ∀ x ∈ xs, key x = k) (hshared : P.shared k = true)
    (hne : xs ≠ []) : ladder P key xs = [(k, xs)] := by
  induction xs using List.reverseRecOn with
  | nil => exact absurd rfl hne
  | append_singleton xs x ih =>
      obtain rfl := hk x (by simp)
      rw [ladder_concat]
      by_cases hxs : xs = []
      · subst hxs
        rfl
      · rw [ih (fun y hy => hk y (by simp [hy])) hxs, enqueue, if_pos ⟨rfl, hshared⟩]

/-- The group of a shared key holds all its arrivals, in order. -/
theorem group_eq (hP : P.Lawful) {k : κ} {g : List α} (hg : (k, g) ∈ ladder P key xs)
    (hshared : P.shared k = true) : g = xs.filter fun x => key x = k := by
  obtain ⟨hne, hkeys⟩ := ladder_grouped xs _ hg
  have hkeep : g.filter (fun x => key x = k) = g :=
    List.filter_eq_self.mpr fun x hx => by simpa using hkeys x hx
  have hmem : (k, g) ∈ ladder P key (xs.filter fun x => key x = k) := by
    rw [ladder_filter hP]
    refine List.mem_filterMap.mpr ⟨_, hg, ?_⟩
    rw [trim, hkeep, if_neg hne]
  have hfilter : (xs.filter fun x => key x = k) ≠ [] := by
    intro he
    rw [he] at hmem
    cases hmem
  rw [ladder_const (fun x hx => by simpa using (List.mem_filter.mp hx).2) hshared hfilter] at hmem
  exact (Prod.mk.inj (List.mem_singleton.mp hmem)).2

omit [DecidableEq κ] in
/-- Rejecting a single element empties at most one group. -/
theorem length_le_restrict {x : α} (hne : ∀ g ∈ ls, g.2 ≠ []) (hnodup : (ls.flatMap Prod.snd).Nodup)
    (hp : ∀ y, p y = false → y = x) : ls.length ≤ (restrict p ls).length + 1 := by
  induction ls with
  | nil => simp
  | cons g ls ih =>
      rw [List.flatMap_cons, List.nodup_append] at hnodup
      obtain ⟨_, hrest, hdisjoint⟩ := hnodup
      have hne' : ∀ a ∈ ls, a.2 ≠ [] := fun a ha => hne a (by simp [ha])
      rw [restrict_cons]
      split
      · next hempty =>
          obtain ⟨y, hy⟩ := List.exists_mem_of_ne_nil _ (hne g (by simp))
          have hyp : p y = false := by simpa using List.filter_eq_nil_iff.mp hempty y hy
          obtain rfl := hp y hyp
          have hself : restrict p ls = ls := by
            refine restrict_eq_self hne' fun a ha z hz => ?_
            by_contra hpz
            obtain rfl := hp z (by simpa using hpz)
            exact hdisjoint z hy z (List.mem_flatMap.mpr ⟨a, ha, hz⟩) rfl
          simp only [hself, List.length_cons, Nat.le_refl]
      · have hlen := ih hne' hrest
        simp only [List.length_cons]
        omega

/-! ## Renaming elements -/

/-- Applies `f` to every element. -/
def rename (f : α → β) (ls : List (κ × List α)) : List (κ × List β) :=
  ls.map fun g => (g.1, g.2.map f)

/-- Renaming keeps the place of a new element when it keeps the key. -/
theorem rename_enqueue {key' : β → κ} {f : α → β} (hkey : key' (f x) = key x) :
    rename f (enqueue P key x ls) = enqueue P key' (f x) (rename f ls) := by
  induction ls with
  | nil => simp [rename, enqueue, hkey]
  | cons g ls ih =>
      obtain ⟨k, xs⟩ := g
      simp only [rename, List.map_cons] at ih ⊢
      rw [enqueue, enqueue, hkey]
      split
      · simp
      · split <;> simp [ih]

/-- The ladder of renamed arrivals, when the new elements have the old keys. -/
theorem ladder_map {key' : β → κ} {f : α → β} (hkey : ∀ x ∈ xs, key' (f x) = key x) :
    ladder P key' (xs.map f) = rename f (ladder P key xs) := by
  induction xs using List.reverseRecOn with
  | nil => rfl
  | append_singleton xs x ih =>
      rw [List.map_append, List.map_singleton, ladder_concat, ladder_concat,
        rename_enqueue (hkey x (by simp)), ih fun y hy => hkey y (by simp [hy])]

/-- Only the keys of the arrivals matter. -/
theorem ladder_congr {key' : α → κ} (hkey : ∀ x ∈ xs, key' x = key x) :
    ladder P key' xs = ladder P key xs := by
  have h : ladder P key' (xs.map id) = rename id (ladder P key xs) := ladder_map hkey
  simpa [rename] using h

end Ladder
