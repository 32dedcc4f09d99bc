import ItchParser.Lib.Machine
import Mathlib.Data.List.Count
import Mathlib.Order.WellFounded

/-!
# Fair schedules

A schedule is an infinite sequence of inputs for a machine. It is fair to a kind of input that
occurs in it again and again. `Ranks` is the premise of the progress rules: no input leads away
from the goal, and every helpful one leads nearer to it. On a schedule that is fair to the helpful
inputs the goal is then reached (`Ranks.leadsTo`), and on a finite run with more helpful inputs than
the rank allows it has been reached (`Ranks.reaches`).
-/

namespace Machine

variable {σ ι α : Type*} {step : σ → ι → σ} {s : σ} {sched : ℕ → ι} {helpful : ι → Prop}
  {I P Q R : σ → Prop}

/-- The state after the first `n` inputs of a schedule. -/
def stateAt (step : σ → ι → σ) (s : σ) (sched : ℕ → ι) (n : ℕ) : σ :=
  run step s ((List.range n).map sched)

/-- The next state is one step away. -/
theorem stateAt_succ (n : ℕ) :
    stateAt step s sched (n + 1) = step (stateAt step s sched n) (sched n) := by
  rw [stateAt, List.range_succ, List.map_append, List.map_singleton, run_concat]
  rfl

/-- What every input keeps holds at every time. -/
theorem stateAt_invariant (hs : I s) (hkeep : ∀ t n, I t → I (step t (sched n))) (n : ℕ) :
    I (stateAt step s sched n) := by
  induction n with
  | zero => exact hs
  | succ n ih =>
      rw [stateAt_succ]
      exact hkeep _ n ih

/-- Inputs of this kind occur again and again. -/
def Recurs (helpful : ι → Prop) (sched : ℕ → ι) : Prop :=
  ∀ n, ∃ m, n ≤ m ∧ helpful (sched m)

/-- Whenever `P` holds, `Q` holds then or later. -/
def LeadsTo (step : σ → ι → σ) (s : σ) (sched : ℕ → ι) (P Q : σ → Prop) : Prop :=
  ∀ n, P (stateAt step s sched n) → ∃ m, n ≤ m ∧ Q (stateAt step s sched m)

/-- Leading on to what leads on. -/
theorem LeadsTo.trans (hpq : LeadsTo step s sched P Q) (hqr : LeadsTo step s sched Q R) :
    LeadsTo step s sched P R := fun n hn => by
  obtain ⟨m, hm, hq⟩ := hpq n hn
  exact (hqr m hq).imp fun _ hk => ⟨hm.trans hk.1, hk.2⟩

/-- Two cases that lead to the same. -/
theorem LeadsTo.or (hp : LeadsTo step s sched P R) (hq : LeadsTo step s sched Q R) :
    LeadsTo step s sched (fun t => P t ∨ Q t) R := fun n hn => hn.elim (hp n) (hq n)

/-- What holds at once is led to. -/
theorem LeadsTo.of_imp (himp : ∀ t, P t → Q t) : LeadsTo step s sched P Q := fun n hn =>
  ⟨n, Nat.le_refl n, himp _ hn⟩

/-- Until `Q` holds, every input keeps `P` and does not raise the rank, and a helpful one lowers
it. Only states with `I` are looked at. -/
def Ranks [LT α] [LE α] (step : σ → ι → σ) (helpful : ι → Prop) (I P Q : σ → Prop)
    (rank : σ → α) : Prop :=
  ∀ t c, I t → I (step t c) → P t →
    Q (step t c) ∨
      P (step t c) ∧ rank (step t c) ≤ rank t ∧ (helpful c → rank (step t c) < rank t)

/-- One step reaches the goal or keeps the rank from rising, and a helpful step lowers it. -/
theorem Ranks.next [PartialOrder α] {rank : σ → α} (h : Ranks step helpful I P Q rank)
    (hinv : ∀ n, I (stateAt step s sched n)) (n : ℕ) (hn : P (stateAt step s sched n)) :
    Q (stateAt step s sched (n + 1)) ∨ P (stateAt step s sched (n + 1)) ∧
      rank (stateAt step s sched (n + 1)) ≤ rank (stateAt step s sched n) ∧
      (helpful (sched n) →
        rank (stateAt step s sched (n + 1)) < rank (stateAt step s sched n)) := by
  have hnext := hinv (n + 1)
  rw [stateAt_succ] at hnext ⊢
  exact h _ (sched n) (hinv n) hnext hn

/-- While `Q` does not hold, `P` goes on to hold and the rank does not go up. -/
theorem Ranks.waits [PartialOrder α] {rank : σ → α} (h : Ranks step helpful I P Q rank)
    (hinv : ∀ n, I (stateAt step s sched n)) {n m : ℕ} (hnm : n ≤ m)
    (hn : P (stateAt step s sched n)) : (∃ k, n ≤ k ∧ Q (stateAt step s sched k)) ∨
      P (stateAt step s sched m) ∧
        rank (stateAt step s sched m) ≤ rank (stateAt step s sched n) := by
  induction m, hnm using Nat.le_induction with
  | base => exact .inr ⟨hn, le_refl _⟩
  | succ m hnm ih =>
      rcases ih with hq | ⟨hm, hle⟩
      · exact .inl hq
      · rcases h.next hinv m hm with hq | ⟨hp, hstep, -⟩
        · exact .inl ⟨m + 1, by omega, hq⟩
        · exact .inr ⟨hp, hstep.trans hle⟩

/-- The rule for infinite runs. -/
theorem Ranks.leadsTo [PartialOrder α] [WellFoundedLT α] {rank : σ → α}
    (h : Ranks step helpful I P Q rank) (hfair : Recurs helpful sched)
    (hinv : ∀ n, I (stateAt step s sched n)) : LeadsTo step s sched P Q := by
  intro n
  generalize hr : rank (stateAt step s sched n) = r
  induction r using WellFoundedLT.induction generalizing n with
  | ind r ih =>
      intro hn
      obtain ⟨m, hnm, hhelp⟩ := hfair n
      rcases h.waits hinv hnm hn with hq | ⟨hm, hle⟩
      · exact hq
      · rcases h.next hinv m hm with hq | ⟨hp, -, hless⟩
        · exact ⟨m + 1, by omega, hq⟩
        · obtain ⟨k, hk, hq⟩ := ih _ (((hless hhelp).trans_le hle).trans_eq hr) (m + 1) rfl hp
          exact ⟨k, by omega, hq⟩

/-- The rule for one step: `P` stays until a helpful input brings `Q`. -/
theorem leadsTo_of_next (hfair : Recurs helpful sched) (hinv : ∀ n, I (stateAt step s sched n))
    (hstay : ∀ t c, I t → P t → ¬ helpful c → P (step t c))
    (hgo : ∀ t c, I t → P t → helpful c → Q (step t c)) : LeadsTo step s sched P Q := by
  have hranks : Ranks step helpful I P Q fun _ => (0 : ℕ) := by
    intro t c ht _ hp
    by_cases hc : helpful c
    · exact .inl (hgo t c ht hp hc)
    · exact .inr ⟨hstay t c ht hp hc, le_refl _, fun h => absurd h hc⟩
  exact hranks.leadsTo hfair hinv

/-- The rule for finite runs. -/
theorem Ranks.reaches [DecidablePred helpful] {rank : σ → ℕ}
    (h : Ranks step helpful I P Q rank) (hs : P s) (inputs : List ι)
    (hinv : ∀ pre, pre <+: inputs → I (run step s pre))
    (hmany : rank s < inputs.countP helpful) : ∃ pre, pre <+: inputs ∧ Q (run step s pre) := by
  induction inputs generalizing s with
  | nil => simp at hmany
  | cons c inputs ih =>
      have hhere := hinv [] List.nil_prefix
      have hnext : ∀ pre, pre <+: inputs → I (run step (step s c) pre) := fun pre hpre =>
        hinv (c :: pre) (List.cons_prefix_cons.mpr ⟨rfl, hpre⟩)
      rcases h s c hhere (hnext [] List.nil_prefix) hs with hq | ⟨hp, hle, hless⟩
      · exact ⟨[c], by simp, hq⟩
      · have hcount : rank (step s c) < inputs.countP helpful := by
          rw [List.countP_cons] at hmany
          by_cases hc : helpful c
          · have := hless hc
            simp only [hc, decide_true, if_true] at hmany
            omega
          · simp only [hc, decide_false] at hmany
            exact hle.trans_lt hmany
        obtain ⟨pre, hpre, hq⟩ := ih hp hnext hcount
        exact ⟨c :: pre, List.cons_prefix_cons.mpr ⟨rfl, hpre⟩, hq⟩

end Machine
