import Mathlib.Data.List.Infix
import Mathlib.Order.Basic
import Mathlib.Order.Bounds.Defs
import Mathlib.Order.Lattice

/-!
# Runs of a deterministic machine

A machine is a step function on states and inputs, and `run` feeds it a list of inputs.
`prefix_induction` is the induction rule for properties of runs. It adds one input at a time at the
end, so a property of every state of a run is available at each of its prefixes.
-/

namespace Machine

variable {σ ι : Type*}

/-- The state after the inputs have been consumed in order. -/
def run (step : σ → ι → σ) (s : σ) (inputs : List ι) : σ :=
  inputs.foldl step s

variable {step : σ → ι → σ} {s : σ}

@[simp] theorem run_nil : run step s [] = s := rfl

@[simp] theorem run_cons (c : ι) (inputs : List ι) :
    run step s (c :: inputs) = run step (step s c) inputs := rfl

/-- Running the one list after the other. -/
theorem run_append (first second : List ι) :
    run step s (first ++ second) = run step (run step s first) second :=
  List.foldl_append

@[simp] theorem run_concat (inputs : List ι) (c : ι) :
    run step s (inputs ++ [c]) = step (run step s inputs) c := by
  rw [run_append]; rfl

/-- To prove a property of a list of inputs, prove it of the empty list and extend it along the
prefixes of the list. -/
theorem prefix_induction {P : List ι → Prop} (inputs : List ι) (nil : P [])
    (concat : ∀ pre c, pre ++ [c] <+: inputs → P pre → P (pre ++ [c])) : P inputs := by
  induction inputs using List.reverseRecOn with
  | nil => exact nil
  | append_singleton init c ih =>
      refine concat init c (List.prefix_refl _) (ih fun pre d hpre => ?_)
      exact concat pre d (hpre.trans (List.prefix_append _ _))

/-- `P` holds of every step of a run: of the state before an input, and the input. -/
def Along (step : σ → ι → σ) (P : σ → ι → Prop) : σ → List ι → Prop
  | _, [] => True
  | s, c :: inputs => P s c ∧ Along step P (step s c) inputs

instance decidableAlong {P : σ → ι → Prop} [∀ s c, Decidable (P s c)] (s : σ) :
    (inputs : List ι) → Decidable (Along step P s inputs)
  | [] => inferInstanceAs (Decidable True)
  | c :: inputs =>
      have := decidableAlong (P := P) (step s c) inputs
      inferInstanceAs (Decidable (_ ∧ _))

/-- A weaker condition holds along the run as well. -/
theorem Along.mono {P Q : σ → ι → Prop} {inputs : List ι} (h : Along step P s inputs)
    (himp : ∀ t c, P t c → Q t c) : Along step Q s inputs := by
  induction inputs generalizing s with
  | nil => trivial
  | cons c inputs ih => exact ⟨himp s c h.1, ih h.2⟩

/-- Two conditions hold along a run together. -/
theorem Along.and {P Q : σ → ι → Prop} {inputs : List ι} (h : Along step P s inputs)
    (h' : Along step Q s inputs) : Along step (fun t c => P t c ∧ Q t c) s inputs := by
  induction inputs generalizing s with
  | nil => trivial
  | cons c inputs ih => exact ⟨⟨h.1, h'.1⟩, ih h.2 h'.2⟩

/-- A condition along a run with one more input. -/
theorem along_concat {P : σ → ι → Prop} {inputs : List ι} {c : ι} :
    Along step P s (inputs ++ [c]) ↔ Along step P s inputs ∧ P (run step s inputs) c := by
  induction inputs generalizing s with
  | nil => simp [Along]
  | cons d inputs ih => rw [List.cons_append, Along, Along, ih, run_cons, and_assoc]

/-- An invariant that the steps with `P` preserve gives what it says of every step and of the end
of the run. -/
theorem Along.invariant {I : σ → Prop} {P Q : σ → ι → Prop} {inputs : List ι}
    (h : Along step P s inputs) (init : I s)
    (preserve : ∀ t c, I t → P t c → Q t c ∧ I (step t c)) :
    Along step Q s inputs ∧ I (run step s inputs) := by
  induction inputs generalizing s with
  | nil => exact ⟨trivial, init⟩
  | cons c inputs ih =>
      obtain ⟨hq, hinv⟩ := preserve s c init h.1
      obtain ⟨hrest, hend⟩ := ih h.2 hinv
      exact ⟨⟨hq, hrest⟩, hend⟩

/-- What holds initially and is preserved by every step holds after every run. -/
theorem run_invariant {I : σ → Prop} (init : I s) (preserve : ∀ t c, I t → I (step t c))
    (inputs : List ι) : I (run step s inputs) := by
  induction inputs generalizing s with
  | nil => exact init
  | cons c inputs ih => exact ih (preserve s c init)

/-- A measure that no step lowers is lowest at the earliest state. -/
theorem run_mono {α : Type*} [Preorder α] (f : σ → α) (mono : ∀ t c, f t ≤ f (step t c))
    {pre inputs : List ι} (hpre : pre <+: inputs) : f (run step s pre) ≤ f (run step s inputs) := by
  obtain ⟨rest, rfl⟩ := hpre
  rw [run_append]
  generalize run step s pre = t
  induction rest generalizing t with
  | nil => exact le_refl _
  | cons c rest ih => exact (mono t c).trans (ih _)

/-- A register that follows a measure by `max` ends at the greatest value that the measure had. -/
theorem isGreatest_run {α : Type*} [LinearOrder α] (f register : σ → α) (hstart : register s = f s)
    (inputs : List ι) (follows : ∀ pre c, pre ++ [c] <+: inputs →
      register (step (run step s pre) c) =
        max (register (run step s pre)) (f (step (run step s pre) c))) :
    IsGreatest {x | ∃ pre, pre <+: inputs ∧ f (run step s pre) = x}
      (register (run step s inputs)) := by
  refine prefix_induction (P := fun init => IsGreatest
    {x | ∃ pre, pre <+: init ∧ f (run step s pre) = x} (register (run step s init))) inputs ?_ ?_
  · refine ⟨⟨[], List.prefix_refl _, hstart.symm⟩, ?_⟩
    rintro x ⟨pre, hpre, rfl⟩
    rw [List.prefix_nil.mp hpre, run_nil, hstart]
  · rintro init c hinit ⟨⟨top, htop, hvalue⟩, hupper⟩
    rw [run_concat, follows init c hinit]
    constructor
    · rcases le_total (f (step (run step s init) c)) (register (run step s init)) with h | h
      · exact ⟨top, htop.trans (List.prefix_append _ _), by rw [max_eq_left h, hvalue]⟩
      · exact ⟨init ++ [c], List.prefix_refl _, by rw [max_eq_right h, run_concat]⟩
    · rintro x ⟨pre, hpre, rfl⟩
      rcases List.prefix_concat_iff.mp hpre with rfl | hpre
      · rw [run_concat]
        exact le_max_right _ _
      · exact (hupper ⟨pre, hpre, rfl⟩).trans (le_max_left _ _)

/-! ## Outputs -/

variable {τ ω : Type*} {step' : τ → ω → τ} {out : σ → ι → List ω}

/-- What the steps of a run put out, in order. -/
def outputs (step : σ → ι → σ) (out : σ → ι → List ω) : σ → List ι → List ω
  | _, [] => []
  | s, c :: inputs => out s c ++ outputs step out (step s c) inputs

/-- One more input appends its output. -/
theorem outputs_concat (inputs : List ι) (c : ι) :
    outputs step out s (inputs ++ [c]) =
      outputs step out s inputs ++ out (run step s inputs) c := by
  induction inputs generalizing s with
  | nil => exact List.append_nil _
  | cons d inputs ih =>
      rw [List.cons_append, outputs, ih, ← List.append_assoc]
      rfl

/-- Two machines in a relation that every step keeps put out the same, if related states do. -/
theorem outputs_congr {R : σ → τ → Prop} {stepτ : τ → ι → τ} {outτ : τ → ι → List ω} {t : τ}
    (inputs : List ι)
    (related : ∀ pre, pre <+: inputs → R (run step s pre) (run stepτ t pre))
    (hout : ∀ pre c, pre ++ [c] <+: inputs → R (run step s pre) (run stepτ t pre) →
      out (run step s pre) c = outτ (run stepτ t pre) c) :
    outputs step out s inputs = outputs stepτ outτ t inputs := by
  refine prefix_induction (P := fun pre => outputs step out s pre = outputs stepτ outτ t pre)
    inputs rfl fun pre c hpre ih => ?_
  rw [outputs_concat, outputs_concat, ih,
    hout pre c hpre (related pre ((List.prefix_append _ _).trans hpre))]

/-- A second machine that follows every step by consuming its outputs follows the whole run. -/
theorem run_outputs {f : σ → τ} (follows : ∀ t c, f (step t c) = run step' (f t) (out t c))
    (inputs : List ι) : f (run step s inputs) = run step' (f s) (outputs step out s inputs) := by
  induction inputs generalizing s with
  | nil => rfl
  | cons c inputs ih => rw [run_cons, ih, follows, outputs, run_append]

end Machine
