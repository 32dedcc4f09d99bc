import ItchParser.CommandLine
import Mathlib.Algebra.Group.Nat.Defs

/-!
# The command lines that are accepted

`main` gets to its run exactly for the command lines of a small grammar: size options with a
spelling of a power of two, log paths, and paths that do not look like an option, in any order. Of
several values for one option, and of several paths, the last counts.
-/

namespace ItchParser
namespace Main

open Strtoull

/-- A piece of a command line. -/
inductive Item where
  | orderPoolSize (text : Arg) (n : UInt64)
  | levelPoolSize (text : Arg) (n : UInt64)
  | logPath (text : Arg)
  | path (text : Arg)

namespace Item

/-- The arguments of a piece. -/
def args : Item → List Arg
  | orderPoolSize text _ => [orderPoolSizeOption, text]
  | levelPoolSize text _ => [levelPoolSizeOption, text]
  | logPath text => [logPathOption, text]
  | path text => [text]

/-- A size is spelled, with blanks and a sign or without, and is a power of two. A path is not an
option. -/
def Valid : Item → Prop
  | orderPoolSize text n => Spells text n ∧ ∃ k, n.toNat = 2 ^ k
  | levelPoolSize text n => Spells text n ∧ ∃ k, n.toNat = 2 ^ k
  | logPath _ => True
  | path text => text ≠ shortHelp ∧ isLong text = false

/-- What an item changes in the configuration. -/
def apply (cfg : Config) : Item → Config
  | orderPoolSize _ n => { cfg with orderPoolSize := n }
  | levelPoolSize _ n => { cfg with levelPoolSize := n }
  | logPath text => { cfg with logPath := text }
  | path text => { cfg with path := text }

end Item

/-! ## Sizes -/

/-- A size is accepted when the text spells it and it is not zero. -/
theorem parseSize_eq_some {s : Arg} {v : UInt64} :
    parseSize s = some v ↔ Spells s v ∧ v ≠ 0 := by
  rw [← reads_iff]
  unfold parseSize Reads
  simp only [Bool.or_eq_true, beq_iff_eq, bne_iff_ne, ne_eq]
  constructor
  · intro h
    split at h
    · cases h
    · next hno =>
        simp only [not_or, Bool.not_eq_true, not_not] at hno
        obtain ⟨⟨⟨hrange, hstart⟩, hend⟩, hzero⟩ := hno
        obtain rfl := Option.some.inj h
        exact ⟨⟨hrange, hstart, hend, rfl⟩, hzero⟩
  · rintro ⟨⟨hrange, hstart, hend, rfl⟩, hzero⟩
    rw [if_neg]
    simp only [not_or, Bool.not_eq_true, not_not]
    exact ⟨⟨⟨hrange, hstart⟩, hend⟩, hzero⟩

/-- The test finds the powers of two. -/
theorem isPow2_iff {n : UInt64} : isPow2 n = true ↔ ∃ k, n.toNat = 2 ^ k := by
  show _ ↔ n.toNat.isPowerOfTwo
  rw [← Nat.ne_zero_and_sub_one_eq_zero_iff_isPowerOfTwo, isPow2, Bool.and_eq_true,
    decide_eq_true_eq, beq_iff_eq, gt_iff_lt, UInt64.lt_iff_toNat_lt]
  show 0 < n.toNat ∧ _ ↔ _
  rw [Nat.pos_iff_ne_zero]
  refine and_congr_right fun hne => ?_
  have hsub : (n - 1).toNat = n.toNat - 1 := by
    have hone : (1 : UInt64) ≤ n := UInt64.le_iff_toNat_le.mpr (Nat.pos_of_ne_zero hne)
    rw [UInt64.toNat_sub_of_le _ _ hone]
    rfl
  rw [← UInt64.toNat_inj, UInt64.toNat_and, hsub]
  rfl

/-- A value of a size option is accepted when it spells a power of two. -/
theorem sized_eq_config {option value : Arg} {next : UInt64 → Parsed} {cfg : Config} :
    sized option value next = .config cfg ↔
      ∃ n, (Spells value n ∧ ∃ k, n.toNat = 2 ^ k) ∧ next n = .config cfg := by
  unfold sized
  constructor
  · intro h
    split at h
    · cases h
    · next n hn =>
        split at h
        · next hpow => exact ⟨n, ⟨(parseSize_eq_some.mp hn).1, isPow2_iff.mp hpow⟩, h⟩
        · cases h
  · rintro ⟨n, ⟨hspells, hpow⟩, hnext⟩
    have hzero : n ≠ 0 := by
      rintro rfl
      obtain ⟨k, hk⟩ := hpow
      exact absurd hk.symm (Nat.pow_pos (by decide)).ne'
    rw [parseSize_eq_some.mpr ⟨hspells, hzero⟩]
    simp only [if_pos (isPow2_iff.mpr hpow), hnext]

/-! ## The loop -/

/-- The loop accepts the arguments `args` and takes the configuration `cfg` to `cfg'`. -/
def Accepts (cfg : Config) (args : List Arg) (cfg' : Config) : Prop :=
  ∃ items : List Item, (∀ i ∈ items, i.Valid) ∧ args = items.flatMap Item.args ∧
    cfg' = items.foldl Item.apply cfg

variable {cfg cfg' : Config} {arg value : Arg} {rest : List Arg}

/-- No argument changes nothing. -/
theorem accepts_nil : Accepts cfg [] cfg' ↔ cfg' = cfg := by
  constructor
  · rintro ⟨items, -, hargs, rfl⟩
    cases items with
    | nil => rfl
    | cons i items => cases i <;> simp [Item.args] at hargs
  · rintro rfl
    exact ⟨[], by simp, rfl, rfl⟩

/-- The first argument decides which piece comes first. -/
theorem accepts_cons : Accepts cfg (arg :: rest) cfg' ↔
    (arg = orderPoolSizeOption ∧ ∃ value rest' n, rest = value :: rest' ∧
      (Spells value n ∧ ∃ k, n.toNat = 2 ^ k) ∧
      Accepts { cfg with orderPoolSize := n } rest' cfg') ∨
    (arg = levelPoolSizeOption ∧ ∃ value rest' n, rest = value :: rest' ∧
      (Spells value n ∧ ∃ k, n.toNat = 2 ^ k) ∧
      Accepts { cfg with levelPoolSize := n } rest' cfg') ∨
    (arg = logPathOption ∧ ∃ value rest', rest = value :: rest' ∧
      Accepts { cfg with logPath := value } rest' cfg') ∨
    ((arg ≠ shortHelp ∧ isLong arg = false) ∧ Accepts { cfg with path := arg } rest cfg') := by
  constructor
  · rintro ⟨items, hvalid, hargs, rfl⟩
    cases items with
    | nil => cases hargs
    | cons i items =>
        have hi := hvalid i List.mem_cons_self
        have hrest : ∀ {cfg : Config} {rest' : List Arg}, rest' = items.flatMap Item.args →
            Accepts cfg rest' (items.foldl Item.apply cfg) := fun hr =>
          ⟨items, fun j hj => hvalid j (List.mem_cons_of_mem _ hj), hr, rfl⟩
        cases i with
        | orderPoolSize text n =>
            obtain ⟨rfl, rfl⟩ := List.cons_eq_cons.mp hargs
            exact .inl ⟨rfl, text, _, n, rfl, hi, hrest rfl⟩
        | levelPoolSize text n =>
            obtain ⟨rfl, rfl⟩ := List.cons_eq_cons.mp hargs
            exact .inr (.inl ⟨rfl, text, _, n, rfl, hi, hrest rfl⟩)
        | logPath text =>
            obtain ⟨rfl, rfl⟩ := List.cons_eq_cons.mp hargs
            exact .inr (.inr (.inl ⟨rfl, text, _, rfl, hrest rfl⟩))
        | path text =>
            obtain ⟨rfl, rfl⟩ := List.cons_eq_cons.mp hargs
            exact .inr (.inr (.inr ⟨hi, hrest rfl⟩))
  · have hcons : ∀ (i : Item) {rest' : List Arg}, i.Valid → Accepts (i.apply cfg) rest' cfg' →
        Accepts cfg (i.args ++ rest') cfg' := by
      rintro i _ hi ⟨items, hvalid, rfl, rfl⟩
      exact ⟨i :: items, List.forall_mem_cons.mpr ⟨hi, hvalid⟩, rfl, rfl⟩
    rintro (⟨rfl, text, _, n, rfl, hi, h⟩ | ⟨rfl, text, _, n, rfl, hi, h⟩ |
      ⟨rfl, text, _, rfl, h⟩ | ⟨hi, h⟩)
    · exact hcons (.orderPoolSize text n) hi h
    · exact hcons (.levelPoolSize text n) hi h
    · exact hcons (.logPath text) trivial h
    · exact hcons (.path arg) hi h

/-- The options differ from each other and from `-h`. -/
theorem options_ne : orderPoolSizeOption ≠ levelPoolSizeOption ∧
    orderPoolSizeOption ≠ logPathOption ∧ levelPoolSizeOption ≠ logPathOption ∧
    isLong shortHelp = false ∧ isLong help = true ∧ isLong orderPoolSizeOption = true ∧
    isLong levelPoolSizeOption = true ∧ isLong logPathOption = true := by decide

/-- Asking for help is no piece of a command line. -/
theorem not_accepts_help (h : arg = shortHelp ∨ arg = help) :
    ¬ Accepts cfg (arg :: rest) cfg' := by
  obtain ⟨-, -, -, hshort, hhelp, horder, hlevel, hlog⟩ := options_ne
  have hne : arg ≠ orderPoolSizeOption ∧ arg ≠ levelPoolSizeOption ∧ arg ≠ logPathOption := by
    rcases h with rfl | rfl <;> decide
  rw [accepts_cons]
  rintro (⟨h', -⟩ | ⟨h', -⟩ | ⟨h', -⟩ | ⟨⟨hnot, hlong⟩, -⟩)
  · exact hne.1 h'
  · exact hne.2.1 h'
  · exact hne.2.2 h'
  · rcases h with h | rfl
    · exact hnot h
    · rw [hhelp] at hlong
      cases hlong

/-- The loop accepts what can be read as a list of items. -/
theorem parseArgs_iff {args : List Arg} :
    parseArgs cfg args = .config cfg' ↔ Accepts cfg args cfg' := by
  obtain ⟨hol, hog, hlg, -, -, horder, hlevel, hlog⟩ := options_ne
  fun_induction parseArgs cfg args with
  | case1 cfg =>
      rw [accepts_nil, Parsed.config.injEq, eq_comm]
  | case2 cfg arg hhelp => exact iff_of_false nofun (not_accepts_help hhelp)
  | case3 cfg arg hhelp hlong =>
      -- an option at the end has no value
      refine iff_of_false nofun fun h => ?_
      rcases accepts_cons.mp h with ⟨-, _, _, _, hnil, -⟩ | ⟨-, _, _, _, hnil, -⟩ |
        ⟨-, _, _, hnil, -⟩ | ⟨⟨-, hshort⟩, -⟩
      · cases hnil
      · cases hnil
      · cases hnil
      · rw [hlong] at hshort
        cases hshort
  | case4 cfg arg hhelp hlong =>
      rw [Parsed.config.injEq, accepts_cons]
      simp [accepts_nil, not_or.mp hhelp, hlong, eq_comm]
  | case5 cfg arg value rest hhelp => exact iff_of_false nofun (not_accepts_help hhelp)
  | case6 cfg value rest hhelp ih =>
      rw [sized_eq_config, accepts_cons]
      simp [ih, hol, hog, horder]
  | case7 cfg value rest hhelp hne ih =>
      rw [sized_eq_config, accepts_cons]
      simp [ih, hne, hlg, hlevel]
  | case8 cfg value rest hhelp hne hne' ih =>
      rw [ih, accepts_cons]
      simp [hne, hne', hlog]
  | case9 cfg arg value rest hhelp hne hne' hne'' hlong =>
      -- an unknown option
      refine iff_of_false nofun fun h => ?_
      rw [accepts_cons] at h
      simp [hne, hne', hne'', hlong] at h
  | case10 cfg arg value rest hhelp hne hne' hne'' hlong ih =>
      refine ih.trans (Iff.trans ?_ accepts_cons.symm)
      simp [hne, hne', hne'', not_or.mp hhelp, hlong]

/-- `main` goes on with the configuration `cfg` exactly when the arguments are pieces of the grammar
with a path among them, and then each value is the last one given. -/
theorem configure_iff (args : List Arg) (cfg : Config) :
    configure args = .ok cfg ↔ cfg.path ≠ [] ∧ ∃ items : List Item,
      (∀ i ∈ items, i.Valid) ∧ args = items.flatMap Item.args ∧
        cfg = items.foldl Item.apply {} := by
  show _ ↔ cfg.path ≠ [] ∧ Accepts {} args cfg
  rw [← parseArgs_iff]
  unfold configure
  cases parseArgs {} args with
  | config cfg' =>
      by_cases hpath : cfg'.path = []
      · simp only [if_pos hpath, Parsed.config.injEq]
        refine iff_of_false nofun ?_
        rintro ⟨hne, rfl⟩
        exact hne hpath
      · simp only [if_neg hpath, Parsed.config.injEq]
        constructor
        · rintro ⟨⟩
          exact ⟨hpath, rfl⟩
        · rintro ⟨-, rfl⟩
          rfl
  | usage | badSize | unknownOption => exact iff_of_false nofun fun h => nomatch h.2

end Main
end ItchParser
