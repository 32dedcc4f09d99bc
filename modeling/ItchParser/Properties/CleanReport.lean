import ItchParser.Properties.Framing

/-!
# Clean reports

A report without errors should mean that the file is a sequence of well-formed frames and nothing
else. The loop stops without an error when fewer than two bytes are left, so a single byte behind
the last frame goes unreported, and this is the only way in which a clean report and a clean file
differ.
-/

namespace ItchParser

open ItchParser.Frame

namespace Parser

variable {σ : Type} {on : σ → Call → σ} {buf tail : List UInt8} {fs : List Frame}

/-- The report of a run from reset statistics shows no error. -/
def CleanReport (on : σ → Call → σ) (buf : List UInt8) (engine : σ) (stats : Stats) : Prop :=
  (run on buf engine stats.reset).stats.parseErrors = 0 ∧
  (run on buf engine stats.reset).stats.truncatedMessages = 0

/-- The buffer is a sequence of well-formed frames. -/
def CleanFile (buf : List UInt8) : Prop :=
  ∃ fs, buf = stream fs ∧ ∀ f ∈ fs, WellFormed f

/-- The buffer is a sequence of well-formed frames and one byte more. -/
def StrayByte (buf : List UInt8) : Prop :=
  ∃ fs b, buf = stream fs ++ [b] ∧ ∀ f ∈ fs, WellFormed f

/-- A number below 2^64 is zero as a word when it is zero. -/
theorem ofNat_eq_zero_iff {n : Nat} (h : n < 18446744073709551616) :
    UInt64.ofNat n = 0 ↔ n = 0 := by
  rw [← UInt64.toNat_inj, UInt64.toNat_ofNat_of_lt' h]
  rfl

/-- The report is clean when all frames are well-formed and at most one byte is left. -/
theorem cleanReport_iff (hsize : buf.length < 18446744073709551616) (h : Splits buf fs tail)
    (engine : σ) (stats : Stats) :
    CleanReport on buf engine stats ↔ (∀ f ∈ fs, WellFormed f) ∧ tail.length < 2 := by
  have hframes : 2 * fs.length + tail.length ≤ buf.length := by
    rw [h.eq, List.length_append]
    exact Nat.add_le_add_right (length_le_stream fs) _
  have huntyped := List.countP_le_length (p := fun f : Frame => decide f.Untyped) (l := fs)
  have htruncated := List.countP_le_length (p := fun f : Frame => decide f.Truncated) (l := fs)
  have herrors : (run on buf engine stats.reset).stats.parseErrors =
      UInt64.ofNat ((fs.countP fun f => f.Untyped) + if 2 ≤ tail.length then 1 else 0) := by
    rw [(run_splits h engine stats.reset).2.2]
    split
    · rw [Stats.onParseError, parseErrors_foldl, UInt64.ofNat_add]
      exact congrArg (· + 1) (UInt64.zero_add _)
    · rw [parseErrors_foldl]
      exact UInt64.zero_add _
  have hshort : (run on buf engine stats.reset).stats.truncatedMessages =
      UInt64.ofNat (fs.countP fun f => f.Truncated) := by
    rw [run_counter h engine stats.reset Stats.truncatedMessages fun _ => rfl,
      truncatedMessages_foldl]
    exact UInt64.zero_add _
  rw [CleanReport, herrors, hshort, ofNat_eq_zero_iff (by split <;> omega),
    ofNat_eq_zero_iff (by omega), forall_wellFormed_iff]
  split <;> omega

/-- A clean file, by its frames. -/
theorem cleanFile_iff (h : Splits buf fs tail) :
    CleanFile buf ↔ (∀ f ∈ fs, WellFormed f) ∧ tail = [] := by
  constructor
  · rintro ⟨gs, hgs, hall⟩
    obtain ⟨rfl, rfl⟩ := h.unique
      (⟨by rw [hgs, List.append_nil], incomplete_of_short Nat.zero_lt_two⟩ : Splits buf gs [])
    exact ⟨hall, rfl⟩
  · rintro ⟨hall, rfl⟩
    exact ⟨fs, by rw [h.eq, List.append_nil], hall⟩

/-- A stray byte, by the tail of the frames. -/
theorem strayByte_iff (h : Splits buf fs tail) :
    StrayByte buf ↔ (∀ f ∈ fs, WellFormed f) ∧ tail.length = 1 := by
  constructor
  · rintro ⟨gs, b, hgs, hall⟩
    obtain ⟨rfl, rfl⟩ := h.unique
      (⟨hgs, incomplete_of_short Nat.one_lt_two⟩ : Splits buf gs [b])
    exact ⟨hall, rfl⟩
  · rintro ⟨hall, hone⟩
    obtain ⟨b, rfl⟩ := List.length_eq_one_iff.mp hone
    exact ⟨fs, b, h.eq, hall⟩

/-- A clean report means a clean file exactly when there is no stray byte behind well-formed
frames. The bound on the length is that of a `size_t`. -/
theorem cleanReport_iff_cleanFile (on : σ → Call → σ) (buf : List UInt8) (engine : σ)
    (stats : Stats) (hsize : buf.length < 18446744073709551616) :
    (CleanReport on buf engine stats ↔ CleanFile buf) ↔ ¬ StrayByte buf := by
  obtain ⟨fs, tail, h⟩ := exists_splits buf
  rw [cleanReport_iff hsize h, cleanFile_iff h, strayByte_iff h, ← List.length_eq_zero_iff]
  generalize (∀ f ∈ fs, WellFormed f) = good
  by_cases hgood : good
  · simp only [hgood, true_and]
    omega
  · simp only [hgood, false_and, not_false_eq_true]

/-- A file that is cut behind a length prefix. -/
theorem cleanReport_iff_cleanFile_sample :
    ([0, 12] : List UInt8).length < 18446744073709551616 ∧
    ((CleanReport MatchingEngine.step [0, 12] (MatchingEngine.create 4 4)
      ⟨fun _ => 0, 0, 0, 0, 0, 0⟩ ↔ CleanFile [0, 12]) ↔ ¬ StrayByte [0, 12]) :=
  ⟨by decide, cleanReport_iff_cleanFile MatchingEngine.step [0, 12] (MatchingEngine.create 4 4)
    ⟨fun _ => 0, 0, 0, 0, 0, 0⟩ (by decide)⟩

/-- A file that consists of one byte is not clean, but its report is. -/
theorem single_byte_unreported :
    ¬ (CleanReport MatchingEngine.step [0] (MatchingEngine.create 4 4)
      ⟨fun _ => 0, 0, 0, 0, 0, 0⟩ ↔ CleanFile [0]) := by
  have hsplits : Splits [0] [] [0] := ⟨rfl, incomplete_of_short Nat.one_lt_two⟩
  intro h
  cases ((cleanFile_iff hsplits).mp (h.mp ⟨rfl, rfl⟩)).2

end Parser
end ItchParser
