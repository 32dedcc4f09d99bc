import ItchParser.Parser.Loop

/-!
# Framing

Every buffer is a sequence of frames and a tail without a complete frame, in one way only. The
engine sees the well-formed frames in their order and nothing else, and the statistics count the
frames by kind.
-/

namespace ItchParser

open ItchParser.Frame

namespace Parser

variable {σ : Type} {on : σ → Call → σ} {buf tail : List UInt8} {fs gs : List Frame}

/-- A run on a decomposed buffer. -/
theorem run_splits (h : Splits buf fs tail) (engine : σ) (stats : Stats) :
    (run on buf engine stats).cursor =
      (stream fs).length + (if 2 ≤ tail.length then 2 else 0) ∧
    (run on buf engine stats).engine = Machine.run on engine (fs.filterMap call) ∧
    (run on buf engine stats).stats =
      if 2 ≤ tail.length then (fs.foldl tally stats).onParseError else fs.foldl tally stats :=
  (run_leaves engine stats).on_stream [] h.eq h.incomplete rfl

/-- The counters that the error of a tail leaves alone. -/
theorem run_counter (h : Splits buf fs tail) (engine : σ) (stats : Stats) {α : Type}
    (c : Stats → α) (hc : ∀ st : Stats, c st.onParseError = c st) :
    c (run on buf engine stats).stats = c (fs.foldl tally stats) := by
  rw [(run_splits h engine stats).2.2]
  split
  · exact hc _
  · rfl

/-- The engine depends on the well-formed frames only. -/
theorem run_engine_congr (fs gs : List Frame) (h : Incomplete tail)
    (heq : (gs.filter fun f => f.WellFormed) = fs.filter fun f => f.WellFormed) (engine : σ)
    (stats stats' : Stats) {tail' : List UInt8} (h' : Incomplete tail') :
    (run on (stream gs ++ tail') engine stats').engine =
      (run on (stream fs ++ tail) engine stats).engine := by
  rw [(run_splits ⟨rfl, h'⟩ engine stats').2.1, (run_splits ⟨rfl, h⟩ engine stats).2.1,
    ← filterMap_call gs, heq, filterMap_call]

/-- A buffer is, in one way only, a sequence of frames as long as possible and a tail without a
complete frame. A run leaves the engine that the well-formed frames alone lead to, and any other
frames between them make no difference. The counters grow by the numbers of frames of their kinds
and the sum of the payloads. -/
theorem run_framing (buf : List UInt8) : ∃ fs tail, Splits buf fs tail ∧
    (∀ gs tail', Splits buf gs tail' → gs = fs ∧ tail' = tail) ∧
    (∀ gs rest, buf = stream gs ++ rest → gs <+: fs) ∧
    ∀ (σ : Type) (on : σ → Call → σ) (engine : σ) (stats : Stats),
      (run on buf engine stats).engine =
        (run on (stream (fs.filter fun f => f.WellFormed)) engine stats).engine ∧
      (∀ gs : List Frame, (gs.filter fun f => f.WellFormed) = (fs.filter fun f => f.WellFormed) →
        (run on (stream gs ++ tail) engine stats).engine = (run on buf engine stats).engine) ∧
      (run on buf engine stats).stats.totalMessages =
        stats.totalMessages + UInt64.ofNat (fs.countP fun f => f.payload ≠ []) ∧
      (∀ t, (run on buf engine stats).stats.perType t =
        stats.perType t + UInt64.ofNat (fs.countP fun f => f.payload.head? = some t)) ∧
      (run on buf engine stats).stats.totalBytes =
        stats.totalBytes + UInt64.ofNat (fs.map fun f => f.payload.length).sum ∧
      (run on buf engine stats).stats.totalFramingBytes =
        stats.totalFramingBytes + UInt64.ofNat (fs.countP fun f => f.payload ≠ []) * 2 ∧
      (run on buf engine stats).stats.truncatedMessages =
        stats.truncatedMessages + UInt64.ofNat (fs.countP fun f => f.Truncated) := by
  obtain ⟨fs, tail, h⟩ := exists_splits buf
  refine ⟨fs, tail, h, fun gs tail' h' => h'.unique h, fun gs rest hgs => h.first_frames hgs, ?_⟩
  intro σ on engine stats
  refine ⟨?_, ?_, ?_, ?_, ?_, ?_, ?_⟩
  · have hempty : Incomplete [] := incomplete_of_short Nat.zero_lt_two
    rw [h.eq, ← List.append_nil (stream (fs.filter _))]
    exact (run_engine_congr fs _ h.incomplete (by simp) engine stats stats hempty).symm
  · intro gs heq
    rw [h.eq]
    exact run_engine_congr fs gs h.incomplete heq engine stats stats h.incomplete
  · rw [run_counter h engine stats Stats.totalMessages fun _ => rfl, totalMessages_foldl]
  · intro t
    rw [run_counter h engine stats Stats.perType fun _ => rfl, perType_foldl]
  · rw [run_counter h engine stats Stats.totalBytes fun _ => rfl, totalBytes_foldl]
  · rw [run_counter h engine stats Stats.totalFramingBytes fun _ => rfl, totalFramingBytes_foldl]
  · rw [run_counter h engine stats Stats.truncatedMessages fun _ => rfl, truncatedMessages_foldl]

end Parser
end ItchParser
