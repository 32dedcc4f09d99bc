import ItchParser.Properties.Framing
import ItchParser.StatsReport

/-!
# The report of a parse run

The breakdown of a report lists the message types of the frames of the buffer, each type once with
the number of its frames, the most frequent first. The types that the parser has a handler for are
printed under names of their own, all others as unknown.
-/

namespace ItchParser

open ItchParser.Frame

namespace Stats

/-- The types without a handler are the ones without a name. -/
theorem typeName_unknown (t : UInt8) :
    typeName t = "Unknown" ↔ t ∉ kMsgMeta.map MsgMeta.type := by
  have hall : ∀ n < 256, typeName (UInt8.ofNat n) = "Unknown" ↔
      UInt8.ofNat n ∉ kMsgMeta.map MsgMeta.type := by decide +kernel
  have htype := hall t.toNat t.toNat_lt
  rwa [UInt8.ofNat_toNat] at htype

/-- Two types that are printed under one name are unknown. -/
theorem typeName_inj {t u : UInt8} (h : typeName t = typeName u) :
    typeName t = "Unknown" ∨ t = u := by
  have hnodup : ((kMsgMeta.map MsgMeta.type).map typeName).Nodup := by decide +kernel
  by_cases ht : typeName t = "Unknown"
  · exact .inl ht
  · have hu : typeName u ≠ "Unknown" := h ▸ ht
    rw [Ne, typeName_unknown, not_not] at hu
    rw [typeName_unknown, not_not] at ht
    exact .inr (List.inj_on_of_nodup_map hnodup ht hu h)

/-- The lines of a report list the frames `fs` by their types. -/
structure Report.Lists (r : Report) (fs : List Frame) : Prop where
  ordered : r.lines.Pairwise fun a b => b.count ≤ a.count
  once : (r.lines.map Line.type).Nodup
  seen : ∀ t, t ∈ r.lines.map Line.type ↔ ∃ f ∈ fs, f.payload.head? = some t
  count : ∀ l ∈ r.lines, l.count.toNat = fs.countP fun f => f.payload.head? = some l.type
  total : (r.lines.map fun l => l.count.toNat).sum = r.totalMessages.toNat
  unknown : ∀ l ∈ r.lines, l.name = "Unknown" ↔ l.type ∉ kMsgMeta.map MsgMeta.type
  names : ∀ l ∈ r.lines, ∀ l' ∈ r.lines, l.name = l'.name → l.name = "Unknown" ∨ l = l'

/-- The type of a frame is one of the 256. -/
theorem sum_type (f : Frame) :
    (∑ i : Fin 256, if f.payload.head? = some (UInt8.ofNat i.val) then 1 else 0) =
      if f.payload ≠ [] then 1 else 0 := by
  cases hf : f.payload with
  | nil => simp
  | cons type body =>
      have hone : ∀ i : Fin 256, some type = some (UInt8.ofNat i.val) ↔
          i = ⟨type.toNat, type.toNat_lt⟩ := by
        intro i
        rw [Option.some_inj, Fin.ext_iff, ← UInt8.toNat_inj, UInt8.toNat_ofNat',
          Nat.mod_eq_of_lt i.isLt, eq_comm]
      simp only [List.head?_cons, hone]
      rw [Finset.sum_ite_eq' Finset.univ, if_pos (Finset.mem_univ _), if_pos (List.cons_ne_nil _ _)]

/-- Each frame with a payload has one of the 256 types. -/
theorem sum_types (fs : List Frame) :
    ∑ i : Fin 256, fs.countP (fun f => f.payload.head? = some (UInt8.ofNat i.val)) =
      fs.countP fun f => f.payload ≠ [] := by
  induction fs with
  | nil => exact Finset.sum_const_zero
  | cons f fs ih =>
      simp only [List.countP_cons, decide_eq_true_eq]
      rw [Finset.sum_add_distrib, ih, sum_type]

/-- Counters that do not wrap are printed as they are. -/
theorem lists_of_counts {s : Stats} {fs : List Frame}
    (htype : ∀ t, (s.perType t).toNat = fs.countP fun f => f.payload.head? = some t)
    (htotal : s.totalMessages.toNat = fs.countP fun f => f.payload ≠ []) :
    s.printReport.Lists fs := by
  have hmem : ∀ {l : Line}, l ∈ s.printReport.lines →
      ∃ row ∈ s.printedRows, Row.line row = l ∧ row.count = s.perType row.type := by
    intro l hl
    rw [lines_eq] at hl
    obtain ⟨row, hrow, rfl⟩ := List.mem_map.mp hl
    exact ⟨row, hrow, rfl, (mem_printedRows.mp hrow).1⟩
  have hlines : s.printReport.lines.map Line.type = s.printedRows.map Row.type := by
    rw [lines_eq, List.map_map]
    rfl
  refine ⟨lines_pairwise s, by rw [hlines]; exact types_nodup s, fun t => ?_, fun l hl => ?_, ?_,
    fun l hl => ?_, fun l hl l' hl' hname => ?_⟩
  · rw [hlines]
    have hpos : (∃ f ∈ fs, f.payload.head? = some t) ↔ s.perType t ≠ 0 := by
      rw [← UInt64.toNat_inj.ne, htype]
      show _ ↔ _ ≠ 0
      rw [← Nat.pos_iff_ne_zero, List.countP_pos_iff]
      simp only [decide_eq_true_eq]
    rw [hpos]
    constructor
    · intro ht
      obtain ⟨row, hrow, rfl⟩ := List.mem_map.mp ht
      obtain ⟨hcount, hne⟩ := mem_printedRows.mp hrow
      exact hcount ▸ hne
    · exact fun hne => List.mem_map.mpr ⟨⟨t, s.perType t⟩, mem_printedRows.mpr ⟨rfl, hne⟩, rfl⟩
  · obtain ⟨row, -, rfl, hcount⟩ := hmem hl
    exact (congrArg UInt64.toNat hcount).trans (htype row.type)
  · rw [lines_eq, List.map_map]
    refine (sum_printedRows s).trans ?_
    simp only [htype]
    exact (sum_types fs).trans htotal.symm
  · obtain ⟨row, -, rfl, -⟩ := hmem hl
    exact typeName_unknown row.type
  · obtain ⟨row, -, rfl, hcount⟩ := hmem hl
    obtain ⟨row', -, rfl, hcount'⟩ := hmem hl'
    -- rows of one type have one count
    refine (typeName_inj hname).imp_right fun htype => ?_
    obtain ⟨type, count⟩ := row
    obtain ⟨type', count'⟩ := row'
    obtain rfl : type = type' := htype
    rw [show count = count' from hcount.trans hcount'.symm]

end Stats

namespace Parser

variable {buf tail : List UInt8} {fs : List Frame}

/-- A counter of frames does not wrap. -/
theorem toNat_frames (h : Splits buf fs tail) (hsize : buf.length < 18446744073709551616)
    (p : Frame → Bool) : (0 + UInt64.ofNat (fs.countP p)).toNat = fs.countP p := by
  have hframes : 2 * fs.length ≤ buf.length := by
    rw [h.eq, List.length_append]
    exact (length_le_stream fs).trans (Nat.le_add_right _ _)
  have hle : fs.countP p ≤ fs.length := List.countP_le_length
  have hlt : fs.countP p < 18446744073709551616 := by omega
  rw [UInt64.zero_add, UInt64.toNat_ofNat_of_lt' hlt]

/-- The report of a run on a decomposed buffer. -/
theorem report_splits (h : Splits buf fs tail) (hsize : buf.length < 18446744073709551616)
    {σ : Type} (on : σ → Call → σ) (engine : σ) (stats : Stats) :
    (run on buf engine stats.reset).stats.printReport.Lists fs := by
  refine Stats.lists_of_counts (fun t => ?_) ?_
  · rw [run_counter h engine stats.reset Stats.perType fun _ => rfl, perType_foldl]
    exact toNat_frames h hsize _
  · rw [run_counter h engine stats.reset Stats.totalMessages fun _ => rfl, totalMessages_foldl]
    exact toNat_frames h hsize _

/-- The report of a run from reset statistics lists the frames of the buffer. The bound on the
length is that of a `size_t`. -/
theorem report_lists_frames (buf : List UInt8) (hsize : buf.length < 18446744073709551616) :
    ∃ fs tail, Splits buf fs tail ∧
      ∀ (σ : Type) (on : σ → Call → σ) (engine : σ) (stats : Stats),
        (run on buf engine stats.reset).stats.printReport.Lists fs := by
  obtain ⟨fs, tail, h⟩ := exists_splits buf
  exact ⟨fs, tail, h, fun σ on engine stats => report_splits h hsize on engine stats⟩

/-- Two system events, a message of an unknown type and a cut length prefix. -/
theorem report_lists_frames_sample : ∃ fs tail,
    Splits [0, 1, 83, 0, 2, 33, 0, 0, 1, 83, 0] fs tail ∧
      ∀ (σ : Type) (on : σ → Call → σ) (engine : σ) (stats : Stats),
        (run on [0, 1, 83, 0, 2, 33, 0, 0, 1, 83, 0] engine stats.reset).stats.printReport.Lists
          fs :=
  report_lists_frames [0, 1, 83, 0, 2, 33, 0, 0, 1, 83, 0] (by decide)

end Parser
end ItchParser
