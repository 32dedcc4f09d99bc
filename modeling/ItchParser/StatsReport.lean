import Mathlib.Algebra.BigOperators.Fin
import ItchParser.Lib.SelectionSort
import ItchParser.Stats

/-!
# StatsReport: the printed report of a parse run

The model of `type_name` and `print_report` in `Stats.hpp`. The report holds the integers that are
printed. What is computed in floating point (the elapsed time, the rates, the percentages and the
sizes in MiB) and the layout of the text are left out.
-/

namespace ItchParser
namespace Stats

/-- `type_name`. -/
def typeName (t : UInt8) : String :=
  match Char.ofUInt8 t with
  | 'S' => "SystemEvent"
  | 'R' => "StockDirectory"
  | 'H' => "StockTradingAction"
  | 'Y' => "RegSHO"
  | 'L' => "MarketParticipantPosition"
  | 'V' => "MWCBDeclineLevel"
  | 'W' => "MWCBStatus"
  | 'K' => "IPOQuotingPeriodUpdate"
  | 'J' => "LULDAuctionCollar"
  | 'h' => "OperationalHalt"
  | 'A' => "AddOrder"
  | 'F' => "AddOrderMPID"
  | 'E' => "OrderExecuted"
  | 'C' => "OrderExecutedWithPrice"
  | 'X' => "OrderCancel"
  | 'D' => "OrderDelete"
  | 'U' => "OrderReplace"
  | 'P' => "NonCrossTrade"
  | 'Q' => "CrossTrade"
  | 'B' => "BrokenTrade"
  | 'I' => "NOII"
  | 'N' => "RPII"
  | 'O' => "DLCR"
  | _ => "Unknown"

/-- A message type and its count. -/
structure Row where
  type : UInt8
  count : UInt64
  deriving DecidableEq

/-- The 256 counters, in the order of the types. -/
def rows (s : Stats) (i : Fin 256) : Row :=
  ⟨UInt8.ofNat i.val, s.perType (UInt8.ofNat i.val)⟩

/-- The comparison of the sort: `rows[j].count > rows[best].count`. -/
def Row.greater (a b : Row) : Prop := a.count > b.count

instance : DecidableRel Row.greater := fun a b =>
  inferInstanceAs (Decidable (a.count > b.count))

/-- A printed line. -/
structure Line where
  /-- The type as a character, a dot if it is not printable. -/
  tag : UInt8
  type : UInt8
  name : String
  count : UInt64
  deriving DecidableEq

/-- The line that a row is printed as. -/
def Row.line (row : Row) : Line where
  tag := if 32 ≤ row.type ∧ row.type < 127 then row.type else ascii '.'
  type := row.type
  name := typeName row.type
  count := row.count

/-- The integers of the report. -/
structure Report where
  totalMessages : UInt64
  totalBytes : UInt64
  totalFramingBytes : UInt64
  parseErrors : UInt64
  truncatedMessages : UInt64
  lines : List Line
  deriving DecidableEq

/-- The rows that are printed: sorted by count, up to the first without a message. -/
def printedRows (s : Stats) : List Row :=
  (List.ofFn (SelectionSort.sort Row.greater s.rows)).takeWhile fun row => row.count ≠ 0

/-- `print_report`. -/
def printReport (s : Stats) : Report where
  totalMessages := s.totalMessages
  totalBytes := s.totalBytes
  totalFramingBytes := s.totalFramingBytes
  parseErrors := s.parseErrors
  truncatedMessages := s.truncatedMessages
  lines := s.printedRows.map Row.line

/-! ## What the sort makes of the rows -/

/-- The comparison of the rows is a strict weak order. -/
theorem greater_weak : SelectionSort.Weak Row.greater where
  asymm h := fun h' => by
    have hlt := UInt64.lt_iff_toNat_lt.mp h
    have hlt' := UInt64.lt_iff_toNat_lt.mp h'
    omega
  trans h h' := fun hgt => by
    have hle := UInt64.not_lt.mp h
    have hle' := UInt64.not_lt.mp h'
    exact UInt64.not_lt.mpr (UInt64.le_trans hle hle') hgt

/-- The lines of the report are the lines of the printed rows. -/
theorem lines_eq (s : Stats) : s.printReport.lines = s.printedRows.map Row.line := by
  rw [printReport]

/-- The printed rows are the rows with a message. -/
theorem printedRows_perm (s : Stats) :
    s.printedRows.Perm ((List.ofFn s.rows).filter fun row => row.count ≠ 0) := by
  have hsorted := SelectionSort.sort_pairwise greater_weak s.rows
  unfold printedRows
  rw [SelectionSort.takeWhile_eq_filter]
  · exact (SelectionSort.sort_perm greater_weak s.rows).filter _
  · refine hsorted.imp fun {a b} hab => ?_
    simp only [ne_eq, decide_not, Bool.not_eq_eq_eq_not, Bool.not_true, decide_eq_false_iff_not]
    intro hb ha
    refine hab (UInt64.lt_iff_toNat_lt.mpr ?_)
    rw [ha]
    exact Nat.pos_of_ne_zero fun h => hb (UInt64.toNat_inj.mp h)

/-- The lines come in falling order of their counts. -/
theorem lines_pairwise (s : Stats) :
    s.printReport.lines.Pairwise fun a b => b.count ≤ a.count := by
  have hsorted := SelectionSort.sort_pairwise greater_weak s.rows
  rw [lines_eq, List.pairwise_map]
  exact (hsorted.sublist (List.takeWhile_sublist _)).imp fun hab => UInt64.not_lt.mp hab

/-- Every type has one row, with its count. -/
theorem mem_rows {s : Stats} {row : Row} :
    row ∈ List.ofFn s.rows ↔ row.count = s.perType row.type := by
  constructor
  · intro h
    obtain ⟨i, rfl⟩ := List.mem_ofFn.mp h
    rfl
  · intro h
    refine List.mem_ofFn.mpr ⟨⟨row.type.toNat, row.type.toNat_lt⟩, ?_⟩
    simp only [rows, UInt8.ofNat_toNat, ← h]

/-- A row is printed when its count is not zero. -/
theorem mem_printedRows {s : Stats} {row : Row} :
    row ∈ s.printedRows ↔ row.count = s.perType row.type ∧ row.count ≠ 0 := by
  rw [(printedRows_perm s).mem_iff, List.mem_filter, mem_rows, decide_eq_true_eq]

/-- No type is printed twice. -/
theorem types_nodup (s : Stats) : (s.printedRows.map Row.type).Nodup := by
  refine ((printedRows_perm s).map _).nodup_iff.mpr ?_
  have hall : ((List.ofFn s.rows).map Row.type).Nodup := by
    rw [List.map_ofFn, List.nodup_ofFn]
    intro i j hij
    have hval := congrArg UInt8.toNat hij
    simp only [Function.comp_apply, rows, UInt8.toNat_ofNat'] at hval
    exact Fin.ext (by omega)
  exact hall.sublist (List.filter_sublist.map _)

/-- Rows without a message do not matter for the sum. -/
theorem sum_filter_counts (rows : List Row) :
    ((rows.filter fun row => row.count ≠ 0).map fun row => row.count.toNat).sum =
      (rows.map fun row => row.count.toNat).sum := by
  induction rows with
  | nil => rfl
  | cons row rows ih =>
      by_cases h : row.count = 0
      · rw [List.filter_cons_of_neg (by simpa using h), ih, List.map_cons, List.sum_cons, h]
        exact (Nat.zero_add _).symm
      · rw [List.filter_cons_of_pos (by simpa using h), List.map_cons, List.map_cons,
          List.sum_cons, List.sum_cons, ih]

/-- The printed counts add up to all counts. -/
theorem sum_printedRows (s : Stats) : (s.printedRows.map fun row => row.count.toNat).sum =
    ∑ i : Fin 256, (s.perType (UInt8.ofNat i.val)).toNat := by
  rw [((printedRows_perm s).map _).sum_eq, sum_filter_counts, List.map_ofFn, List.sum_ofFn]
  rfl

end Stats
end ItchParser
