import ItchParser.Lib.Printf
import ItchParser.Logger

/-!
# Formatting a batch

`drain_loop` formats the entries of a batch one behind the other into `scratch`, each with a limit
of `sizeof(LogEntry)` bytes, and writes what it has formatted to the file. A line that reaches the
limit loses its end, the newline included, and its NUL is written in place of it (`printed`).
-/

namespace ItchParser

open Printf

/-- `level_to_str`. -/
def LogLevel.toStr : LogLevel → List UInt8
  | Trace => chars ['T', 'R', 'A', 'C', 'E']
  | Debug => chars ['D', 'E', 'B', 'U', 'G']
  | Info => chars ['I', 'N', 'F', 'O', ' ']
  | Warn => chars ['W', 'A', 'R', 'N', ' ']
  | Error => chars ['E', 'R', 'R', 'O', 'R']
  | Fatal => chars ['F', 'A', 'T', 'A', 'L']

/-- `sizeof(LogEntry)`. -/
def LogEntry.size : Nat := 256

/-- The format `%020llu %s [%.*s] %.*s\n` with its arguments. -/
def LogEntry.format (e : LogEntry) : List Directive :=
  [.unsigned 20 e.timestampNs.toNat, .text [' '], .string e.level.toStr, .text [' ', '['],
    .stringOf 6 e.tag.toList, .text [']', ' '], .stringOf 240 e.message.toList, .text ['\n']]

/-- The array `scratch`, and how far `out` has come in it. -/
structure Scratch where
  buffer : Buffer
  out : Nat

/-- The body of the loop over the entries of a batch. -/
def Scratch.append (s : Scratch) (e : LogEntry) : Scratch :=
  let (buffer, n) := snprintf s.buffer s.out LogEntry.size (expand e.format)
  if n ≤ 0 then { s with buffer := buffer }
  else
    -- of a longer line there are 255 bytes and a NUL, and `out` moves over all of them
    { buffer := buffer
      out := s.out + if n > LogEntry.size then LogEntry.size else n }

/-- The loop over the entries of a batch. -/
def formatBatch (buffer : Buffer) (entries : List LogEntry) : Scratch :=
  entries.foldl Scratch.append ⟨buffer, 0⟩

/-! ## What is written of a record -/

/-- The whole line of a record. -/
def LogRecord.line (r : LogRecord) : List UInt8 :=
  decimal 20 r.timestampNs.toNat ++ chars [' '] ++ r.level.toStr ++ chars [' ', '['] ++
    r.tag.take 6 ++ chars [']', ' '] ++ r.text.take 240 ++ chars ['\n']

/-- The bytes that the file gets for a record. -/
def LogRecord.printed (r : LogRecord) : List UInt8 :=
  if r.line.length < LogEntry.size then r.line
  else r.line.take (LogEntry.size - 1) ++ [0]

variable {s : Scratch} {e : LogEntry} {r : LogRecord}

/-- No level name contains a NUL. -/
theorem takeWhile_toStr (level : LogLevel) :
    (level.toStr.takeWhile fun c => c ≠ 0) = level.toStr := by
  cases level <;> decide

/-- The line depends on the strings of an entry, not on the bytes behind their NULs. -/
theorem expand_format (e : LogEntry) : expand e.format = e.record.line := by
  simp only [expand, LogEntry.format, List.flatMap_cons, List.flatMap_nil, Directive.expand,
    takeWhile_toStr, LogRecord.line, LogEntry.record, cString, List.append_assoc, List.append_nil]

/-- The length of a line: 31 bytes around the tag and the message. -/
theorem length_line (r : LogRecord) :
    r.line.length = 31 + min 6 r.tag.length + min 240 r.text.length := by
  have hstamp : (decimal 20 r.timestampNs.toNat).length = 20 := by
    refine length_decimal (by decide) ?_
    have := r.timestampNs.toNat_lt
    omega
  have hlevel : r.level.toStr.length = 5 := by
    cases r.level <;> rfl
  simp only [LogRecord.line, List.length_append, hstamp, hlevel, List.length_take, chars,
    List.length_map, List.length_cons, List.length_nil]
  omega

/-- One entry more. -/
theorem front_append (s : Scratch) (e : LogEntry) :
    (s.append e).buffer.front (s.append e).out = s.buffer.front s.out ++ e.record.printed := by
  have hlength := length_line e.record
  have hpositive : ¬ e.record.line.length ≤ 0 := by omega
  simp only [Scratch.append, snprintf_length, expand_format, if_neg hpositive]
  rw [LogRecord.printed]
  -- a line of exactly 256 bytes is not clamped, but it has lost its newline
  by_cases hfits : e.record.line.length < LogEntry.size
  · have hwhole : e.record.line.take (LogEntry.size - 1) = e.record.line :=
      List.take_of_length_le (by omega)
    rw [if_neg (by omega), if_pos hfits,
      front_snprintf (by decide) (Nat.le_refl _) (by omega), hwhole, List.take_left]
  · have hk : (if e.record.line.length > LogEntry.size then LogEntry.size
        else e.record.line.length) = LogEntry.size := by
      split <;> omega
    have hwhole : (e.record.line.take (LogEntry.size - 1) ++ [0]).length ≤ LogEntry.size := by
      have hsize : 0 < LogEntry.size := by decide
      rw [List.length_append, List.length_take, List.length_singleton]
      omega
    rw [hk, if_neg hfits, front_snprintf (by decide) (by omega) (Nat.le_refl _),
      List.take_of_length_le hwhole]

/-- An entry takes no more than its reserve. -/
theorem out_append (s : Scratch) (e : LogEntry) :
    (s.append e).out ≤ s.out + LogEntry.size := by
  unfold Scratch.append
  simp only
  split
  · exact Nat.le_add_right _ _
  · split <;> simp only <;> omega

/-- An entry is formatted within its reserve. -/
theorem stores_append (s : Scratch) (e : LogEntry) : ∀ o ∈ (s.append e).buffer.stores,
    o ∈ s.buffer.stores ∨ o < s.out + LogEntry.size := by
  obtain ⟨k, hk, hstores⟩ := stores_snprintf s.buffer s.out LogEntry.size (expand e.format)
  have hbuffer : (s.append e).buffer =
      (snprintf s.buffer s.out LogEntry.size (expand e.format)).1 := by
    unfold Scratch.append
    simp only
    split <;> rfl
  rw [hbuffer, hstores]
  intro o ho
  refine (List.mem_append.mp ho).imp_right fun ho => ?_
  have hrange := List.mem_range'_1.mp ho
  omega

/-- What formatting a batch leaves in `scratch`, and where it stored. -/
theorem foldl_append (entries : List LogEntry) (s : Scratch) :
    (entries.foldl Scratch.append s).buffer.front (entries.foldl Scratch.append s).out =
        s.buffer.front s.out ++ entries.flatMap (fun e => e.record.printed) ∧
      ∀ o ∈ (entries.foldl Scratch.append s).buffer.stores,
        o ∈ s.buffer.stores ∨ o < s.out + LogEntry.size * entries.length := by
  induction entries generalizing s with
  | nil => exact ⟨(List.append_nil _).symm, fun o ho => .inl ho⟩
  | cons e entries ih =>
      obtain ⟨hfront, hstores⟩ := ih (s.append e)
      have hout := out_append s e
      rw [List.foldl_cons, hfront, front_append, List.flatMap_cons, List.append_assoc]
      refine ⟨rfl, fun o ho => ?_⟩
      rw [List.length_cons, Nat.mul_succ]
      rcases hstores o ho with ho | ho
      · refine (stores_append s e o ho).imp_right fun ho => ?_
        omega
      · right
        omega

/-- A batch is formatted into the bytes of its records, one behind the other. -/
theorem front_formatBatch (buffer : Buffer) (entries : List LogEntry) :
    (formatBatch buffer entries).buffer.front (formatBatch buffer entries).out =
      entries.flatMap fun e => e.record.printed :=
  (foldl_append entries ⟨buffer, 0⟩).1

/-- Formatting a batch of at most `kBatch` entries stays inside `scratch`. -/
theorem stores_formatBatch {buffer : Buffer} {entries : List LogEntry}
    (hlength : entries.length ≤ kBatch)
    (hbuffer : ∀ o ∈ buffer.stores, o < LogEntry.size * kBatch) :
    ∀ o ∈ (formatBatch buffer entries).buffer.stores, o < LogEntry.size * kBatch := by
  intro o ho
  have hsize := Nat.mul_le_mul_left LogEntry.size hlength
  rcases (foldl_append entries ⟨buffer, 0⟩).2 o ho with ho | ho
  · exact hbuffer o ho
  · rw [Nat.zero_add] at ho
    exact ho.trans_le hsize

end ItchParser
