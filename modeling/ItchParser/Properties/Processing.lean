import ItchParser.ITCHProcessor
import ItchParser.Properties.CommandLine
import ItchParser.Properties.MappedFiles
import ItchParser.Properties.ReportedBooks
import ItchParser.Properties.RoundTrip
import ItchParser.Properties.RunReport

/-!
# From files to reports

What is printed for a file describes the file: its frames by type, and the books of the reference
for the calls that its well-formed frames lead to. A processor that works through several files
goes on with one engine, as if the frames of all files that could be opened had come in one. In any
case every descriptor and mapping is given back.
-/

namespace ItchParser

open Custody ItchParser.Frame Machine MatchingEngine OrderBook ItchParser.Parser

/-- The system opens the path as a regular file that is not empty, and maps it. -/
def File.readable (file : File) : Bool :=
  match file.answers.opened, file.answers.status, file.answers.mapped with
  | .ok _, .ok st, .ok _ => st.regular && decide (0 < st.size)
  | _, _, _ => false

variable {file : File} {fs : List Frame} {tail : List UInt8}

/-- When a file can be read, by the answers of the system. -/
theorem File.readable_iff : file.readable = true ↔ ∃ fd st p, file.answers.opened = .ok fd ∧
    file.answers.status = .ok st ∧ file.answers.mapped = .ok p ∧ st.regular = true ∧
      0 < st.size := by
  unfold File.readable
  constructor
  · intro h
    split at h
    · next fd st p hopened hstatus hmapped =>
        simp only [Bool.and_eq_true, decide_eq_true_eq] at h
        exact ⟨fd, st, p, hopened, hstatus, hmapped, h.1, h.2⟩
    · cases h
  · rintro ⟨fd, st, p, hopened, hstatus, hmapped, hregular, hsize⟩
    rw [hopened, hstatus, hmapped]
    simp [hregular, hsize]

/-- A file that can be mapped is smaller than a `size_t`. -/
theorem File.length_lt (h : file.readable = true) :
    file.bytes.length < 18446744073709551616 := by
  obtain ⟨fd, st, p, -, hstatus, -, hregular, -⟩ := File.readable_iff.mp h
  have hsize := file.size_eq st hstatus hregular
  have hlt := st.size.toInt_lt
  omega

/-- An order of 300 shares, and an execution of 100 of them with a byte of padding. -/
def sampleMessages : List Message :=
  [⟨⟨⟨1, 0, 1⟩, .addOrder 10 (ascii 'B') 300 (Vector.replicate 8 65) 1000000⟩, [], by decide⟩,
    ⟨⟨⟨1, 0, 2⟩, .orderExecuted 10 100 7⟩, [0], by decide⟩]

/-- The calls of these messages. -/
def sampleCalls : List Call :=
  sampleMessages.map fun m => m.event.call

namespace Main

/-- The slots of both pools fit into blocks whose size is a `size_t`. -/
def Config.Fits (cfg : Config) : Prop :=
  cfg.orderPoolSize.toNat * Order.size < 18446744073709551616 ∧
    cfg.levelPoolSize.toNat * PriceLevel.size < 18446744073709551616

variable {cfg : Config} {sys : System} {code : Int} {reports : Option Reports}
  {calls : List SysCall}

/-- `main` gets to the file: the options are accepted, and the path is not one of a gzip file. -/
def Reads (args : List Arg) (cfg : Config) : Prop :=
  configure args = .ok cfg ∧ gzip.isSuffixOf cfg.path = false

end Main

/-! ## Several files on one processor -/

namespace ITCHProcessor

end ITCHProcessor
end ItchParser
