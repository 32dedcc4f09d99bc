import ItchParser.CommandLine
import ItchParser.EngineReport
import ItchParser.MMapFile
import ItchParser.Parser
import ItchParser.StatsReport

/-!
# ITCHProcessor: from a file to the reports

The model of `ITCHProcessor::run` and of `main`, which repeats it for an engine of its own. The
logger that both start and stop has a model of its own and nothing to do with the reports; here it
opens and closes its file. `main` asks the system for memory and for a thread, and the answers are
arguments. For `ITCHProcessor` they are taken to be given. The texts on stderr are left out, and
printing succeeds.
-/

namespace ItchParser

/-- A path as the system presents it: the answers to the calls that open it, and the bytes that a
mapping of it shows, as many as `fstat` says. -/
structure File where
  answers : Answers
  bytes : List UInt8
  size_eq : ∀ st, answers.status = .ok st → st.regular = true → st.size.toInt = bytes.length

/-- The reports on stdout. -/
structure Reports where
  run : Stats.Report
  engine : EngineReport

/-- What is common to `ITCHProcessor::run` and `main`: the file is mapped, parsed and reported. The
result is `none` when it cannot be opened. Behind it are the system calls that come before the
logger is started, and those of the destructors behind its stop. -/
def processFile (engine : MatchingEngine) (stats : Stats) (file : File) :
    Option (MatchingEngine × Stats × Reports) × List SysCall × List SysCall :=
  match MMapFile.openFile file.answers with
  | (.error _, calls) => (none, calls, [])
  | (.ok mapped, calls) =>
      let (mmap, moved) := mapped.moveConstruct
      let progress := Parser.run MatchingEngine.step file.bytes engine stats.reset
      (some (progress.engine, progress.stats,
          ⟨progress.stats.printReport, progress.engine.engineReport⟩),
        calls ++ mmap.adviseSequential, mmap.release.2 ++ moved.release.2)

/-- An engine and the statistics of the file that was parsed last. -/
structure ITCHProcessor where
  engine : MatchingEngine
  stats : Stats

namespace ITCHProcessor

/-- An engine with pools of the default sizes, and nothing parsed yet. -/
def create : ITCHProcessor where
  engine := MatchingEngine.create Main.kOrderPoolSize Main.kPriceLevelPoolSize
  stats := ⟨fun _ => 0, 0, 0, 0, 0, 0⟩

/-- `run`: the result, the processor afterwards and the reports. -/
def run (p : ITCHProcessor) (file : File) : Bool × ITCHProcessor × Option Reports :=
  match (processFile p.engine p.stats file).1 with
  | none => (false, p, none)
  | some (engine, stats, reports) => (true, ⟨engine, stats⟩, some reports)

end ITCHProcessor

namespace Main

/-- `.gz`. -/
def gzip : Arg := bytesOf ['.', 'g', 'z']

/-- What the system answers to `main`: whether there is memory for the ring of the logger, for the
blocks of the two pools and for the order index, whether the log file can be opened, whether there
is a thread for the logger, and memory for what the parse creates. With `false` an exception leaves
`main`. -/
structure System where
  ring : Bool
  orderBlock : Bool
  levelBlock : Bool
  orderIndex : Bool
  log : Except Errno Nat
  thread : Bool
  parse : Bool

/-- How `main` ends: with an exit code, its reports and the system calls that it has made; by
`std::terminate`, because an exception leaves it; or with undefined behaviour. -/
inductive Outcome where
  | exit (code : Int) (reports : Option Reports) (calls : List SysCall)
  | terminate
  | undefined

/-- `capacity * sizeof(T)` does not wrap around. If it does, the constructor of the pool links slots
behind its block. -/
def blockFits (capacity : UInt64) (size : Nat) : Bool :=
  capacity.toNat * size < 18446744073709551616

/-- The constructors of the logger and of the engine. -/
def construct (cfg : Config) (sys : System) : Except Outcome MatchingEngine :=
  if !sys.ring then .error .terminate
  else if !sys.orderBlock then .error .terminate
  else if !blockFits cfg.orderPoolSize Order.size then .error .undefined
  else if !sys.levelBlock then .error .terminate
  else if !blockFits cfg.levelPoolSize PriceLevel.size then .error .undefined
  else if !sys.orderIndex then .error .terminate
  else .ok (MatchingEngine.create cfg.orderPoolSize cfg.levelPoolSize)

end Main
end ItchParser
