import ItchParser.Lib.Strtoull
import ItchParser.Types

/-!
# CommandLine: the arguments of `main`

The model of the option loop of `main.cpp` with `parse_size` and `is_pow2`. An argument is the
characters before its NUL. The texts on stderr are left out, except which error they report.
-/

namespace ItchParser

/-- The bytes of a string literal. -/
def bytesOf (cs : List Char) : List UInt8 := cs.map ascii

namespace Main

/-- An argument: its bytes before the NUL. -/
abbrev Arg := List UInt8

/-- The value of a size, if it is one. -/
def parseSize (s : Arg) : Option UInt64 :=
  let conversion := Strtoull.strtoull s
  if conversion.outOfRange || conversion.endOffset == 0 || conversion.endOffset != s.length ||
      conversion.value == 0 then none
  else some conversion.value

/-- `is_pow2`. -/
def isPow2 (n : UInt64) : Bool := n > 0 && (n &&& (n - 1)) == 0

/-- `kOrderPoolSize`. -/
def kOrderPoolSize : UInt64 := 16777216

/-- `kPriceLevelPoolSize`. -/
def kPriceLevelPoolSize : UInt64 := 4194304

/-- What the arguments choose, with the defaults. -/
structure Config where
  path : Arg := []
  logPath : Arg := bytesOf ['i', 't', 'c', 'h', '.', 'l', 'o', 'g']
  orderPoolSize : UInt64 := kOrderPoolSize
  levelPoolSize : UInt64 := kPriceLevelPoolSize
  deriving DecidableEq

/-- `--help`. -/
def help : Arg := bytesOf ['-', '-', 'h', 'e', 'l', 'p']

/-- `-h`. -/
def shortHelp : Arg := bytesOf ['-', 'h']

/-- `--order-pool-size`. -/
def orderPoolSizeOption : Arg :=
  bytesOf ['-', '-', 'o', 'r', 'd', 'e', 'r', '-', 'p', 'o', 'o', 'l', '-', 's', 'i', 'z', 'e']

/-- `--level-pool-size`. -/
def levelPoolSizeOption : Arg :=
  bytesOf ['-', '-', 'l', 'e', 'v', 'e', 'l', '-', 'p', 'o', 'o', 'l', '-', 's', 'i', 'z', 'e']

/-- `--log-path`. -/
def logPathOption : Arg := bytesOf ['-', '-', 'l', 'o', 'g', '-', 'p', 'a', 't', 'h']

/-- `arg.size() >= 2 && arg[0] == '-' && arg[1] == '-'`. -/
def isLong : Arg → Bool
  | a :: b :: _ => a == ascii '-' && b == ascii '-'
  | _ => false

/-- How the loop over the arguments ends. -/
inductive Parsed where
  | config (cfg : Config)
  | usage
  | badSize (option : Arg)
  | unknownOption (arg : Arg)
  deriving DecidableEq

/-- A size option: the value has to be a power of two. -/
def sized (option value : Arg) (continue_ : UInt64 → Parsed) : Parsed :=
  match parseSize value with
  | none => .badSize option
  | some n => if isPow2 n then continue_ n else .badSize option

/-- The loop over the arguments. -/
def parseArgs (cfg : Config) : List Arg → Parsed
  | [] => .config cfg
  | [arg] =>
      if arg = shortHelp ∨ arg = help then .usage
      else if isLong arg then .unknownOption arg
      else .config { cfg with path := arg }
  | arg :: value :: rest =>
      if arg = shortHelp ∨ arg = help then .usage
      else if arg = orderPoolSizeOption then
        sized arg value fun n => parseArgs { cfg with orderPoolSize := n } rest
      else if arg = levelPoolSizeOption then
        sized arg value fun n => parseArgs { cfg with levelPoolSize := n } rest
      else if arg = logPathOption then parseArgs { cfg with logPath := value } rest
      else if isLong arg then .unknownOption arg
      else parseArgs { cfg with path := arg } (value :: rest)

/-- What `main` makes of its arguments before it does anything else: the exit code, or the
configuration of a run. -/
def configure (args : List Arg) : Except Int Config :=
  match parseArgs {} args with
  | .usage => .error 0
  | .badSize _ => .error 1
  | .unknownOption _ => .error 1
  | .config cfg => if cfg.path = [] then .error 1 else .ok cfg

end Main
end ItchParser
