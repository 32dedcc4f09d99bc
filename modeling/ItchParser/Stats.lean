import Mathlib.Logic.Function.Basic
import ItchParser.Types

/-!
# Stats: what a parse run counts

The counters of `Stats.hpp`. They are 64-bit words that wrap, and the array with one slot for every
byte is a function. The start and end times are left out, since nothing but the printed report uses
them.
-/

namespace ItchParser

/-- The counters of a parse run. -/
structure Stats where
  perType : UInt8 → UInt64
  totalMessages : UInt64
  totalBytes : UInt64
  totalFramingBytes : UInt64
  parseErrors : UInt64
  truncatedMessages : UInt64

namespace Stats

/-- All counters start at zero again. -/
def reset (s : Stats) : Stats :=
  { s with
    perType := fun _ => 0
    totalMessages := 0
    totalBytes := 0
    totalFramingBytes := 0
    parseErrors := 0
    truncatedMessages := 0 }

/-- `on_message`: one message of a type with its payload and the two bytes of its prefix. -/
def onMessage (s : Stats) (type : UInt8) (payloadSize : UInt32) : Stats :=
  { s with
    perType := Function.update s.perType type (s.perType type + 1)
    totalMessages := s.totalMessages + 1
    totalBytes := s.totalBytes + payloadSize.toUInt64
    totalFramingBytes := s.totalFramingBytes + 2 }

/-- `on_parse_error`. -/
def onParseError (s : Stats) : Stats :=
  { s with parseErrors := s.parseErrors + 1 }

/-- `on_truncated`. -/
def onTruncated (s : Stats) : Stats :=
  { s with truncatedMessages := s.truncatedMessages + 1 }

end Stats
end ItchParser
