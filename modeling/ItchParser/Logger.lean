import ItchParser.Lib.Machine
import Mathlib.Algebra.Group.Nat.Defs
import Mathlib.Data.List.Infix
import Mathlib.Logic.Function.Basic

/-!
# LockFreeLogger: the ring between one producer and the drain thread

The model of `Logger.hpp` as a step machine. Three threads share the logger: the producer calls
`log`, the owner calls `start` and `stop`, and `start` spawns the drain thread. One step is one load
or store of a shared atomic, one write or read of a field of a ring slot, or one call to the
operating system. Local computation belongs to the step before it. The events choose which thread
moves next, so a list of events is one interleaving; a thread that cannot move stays where it is.

The counters are free-running machine words. `accepted`, `drained` and `published` record what has
happened; no step of the code depends on them. Which calls have returned, and what happened since a
`stop` began, is read off the events of a run (`ItchParser.Logger.Calls`).
-/

namespace ItchParser

open Machine

/-- The levels, in the order of their numbers. -/
inductive LogLevel where
  | Trace
  | Debug
  | Info
  | Warn
  | Error
  | Fatal
  deriving DecidableEq, Repr

/-- `std::to_underlying`. -/
def LogLevel.toUnderlying : LogLevel → UInt8
  | Trace => 0
  | Debug => 1
  | Info => 2
  | Warn => 3
  | Error => 4
  | Fatal => 5

/-- The characters of a C string: the bytes before the first NUL. -/
def cString (bytes : List UInt8) : List UInt8 :=
  bytes.takeWhile fun c => c ≠ 0

/-- A slot of the ring. -/
structure LogEntry where
  timestampNs : UInt64
  level : LogLevel
  tag : Vector UInt8 7
  message : Vector UInt8 240
  deriving DecidableEq

/-- The arguments of one `log` call. The tag is the characters of the string literal. -/
structure LogCall where
  level : LogLevel
  tag : List UInt8
  msg : List UInt8
  deriving DecidableEq

/-- What an entry says, without the bytes behind its strings. -/
structure LogRecord where
  timestampNs : UInt64
  level : LogLevel
  tag : List UInt8
  text : List UInt8
  deriving DecidableEq

/-- The record that a slot holds. -/
def LogEntry.record (e : LogEntry) : LogRecord :=
  ⟨e.timestampNs, e.level, cString e.tag.toList, cString e.message.toList⟩

/-- The entry that a call leaves behind: at most 6 characters of the tag and 239 of the message. -/
def LogCall.record (call : LogCall) (now : UInt64) : LogRecord :=
  ⟨now, call.level, cString (call.tag.take 6), cString (call.msg.take 239)⟩

/-- Copies at most 6 characters and fills the rest with NULs. -/
def copyTag (src : List UInt8) : Vector UInt8 7 :=
  ⟨(src.take 6 ++ List.replicate (7 - min 6 src.length) 0).toArray, by
    rw [List.size_toArray, List.length_append, List.length_take, List.length_replicate]
    omega⟩

/-- Copies at most 239 bytes and a NUL; the bytes behind it stay. -/
def copyMsg (dst : Vector UInt8 240) (src : List UInt8) : Vector UInt8 240 :=
  ⟨(src.take 239 ++ 0 :: dst.toList.drop (min 239 src.length + 1)).toArray, by
    rw [List.size_toArray, List.length_append, List.length_take, List.length_cons,
      List.length_drop, Vector.length_toList]
    omega⟩

/-- The capacity of a ring, which the constructor checks to be a power of two. -/
structure RingLayout where
  capacity : UInt64
  bits : Nat
  capacity_eq : capacity.toNat = 2 ^ bits

/-- `mask_`. -/
def RingLayout.mask (L : RingLayout) : UInt64 :=
  L.capacity - 1

/-- The ring index of a position. -/
def RingLayout.slot (L : RingLayout) (k : UInt64) : UInt64 :=
  k &&& L.mask

/-- `kBatch`. -/
def kBatch : Nat := 64

/-- Where the producer is in `log`, with its local variables. `now` is what it stored as the
timestamp. -/
inductive Producer where
  | idle
  | loadMinLevel (call : LogCall)
  | loadHead (call : LogCall)
  | loadTail (call : LogCall) (h : UInt64)
  | addDropped (call : LogCall)
  | writeTimestamp (call : LogCall) (h : UInt64)
  | writeLevel (call : LogCall) (h now : UInt64)
  | writeTag (call : LogCall) (h now : UInt64)
  | writeMessage (call : LogCall) (h now : UInt64)
  | storeHead (call : LogCall) (h now : UInt64)

/-- The batch that the drain thread works on: whether it is in the loop after `running_` went false,
the tail it loaded, the number of entries to read, and the entries it has read. -/
structure Batch where
  final : Bool
  t : UInt64
  count : Nat
  entries : List LogEntry

/-- The position of the entry that is read next, `t + i`. -/
def Batch.position (b : Batch) : UInt64 :=
  b.t + UInt64.ofNat b.entries.length

/-- Where the drain thread is in `drain_loop`. -/
inductive Drain where
  | absent
  | loadRunning
  | loadHead (final : Bool)
  | loadTail (final : Bool) (h : UInt64)
  | readTimestamp (b : Batch)
  | readLevel (b : Batch) (timestamp : UInt64)
  | readTag (b : Batch) (timestamp : UInt64) (level : LogLevel)
  | readMessage (b : Batch) (timestamp : UInt64) (level : LogLevel) (tag : Vector UInt8 7)
  | writeBatch (b : Batch)
  | storeTail (b : Batch)
  | finished

/-- Where the owner is in `start` or `stop`. -/
inductive Owner where
  | idle
  | loadRunning
  | openFile
  | storeRunning
  | spawn
  | exchangeRunning
  | join
  | closeFile
  deriving DecidableEq

/-- The members of the logger, where its three threads are, and what they have done so far. -/
structure LoggerState where
  head : UInt64
  tail : UInt64
  dropped : UInt64
  minLevel : UInt8
  running : Bool
  /-- `fd_ >= 0`. -/
  opened : Bool
  ring : UInt64 → LogEntry
  producer : Producer
  drain : Drain
  owner : Owner
  /-- What the accepted calls said, in order. -/
  accepted : List LogRecord
  /-- What was written to the file. -/
  drained : List LogEntry
  /-- How many entries `tail_` counts. -/
  published : Nat

/-- Who moves next, and what the outside world adds. -/
inductive LogEvent where
  | log (call : LogCall)
  | produce (now : UInt64)
  | drain
  | start
  | stop
  | own (opens : Bool)
  | setMinLevel (level : LogLevel)

namespace LoggerState

/-- A new logger: zeroed slots and counters, no drain thread. -/
def create : LoggerState where
  head := 0
  tail := 0
  dropped := 0
  minLevel := LogLevel.Info.toUnderlying
  running := false
  opened := false
  ring := fun _ => ⟨0, .Trace, Vector.replicate 7 0, Vector.replicate 240 0⟩
  producer := .idle
  drain := .absent
  owner := .idle
  accepted := []
  drained := []
  published := 0

/-- Writes a field of the slot of position `k`. -/
def writeSlot (L : RingLayout) (s : LoggerState) (k : UInt64) (f : LogEntry → LogEntry) :
    LoggerState :=
  { s with ring := Function.update s.ring (L.slot k) (f (s.ring (L.slot k))) }

/-- The next step of the `log` call in progress. `now` is what the clock shows. -/
def produce (L : RingLayout) (s : LoggerState) (now : UInt64) : LoggerState :=
  match s.producer with
  | .idle => s
  | .loadMinLevel call =>
      { s with
        producer := if call.level.toUnderlying < s.minLevel then .idle else .loadHead call }
  | .loadHead call => { s with producer := .loadTail call s.head }
  | .loadTail call h =>
      { s with
        producer :=
          if h - s.tail ≥ L.capacity then .addDropped call else .writeTimestamp call h }
  | .addDropped _ => { s with producer := .idle, dropped := s.dropped + 1 }
  | .writeTimestamp call h =>
      { s.writeSlot L h fun e => { e with timestampNs := now } with
        producer := .writeLevel call h now }
  | .writeLevel call h now =>
      { s.writeSlot L h fun e => { e with level := call.level } with
        producer := .writeTag call h now }
  | .writeTag call h now =>
      { s.writeSlot L h fun e => { e with tag := copyTag call.tag } with
        producer := .writeMessage call h now }
  | .writeMessage call h now =>
      { s.writeSlot L h fun e => { e with message := copyMsg e.message call.msg } with
        producer := .storeHead call h now }
  | .storeHead call h now =>
      { s with
        producer := .idle
        head := h + 1
        accepted := s.accepted ++ [call.record now] }

/-- After both counters are loaded: with nothing to drain the first loop sleeps and tests `running_`
again, and the second loop ends. -/
def nextBatch (final : Bool) (h t : UInt64) : Drain :=
  if t = h then
    if final then .finished else .loadRunning
  else .readTimestamp ⟨final, t, min kBatch (h - t).toNat, []⟩

/-- After one more entry of the batch is read. -/
def nextEntry (b : Batch) (e : LogEntry) : Drain :=
  let b := { b with entries := b.entries ++ [e] }
  if b.entries.length < b.count then .readTimestamp b else .writeBatch b

/-- The next step of the drain thread. -/
def drainStep (L : RingLayout) (s : LoggerState) : LoggerState :=
  match s.drain with
  | .absent => s
  | .loadRunning => { s with drain := .loadHead (!s.running) }
  | .loadHead final => { s with drain := .loadTail final s.head }
  | .loadTail final h => { s with drain := nextBatch final h s.tail }
  | .readTimestamp b =>
      { s with drain := .readLevel b (s.ring (L.slot b.position)).timestampNs }
  | .readLevel b timestamp =>
      { s with drain := .readTag b timestamp (s.ring (L.slot b.position)).level }
  | .readTag b timestamp level =>
      { s with drain := .readMessage b timestamp level (s.ring (L.slot b.position)).tag }
  | .readMessage b timestamp level tag =>
      { s with
        drain := nextEntry b ⟨timestamp, level, tag, (s.ring (L.slot b.position)).message⟩ }
  | .writeBatch b =>
      { s with
        drain := .storeTail b
        drained := if s.opened then s.drained ++ b.entries else s.drained }
  | .storeTail b =>
      { s with
        drain := if b.final then .loadHead true else .loadRunning
        tail := b.t + UInt64.ofNat b.count
        published := s.published + b.count }
  | .finished => s

/-- The next step of the owner. `opens` says whether `open` succeeds. -/
def ownerStep (s : LoggerState) (opens : Bool) : LoggerState :=
  match s.owner with
  | .idle => s
  | .loadRunning => { s with owner := if s.running then .idle else .openFile }
  | .openFile => { s with opened := opens, owner := if opens then .storeRunning else .idle }
  | .storeRunning => { s with running := true, owner := .spawn }
  | .spawn => { s with drain := .loadRunning, owner := .idle }
  | .exchangeRunning =>
      { s with running := false, owner := if s.running then .join else .idle }
  | .join =>
      match s.drain with
      | .finished => { s with drain := .absent, owner := .closeFile }
      | _ => s
  | .closeFile => { s with opened := false, owner := .idle }

/-- The producer is not in a `log` call. -/
def producerIdle (s : LoggerState) : Bool :=
  match s.producer with
  | .idle => true
  | _ => false

/-- One step of the thread that an event names. A call begins when its thread is in no call. -/
def step (L : RingLayout) (s : LoggerState) : LogEvent → LoggerState
  | .log call =>
      match s.producer with
      | .idle => { s with producer := .loadMinLevel call }
      | _ => s
  | .produce now => s.produce L now
  | .drain => s.drainStep L
  | .start =>
      match s.owner with
      | .idle => { s with owner := .loadRunning }
      | _ => s
  | .stop =>
      match s.owner with
      | .idle => { s with owner := .exchangeRunning }
      | _ => s
  | .own opens => s.ownerStep opens
  | .setMinLevel level => { s with minLevel := level.toUnderlying }

/-- The state after the events of one interleaving. -/
abbrev after (L : RingLayout) (events : List LogEvent) : LoggerState :=
  run (step L) create events

end LoggerState
end ItchParser
