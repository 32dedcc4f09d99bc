import ItchParser.Parser.Events
import ItchParser.Properties.Framing

/-!
# The round trip of events

A buffer of encoded events, padded or not, makes the parser call the engine once for every event, in
order and with the values that the events have.
-/

namespace ItchParser

open ItchParser.Frame

namespace Parser

variable {σ : Type}

/-- A buffer of messages consists of their frames and nothing else. -/
theorem splits_messages (ms : List Message) :
    Splits (stream (ms.map Message.frame)) (ms.map Message.frame) [] :=
  ⟨(List.append_nil _).symm, incomplete_of_short Nat.zero_lt_two⟩

/-- Every message of the list is a call. -/
theorem filterMap_call_messages (ms : List Message) :
    (ms.map Message.frame).filterMap call = ms.map fun m => m.event.call := by
  rw [List.filterMap_map, ← List.filterMap_eq_map]
  exact List.filterMap_congr fun m _ => m.call_frame.2

/-- A run on the messages of any events makes exactly their calls, whatever the engine does with
them, goes to the end of the buffer and counts no error. -/
theorem run_messages (on : σ → Call → σ) (ms : List Message) (engine : σ) (stats : Stats) :
    (run on (stream (ms.map Message.frame)) engine stats).engine =
      Machine.run on engine (ms.map fun m => m.event.call) ∧
    (run on (stream (ms.map Message.frame)) engine stats).cursor =
      (stream (ms.map Message.frame)).length ∧
    (run on (stream (ms.map Message.frame)) engine stats).stats.parseErrors = stats.parseErrors ∧
    (run on (stream (ms.map Message.frame)) engine stats).stats.truncatedMessages =
      stats.truncatedMessages := by
  obtain ⟨hcursor, hengine, hstats⟩ := run_splits (splits_messages ms) engine stats
  have hwell : ∀ f ∈ ms.map Message.frame, f.WellFormed := by
    intro f hf
    obtain ⟨m, -, rfl⟩ := List.mem_map.mp hf
    exact m.call_frame.1
  obtain ⟨huntyped, htruncated⟩ := forall_wellFormed_iff.mp hwell
  refine ⟨?_, hcursor, ?_, ?_⟩
  · rw [hengine, filterMap_call_messages]
  · rw [hstats, if_neg (by decide), parseErrors_foldl, huntyped]
    exact UInt64.add_zero _
  · rw [hstats, if_neg (by decide), truncatedMessages_foldl, htruncated]
    exact UInt64.add_zero _

end Parser
end ItchParser
