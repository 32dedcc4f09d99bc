import ItchParser.Properties.Framing

/-!
# Resuming behind a cut

`run` returns the number of bytes it has consumed, so that its caller can go on with the rest of
the buffer once more bytes have arrived. The loop moves the cursor past a length prefix before it
knows whether the payload fits. On a buffer that is cut behind a length prefix it therefore counts
the two bytes of the prefix as consumed, and the next run takes the payload for a prefix.
-/

namespace ItchParser

open ItchParser.Frame

namespace Parser

variable {σ : Type} {on : σ → Call → σ} {x y tail : List UInt8} {fs : List Frame}

/-- Behind its complete frames the buffer has a length prefix, whose payload is not complete. -/
def OpenPrefix (x : List UInt8) : Prop :=
  ∃ fs tail, Splits x fs tail ∧ 2 ≤ tail.length

/-- A run on `x` returns the size of the complete frames at the start of `x`, and a second run on
the bytes that the first did not consume and on `y` behind them leaves the engine that a single run
on `x` and `y` leaves. -/
def Resumes (on : σ → Call → σ) (x y : List UInt8) (engine : σ) (stats : Stats) : Prop :=
  let first := run on x engine stats
  (∀ fs tail, Splits x fs tail → first.cursor = (stream fs).length) ∧
    (run on (x.drop first.cursor ++ y) first.engine first.stats).engine =
      (run on (x ++ y) engine stats).engine

/-- A prefix is open when the tail has two bytes. -/
theorem openPrefix_iff (h : Splits x fs tail) : OpenPrefix x ↔ 2 ≤ tail.length := by
  constructor
  · rintro ⟨gs, tail', h', hlong⟩
    rwa [(h.unique h').2]
  · exact fun hlong => ⟨fs, tail, h, hlong⟩

/-- Without an open prefix the cursor stops behind the last complete frame. -/
theorem run_cursor (h : Splits x fs tail) (hshort : ¬ 2 ≤ tail.length) (engine : σ)
    (stats : Stats) : (run on x engine stats).cursor = (stream fs).length := by
  rw [(run_splits h engine stats).1, if_neg hshort, Nat.add_zero]

/-- A run from the tail of a buffer does what is missing of a run on the whole. -/
theorem run_tail (h : Splits x fs tail) (y : List UInt8) (engine : σ) (stats stats' : Stats) :
    (run on (tail ++ y) (run on x engine stats).engine stats').engine =
      (run on (x ++ y) engine stats).engine := by
  obtain ⟨gs, tail', h'⟩ := exists_splits (tail ++ y)
  rw [(run_splits h' _ stats').2.1, (run_splits h engine stats).2.1,
    (run_splits (h.append h') engine stats).2.1, List.filterMap_append, Machine.run_append]

/-- A run can be resumed exactly when the buffer does not end in an open length prefix. -/
theorem resumes_iff (on : σ → Call → σ) (x y : List UInt8) (engine : σ) (stats : Stats) :
    Resumes on x y engine stats ↔ ¬ OpenPrefix x := by
  obtain ⟨fs, tail, h⟩ := exists_splits x
  rw [openPrefix_iff h]
  constructor
  · intro hresumes hlong
    -- the cursor is two bytes behind the complete frames
    have hcursor := hresumes.1 fs tail h
    rw [(run_splits h engine stats).1, if_pos hlong] at hcursor
    omega
  · intro hshort
    have hcursor : (run on x engine stats).cursor = (stream fs).length :=
      run_cursor h hshort engine stats
    refine ⟨fun gs tail' h' => ?_, ?_⟩
    · rw [hcursor, (h.unique h').1]
    · have hdrop : x.drop (run on x engine stats).cursor = tail := by
        rw [hcursor, h.eq, List.drop_left]
      show (run on (x.drop (run on x engine stats).cursor ++ y) _ _).engine = _
      rw [hdrop]
      exact run_tail h y engine stats _

/-- An add order message that arrives behind its length prefix is lost: the next run reads its
first two bytes as a length of 16640. -/
theorem cutPrefix_not_resumed :
    ¬ Resumes MatchingEngine.step [0, 36]
      [65, 0, 1, 0, 0, 0, 0, 0, 0, 0, 0, 0, 0, 0, 0, 0, 0, 0, 7, 66, 0, 0, 0, 100,
        65, 65, 80, 76, 32, 32, 32, 32, 0, 0, 39, 16]
      (MatchingEngine.create 4 4) ⟨fun _ => 0, 0, 0, 0, 0, 0⟩ := by
  intro h
  have horders := congrArg (fun e : MatchingEngine => e.stats.addOrders) h.2
  exact absurd horders (by decide +kernel)

end Parser
end ItchParser
