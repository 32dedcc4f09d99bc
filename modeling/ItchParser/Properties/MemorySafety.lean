import ItchParser.Parser.Loop

/-!
# Memory safety of the parser

Every byte that `run` loads is inside the buffer, every load behind a length prefix is inside the
payload that the prefix announces, and the loop ends, because an iteration that continues has moved
the cursor by at least two bytes.
-/

namespace ItchParser

open PackedRecord ItchParser.Frame

namespace Parser

variable {σ : Type} {on : σ → Call → σ} {buf : List UInt8} {s t s' : Progress σ}

/-- A handler loads bytes of its payload only. -/
theorem handle_loads (s : Progress σ) {type : UInt8} {h : Handler}
    (hh : handlerOf type = some h) (p : Nat) (len : UInt16) :
    ∃ ls, (handle on buf h p len s).loads = s.loads ++ ls ∧
      ∀ o ∈ ls, p ≤ o ∧ o < p + len.toNat := by
  by_cases hshort : len.toNat < h.size
  · refine ⟨[], ?_, fun o ho => absurd ho List.not_mem_nil⟩
    simp [handle, checkedCast, hshort]
  · refine ⟨h.decode.offsets.map (p + ·), ?_, ?_⟩
    · simp [handle, checkedCast, hshort]
    · intro o ho
      obtain ⟨i, hi, rfl⟩ := List.mem_map.mp ho
      have hlt := offsets_lt hh i hi
      omega

/-- `dispatch` loads bytes of the payload only. -/
theorem dispatch_loads (on : σ → Call → σ) (buf : List UInt8) (s : Progress σ) (type : UInt8)
    (p : Nat) (len : UInt16) :
    ∃ ls, (dispatch on buf type p len s).loads = s.loads ++ ls ∧
      ∀ o ∈ ls, p ≤ o ∧ o < p + len.toNat := by
  unfold dispatch
  cases hh : handlerOf type with
  | none => exact ⟨[], (List.append_nil _).symm, fun o ho => absurd ho List.not_mem_nil⟩
  | some h => exact handle_loads _ hh p len

/-- An iteration loads the two bytes of the prefix and then only bytes of the payload, which lies
inside the buffer if any of them is loaded. -/
theorem iteration_loads (on : σ → Call → σ) (buf : List UInt8) (s : Progress σ) :
    ∃ ls, (iteration on buf s).progress.loads = s.loads ++ [s.cursor, s.cursor + 1] ++ ls ∧
      ∀ o ∈ ls, s.cursor + 2 ≤ o ∧
        o < s.cursor + 2 + (loadBe16 (bytesAt s.cursor 2 buf)).toNat ∧
        s.cursor + 2 + (loadBe16 (bytesAt s.cursor 2 buf)).toNat ≤ buf.length := by
  unfold iteration
  simp only
  split
  · exact ⟨[], (List.append_nil _).symm, fun o ho => absurd ho List.not_mem_nil⟩
  · rename_i hfits
    split
    · exact ⟨[], (List.append_nil _).symm, fun o ho => absurd ho List.not_mem_nil⟩
    · rename_i hne
      have hpos : 0 < (loadBe16 (bytesAt s.cursor 2 buf)).toNat := by
        refine Nat.pos_of_ne_zero fun hzero => hne ?_
        exact UInt16.toNat_inj.mp hzero
      obtain ⟨ls, hls, hbound⟩ := dispatch_loads on buf { s with
        cursor := s.cursor + 2
        loads := s.loads ++ [s.cursor, s.cursor + 1] ++ [s.cursor + 2] }
        (byteAt (s.cursor + 2) buf) (s.cursor + 2) (loadBe16 (bytesAt s.cursor 2 buf))
      refine ⟨(s.cursor + 2) :: ls, ?_, ?_⟩
      · rw [Iteration.progress, hls, List.append_assoc]
        rfl
      · intro o ho
        cases ho with
        | head => omega
        | tail _ ho =>
            obtain ⟨hlow, hhigh⟩ := hbound o ho
            omega

/-- Loads inside the buffer stay inside the buffer. -/
theorem iteration_loads_lt (on : σ → Call → σ) (hguard : s.cursor + 2 ≤ buf.length)
    (hloads : ∀ o ∈ s.loads, o < buf.length) :
    ∀ o ∈ (iteration on buf s).progress.loads, o < buf.length := by
  obtain ⟨ls, hls, hbound⟩ := iteration_loads on buf s
  rw [hls]
  intro o ho
  rcases List.mem_append.mp ho with ho | ho
  · rcases List.mem_append.mp ho with ho | ho
    · exact hloads o ho
    · simp only [List.mem_cons, List.not_mem_nil, or_false] at ho
      omega
  · have hpayload := hbound o ho
    omega

/-- The loop loads bytes of the buffer only. -/
theorem Leaves.loads_lt (h : Leaves on buf s s') (hloads : ∀ o ∈ s.loads, o < buf.length) :
    ∀ o ∈ s'.loads, o < buf.length := by
  induction h with
  | done hguard => exact hloads
  | breaks hguard hiter =>
      have hnext := iteration_loads_lt on hguard hloads
      rwa [hiter] at hnext
  | continues hguard hiter hrest ih =>
      have hnext := iteration_loads_lt on hguard hloads
      rw [hiter] at hnext
      exact ih hnext

/-- The loop ends in one way. -/
theorem Leaves.unique (h : Leaves on buf s s') (h' : Leaves on buf s t) : t = s' := by
  induction h with
  | done hguard =>
      cases h' with
      | done _ => rfl
      | breaks hguard' _ => exact absurd hguard' hguard
      | continues hguard' _ _ => exact absurd hguard' hguard
  | breaks hguard hiter =>
      cases h' with
      | done hguard' => exact absurd hguard hguard'
      | breaks _ hiter' =>
          cases hiter.symm.trans hiter'
          rfl
      | continues _ hiter' _ => cases hiter.symm.trans hiter'
  | continues hguard hiter hrest ih =>
      cases h' with
      | done hguard' => exact absurd hguard hguard'
      | breaks _ hiter' => cases hiter.symm.trans hiter'
      | continues _ hiter' hrest' =>
          cases hiter.symm.trans hiter'
          exact ih hrest'

/-- On every buffer the loop ends, and `run` is where it ends. All loads are inside the buffer. An
iteration loads its length prefix and bytes of the payload that the prefix announces, and goes on
only if it has moved the cursor by at least two bytes, to a place inside the buffer. -/
theorem run_safe (on : σ → Call → σ) (buf : List UInt8) (engine : σ) (stats : Stats) :
    (∀ r, Leaves on buf ⟨0, engine, stats, []⟩ r ↔ r = run on buf engine stats) ∧
    (∀ o ∈ (run on buf engine stats).loads, o < buf.length) ∧
    ∀ s : Progress σ,
      (∃ payloadLoads,
        (iteration on buf s).progress.loads =
          s.loads ++ [s.cursor, s.cursor + 1] ++ payloadLoads ∧
        ∀ o ∈ payloadLoads, s.cursor + 2 ≤ o ∧
          o < s.cursor + 2 + (loadBe16 (bytesAt s.cursor 2 buf)).toNat ∧
          s.cursor + 2 + (loadBe16 (bytesAt s.cursor 2 buf)).toNat ≤ buf.length) ∧
      ∀ t, iteration on buf s = .continues t → s.cursor + 2 ≤ t.cursor ∧ t.cursor ≤ buf.length := by
  refine ⟨fun r => ⟨fun h => (run_leaves engine stats).unique h, fun h => ?_⟩, ?_, fun s => ?_⟩
  · rw [h]
    exact run_leaves engine stats
  · exact (run_leaves engine stats).loads_lt fun o ho => absurd ho List.not_mem_nil
  · refine ⟨iteration_loads on buf s, fun t ht => ?_⟩
    obtain ⟨hcursor, hle⟩ := iteration_advances ht
    omega

end Parser
end ItchParser
