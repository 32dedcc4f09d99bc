import ItchParser.Lib.Machine
import ItchParser.Parser.Tally

/-!
# The loop over the frames

What one iteration does on a frame and on a tail without one, and from it what a whole run does on
the decomposition of its buffer (`Leaves.on_stream`). The iterations that `run` has are enough for
every buffer (`run_leaves`).
-/

namespace ItchParser

open PackedRecord Machine ItchParser.Frame

namespace Parser

variable {σ : Type} {on : σ → Call → σ} {buf pre rest tail : List UInt8} {s t s' : Progress σ}
  {f : Frame} {fs : List Frame}

/-! ## One iteration -/

/-- An iteration that continues has read a prefix and a payload inside the buffer. -/
theorem iteration_advances (h : iteration on buf s = .continues t) :
    t.cursor = s.cursor + 2 + (loadBe16 (bytesAt s.cursor 2 buf)).toNat ∧
      t.cursor ≤ buf.length := by
  unfold iteration at h
  simp only at h
  split at h
  · cases h
  · rename_i hfits
    have hle := Nat.not_lt.mp hfits
    split at h
    · rename_i hzero
      cases h
      rw [hzero] at hle ⊢
      exact ⟨rfl, hle⟩
    · cases h
      exact ⟨rfl, hle⟩

/-- A handler on a payload in front of other bytes. -/
theorem handle_eq (on : σ → Call → σ) (s : Progress σ) {type : UInt8} {h : Handler}
    (hh : handlerOf type = some h) {p : Nat} {payload : List UInt8} {len : UInt16}
    (hbuf : buf.drop p = payload ++ rest) (hlen : len.toNat = payload.length) :
    (handle on buf h p len s).cursor = s.cursor ∧
    (handle on buf h p len s).engine =
      (if payload.length < h.size then none else h.decode.value payload).elim s.engine
        (on s.engine) ∧
    (handle on buf h p len s).stats =
      if payload.length < h.size then s.stats.onTruncated else s.stats := by
  by_cases hshort : payload.length < h.size
  · simp [handle, checkedCast, hlen, hshort]
  · have hvalue : h.decode.value (payload ++ rest) = h.decode.value payload :=
      h.decode.value_append fun o ho => (offsets_lt hh o ho).trans_le (Nat.not_lt.mp hshort)
    simp [handle, checkedCast, hlen, hshort, hbuf, hvalue]

/-- The dispatch of a frame that is not empty makes its call and counts it. -/
theorem dispatch_frame (on : σ → Call → σ) (s : Progress σ) {type : UInt8} {body : List UInt8}
    (hf : f.payload = type :: body) {p : Nat} (hbuf : buf.drop p = f.payload ++ rest) :
    (dispatch on buf type p (UInt16.ofNat f.payload.length) s).engine =
      f.call.elim s.engine (on s.engine) ∧
    (dispatch on buf type p (UInt16.ofNat f.payload.length) s).stats = tally s.stats f := by
  have hlen : (UInt16.ofNat f.payload.length).toNat = f.payload.length :=
    UInt16.toNat_ofNat_of_lt' f.fits
  rw [call, tally]
  cases hh : handlerOf type with
  | none => simp [dispatch, hh, hf]
  | some h =>
      simp only [dispatch, hh]
      obtain ⟨-, hengine, hstats⟩ := handle_eq on { s with
        stats := s.stats.onMessage type (UInt16.ofNat f.payload.length).toUInt32 } hh hbuf hlen
      rw [hengine, hstats]
      simp only [hf, hh, and_self]

/-- The iteration at a frame goes to the end of the frame, makes its call and counts it. -/
theorem iteration_frame (on : σ → Call → σ) (hbuf : buf = pre ++ (f.bytes ++ rest))
    (hcursor : s.cursor = pre.length) :
    s.cursor + 2 ≤ buf.length ∧ ∃ t, iteration on buf s = .continues t ∧
      t.cursor = (pre ++ f.bytes).length ∧
      t.engine = f.call.elim s.engine (on s.engine) ∧
      t.stats = tally s.stats f := by
  have hprefix : loadBe16 (bytesAt s.cursor 2 buf) = UInt16.ofNat f.payload.length := by
    rw [hbuf, hcursor, bytesAt_append (Nat.le_refl _), Nat.sub_self, loadBe16_bytes]
  have hlen : (UInt16.ofNat f.payload.length).toNat = f.payload.length :=
    UInt16.toNat_ofNat_of_lt' f.fits
  have hlength : buf.length = pre.length + (2 + f.payload.length + rest.length) := by
    rw [hbuf, List.length_append, List.length_append, length_bytes]
  have hend : (pre ++ f.bytes).length = s.cursor + 2 + f.payload.length := by
    rw [List.length_append, length_bytes, hcursor]
    omega
  have hfits : ¬ s.cursor + 2 + f.payload.length > buf.length := by omega
  refine ⟨by omega, ?_⟩
  simp only [iteration, hprefix, hlen, if_neg hfits]
  cases hf : f.payload with
  | nil => exact ⟨_, rfl, by simpa [hf] using hend.symm, by simp [call, hf], by simp [tally, hf]⟩
  | cons type body =>
      have hdrop : buf.drop (s.cursor + 2) = f.payload ++ rest := by
        rw [hbuf, bytes, List.append_assoc, ← List.append_assoc]
        exact List.drop_left' (by rw [List.length_append, BigEndian.length_toBytes, hcursor])
      have htype : byteAt (s.cursor + 2) buf = type := by
        have hfirst := congrArg (fun bs => bs[0]?) hdrop
        simp only [List.getElem?_drop, Nat.add_zero, hf, List.cons_append,
          List.getElem?_cons_zero] at hfirst
        rw [byteAt, List.getD_eq_getElem?_getD, hfirst, Option.getD_some]
      have hne : UInt16.ofNat f.payload.length ≠ 0 := by
        intro hzero
        rw [hzero, hf] at hlen
        cases hlen
      rw [← hf, if_neg hne, htype]
      obtain ⟨hengine, hstats⟩ := dispatch_frame on { s with
        cursor := s.cursor + 2
        loads := s.loads ++ [s.cursor, s.cursor + 1] ++ [s.cursor + 2] } hf hdrop
      exact ⟨_, rfl, hend.symm, hengine, hstats⟩

/-- The iteration at a tail without a complete frame breaks. -/
theorem iteration_tail (on : σ → Call → σ) (hbuf : buf = pre ++ tail) (htail : Incomplete tail)
    (hcursor : s.cursor = pre.length) :
    ∃ t, iteration on buf s = .breaks t ∧ t.cursor = pre.length + 2 ∧ t.engine = s.engine ∧
      t.stats = s.stats.onParseError := by
  have hprefix : (loadBe16 (bytesAt s.cursor 2 buf)).toNat = announced tail := by
    rw [hbuf, hcursor, bytesAt_append (Nat.le_refl _), Nat.sub_self, announced]
  have hlong : s.cursor + 2 + announced tail > buf.length := by
    have hlt := incomplete_iff.mp htail
    rw [hbuf, List.length_append]
    omega
  simp only [iteration, hprefix, if_pos hlong]
  exact ⟨_, rfl, by rw [hcursor], rfl, rfl⟩

/-! ## The whole run -/

/-- With enough fuel the loop leaves as `Leaves` describes. -/
theorem loop_leaves {n : Nat} (hn : buf.length < s.cursor + 2 * n + 2) :
    Leaves on buf s (loop on buf n s) := by
  induction n generalizing s with
  | zero => exact .done (by omega)
  | succ n ih =>
      rw [loop]
      split
      case isTrue hguard =>
          split
          case h_1 t hiter =>
              have hadvance := (iteration_advances hiter).1
              exact .continues hguard hiter (ih (by omega))
          case h_2 t hiter => exact .breaks hguard hiter
      case isFalse hguard => exact .done hguard

/-- The loop of `run` is left with the result of `run`. -/
theorem run_leaves (engine : σ) (stats : Stats) :
    Leaves on buf ⟨0, engine, stats, []⟩ (run on buf engine stats) :=
  loop_leaves (by omega)

/-- What a tail costs: a prefix that announces too much is taken and counted as an error. -/
theorem Leaves.on_stream (h : Leaves on buf s s') (pre : List UInt8)
    (hbuf : buf = pre ++ (stream fs ++ tail))
    (htail : Incomplete tail) (hcursor : s.cursor = pre.length) :
    s'.cursor = (pre ++ stream fs).length + (if 2 ≤ tail.length then 2 else 0) ∧
    s'.engine = Machine.run on s.engine (fs.filterMap call) ∧
    s'.stats = if 2 ≤ tail.length then (fs.foldl tally s.stats).onParseError
      else fs.foldl tally s.stats := by
  induction fs generalizing pre s with
  | nil =>
      -- the loop ends before a tail of less than two bytes, and breaks on any other
      have hlength : buf.length = pre.length + tail.length := by
        rw [hbuf, stream_nil, List.nil_append, List.length_append]
      rw [stream_nil, List.append_nil]
      cases h with
      | done hguard =>
          have hshort : ¬ 2 ≤ tail.length := by omega
          simp [hshort, hcursor]
      | breaks hguard hiter =>
          have hlong : 2 ≤ tail.length := by omega
          obtain ⟨t, ht, hend, hengine, hstats⟩ := iteration_tail on hbuf htail hcursor
          cases hiter.symm.trans ht
          simp [hlong, hend, hengine, hstats]
      | continues hguard hiter hrest =>
          obtain ⟨t, ht, -⟩ := iteration_tail on hbuf htail hcursor
          cases hiter.symm.trans ht
  | cons f fs ih =>
      rw [stream_cons, List.append_assoc] at hbuf
      obtain ⟨hguard, t, ht, hend, hengine, hstats⟩ := iteration_frame on hbuf hcursor
      cases h with
      | done hstop => exact absurd hguard hstop
      | breaks _ hiter => cases hiter.symm.trans ht
      | continues _ hiter hrest =>
          cases hiter.symm.trans ht
          rw [← List.append_assoc] at hbuf
          obtain ⟨hend', hengine', hstats'⟩ := ih hrest _ hbuf hend
          refine ⟨?_, ?_, ?_⟩
          · rw [hend', stream_cons, List.append_assoc]
          · rw [hengine', hengine]
            cases hcall : f.call with
            | none => rw [List.filterMap_cons_none hcall]; rfl
            | some c => rw [List.filterMap_cons_some hcall]; rfl
          · rw [hstats', hstats, List.foldl_cons]

end Parser
end ItchParser
