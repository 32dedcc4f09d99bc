import ItchParser.Parser
import ItchParser.Parser.Frames

/-!
# What the parser makes of a frame

What the parser does with a frame is a function of the frame alone. It makes at most one call
(`call`) and counts the frame (`tally`). Only the well-formed frames lead to calls, and every
counter grows with the number of frames of its kind.
-/

namespace ItchParser
namespace Frame

/-- The frame is not empty, its first byte is a known type, and it is not too short for it. -/
def WellFormed (f : Frame) : Prop :=
  match f.payload with
  | [] => False
  | type :: _ => type ∈ kMsgMeta.map MsgMeta.type ∧ wirePayloadSize type ≤ f.payload.length

instance (f : Frame) : Decidable f.WellFormed := by
  unfold WellFormed
  split <;> infer_instance

/-- The frame has no type, or an unknown one. -/
def Untyped (f : Frame) : Prop :=
  match f.payload with
  | [] => True
  | type :: _ => type ∉ kMsgMeta.map MsgMeta.type

instance (f : Frame) : Decidable f.Untyped := by
  unfold Untyped
  split <;> infer_instance

/-- The frame has a known type and is too short for it. -/
def Truncated (f : Frame) : Prop :=
  match f.payload with
  | [] => False
  | type :: _ => type ∈ kMsgMeta.map MsgMeta.type ∧ f.payload.length < wirePayloadSize type

instance (f : Frame) : Decidable f.Truncated := by
  unfold Truncated
  split <;> infer_instance

/-- The call that the frame leads to. -/
def call (f : Frame) : Option Call :=
  match f.payload with
  | [] => none
  | type :: _ =>
      match Parser.handlerOf type with
      | some h => if f.payload.length < h.size then none else h.decode.value f.payload
      | none => none

/-- The statistics once the frame is counted. -/
def tally (st : Stats) (f : Frame) : Stats :=
  match f.payload with
  | [] => st.onParseError
  | type :: _ =>
      let st := st.onMessage type (UInt16.ofNat f.payload.length).toUInt32
      match Parser.handlerOf type with
      | some h => if f.payload.length < h.size then st.onTruncated else st
      | none => st.onParseError

variable {f : Frame}

/-- A frame that is neither of the two errors is well formed. -/
theorem wellFormed_iff : f.WellFormed ↔ ¬ f.Untyped ∧ ¬ f.Truncated := by
  unfold WellFormed Untyped Truncated
  split
  · simp
  · rw [not_not, not_and, Nat.not_lt]
    exact ⟨fun h => ⟨h.1, fun _ => h.2⟩, fun h => ⟨h.1, h.2 h.1⟩⟩

/-- Both kinds of bad frames are absent when every frame is well-formed. -/
theorem forall_wellFormed_iff {fs : List Frame} :
    (∀ f ∈ fs, f.WellFormed) ↔
      (fs.countP fun f => f.Untyped) = 0 ∧ (fs.countP fun f => f.Truncated) = 0 := by
  simp only [List.countP_eq_zero, decide_eq_true_eq, wellFormed_iff]
  exact ⟨fun h => ⟨fun f hf => (h f hf).1, fun f hf => (h f hf).2⟩,
    fun h f hf => ⟨h.1 f hf, h.2 f hf⟩⟩

/-- A frame that is long enough for its handler is well-formed and leads to the handler's call. -/
theorem call_eq {type : UInt8} {body : List UInt8} {h : Handler} (hf : f.payload = type :: body)
    (hh : Parser.handlerOf type = some h) (hsize : h.size ≤ f.payload.length) :
    f.WellFormed ∧ f.call = h.decode.value f.payload := by
  obtain ⟨hknown, hregistered⟩ := Parser.handlerOf_some hh
  constructor
  · rw [WellFormed, hf]
    rw [hregistered, hf] at hsize
    exact ⟨hknown, hsize⟩
  · rw [call, hf]
    rw [hf] at hsize
    simp only [hh, if_neg (Nat.not_lt.mpr hsize)]

/-- Only well-formed frames lead to a call. -/
theorem call_eq_none (h : ¬ f.WellFormed) : f.call = none := by
  rw [call]
  split
  case h_1 hf => rfl
  case h_2 type body hf =>
      split
      case h_1 handler hh =>
          obtain ⟨hknown, hsize⟩ := Parser.handlerOf_some hh
          rw [WellFormed, hf] at h
          exact if_pos (by rw [hf, hsize]; exact Nat.not_le.mp fun hle => h ⟨hknown, hle⟩)
      case h_2 => rfl

/-- The calls of some frames are those of the well-formed ones. -/
theorem filterMap_call (fs : List Frame) :
    (fs.filter fun f => f.WellFormed).filterMap call = fs.filterMap call := by
  induction fs with
  | nil => rfl
  | cons f fs ih =>
      by_cases h : f.WellFormed
      · rw [List.filter_cons_of_pos (by simpa using h), List.filterMap_cons, List.filterMap_cons,
          ih]
      · rw [List.filter_cons_of_neg (by simpa using h),
          List.filterMap_cons_none (call_eq_none h), ih]

/-! ## The counters -/

/-- An empty frame is a parse error. -/
theorem tally_empty (hf : f.payload = []) (st : Stats) : tally st f = st.onParseError := by
  rw [tally, hf]

/-- What a frame that is not empty is counted as, by the registry. -/
theorem tally_typed {type : UInt8} {body : List UInt8} (hf : f.payload = type :: body)
    (st : Stats) : tally st f =
      let st := st.onMessage type (UInt16.ofNat f.payload.length).toUInt32
      if type ∈ kMsgMeta.map MsgMeta.type then
        if f.payload.length < wirePayloadSize type then st.onTruncated else st
      else st.onParseError := by
  rw [tally, hf]
  cases hh : Parser.handlerOf type with
  | none => simp only [hh, if_neg (Parser.handlerOf_none hh)]
  | some h =>
      obtain ⟨hknown, hsize⟩ := Parser.handlerOf_some hh
      simp only [hh, if_pos hknown, hsize]

/-- A counter that grows by a weight with every frame grows by the sum of the weights. -/
theorem foldl_tally (c : Stats → UInt64) {w : Frame → Nat}
    (h : ∀ st f, c (tally st f) = c st + UInt64.ofNat (w f)) (st : Stats) (fs : List Frame) :
    c (fs.foldl tally st) = c st + UInt64.ofNat (fs.map w).sum := by
  induction fs generalizing st with
  | nil => exact (UInt64.add_zero _).symm
  | cons f fs ih =>
      rw [List.foldl_cons, ih, h, List.map_cons, List.sum_cons, UInt64.ofNat_add,
        UInt64.add_assoc]

/-- A counter that grows by a step with some of the frames. -/
theorem foldl_tally_count (c : Stats → UInt64) (p : Frame → Prop) [DecidablePred p] (step : UInt64)
    (h : ∀ st f, c (tally st f) = if p f then c st + step else c st) (st : Stats)
    (fs : List Frame) :
    c (fs.foldl tally st) = c st + UInt64.ofNat (fs.countP fun f => p f) * step := by
  induction fs generalizing st with
  | nil => exact (UInt64.add_zero _).symm.trans (congrArg _ (UInt64.zero_mul).symm)
  | cons f fs ih =>
      rw [List.foldl_cons, ih, h]
      by_cases hp : p f
      · rw [List.countP_cons_of_pos (by simpa using hp), if_pos hp, UInt64.ofNat_add,
          UInt64.add_mul, UInt64.add_assoc, UInt64.add_comm step]
        exact congrArg _ (congrArg _ (UInt64.one_mul _).symm)
      · rw [List.countP_cons_of_neg (by simpa using hp), if_neg hp]

/-- All frames with a payload are messages. -/
theorem totalMessages_foldl (st : Stats) (fs : List Frame) :
    (fs.foldl tally st).totalMessages =
      st.totalMessages + UInt64.ofNat (fs.countP fun f => f.payload ≠ []) := by
  have hfold := foldl_tally_count Stats.totalMessages (fun f => f.payload ≠ []) 1
    (fun st f => ?_) st fs
  · rwa [UInt64.mul_one] at hfold
  · cases hf : f.payload with
    | nil => simp [tally_empty hf, Stats.onParseError]
    | cons type body =>
        simp [tally_typed hf, apply_ite Stats.totalMessages, Stats.onParseError, Stats.onTruncated,
          Stats.onMessage]

/-- The prefixes of the messages. -/
theorem totalFramingBytes_foldl (st : Stats) (fs : List Frame) :
    (fs.foldl tally st).totalFramingBytes =
      st.totalFramingBytes + UInt64.ofNat (fs.countP fun f => f.payload ≠ []) * 2 := by
  refine foldl_tally_count Stats.totalFramingBytes (fun f => f.payload ≠ []) 2
    (fun st f => ?_) st fs
  cases hf : f.payload with
  | nil => simp [tally_empty hf, Stats.onParseError]
  | cons type body =>
      simp [tally_typed hf, apply_ite Stats.totalFramingBytes, Stats.onParseError,
        Stats.onTruncated, Stats.onMessage]

/-- The messages by the first byte of the payload. -/
theorem perType_foldl (st : Stats) (fs : List Frame) (t : UInt8) :
    (fs.foldl tally st).perType t =
      st.perType t + UInt64.ofNat (fs.countP fun f => f.payload.head? = some t) := by
  have hfold := foldl_tally_count (fun st => st.perType t)
    (fun f => f.payload.head? = some t) 1 (fun st f => ?_) st fs
  · rwa [UInt64.mul_one] at hfold
  · cases hf : f.payload with
    | nil => simp [tally_empty hf, Stats.onParseError]
    | cons type body =>
        by_cases h : type = t
        · subst h
          simp [tally_typed hf, apply_ite Stats.perType, ite_apply, Stats.onParseError,
            Stats.onTruncated, Stats.onMessage]
        · simp [tally_typed hf, apply_ite Stats.perType, ite_apply, Stats.onParseError,
            Stats.onTruncated, Stats.onMessage, h, Ne.symm h]

/-- The payloads. -/
theorem totalBytes_foldl (st : Stats) (fs : List Frame) :
    (fs.foldl tally st).totalBytes =
      st.totalBytes + UInt64.ofNat (fs.map fun f => f.payload.length).sum := by
  refine foldl_tally Stats.totalBytes (fun st f => ?_) st fs
  have hlen : (UInt16.ofNat f.payload.length).toUInt32.toUInt64 =
      UInt64.ofNat f.payload.length := by
    rw [UInt16.toUInt64_toUInt32, UInt16.toUInt64_ofNat' f.fits]
  cases hf : f.payload with
  | nil => simp [tally_empty hf, Stats.onParseError]
  | cons type body =>
      rw [← hf, ← hlen, tally_typed hf]
      simp only [apply_ite Stats.totalBytes, Stats.onParseError, Stats.onTruncated,
        Stats.onMessage, ite_self]

/-- The frames without a known type. -/
theorem parseErrors_foldl (st : Stats) (fs : List Frame) :
    (fs.foldl tally st).parseErrors =
      st.parseErrors + UInt64.ofNat (fs.countP fun f => f.Untyped) := by
  have hfold := foldl_tally_count Stats.parseErrors Untyped 1 (fun st f => ?_) st fs
  · rwa [UInt64.mul_one] at hfold
  · cases hf : f.payload with
    | nil => simp [tally_empty hf, Untyped, hf, Stats.onParseError]
    | cons type body =>
        simp only [tally_typed hf, Untyped, hf, apply_ite Stats.parseErrors, Stats.onParseError,
          Stats.onTruncated, Stats.onMessage, ite_self, ite_not]

/-- The frames that are too short for their type. -/
theorem truncatedMessages_foldl (st : Stats) (fs : List Frame) :
    (fs.foldl tally st).truncatedMessages =
      st.truncatedMessages + UInt64.ofNat (fs.countP fun f => f.Truncated) := by
  have hfold := foldl_tally_count Stats.truncatedMessages Truncated 1 (fun st f => ?_) st fs
  · rwa [UInt64.mul_one] at hfold
  · cases hf : f.payload with
    | nil => simp [tally_empty hf, Truncated, hf, Stats.onParseError]
    | cons type body =>
        simp only [tally_typed hf, Truncated, hf, apply_ite Stats.truncatedMessages,
          Stats.onParseError, Stats.onTruncated, Stats.onMessage, ite_and]

end Frame
end ItchParser
