import ItchParser.MMapFile

/-!
# Mapped files are owned once and given back

Whatever a program does with its `MMapFile` objects, and whatever the system answers, the open
descriptors and the mappings are those of the objects that are alive, each of one object. None is
released twice or with a wrong size, and nothing is read outside a mapping.
-/

namespace ItchParser

open Custody Machine

/-- The file is there, with `size` bytes, but cannot be mapped. -/
def Answers.Unmapped (a : Answers) (size : UInt64) : Prop :=
  ∃ fd st e, a.opened = .ok fd ∧ a.status = .ok st ∧ st.regular = true ∧ ¬ st.size ≤ 0 ∧
    st.size.toUInt64 = size ∧ a.mapped = .error e

/-- The file is there and mapped as a whole: the object has the address that `mmap` answered, the
descriptor that `open` answered, and as its size what `fstat` answered. -/
def Answers.Mapped (a : Answers) (m : MMapFile) : Prop :=
  ∃ fd st p, a.opened = .ok fd ∧ a.status = .ok st ∧ st.regular = true ∧ ¬ st.size ≤ 0 ∧
    a.mapped = .ok p ∧ m = ⟨some p, st.size.toUInt64, fd⟩

/-- The system hands out nothing that it has handed out and not got back. -/
def Answers.Fresh (a : Answers) (w : World Resource) : Prop :=
  (∀ fd, a.opened = .ok fd → .descriptor fd ∉ w.held) ∧
    ∀ p, a.mapped = .ok p → ∀ size, .mapping p size ∉ w.held

namespace MMapFile

/-- The resources of an object. -/
def owned (m : MMapFile) : Multiset Resource :=
  m.data.elim 0 (fun p => {.mapping p m.size}) + if m.fd ≥ 0 then {.descriptor m.fd} else 0

/-- An object has a mapping of a positive `off_t` and its descriptor, or neither. -/
structure WellFormed (m : MMapFile) : Prop where
  descriptor : m.valid = true ↔ 0 ≤ m.fd
  closed : m.valid = false → m.fd = -1
  size : m.valid = true → 0 < m.size.toNat ∧ m.size.toNat < 9223372036854775808

variable {m other : MMapFile} {a : Answers}

/-- A closed object owns nothing. -/
theorem owned_closed (h : m.data = none) (hfd : m.fd = -1) : m.owned = 0 := by
  unfold owned
  rw [h, hfd]
  rfl

/-- An object with a file owns its mapping and its descriptor. -/
theorem owned_mapped (p size : UInt64) (fd : Nat) :
    (⟨some p, size, fd⟩ : MMapFile).owned = {.mapping p size} + {.descriptor fd} := by
  unfold owned
  rw [if_pos (Int.natCast_nonneg fd)]
  rfl

/-- A closed object is well formed. -/
theorem wellFormed_closed (h : m.data = none) (hfd : m.fd = -1) : m.WellFormed := by
  have hvalid : m.valid = false := by rw [valid, h]; rfl
  refine ⟨?_, fun _ => hfd, fun h => ?_⟩
  · rw [hvalid, hfd]
    decide
  · rw [hvalid] at h
    cases h

/-- The size of a positive `off_t`. -/
theorem toNat_size {n : Int64} (h : ¬ n ≤ 0) :
    0 < n.toUInt64.toNat ∧ n.toUInt64.toNat < 9223372036854775808 := by
  have hpos : ¬ n.toInt ≤ 0 := fun hle => h (Int64.le_iff_toInt_le.mpr hle)
  have hint : n.toInt = n.toBitVec.toInt := rfl
  have hlt := n.toUInt64.toNat_lt
  rw [BitVec.toInt_eq_toNat_cond, Int64.toNat_toBitVec] at hint
  split at hint <;> omega

/-- A descriptor that is closed again. -/
theorem opens_close (fd : Nat) :
    Triple 0 ([SysCall.opens fd, .close fd].map SysCall.event) 0 :=
  (Triple.acquire (Resource.descriptor fd)).append (Triple.release _)

/-- How `open_into` leaves a new object: with the file mapped, or closed. -/
inductive Opened (a : Answers) : Int × MMapFile × List SysCall → Prop where
  | mapped {fd : Nat} {st : FileStatus} {p : UInt64} (hopened : a.opened = .ok fd)
      (hstatus : a.status = .ok st) (hregular : st.regular = true) (hsize : ¬ st.size ≤ 0)
      (hmapped : a.mapped = .ok p) :
      Opened a (0, ⟨some p, st.size.toUInt64, fd⟩, [.opens fd, .mmap p st.size.toUInt64])
  | failed {ec : Int} {size : UInt64} {cs : List SysCall} (hec : ec ≠ 0)
      (hcalls : Triple 0 (cs.map SysCall.event) 0) (hsize : size = 0 ∨ a.Unmapped size) :
      Opened a (ec, ⟨none, size, -1⟩, cs)

/-- What `open_into` leaves in a new object, for all answers. -/
theorem openInto_opened (a : Answers) : Opened a (({} : MMapFile).openInto a) := by
  unfold openInto
  split
  case h_1 e he => exact .failed e.property (Triple.nil 0) (.inl rfl)
  case h_2 fd hfd =>
      split
      case h_1 e he => exact .failed e.property (opens_close fd) (.inl rfl)
      case h_2 st hst =>
          by_cases hregular : st.regular = true
          · rw [if_neg (by simp [hregular])]
            by_cases hsize : st.size ≤ 0
            · rw [if_pos hsize]
              exact .failed (by decide) (opens_close fd) (.inl rfl)
            · rw [if_neg hsize]
              simp only
              split
              case h_1 e he =>
                  exact .failed e.property (opens_close fd)
                    (.inr ⟨fd, st, e, hfd, hst, hregular, hsize, rfl, he⟩)
              case h_2 p hp => exact .mapped hfd hst hregular hsize hp
          · rw [if_pos (by simpa using hregular)]
            exact .failed (by decide) (opens_close fd) (.inl rfl)

/-- `open_into` acquires what the object owns afterwards. -/
theorem Opened.owned {r : Int × MMapFile × List SysCall} (h : Opened a r) :
    r.2.1.WellFormed ∧ Triple 0 (r.2.2.map SysCall.event) r.2.1.owned := by
  cases h with
  | @mapped fd st p hopened hstatus hregular hsize hmapped =>
      refine ⟨⟨?_, nofun, fun _ => toNat_size hsize⟩, ?_⟩
      · exact iff_of_true rfl (Int.natCast_nonneg fd)
      · rw [owned_mapped]
        have hmap := (Triple.acquire (Resource.mapping p st.size.toUInt64)).frame
          {Resource.descriptor (fd : Int)}
        rw [zero_add] at hmap
        exact (Triple.acquire (Resource.descriptor (fd : Int))).append hmap
  | failed hec hcalls hsize =>
      exact ⟨wellFormed_closed rfl rfl, by rw [owned_closed rfl rfl]; exact hcalls⟩

/-- `release` gives everything back. -/
theorem release_triple (m : MMapFile) : Triple m.owned (m.release.2.map SysCall.event) 0 := by
  unfold release owned
  rw [List.map_append]
  -- first the mapping goes back, while the descriptor stays
  refine Triple.append (?_ : Triple _ _ (if m.fd ≥ 0 then {Resource.descriptor m.fd} else 0)) ?_
  · cases hdata : m.data with
    | none =>
        simp only [Option.elim_none, zero_add]
        exact Triple.nil _
    | some p =>
        have hunmap := (Triple.release (Resource.mapping p m.size)).frame
          (if m.fd ≥ 0 then {Resource.descriptor m.fd} else 0)
        rw [zero_add] at hunmap
        exact hunmap
  · split
    · exact Triple.release _
    · exact Triple.nil 0

/-- The hints are about the object's own mapping. -/
theorem adviseSequential_triple (m : MMapFile) :
    Triple m.owned (m.adviseSequential.map SysCall.event) m.owned := by
  unfold adviseSequential
  cases hdata : m.data with
  | none => exact Triple.nil _
  | some p =>
      refine Triple.uses fun event hevent => ?_
      have hmem : Resource.mapping p m.size ∈ m.owned := by
        unfold owned
        rw [hdata]
        exact Multiset.mem_add.mpr (.inl (Multiset.mem_singleton_self _))
      refine ⟨fun r => r = .mapping p m.size, _, ?_, hmem, by simp⟩
      simp only [List.map_cons, List.map_nil, SysCall.event, List.mem_cons, List.not_mem_nil,
        or_false, or_self] at hevent
      exact hevent

/-! ## The pages -/

/-- The number of pages that `prefault` reads from. -/
def pages (size : UInt64) : Nat := (size.toNat + 4095) / 4096

/-- From page `i` on, the loop touches the pages that are left. -/
theorem touchPages_eq (p size : UInt64) (hsize : size.toNat < 9223372036854775808) {n i : Nat}
    (hi : i ≤ pages size) (hn : pages size < n + i) (touched : UInt64) :
    touchPages p size n (UInt64.ofNat (4096 * i)) touched =
      some (touched + UInt64.ofNat (4096 * (pages size - i)),
        (List.range' i (pages size - i)).map fun k => .load p (UInt64.ofNat (4096 * k))) := by
  induction n generalizing i touched with
  | zero => omega
  | succ n ih =>
      have hoff : (UInt64.ofNat (4096 * i)).toNat = 4096 * i := by
        rw [UInt64.toNat_ofNat']
        unfold pages at hi
        omega
      rw [touchPages]
      by_cases hlt : UInt64.ofNat (4096 * i) < size
      · rw [if_pos hlt]
        rw [UInt64.lt_iff_toNat_lt, hoff] at hlt
        have hmore : i < pages size := by
          unfold pages
          omega
        have hnext : UInt64.ofNat (4096 * i) + kPage = UInt64.ofNat (4096 * (i + 1)) := by
          rw [Nat.mul_add, UInt64.ofNat_add]
          rfl
        rw [hnext, ih hmore (by omega), Option.map_some,
          show pages size - i = pages size - (i + 1) + 1 by omega, List.range'_succ, List.map_cons]
        have htotal : touched + kPage + UInt64.ofNat (4096 * (pages size - (i + 1))) =
            touched + UInt64.ofNat (4096 * (pages size - (i + 1) + 1)) := by
          rw [Nat.mul_add, UInt64.ofNat_add, UInt64.add_assoc,
            UInt64.add_comm (UInt64.ofNat (4096 * (pages size - (i + 1))))]
          rfl
        rw [htotal]
      · -- the loop ends behind the last page
        rw [if_neg hlt]
        rw [UInt64.lt_iff_toNat_lt, hoff] at hlt
        have hlast : i = pages size := by
          unfold pages at hi ⊢
          omega
        rw [hlast, Nat.sub_self]
        simp

/-- `prefault` ends. It reads one byte of each page and counts whole pages. -/
theorem prefault_eq (h : m.WellFormed) {p : UInt64} (hdata : m.data = some p) :
    m.prefault = some (UInt64.ofNat (4096 * pages m.size),
      (List.range (pages m.size)).map fun k => .load p (UInt64.ofNat (4096 * k))) := by
  obtain ⟨-, hsize⟩ := h.size (by rw [valid, hdata]; rfl)
  have htouch := touchPages_eq p m.size hsize (n := m.size.toNat / 4096 + 2) (i := 0)
    (Nat.zero_le _) (by unfold pages; omega) 0
  unfold prefault
  rw [hdata]
  simpa [List.range_eq_range'] using htouch

/-- The loads are within the object's own mapping. -/
theorem prefault_triple (h : m.WellFormed) : ∃ total cs, m.prefault = some (total, cs) ∧
    Triple m.owned (cs.map SysCall.event) m.owned := by
  cases hdata : m.data with
  | none => exact ⟨0, [], by rw [prefault, hdata], Triple.nil _⟩
  | some p =>
      obtain ⟨hpos, hsize⟩ := h.size (by rw [valid, hdata]; rfl)
      refine ⟨_, _, prefault_eq h hdata, Triple.uses fun event hevent => ?_⟩
      simp only [List.mem_map, List.mem_range] at hevent
      obtain ⟨_, ⟨k, hk, rfl⟩, rfl⟩ := hevent
      refine ⟨_, .mapping p m.size, rfl, ?_, ?_⟩
      · unfold owned
        rw [hdata]
        exact Multiset.mem_add.mpr (.inl (Multiset.mem_singleton_self _))
      · have hoff : (UInt64.ofNat (4096 * k)).toNat = 4096 * k := by
          rw [UInt64.toNat_ofNat']
          unfold pages at hk
          omega
        simp only [decide_true, Bool.true_and, decide_eq_true_eq, UInt64.lt_iff_toNat_lt, hoff]
        unfold pages at hk
        omega

end MMapFile

/-! ## Programs -/

/-- The answers of the system that an operation asks for. -/
def FileOp.answers : FileOp → Option Answers
  | .construct _ a => some a
  | .openFile _ a => some a
  | _ => none

namespace FileSystem

variable {s : FileSystem} {x : Nat} {m : MMapFile} {a : Answers} {cs : List SysCall}
  {pre post rest : Multiset Resource} {P : MMapFile → Prop}

/-- Calls with a triple make no fault, whatever else is handed out. -/
theorem calls_world (rest : Multiset Resource) (h : Triple pre (cs.map SysCall.event) post)
    (hw : s.world = ⟨pre + rest, 0⟩) : (s.calls cs).world = ⟨post + rest, 0⟩ := by
  have hrun := h s.world rest (by rw [hw])
  rw [hw] at hrun
  exact (congrArg (fun w => Machine.run World.step w _) hw).trans hrun

/-- A property of all objects is kept by a new object that has it. -/
theorem forall_insert (h : ∀ y m, s.objects.lookup y = some m → P m) (hm : P m) :
    ∀ y m', (s.objects.insert x m).lookup y = some m' → P m' := by
  intro y m' hy
  by_cases hxy : y = x
  · subst hxy
    rw [AList.lookup_insert] at hy
    exact Option.some.inj hy ▸ hm
  · rw [AList.lookup_insert_ne hxy] at hy
    exact h y m' hy

/-- The static `open` yields a mapped file, or an error and gives everything back. -/
theorem openFile_spec (a : Answers) :
    (∃ m, (MMapFile.openFile a).1 = .ok m ∧ MMapFile.Opened a (0, m, (MMapFile.openFile a).2)) ∨
      ∃ ec, (MMapFile.openFile a).1 = .error ec ∧
        Triple 0 ((MMapFile.openFile a).2.map SysCall.event) 0 := by
  have hopened := MMapFile.openInto_opened a
  unfold MMapFile.openFile
  generalize ({} : MMapFile).openInto a = r at hopened
  cases hopened with
  | @mapped fd st p hopened hstatus hregular hsize hmapped =>
      refine .inl ⟨_, rfl, ?_⟩
      exact .mapped hopened hstatus hregular hsize hmapped
  | @failed ec size cs hec hcalls hsize =>
      refine .inr ⟨ec, ?_⟩
      simp only [if_pos hec]
      refine ⟨trivial, ?_⟩
      rw [show (⟨none, size, -1⟩ : MMapFile).release.2 = [] from rfl, List.append_nil]
      exact hcalls

/-- What an operation does to the system, with one case for each way through it. -/
inductive Steps (s : FileSystem) : FileOp → FileSystem → Prop
  | refused {op : FileOp} : Steps s op s
  | default {x : Nat} (hx : x ∉ s.objects) : Steps s (.default x) (s.put x {})
  | opened {op : FileOp} {x : Nat} {a : Answers} {ec : Int} {m : MMapFile} {cs : List SysCall}
      (hx : x ∉ s.objects) (ha : op.answers = some a) (hopened : MMapFile.Opened a (ec, m, cs))
      (hec : ec ≠ 0 → op = .construct x a) : Steps s op ((s.calls cs).put x m)
  | failed {x : Nat} {a : Answers} {cs : List SysCall}
      (hcalls : Triple 0 (cs.map SysCall.event) 0) : Steps s (.openFile x a) (s.calls cs)
  | moved {x y : Nat} {other : MMapFile} (hx : x ∉ s.objects)
      (hy : s.objects.lookup y = some other) :
      Steps s (.moveConstruct x y) ((s.put y {}).put x other)
  | assigned {x y : Nat} {m other : MMapFile} (hx : s.objects.lookup x = some m)
      (hy : s.objects.lookup y = some other) (hne : x ≠ y) :
      Steps s (.moveAssign x y) (((s.calls m.release.2).put y {}).put x other)
  | destroyed {x : Nat} {m : MMapFile} (hx : s.objects.lookup x = some m) :
      Steps s (.destroy x) { s.calls m.release.2 with objects := s.objects.erase x }
  | used {op : FileOp} {x : Nat} {m : MMapFile} {cs : List SysCall}
      (hx : s.objects.lookup x = some m)
      (hcalls : Triple m.owned (cs.map SysCall.event) m.owned) : Steps s op (s.calls cs)

/-- The step of a static `open` that may fail. -/
theorem steps_openFile (x : Nat) (a : Answers) :
    Steps s (.openFile x a) (s.step (.openFile x a)) := by
  unfold step
  dsimp only
  split
  · exact .refused
  · next hx =>
      rcases openFile_spec a with ⟨m, hm, hopened⟩ | ⟨ec, hec, hcalls⟩
      · rw [hm]
        exact .opened hx rfl hopened fun hne => absurd rfl hne
      · rw [hec]
        exact .failed hcalls

/-- The step of an assignment, also of an object to itself. -/
theorem steps_moveAssign (x y : Nat) : Steps s (.moveAssign x y) (s.step (.moveAssign x y)) := by
  unfold step
  dsimp only
  split
  · next m other hx hy =>
      split
      · exact .refused
      · next hne => exact .assigned hx hy hne
  · exact .refused

/-- Every operation of a program with well-formed objects takes one of these ways. -/
theorem step_steps (hobjects : ∀ x m, s.objects.lookup x = some m → m.WellFormed) (op : FileOp) :
    Steps s op (s.step op) := by
  cases op with
  | openFile x a => exact steps_openFile x a
  | moveAssign x y => exact steps_moveAssign x y
  | default x =>
      unfold step
      dsimp only
      split
      · exact .refused
      · next hx => exact .default hx
  | construct x a =>
      unfold step
      dsimp only
      split
      · exact .refused
      · next hx => exact .opened hx rfl (MMapFile.openInto_opened a) fun _ => rfl
  | moveConstruct x y =>
      unfold step
      dsimp only
      split
      · exact .refused
      · next other hy =>
          split
          · exact .refused
          · next hx => exact .moved hx hy
  | destroy x =>
      unfold step
      dsimp only
      split
      · exact .refused
      · next m hx => exact .destroyed hx
  | adviseSequential x =>
      unfold step
      dsimp only
      split
      · exact .refused
      · next m hx => exact .used hx (MMapFile.adviseSequential_triple m)
  | prefault x =>
      unfold step
      dsimp only
      split
      · exact .refused
      · next m hx =>
          -- the loop over the pages ends
          obtain ⟨pages, cs, hprefault, hcalls⟩ := MMapFile.prefault_triple (hobjects x m hx)
          rw [hprefault]
          exact .used hx hcalls

/-! ### The objects -/

/-- Where an object comes from. A valid one has a file mapped as a whole, one that is not valid has
size 0, unless a constructor could not map its file. -/
structure Traced (ops : List FileOp) (m : MMapFile) : Prop where
  whole : m.valid = true → ∃ op ∈ ops, ∃ a, op.answers = some a ∧ a.Mapped m
  stale : m.valid = false → m.size = 0 ∨ ∃ x a, .construct x a ∈ ops ∧ a.Unmapped m.size

/-- An object that is alive is traced to the operations so far. -/
theorem Steps.forall {s' : FileSystem} {op : FileOp} (h : Steps s op s') (hclosed : P {})
    (hall : ∀ y m, s.objects.lookup y = some m → P m)
    (hnew : ∀ x a ec m cs, op.answers = some a → MMapFile.Opened a (ec, m, cs) →
      (ec ≠ 0 → op = .construct x a) → P m) :
    ∀ y m, s'.objects.lookup y = some m → P m := by
  cases h with
  | refused | failed | used => exact hall
  | default hx => exact forall_insert hall hclosed
  | @opened _ x a ec m cs hx ha hopened hec =>
      exact forall_insert hall (hnew x a ec m cs ha hopened hec)
  | @moved x y other hx hy =>
      exact forall_insert (s := s.put y _) (forall_insert hall hclosed) (hall y other hy)
  | @assigned x y m other hx hy hne =>
      exact forall_insert (s := s.put y _) (forall_insert hall hclosed) (hall y other hy)
  | @destroyed x m hx =>
      intro y m' hy
      by_cases hxy : y = x
      · subst hxy
        rw [show (_ : FileSystem).objects = s.objects.erase y from rfl, AList.lookup_erase] at hy
        cases hy
      · exact hall y m' ((AList.lookup_erase_ne hxy).symm.trans hy)

/-! ### The resources -/

/-- A new object owns nothing. -/
theorem owned_default : ({} : MMapFile).owned = 0 :=
  MMapFile.owned_closed rfl rfl

/-- The objects and the world after an operation agree. -/
def Agrees (s : FileSystem) : Prop :=
  s.world = ⟨total MMapFile.owned s.objects, 0⟩

/-- What an operation does to what is held: a new object adds what it owns, any other operation at
most gives something back. -/
def Adds (s s' : FileSystem) (op : FileOp) : Prop :=
  s'.world.held ≤ s.world.held ∨
    ∃ m a ec cs, op.answers = some a ∧ MMapFile.Opened a (ec, m, cs) ∧
      s'.world.held = m.owned + s.world.held

/-- An operation that leaves the world alone adds nothing. -/
theorem Adds.of_eq {s' : FileSystem} {op : FileOp} (h : s'.world.held = s.world.held) :
    s.Adds s' op :=
  .inl h.le

/-- A new object that owns what was acquired for it. -/
theorem put_opened (h : s.Agrees) (hx : x ∉ s.objects) {ec : Int} {op : FileOp}
    (ha : op.answers = some a) (hopened : MMapFile.Opened a (ec, m, cs)) :
    ((s.calls cs).put x m).Agrees ∧ s.Adds ((s.calls cs).put x m) op := by
  have hworld := calls_world (total MMapFile.owned s.objects) hopened.owned.2
    (by rw [zero_add]; exact h)
  refine ⟨?_, .inr ⟨m, a, ec, cs, ha, hopened, ?_⟩⟩
  · refine hworld.trans ?_
    rw [← total_insert_of_notMem hx]
    rfl
  · rw [show s.world.held = _ from congrArg World.held h]
    exact congrArg World.held hworld

/-- A method of an object that keeps what it owns. -/
theorem calls_same (h : s.Agrees) (hx : s.objects.lookup x = some m)
    (hcalls : Triple m.owned (cs.map SysCall.event) m.owned) {op : FileOp} :
    (s.calls cs).Agrees ∧ s.Adds (s.calls cs) op := by
  have htotal := total_of_lookup MMapFile.owned hx
  have hworld := calls_world _ hcalls (h.trans (by rw [htotal]))
  rw [← htotal] at hworld
  exact ⟨hworld, .of_eq (by rw [hworld, show s.world = _ from h])⟩

/-- Moving an object on leaves a closed one behind. -/
theorem total_move {y : Nat} (hy : s.objects.lookup y = some m) :
    total MMapFile.owned s.objects = m.owned + total MMapFile.owned (s.objects.insert y {}) := by
  rw [total_of_lookup _ hy, total_insert, owned_default, zero_add]

/-- A new object takes over what another one owns. -/
theorem put_moved (h : s.Agrees) {y : Nat} (hy : s.objects.lookup y = some m)
    (hx : x ∉ s.objects) : ((s.put y {}).put x m).Agrees := by
  have hne : x ≠ y := by
    rintro rfl
    exact hx (AList.lookup_isSome.mp (by rw [hy]; rfl))
  have hx' : x ∉ s.objects.insert y {} := by
    rw [AList.mem_insert]
    exact not_or.mpr ⟨hne, hx⟩
  refine Eq.trans h ?_
  rw [total_move hy]
  exact congrArg (World.mk · 0) (total_insert_of_notMem hx').symm

/-- An object gives back what it owns, and the rest is still held. -/
theorem calls_release (h : s.Agrees) (htotal : total MMapFile.owned s.objects = m.owned + rest) :
    (s.calls m.release.2).world = ⟨rest, 0⟩ ∧ rest ≤ s.world.held := by
  have hworld := calls_world rest (MMapFile.release_triple m) (h.trans (by rw [htotal]))
  rw [zero_add] at hworld
  refine ⟨hworld, ?_⟩
  rw [show s.world.held = _ from congrArg World.held h, htotal]
  exact Multiset.le_add_left _ _

/-- A closed object owns nothing. -/
theorem put_closed (h : s.Agrees) (hx : x ∉ s.objects) : (s.put x {}).Agrees := by
  refine Eq.trans h ?_
  rw [show (s.put x {}).objects = s.objects.insert x {} from rfl, total_insert_of_notMem hx,
    owned_default, zero_add]

/-- The assigned object gives back what it owns and takes over what the other one owns. -/
theorem put_assigned (h : s.Agrees) {y : Nat} {other : MMapFile} (hx : s.objects.lookup x = some m)
    (hy : s.objects.lookup y = some other) (hne : x ≠ y) {op : FileOp} :
    (((s.calls m.release.2).put y {}).put x other).Agrees ∧
      s.Adds (((s.calls m.release.2).put y {}).put x other) op := by
  have hx' : (s.objects.insert y {}).lookup x = some m := by
    rw [AList.lookup_insert_ne hne]
    exact hx
  -- both objects, then the rest
  have htotal := total_move hy
  rw [total_of_lookup MMapFile.owned hx', add_left_comm] at htotal
  obtain ⟨hworld, hle⟩ := calls_release h htotal
  refine ⟨hworld.trans ?_, .inl ((congrArg World.held hworld).le.trans hle)⟩
  exact congrArg (World.mk · 0) total_insert.symm

/-- A failed `open` gives everything back. -/
theorem calls_nothing (h : s.Agrees) (hcalls : Triple 0 (cs.map SysCall.event) 0) {op : FileOp} :
    (s.calls cs).Agrees ∧ s.Adds (s.calls cs) op := by
  have hworld := calls_world (total MMapFile.owned s.objects) hcalls (by rw [zero_add]; exact h)
  rw [zero_add] at hworld
  exact ⟨hworld, .of_eq (by rw [hworld, show s.world = _ from h])⟩

/-- Every operation keeps the world in step with the objects. -/
theorem Steps.agrees {s' : FileSystem} {op : FileOp} (hstep : Steps s op s') (h : s.Agrees) :
    s'.Agrees ∧ s.Adds s' op := by
  cases hstep with
  | refused => exact ⟨h, .of_eq rfl⟩
  | default hx => exact ⟨put_closed h hx, .of_eq rfl⟩
  | opened hx ha hopened => exact put_opened h hx ha hopened
  | failed hcalls => exact calls_nothing h hcalls
  | moved hx hy => exact ⟨put_moved h hy hx, .of_eq rfl⟩
  | assigned hx hy hne => exact put_assigned h hx hy hne
  | destroyed hx =>
      obtain ⟨hworld, hle⟩ := calls_release h (total_of_lookup MMapFile.owned hx)
      exact ⟨hworld, .inl ((congrArg World.held hworld).le.trans hle)⟩
  | used hx hcalls => exact calls_same h hx hcalls

/-- Fresh resources are not held twice. -/
theorem nodup_step {op : FileOp} {s' : FileSystem} (h : s.Adds s' op) (hnodup : s.world.held.Nodup)
    (hfresh : ∀ a, op.answers = some a → a.Fresh s.world) : s'.world.held.Nodup := by
  rcases h with hle | ⟨m, a, ec, cs, ha, hopened, hheld⟩
  · exact Multiset.nodup_of_le hle hnodup
  · obtain ⟨hdescriptor, hmapping⟩ := hfresh a ha
    rw [hheld]
    cases hopened with
    | @mapped fd st p hopened hstatus hregular hsize hmapped =>
        rw [MMapFile.owned_mapped]
        simp only [Multiset.singleton_add, Multiset.cons_add, Multiset.nodup_cons,
          Multiset.mem_cons, not_or]
        exact ⟨⟨nofun, hmapping p hmapped _⟩, hdescriptor fd hopened, hnodup⟩
    | failed hec hcalls hsize =>
        rw [MMapFile.owned_closed rfl rfl, zero_add]
        exact hnodup

/-- The world is what the objects own, and every object is well-formed. -/
structure Custodian (s : FileSystem) : Prop where
  agrees : s.Agrees
  objects : ∀ x m, s.objects.lookup x = some m → m.WellFormed

/-- At the start nobody owns anything. -/
theorem create_custodian : create.Custodian where
  agrees := rfl
  objects x m h := by
    rw [show create.objects = ∅ from rfl, AList.lookup_empty] at h
    cases h

/-- An operation hands out and takes back what the objects own. -/
theorem Custodian.step (h : s.Custodian) (op : FileOp) :
    (s.step op).Custodian ∧ s.Adds (s.step op) op := by
  have hsteps := step_steps h.objects op
  obtain ⟨hagrees, hadds⟩ := hsteps.agrees h.agrees
  refine ⟨⟨hagrees, ?_⟩, hadds⟩
  exact hsteps.forall (MMapFile.wellFormed_closed rfl rfl) h.objects
    fun _ _ _ _ _ _ hopened _ => hopened.owned.1

/-- After every program the objects own what is handed out. -/
theorem custodian_after (ops : List FileOp) : (after ops).Custodian :=
  run_invariant create_custodian (fun _ op h => (h.step op).1) ops

/-- What is traced to some operations is traced to more of them. -/
theorem Traced.concat {ops : List FileOp} (h : Traced ops m) (op : FileOp) :
    Traced (ops ++ [op]) m := by
  refine ⟨fun hvalid => ?_, fun hinvalid => (h.stale hinvalid).imp_right ?_⟩
  · obtain ⟨op', hop', hmapped⟩ := h.whole hvalid
    exact ⟨op', List.mem_append_left _ hop', hmapped⟩
  · rintro ⟨x, a, hx, ha⟩
    exact ⟨x, a, List.mem_append_left _ hx, ha⟩

/-- After every program the objects can be traced to their files. -/
theorem traced_after (ops : List FileOp) :
    ∀ x m, (after ops).objects.lookup x = some m → Traced ops m := by
  refine prefix_induction (P := fun pre => ∀ x m, (after pre).objects.lookup x = some m →
    Traced pre m) ops (fun x m h => ?_) fun pre op _ ih => ?_
  · rw [show (after []).objects = ∅ from rfl, AList.lookup_empty] at h
    cases h
  · rw [after, run_concat]
    have hsteps := step_steps (custodian_after pre).objects op
    refine hsteps.forall ⟨nofun, fun _ => .inl rfl⟩ (fun y m hy => (ih y m hy).concat op) ?_
    intro x a ec m cs ha hopened hec
    have hop : op ∈ pre ++ [op] := List.mem_append_right _ List.mem_cons_self
    cases hopened with
    | @mapped fd st p hopened hstatus hregular hsize hmapped =>
        refine ⟨fun _ => ?_, nofun⟩
        exact ⟨op, hop, a, ha, fd, st, p, hopened, hstatus, hregular, hsize, hmapped, rfl⟩
    | failed hne hcalls hsize =>
        obtain rfl := hec hne
        exact ⟨nofun, fun _ => hsize.imp_right fun hunmapped => ⟨x, a, hop, hunmapped⟩⟩

/-- The answers to the operation are fresh. -/
def FreshOp (s : FileSystem) (op : FileOp) : Prop :=
  ∀ a, op.answers = some a → a.Fresh s.world

/-- With fresh answers nothing is handed out twice. -/
theorem nodup_after {ops : List FileOp} (hfresh : Along step FreshOp create ops) :
    (after ops).world.held.Nodup := by
  have hall := hfresh.invariant (Q := fun _ _ => True)
    (I := fun s => s.Custodian ∧ s.world.held.Nodup) ⟨create_custodian, Multiset.nodup_zero⟩
    fun s op hs hop => ?_
  · exact hall.2.2
  · obtain ⟨hcustodian, hadds⟩ := hs.1.step op
    exact ⟨trivial, hcustodian, nodup_step hadds hs.2 hop⟩

/-- In every run of a program the descriptors and mappings that are open are those of the objects
that are alive, each of one object, and no call was at fault. An object has a mapping with its
descriptor, or neither. The mapping is of the whole file, as `fstat` answered when an operation of
the program opened it; an object without one has size 0, except behind a constructor that could not
map its file. -/
theorem files_in_custody (ops : List FileOp) (hfresh : Along step FreshOp create ops) :
    (after ops).world.faults = 0 ∧ (after ops).world.held.Nodup ∧
      (∀ r, r ∈ (after ops).world.held ↔
        ∃ x m, (after ops).objects.lookup x = some m ∧ r ∈ m.owned) ∧
      (∀ r x y m m', (after ops).objects.lookup x = some m → r ∈ m.owned →
        (after ops).objects.lookup y = some m' → r ∈ m'.owned → x = y) ∧
      ∀ x m, (after ops).objects.lookup x = some m → m.WellFormed ∧ Traced ops m := by
  have hcustodian := custodian_after ops
  have hnodup := nodup_after hfresh
  have hheld : (after ops).world.held = total MMapFile.owned (after ops).objects :=
    congrArg World.held hcustodian.agrees
  refine ⟨congrArg World.faults hcustodian.agrees, hnodup, fun r => ?_,
    fun r x y m m' hx hr hy hr' => ?_, fun x m hx => ⟨hcustodian.objects x m hx, ?_⟩⟩
  · rw [hheld]
    exact mem_total
  · rw [hheld] at hnodup
    exact owner_unique hnodup hx hr hy hr'
  · exact traced_after ops x m hx

/-- A file of 9000 bytes is opened, a second one cannot be mapped. The first is moved twice, and the
object that has it at last is used. -/
def filesProgram : List FileOp :=
  [.openFile 0 ⟨.ok 3, .ok ⟨true, 9000⟩, .ok 4096⟩,
    .construct 1 ⟨.ok 4, .ok ⟨true, 500⟩, .error ⟨12, by decide⟩⟩,
    .moveConstruct 2 0, .prefault 2, .moveAssign 1 2, .moveAssign 1 1, .destroy 2,
    .adviseSequential 1]

/-- The mapping of 9000 bytes and its descriptor are all that is open, and object 1 has them. -/
theorem files_in_custody_sample :
    (after filesProgram).objects.lookup 1 = some ⟨some 4096, 9000, 3⟩ ∧
      Traced filesProgram ⟨some 4096, 9000, 3⟩ ∧ (after filesProgram).world.faults = 0 ∧
      (after filesProgram).world.held.Nodup ∧
      .mapping 4096 9000 ∈ (after filesProgram).world.held := by
  have hfresh : Along step FreshOp create filesProgram := by
    refine ⟨?_, ?_, nofun, nofun, nofun, nofun, nofun, nofun, trivial⟩
    · rintro _ ⟨⟩
      exact ⟨fun fd _ => Multiset.notMem_zero _, fun p _ size => Multiset.notMem_zero _⟩
    · rintro _ ⟨⟩
      refine ⟨?_, nofun⟩
      rintro _ ⟨⟩
      decide +kernel
  obtain ⟨hfaults, hnodup, hheld, -, hobjects⟩ := files_in_custody filesProgram hfresh
  have hlookup : (after filesProgram).objects.lookup 1 = some ⟨some 4096, 9000, 3⟩ := by
    decide +kernel
  refine ⟨hlookup, (hobjects 1 _ hlookup).2, hfaults, hnodup, (hheld _).mpr ⟨1, _, hlookup, ?_⟩⟩
  decide +kernel

end FileSystem
end ItchParser
