import ItchParser.Lib.Custody

/-!
# MMapFile: a mapped file and its owner

The model of `MMapFile.hpp` and `MMapFile.cpp`. What the system answers to the calls of `open_into`
is an argument, and every method yields the system calls that it makes, with the calls that fail
left out, and the bytes that it reads. The diagnostics on stderr are left out.
-/

namespace ItchParser

open Custody

/-- An `errno` of a call that failed is not 0. -/
def Errno := { e : Int // e ≠ 0 }

/-- `std::errc::invalid_argument`. -/
def EINVAL : Int := 22

/-- What `fstat` says: `S_ISREG(st.st_mode)` and `st.st_size`. -/
structure FileStatus where
  regular : Bool
  size : Int64

/-- The answers of the system to `open`, `fstat` and `mmap`, for the calls that are made. -/
structure Answers where
  opened : Except Errno Nat
  status : Except Errno FileStatus
  mapped : Except Errno UInt64

/-- The advice of `madvise`. -/
inductive Advice where
  | sequential
  | willNeed
  | hugePage
  deriving DecidableEq

/-- The system calls that succeed, and the loads from a mapping. -/
inductive SysCall where
  | opens (fd : Int)
  | close (fd : Int)
  | mmap (addr : UInt64) (size : UInt64)
  | munmap (addr : UInt64) (size : UInt64)
  | madvise (addr : UInt64) (size : UInt64) (advice : Advice)
  | load (addr : UInt64) (off : UInt64)
  deriving DecidableEq

/-- What the system hands out. -/
inductive Resource where
  | descriptor (fd : Int)
  | mapping (addr : UInt64) (size : UInt64)
  deriving DecidableEq

/-- What a call does with the resources. An advice is for a whole mapping, and a load needs a
mapping that it is inside of. -/
def SysCall.event : SysCall → Event Resource
  | opens fd => .acquire (.descriptor fd)
  | close fd => .release (.descriptor fd)
  | mmap addr size => .acquire (.mapping addr size)
  | munmap addr size => .release (.mapping addr size)
  | madvise addr size _ => .use fun r => r = .mapping addr size
  | load addr off => .use fun r =>
      match r with
      | .mapping base size => base = addr && off < size
      | .descriptor _ => false

/-- `data_` is `none` for the null pointer. -/
structure MMapFile where
  data : Option UInt64 := none
  size : UInt64 := 0
  fd : Int := -1
  deriving DecidableEq

namespace MMapFile

/-- Whether a file is mapped. -/
def valid (m : MMapFile) : Bool :=
  m.data.isSome

/-- The error code, 0 for success, the object and the calls made. -/
def openInto (m : MMapFile) (a : Answers) : Int × MMapFile × List SysCall :=
  match a.opened with
  | .error e => (e.val, { m with fd := -1 }, [])
  | .ok fd =>
      match a.status with
      | .error e => (e.val, { m with fd := -1 }, [.opens fd, .close fd])
      | .ok st =>
          if !st.regular then (EINVAL, { m with fd := -1 }, [.opens fd, .close fd])
          else if st.size ≤ 0 then (EINVAL, { m with fd := -1 }, [.opens fd, .close fd])
          else
            let size := st.size.toUInt64
            match a.mapped with
            -- the size stays when the mapping fails
            | .error e => (e.val, { m with size := size, fd := -1 }, [.opens fd, .close fd])
            | .ok p => (0, { data := some p, size := size, fd := fd }, [.opens fd, .mmap p size])

/-- `release`, also the destructor. -/
def release (m : MMapFile) : MMapFile × List SysCall :=
  let unmaps :=
    match m.data with
    | some p => [.munmap p m.size]
    | none => []
  let closes := if m.fd ≥ 0 then [.close m.fd] else []
  ({ data := none, size := 0, fd := if m.fd ≥ 0 then -1 else m.fd }, unmaps ++ closes)

/-- The constructor from a path. -/
def construct (a : Answers) : MMapFile × List SysCall :=
  (({} : MMapFile).openInto a).2

/-- The object that takes over and what is left of `other`. -/
def moveConstruct (other : MMapFile) : MMapFile × MMapFile :=
  (other, { data := none, size := 0, fd := -1 })

/-- The assignment from another object: both objects and the calls made. -/
def moveAssign (m other : MMapFile) : MMapFile × MMapFile × List SysCall :=
  let (taken, left) := other.moveConstruct
  (taken, left, m.release.2)

/-- The static `open`: the mapped file or the error, and the calls made. The local object is moved
out or destroyed. -/
def openFile (a : Answers) : Except Int MMapFile × List SysCall :=
  let (ec, m, calls) := ({} : MMapFile).openInto a
  if ec ≠ 0 then (.error ec, calls ++ m.release.2)
  else
    let (result, moved) := m.moveConstruct
    (.ok result, calls ++ moved.release.2)

/-- `advise_sequential`: three hints for the whole mapping. -/
def adviseSequential (m : MMapFile) : List SysCall :=
  match m.data with
  | none => []
  | some p =>
      [.madvise p m.size .sequential, .madvise p m.size .willNeed, .madvise p m.size .hugePage]

/-- The step of `prefault`. -/
def kPage : UInt64 := 4096

/-- The loop of `prefault` from the offset `off`, if `n` iterations are enough. -/
def touchPages (p size : UInt64) : Nat → UInt64 → UInt64 → Option (UInt64 × List SysCall)
  | 0, _, _ => none
  | n + 1, off, touched =>
      if off < size then
        (touchPages p size n (off + kPage) (touched + kPage)).map fun (total, calls) =>
          (total, .load p off :: calls)
      else some (touched, [])

/-- The result and the loads of `prefault`; `none` would be a loop that does not end. -/
def prefault (m : MMapFile) : Option (UInt64 × List SysCall) :=
  match m.data with
  | none => some (0, [])
  | some p => touchPages p m.size (m.size.toNat / 4096 + 2) 0 0

end MMapFile

/-! ## Programs with mapped files -/

/-- What a program does with its objects. The objects are numbered. -/
inductive FileOp where
  | default (x : Nat)
  | construct (x : Nat) (a : Answers)
  | openFile (x : Nat) (a : Answers)
  | moveConstruct (x y : Nat)
  | moveAssign (x y : Nat)
  | destroy (x : Nat)
  | adviseSequential (x : Nat)
  | prefault (x : Nat)

/-- The objects that are alive, and the resources that the system has handed out. -/
structure FileSystem where
  objects : AList fun _ : Nat => MMapFile
  world : World Resource

namespace FileSystem

/-- No object is alive and nothing is handed out. -/
def create : FileSystem :=
  ⟨∅, ⟨0, 0⟩⟩

/-- The system after some calls. -/
def calls (s : FileSystem) (cs : List SysCall) : FileSystem :=
  { s with world := Machine.run World.step s.world (cs.map SysCall.event) }

/-- An object comes to life. -/
def put (s : FileSystem) (x : Nat) (m : MMapFile) : FileSystem :=
  { s with objects := s.objects.insert x m }

/-- One step of a program. What cannot be written does nothing: a second object under one name, and
a method of an object that is not alive. -/
def step (s : FileSystem) : FileOp → FileSystem
  | .default x => if x ∈ s.objects then s else s.put x {}
  | .construct x a =>
      if x ∈ s.objects then s
      else
        let (m, cs) := MMapFile.construct a
        (s.calls cs).put x m
  | .openFile x a =>
      if x ∈ s.objects then s
      else
        let (result, cs) := MMapFile.openFile a
        match result with
        | .error _ => s.calls cs
        | .ok m => (s.calls cs).put x m
  | .moveConstruct x y =>
      match s.objects.lookup y with
      | none => s
      | some other =>
          if x ∈ s.objects then s
          else
            let (m, left) := other.moveConstruct
            (s.put y left).put x m
  | .moveAssign x y =>
      match s.objects.lookup x, s.objects.lookup y with
      | some m, some other =>
          if x = y then s
          else
            let (m, left, cs) := m.moveAssign other
            ((s.calls cs).put y left).put x m
      | _, _ => s
  | .destroy x =>
      match s.objects.lookup x with
      | none => s
      | some m => { s.calls m.release.2 with objects := s.objects.erase x }
  | .adviseSequential x =>
      match s.objects.lookup x with
      | none => s
      | some m => s.calls m.adviseSequential
  | .prefault x =>
      match s.objects.lookup x with
      | none => s
      | some m =>
          match m.prefault with
          | some (_, cs) => s.calls cs
          | none => { s with world := { s.world with faults := s.world.faults + 1 } }

/-- The system after the operations `ops` of a program. -/
abbrev after (ops : List FileOp) : FileSystem :=
  Machine.run step create ops

end FileSystem
end ItchParser
