import Chip8.Fault
import Chip8.Outcome

/-!
# Memory

4096 byte cells.  Every access names its first cell by any natural number and
succeeds exactly when all the cells it covers exist; otherwise it reports the
lowest covered address outside memory.  What is stored is checked before the
first of its cells is changed.

The instructions store blocks with `store`.  A host stores them with
`hostStore`, whose addresses are 64-bit numbers: there the end of the block must
be such a number as well.
-/

namespace Chip8

/-- The byte cells of the machine. -/
structure Memory where
  cells : Vector UInt8 4096
  deriving DecidableEq, Repr

namespace Memory

/-- How many cells there are. -/
def size : Nat := 4096

/-- Memory with a zero in every cell. -/
def blank : Memory := ⟨Vector.replicate 4096 0⟩

/-- Put a byte into one cell; an address outside memory has no cell to change. -/
def set (m : Memory) (address : Nat) (value : UInt8) : Memory :=
  ⟨m.cells.setIfInBounds address value⟩

/-- The byte at an address. -/
def read (m : Memory) (address : Nat) : Except Fault UInt8 :=
  match m.cells[address]? with
  | some value => .ok value
  | none => .error (.outsideMemory address)

/-- Put a byte at an address. -/
def write (m : Memory) (address : Nat) (value : UInt8) : Outcome Fault Memory :=
  if address < size then .ok (m.set address value) else .fail m (.outsideMemory address)

/-- The word at an address and the one after it, high byte first. -/
def readWord (m : Memory) (address : Nat) : Except Fault UInt16 :=
  match m.read address with
  | .error fault => .error fault
  | .ok high =>
    match m.read (address + 1) with
    | .error fault => .error fault
    | .ok low => .ok (UInt16.ofNat (high.toNat * 256 + low.toNat))

/-- Put bytes into the cells from an address on. -/
def put (m : Memory) (address : Nat) : List UInt8 → Memory
  | [] => m
  | value :: rest => (m.set address value).put (address + 1) rest

/-- Put a block of bytes at an address.  Whether it fits is seen before any of it is put there. -/
def store (m : Memory) (address : Nat) (data : List UInt8) : Outcome Fault Memory :=
  if size < address + data.length then .fail m (.outsideMemory (max address size))
  else .ok (m.put address data)

/-- Why a block that a host wants to store is refused. -/
inductive Refusal
  /-- Some of it lies outside memory. -/
  | fault (fault : Fault)
  /-- Its end is not a 64-bit number, so it is not compared with the size of memory at all. -/
  | endOverflow
  deriving DecidableEq, Repr

/-- The sentence that reports a refused block. -/
def Refusal.message : Refusal → String
  | .fault cause => cause.message
  | .endOverflow => "block ends beyond the last 64-bit address"

/-- Put a host's block of bytes at a 64-bit address. -/
def hostStore (m : Memory) (address : Nat) (data : List UInt8) : Outcome Refusal Memory :=
  if UInt64.size ≤ address + data.length then .fail m .endOverflow
  else (m.store address data).mapError .fault

end Memory

end Chip8
