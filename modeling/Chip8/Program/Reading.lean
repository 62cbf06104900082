import Chip8.Program

/-!
# Reading a program from a stream

A stream delivers its bytes in chunks of any size, with interruptions between
them, until it ends or fails.  A chunk without any bytes is its end, whatever it
may deliver when it is asked again.  Reading stops one byte past the largest
program, so that a longer stream is refused without being taken in whole.
-/

namespace Chip8

/-- What a stream delivers when it is asked for bytes. -/
inductive ReadEvent
  /-- The next bytes; none at the end of the stream. -/
  | chunk (bytes : List UInt8)
  /-- No bytes this time; asking again is worthwhile. -/
  | interrupted
  /-- A failure, with a message. -/
  | failed (message : String)
  deriving DecidableEq, Repr

namespace Program

/-- The bytes taken from a stream, and the failure that ended the taking if one did. -/
structure Gathered where
  bytes : List UInt8
  failure : Option String
  deriving DecidableEq, Repr

/-- Take bytes from a stream until it ends, fails, or has delivered a number of bytes.  Nothing
is asked of the stream once the number is reached. -/
def gather : (limit : Nat) → List ReadEvent → Gathered
  | 0, _ => ⟨[], none⟩
  | _ + 1, [] => ⟨[], none⟩
  | _ + 1, .chunk [] :: _ => ⟨[], none⟩
  | _ + 1, .failed message :: _ => ⟨[], some message⟩
  | limit + 1, .interrupted :: rest => gather (limit + 1) rest
  | limit + 1, .chunk (first :: more) :: rest =>
    let bytes := first :: more
    let others := gather (limit + 1 - bytes.length) rest
    ⟨bytes.take (limit + 1) ++ others.bytes, others.failure⟩

/-- The program that gathered bytes make, unless their stream failed or they are too many. -/
def ofGathered (gathered : Gathered) : Except Refusal Program :=
  match gathered.failure with
  | some message => .error (.reader message)
  | none =>
    if gathered.bytes.length ≤ maxSize then .ok gathered.bytes
    else .error (.tooLarge gathered.bytes.length)

/-- The result of reading a program from a stream, and how many bytes were taken. -/
structure Reading where
  result : Except Refusal Program
  consumed : Nat

/-- Read a program from a stream. -/
def read (events : List ReadEvent) : Reading :=
  let gathered := gather (maxSize + 1) events
  ⟨ofGathered gathered, gathered.bytes.length⟩

end Program

end Chip8
