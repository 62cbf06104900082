import Chip8.Emulator

/-!
# Runs of an emulator

What a host can ask of an emulator, as data, so that a whole session is a list
of requests and the replies to them.
-/

namespace Chip8

/-- Something a host asks of an emulator. -/
inductive Request
  /-- Carry out one word. -/
  | step
  /-- Do the jobs that are due. -/
  | poll
  /-- Count the timers down. -/
  | countDown
  /-- Hand out the frame if it may have changed. -/
  | refresh
  /-- Read the keys from now on as this latch gives them. -/
  | setLatch (latch : Latch)
  /-- Change the machine. -/
  | edit (change : Machine → Machine)
  /-- Put another program into memory. -/
  | load (rom : Program)

/-- What a host gets back. -/
inductive Reply
  /-- It is done. -/
  | done
  /-- The emulator is halted by this fault. -/
  | halted (fault : Fault)
  /-- The frame, if it may have changed. -/
  | frame (changed : Option Frame)
  /-- The program is refused. -/
  | refused (reason : Program.Refusal)
  deriving DecidableEq

namespace Emulator

/-- The reply to something that may go wrong. -/
def replyTo (outcome : Outcome Fault Emulator) : Emulator × Reply :=
  (outcome.state, match outcome.error with
    | some fault => .halted fault
    | none => .done)

/-- Answer one request. -/
def answer (e : Emulator) : Request → Emulator × Reply
  | .step => replyTo e.step
  | .poll => replyTo e.poll
  | .countDown => (e.countDown, .done)
  | .refresh => (e.refresh.1, .frame e.refresh.2)
  | .setLatch latch => (e.setLatch latch, .done)
  | .edit change => (e.edit change, .done)
  | .load rom =>
    let loaded := e.loadProgram rom
    (loaded.state, match loaded.error with
      | some reason => .refused reason
      | none => .done)

/-- Answer requests one after another. -/
def run (e : Emulator) : List Request → Emulator × List Reply
  | [] => (e, [])
  | request :: rest =>
    let first := e.answer request
    let others := first.1.run rest
    (others.1, first.2 :: others.2)

end Emulator

end Chip8
