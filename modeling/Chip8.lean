import Chip8.Program.Reading
import Chip8.Proofs.CallStack
import Chip8.Proofs.Faults
import Chip8.Proofs.Outside
import Chip8.Proofs.Pace
import Chip8.Proofs.Policies
import Chip8.Proofs.Reach
import Chip8.Proofs.Redraw
import Chip8.Proofs.Tick
import Chip8.Proofs.Delivery
import Chip8.Proofs.Flags
import Chip8.Proofs.Setup
import Chip8.Proofs.Transfer
import Chip8.Proofs.Waiting
import Chip8.Proofs.Timers
import Chip8.Proofs.Assembly
import Chip8.Proofs.SystemWords
import Chip8.Proofs.Undoing
import Chip8.Proofs.Bounds
