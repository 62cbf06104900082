import Chip8.Proofs.Footprint

/-!
# Setting up an emulator

Three things can be wrong with what an emulator is set up from: the size of the
program, the frequency of the words and the frequency of the timers.  They are
checked in this order, and the first that is wrong is reported.  If none is, the
font, the program and zeros fill memory, and everything else starts at zero but
the counter.
-/

namespace Chip8

/-! ## Frequencies -/

namespace Clock

open Float.Model

theorem unpack_zero : (0 : Float).toModel.unpack = .zero .positive := rfl

theorem le_zero_iff (frequency : Float) :
    frequency ≤ 0 ↔
      frequency.toModel.unpack.le (.zero .positive) = true := by
  rw [← unpack_zero]
  exact decide_eq_true_iff

theorem zero_lt_iff (frequency : Float) :
    0 < frequency ↔
      UnpackedFloat.lt (.zero .positive) frequency.toModel.unpack = true := by
  rw [← unpack_zero]
  exact decide_eq_true_iff

/-- Of finite numbers, unlike of `NaN`, those that are not at most zero are
above zero. -/
theorem le_zero_eq_not_zero_lt {number : UnpackedFloat}
    (h : number.isFinite = true) :
    number.le (.zero .positive) =
      !UnpackedFloat.lt (.zero .positive) number := by
  cases number with
  | infinity sign => cases h
  | notANumber => cases h
  | zero sign => rfl
  | finite sign mantissa exponent hpos =>
      cases sign with
      | positive => rfl
      | negative => rfl

/-- Tasks can run at the frequencies that are finite and positive. -/
theorem isFrequency_iff (frequency : Float) :
    isFrequency frequency = true ↔
      frequency.isFinite = true ∧ 0 < frequency := by
  rw [isFrequency, Bool.and_eq_true, Bool.not_eq_true',
    decide_eq_false_iff_not, le_zero_iff, zero_lt_iff]
  apply and_congr_right
  intro hfinite
  rw [le_zero_eq_not_zero_lt hfinite, Bool.not_eq_true', Bool.not_eq_false]

end Clock

/-! ## Programs in memory -/

namespace Machine

/-- A program changes the cells it covers, and those alone. -/
theorem loadProgram_memory (m : Machine) {rom : Program}
    (h : rom.length ≤ Program.maxSize) :
    ∃ memory, m.loadProgram rom = .ok { m with memory := memory } ∧
      memory.block 0x200 rom.length = rom ∧
      ∀ address, address < 0x200 ∨ 0x200 + rom.length ≤ address →
        memory.byteAt address = m.memory.byteAt address := by
  have hfits : Program.start + rom.length ≤ Memory.size := by
    have hmax : Program.maxSize = Memory.size - Program.start := rfl
    have hstart : Program.start ≤ Memory.size := by decide
    omega
  refine ⟨_, m.loadProgram_of_le h, m.memory.block_put hfits, ?_⟩
  intro address houtside
  rw [Memory.byteAt_put, if_neg]
  have hstart : Program.start = 0x200 := rfl
  omega

end Machine

/-! ## Booted emulators -/

theorem Frame.pixel_blank (column row : Nat) :
    Frame.blank.pixel column row = false := by
  rw [pixel]
  split
  next word hword =>
    have hzero : word = 0 := by
      rw [blank, Vector.getElem?_replicate] at hword
      split at hword
      · cases hword
        rfl
      · cases hword
    simp [hzero]
  next => rfl

namespace Emulator

variable {rom : Program} {latch : Latch} {config : Config}
  {source : Tape Nat} {entropy : Entropy} {e : Emulator}

theorem boot_memory (h : boot rom latch config source entropy = .ok e) :
    e.machine.memory.block 0 80 = Font.sheet ∧
      e.machine.memory.block 0x200 rom.length = rom ∧
      ∀ address, 80 ≤ address →
        address < 0x200 ∨ 0x200 + rom.length ≤ address →
        e.machine.memory.byteAt address = 0 := by
  have hbyte := boot_byteAt h
  have hstart : Program.start = 0x200 := rfl
  have hfont : Font.sheet.length = 80 := rfl
  refine ⟨?_, ?_, ?_⟩
  · rw [← hfont]
    apply Memory.block_eq_of_byteAt
    intro k hk
    rw [hbyte, Program.initialByte, if_pos (by omega), Nat.zero_add]
  · apply Memory.block_eq_of_byteAt
    intro k hk
    rw [hbyte, Program.initialByte, if_neg (by omega), hstart,
      Nat.add_sub_cancel_left]
  · intro address hglyphs houtside
    rw [hbyte, Program.initialByte]
    split
    · exact List.getD_eq_default _ _ (by omega)
    · exact List.getD_eq_default _ _ (by omega)

theorem boot_registers (h : boot rom latch config source entropy = .ok e) :
    (∀ x, e.machine.reg x = 0) ∧ e.machine.index = 0 ∧ e.machine.sp = 0 ∧
      (∀ slot, slot < 16 → e.machine.stack.get? slot = some 0) ∧
      e.machine.delay = 0 ∧ e.machine.sound = 0 ∧ e.machine.pc = 0x200 := by
  obtain ⟨-, hmachine⟩ := boot_machine h
  rw [hmachine]
  refine ⟨?_, rfl, rfl, ?_, rfl, rfl, rfl⟩
  · intro x
    simp [Machine.reg, Machine.blank]
  · intro slot hslot
    have hlt : slot.toNat < 16 := UInt8.lt_iff_toNat_lt.mp hslot
    simp [Machine.blank, Stack.blank, Stack.get?, hlt]

/-- Setting up an emulator for a program.  The size of the program, the
frequency of the words and that of the timers are checked in this order, and
the first that is wrong is reported.  If none is, memory holds the font, the
program and zeros, the counter points at the program, everything else of the
machine is zero, nothing is shown or wrong, and the clock holds the two jobs,
each counting from a reading of its own.  Putting a program into any machine
likewise changes the cells it covers alone, or nothing if there is no room. -/
theorem boot_checks_then_fills_memory (rom : Program) (latch : Latch)
    (config : Config) (source : Tape Nat) (entropy : Entropy) :
    let fits := rom.length ≤ 3584
    let runs (frequency : Float) := frequency.isFinite = true ∧ 0 < frequency
    let booted := boot rom latch config source entropy
    ((∃ e, booted = .ok e) ↔
      fits ∧ runs config.cpuHz ∧ runs config.timerHz) ∧
    (¬fits → booted = .error (.program (.tooLarge rom.length))) ∧
    (fits → ¬runs config.cpuHz →
      booted = .error (.job (.badFrequency config.cpuHz))) ∧
    (fits → runs config.cpuHz → ¬runs config.timerHz →
      booted = .error (.job (.badFrequency config.timerHz))) ∧
    (∀ e, booted = .ok e →
      let m := e.machine
      m.memory.block 0 80 = Font.sheet ∧
      m.memory.block 0x200 rom.length = rom ∧
      (∀ address, 80 ≤ address →
        address < 0x200 ∨ 0x200 + rom.length ≤ address →
        m.memory.byteAt address = 0) ∧
      (∀ x, m.reg x = 0) ∧ m.index = 0 ∧ m.sp = 0 ∧
      (∀ slot, slot < 16 → m.stack.get? slot = some 0) ∧
      m.delay = 0 ∧ m.sound = 0 ∧ m.pc = 0x200 ∧
      (∀ column row, e.screen.frame.pixel column row = false) ∧
      e.screen.dirty = false ∧ e.fault = none ∧
      e.clock.source = some source.advance.advance ∧
      e.clock.tasks =
        [⟨.cycle, Clock.period config.cpuHz, source.head⟩,
          ⟨.countDown, Clock.period config.timerHz, source.advance.head⟩]) ∧
    ∀ m : Machine,
      (fits → ∃ memory,
        m.loadProgram rom = .ok { m with memory := memory } ∧
        memory.block 0x200 rom.length = rom ∧
        ∀ address, address < 0x200 ∨ 0x200 + rom.length ≤ address →
          memory.byteAt address = m.memory.byteAt address) ∧
      (¬fits → m.loadProgram rom = .fail m (.tooLarge rom.length) ∧
        ∀ now : Emulator, now.machine = m →
          now.answer (.load rom) =
            (now, .refused (.tooLarge rom.length))) := by
  intro fits runs booted
  have hbad {frequency : Float} (h : ¬runs frequency) :
      Clock.isFrequency frequency = false := by
    rw [← Bool.not_eq_true, Clock.isFrequency_iff]
    exact h
  have hlarge (h : ¬fits) :
      booted = .error (.program (.tooLarge rom.length)) :=
    boot_of_tooLarge (Nat.lt_of_not_le h)
  have hcpu (h : fits) (hruns : ¬runs config.cpuHz) :
      booted = .error (.job (.badFrequency config.cpuHz)) :=
    boot_of_bad_clock h (jobClock_of_bad_cpu (hbad hruns))
  have htimers (h : fits) (hcpu : runs config.cpuHz)
      (hruns : ¬runs config.timerHz) :
      booted = .error (.job (.badFrequency config.timerHz)) :=
    boot_of_bad_clock h (jobClock_of_bad_timers
      ((Clock.isFrequency_iff _).mpr hcpu) (hbad hruns))
  refine ⟨?_, hlarge, hcpu, htimers, ?_, ?_⟩
  · rw [exists_boot_iff, Clock.isFrequency_iff, Clock.isFrequency_iff]
    exact Iff.rfl
  · intro e he m
    obtain ⟨hfont, hrom, hzeros⟩ := boot_memory he
    obtain ⟨hregs, hindex, hsp, hslots, hdelay, hsound, hpc⟩ :=
      boot_registers he
    have hscreen := boot_screen he
    have hjobs := boot_clock he
    obtain ⟨-, -, -, -, -, hrunning⟩ := boot_eq_ok he
    refine ⟨hfont, hrom, hzeros, hregs, hindex, hsp, hslots, hdelay, hsound,
      hpc, ?_, ?_, hrunning, ?_, ?_⟩
    · rw [hscreen]
      exact Frame.pixel_blank
    · rw [hscreen]
      rfl
    · rw [hjobs]
      rfl
    · rw [hjobs]
      rfl
  · intro m
    refine ⟨m.loadProgram_memory, ?_⟩
    intro hroom
    have hrefused := m.loadProgram_of_lt (Nat.lt_of_not_le hroom)
    refine ⟨hrefused, ?_⟩
    rintro now rfl
    simp only [answer, loadProgram, hrefused]
    rfl

/-- A program of one word is set up, `NaN` is reported before a negative
frequency, and a program that is too large before either. -/
theorem boot_checks_then_fills_memory_in_turn :
    let rom : Program := [0x12, 0x00]
    let large : Program := List.replicate 3585 0
    let wrong : Config := { cpuHz := 0 / 0, timerHz := -1 }
    let booted (rom : Program) (config : Config) :=
      boot rom (fun _ => none) config (.ofCells fun n => 7 * n)
        (fun _ => .ofCells fun _ => 0)
    (∃ e, booted rom {} = .ok e ∧
      e.machine.memory.block 0x200 2 = rom ∧
      e.machine.memory.byteAt 0x202 = 0 ∧
      e.clock.tasks.map Task.lastFired = [0, 7]) ∧
      booted rom wrong = .error (.job (.badFrequency (0 / 0))) ∧
      booted large wrong = .error (.program (.tooLarge 3585)) := by
  intro rom large wrong booted
  have hlarge : large.length = 3585 := List.length_replicate
  obtain ⟨hboots, -, -, -, hfresh, -⟩ :=
    boot_checks_then_fills_memory rom (fun _ => none) {}
      (.ofCells fun n => 7 * n) (fun _ => .ofCells fun _ => 0)
  obtain ⟨-, -, hcpu, -, -, -⟩ :=
    boot_checks_then_fills_memory rom (fun _ => none) wrong
      (.ofCells fun n => 7 * n) (fun _ => .ofCells fun _ => 0)
  obtain ⟨-, hsize, -, -, -, -⟩ :=
    boot_checks_then_fills_memory large (fun _ => none) wrong
      (.ofCells fun n => 7 * n) (fun _ => .ofCells fun _ => 0)
  refine ⟨?_, hcpu (by decide) (by decide +kernel), ?_⟩
  · obtain ⟨e, he⟩ := hboots.mpr (by decide +kernel)
    obtain ⟨-, hrom, hzeros, -, -, -, -, -, -, -, -, -, -, -, htasks⟩ :=
      hfresh e he
    refine ⟨e, he, hrom, hzeros 0x202 (by decide) (Or.inr (Nat.le_refl _)), ?_⟩
    rw [htasks]
    rfl
  · rw [hlarge] at hsize
    exact hsize (by decide)

end Emulator

end Chip8
