import Chip8.Proofs.Schedule

/-!
# Booted emulators

What is known of an emulator that could be set up: its program has been put
into a blank machine, and its clock holds the two jobs.
-/

namespace Chip8

namespace Machine

theorem loadProgram_of_le (m : Machine) {rom : Program}
    (h : rom.length ≤ Program.maxSize) :
    m.loadProgram rom =
      .ok { m with memory := m.memory.put Program.start rom } :=
  if_neg (Nat.not_lt.mpr h)

theorem loadProgram_of_lt (m : Machine) {rom : Program}
    (h : Program.maxSize < rom.length) :
    m.loadProgram rom = .fail m (.tooLarge rom.length) :=
  if_pos h

theorem loadProgram_error_eq_none_iff {m : Machine} {rom : Program} :
    (m.loadProgram rom).error = none ↔ rom.length ≤ Program.maxSize := by
  by_cases h : rom.length ≤ Program.maxSize
  · simp [loadProgram_of_le m h, h]
  · simp [loadProgram_of_lt m (Nat.lt_of_not_le h), h]

end Machine

namespace Emulator

variable {rom : Program} {latch : Latch} {config : Config}
  {source : Tape Nat} {entropy : Entropy} {e : Emulator}

theorem jobClock_of_bad_cpu (h : Clock.isFrequency config.cpuHz = false) :
    (jobClock config source).error = some (.badFrequency config.cpuHz) := by
  simp [jobClock, Clock.schedule, Clock.ofSource, h]

theorem jobClock_of_bad_timers (hcpu : Clock.isFrequency config.cpuHz = true)
    (h : Clock.isFrequency config.timerHz = false) :
    (jobClock config source).error = some (.badFrequency config.timerHz) := by
  simp [jobClock, Clock.schedule, Clock.ofSource, hcpu, h]

theorem jobClock_of_good (hcpu : Clock.isFrequency config.cpuHz = true)
    (htimers : Clock.isFrequency config.timerHz = true) :
    jobClock config source = .ok (.ofJobs source.advance.advance
      (Clock.period config.cpuHz) source.head
      (Clock.period config.timerHz) source.advance.head) := by
  simp [jobClock, Clock.schedule, Clock.ofSource, hcpu, htimers, Clock.ofJobs]

/-- Both jobs can be scheduled if their frequencies are good. -/
theorem jobClock_error_eq_none_iff :
    (jobClock config source).error = none ↔
      Clock.isFrequency config.cpuHz = true ∧
        Clock.isFrequency config.timerHz = true := by
  cases hcpu : Clock.isFrequency config.cpuHz with
  | false => simp [jobClock_of_bad_cpu hcpu]
  | true =>
      cases htimers : Clock.isFrequency config.timerHz with
      | false => simp [jobClock_of_bad_timers hcpu htimers]
      | true => simp [jobClock_of_good hcpu htimers]

theorem boot_of_tooLarge (h : Program.maxSize < rom.length) :
    boot rom latch config source entropy =
      .error (.program (.tooLarge rom.length)) := by
  simp [boot, Machine.loadProgram_of_lt _ h]

theorem boot_of_bad_clock {reason : Clock.Refusal}
    (hroom : rom.length ≤ Program.maxSize)
    (hclock : (jobClock config source).error = some reason) :
    boot rom latch config source entropy = .error (.job reason) := by
  simp [boot, Machine.loadProgram_of_le _ hroom, hclock]

/-- A booted emulator is a fresh engine on a blank machine with the program
in it. -/
theorem boot_eq_ok (h : boot rom latch config source entropy = .ok e) :
    ∃ machine,
      Machine.blank.loadFont.loadProgram rom = .ok machine ∧
      e.engine.console =
        ⟨machine, .blank, latch, entropy config.seed⟩ ∧
      e.engine.dispatcher = .ofPolicy config.policy ∧
      jobClock config source = .ok e.clock ∧
      e.fault = none := by
  simp only [boot] at h
  cases hload : (Machine.blank.loadFont.loadProgram rom).error with
  | some reason => simp [hload] at h
  | none =>
      cases hclock : (jobClock config source).error with
      | some reason => simp [hload, hclock] at h
      | none =>
          simp only [hload, hclock, Except.ok.injEq] at h
          subst h
          exact ⟨_, Outcome.eq_ok_of_error hload, rfl, rfl,
            Outcome.eq_ok_of_error hclock, rfl⟩

theorem boot_machine (h : boot rom latch config source entropy = .ok e) :
    rom.length ≤ Program.maxSize ∧
      e.machine = { Machine.blank with
        memory := (Memory.blank.put 0 Font.sheet).put Program.start rom } := by
  obtain ⟨machine, hload, hconsole, -⟩ := boot_eq_ok h
  have hroom : rom.length ≤ Program.maxSize := by
    rw [← Machine.loadProgram_error_eq_none_iff, hload, Outcome.error_ok]
  refine ⟨hroom, ?_⟩
  rw [Machine.loadProgram_of_le _ hroom, Outcome.ok_inj] at hload
  rw [Emulator.machine, hconsole, ← hload]
  rfl

theorem exists_boot_iff :
    (∃ e, boot rom latch config source entropy = .ok e) ↔
      rom.length ≤ Program.maxSize ∧
        Clock.isFrequency config.cpuHz = true ∧
        Clock.isFrequency config.timerHz = true := by
  constructor
  · rintro ⟨e, he⟩
    obtain ⟨hroom, -⟩ := boot_machine he
    obtain ⟨-, -, -, -, hclock, -⟩ := boot_eq_ok he
    have hgood := congrArg Outcome.error hclock
    exact ⟨hroom, jobClock_error_eq_none_iff.mp hgood⟩
  · rintro ⟨hroom, hcpu, htimers⟩
    simp [boot, Machine.loadProgram_of_le _ hroom,
      jobClock_of_good hcpu htimers]

theorem boot_screen (h : boot rom latch config source entropy = .ok e) :
    e.screen = .blank := by
  obtain ⟨machine, -, hconsole, -⟩ := boot_eq_ok h
  rw [screen, hconsole]

theorem boot_clock (h : boot rom latch config source entropy = .ok e) :
    e.clock = .ofJobs source.advance.advance
      (Clock.period config.cpuHz) source.head
      (Clock.period config.timerHz) source.advance.head := by
  obtain ⟨-, -, -, -, hclock, -⟩ := boot_eq_ok h
  obtain ⟨hcpu, htimers⟩ :=
    jobClock_error_eq_none_iff.mp (congrArg Outcome.error hclock)
  rw [jobClock_of_good hcpu htimers] at hclock
  exact (Outcome.ok_inj.mp hclock).symm

theorem boot_paced (h : boot rom latch config source entropy = .ok e) :
    e.Paced :=
  ⟨_, _, _, _, _, boot_clock h⟩

end Emulator

end Chip8
