import Chip8.Proofs.Access
import Chip8.Proofs.Boot
import Chip8.Proofs.Counter
import Chip8.Proofs.Session
import Mathlib.Data.List.GetD
import Mathlib.Data.Set.Insert
import Mathlib.Tactic.ByContra

/-!
# What a word can change

A console falls into parts that can change on their own.  The footprint of an
instruction is the parts that it may change: few of them, and known before it is
carried out.  A part that lies in no footprint of the words of a session is at
its end what it was at its start; so a cell keeps its byte until an instruction
that stores something covers it, even though programs can change themselves.
-/

namespace Chip8

/-- A part of a console that can change on its own. -/
inductive Part
  | cell (address : Nat)
  | slot (number : UInt8)
  | register (x : Register)
  | index
  | counter
  | stackPointer
  | delay
  | sound
  | screen
  | latch
  | random
  deriving DecidableEq

namespace Console

/-- Two consoles agree in a part. -/
def SameAt (c d : Console) : Part → Prop
  | .cell address =>
    d.machine.memory.byteAt address = c.machine.memory.byteAt address
  | .slot number => d.machine.stack.get? number = c.machine.stack.get? number
  | .register x => d.machine.reg x = c.machine.reg x
  | .index => d.machine.index = c.machine.index
  | .counter => d.machine.pc = c.machine.pc
  | .stackPointer => d.machine.sp = c.machine.sp
  | .delay => d.machine.delay = c.machine.delay
  | .sound => d.machine.sound = c.machine.sound
  | .screen => d.screen = c.screen
  | .latch => d.latch = c.latch
  | .random => d.random = c.random

/-- Two consoles agree in every part outside a set. -/
def ChangesOnly (c d : Console) (parts : Set Part) : Prop :=
  ∀ part, part ∉ parts → c.SameAt d part

end Console

/-- The parts of a console that an instruction may change, the counter
apart. -/
def Instruction.footprint (c : Console) : Instruction → Set Part
  | .clear => {.screen}
  | .ret => {.stackPointer}
  | .call _ => {.slot (c.machine.sp + 1), .stackPointer}
  | .jump _ | .jumpOffset _ | .skip _ => ∅
  | .setByte x _ | .addByte x _ | .getDelay x => {.register x}
  | .combine .copy x _ | .combine .or x _ | .combine .and x _
  | .combine .xor x _ => {.register x}
  | .combine .add x _ | .combine .subtract x _ | .combine .subtractFrom x _
  | .shift _ x => {.register x, .register .flag}
  | .random x _ => {.register x, .random}
  | .draw .. => {.screen, .register .flag}
  | .waitKey x =>
    {part | part = .register x ∧ ∃ key, c.latch key = some true}
  | .setDelay _ => {.delay}
  | .setSound _ => {.sound}
  | .setIndex _ | .addIndex _ | .pointGlyph _ => {.index}
  | .storeDigits _ =>
    {part | ∃ k < 3, part = .cell (c.machine.index.toNat + k)}
  | .storeRegisters x =>
    {part | ∃ k ≤ x.val, part = .cell (c.machine.index.toNat + k)}
  | .fillRegisters x => {part | ∃ y ≤ x, part = .register y}

namespace Engine

/-- The parts of a console that a cycle may change.  A word that stands for no
instruction only moves the counter. -/
def footprint (e : Engine) : Set Part :=
  insert .counter
    (match e.instruction? with
    | some i => i.footprint e.console
    | none => ∅)

/-- Whether a cycle stores something in a cell. -/
def storesAt (e : Engine) (address : Nat) : Bool :=
  let index := e.console.machine.index.toNat
  e.cycle.error.isNone && match e.instruction? with
    | some (.storeDigits _) => index ≤ address && address < index + 3
    | some (.storeRegisters x) => index ≤ address && address ≤ index + x.val
    | _ => false

end Engine

/-- The byte that a cell holds before anything is carried out: the glyphs of
the font lie at the start of memory and the program at its own start, and the
other cells are zero. -/
def Program.initialByte (rom : Program) (address : Nat) : UInt8 :=
  if address < Program.start then Font.sheet.getD address 0
  else rom.getD (address - Program.start) 0

namespace Console

variable {c d : Console} {parts more : Set Part}

theorem SameAt.refl (c : Console) (part : Part) : c.SameAt c part := by
  cases part with
  | _ => rfl

theorem SameAt.trans {b : Console} {part : Part} (hbc : b.SameAt c part)
    (hcd : c.SameAt d part) : b.SameAt d part := by
  cases part with
  | _ => exact Eq.trans hcd hbc

theorem ChangesOnly.refl (c : Console) (parts : Set Part) :
    c.ChangesOnly c parts :=
  fun part _ => .refl c part

theorem ChangesOnly.trans {b : Console} (hbc : b.ChangesOnly c parts)
    (hcd : c.ChangesOnly d parts) : b.ChangesOnly d parts :=
  fun part hpart => (hbc part hpart).trans (hcd part hpart)

theorem ChangesOnly.mono (h : c.ChangesOnly d parts) (hsub : parts ⊆ more) :
    c.ChangesOnly d more :=
  fun part hpart => h part fun hmem => hpart (hsub hmem)

/-- The parts are all there is of a console. -/
theorem eq_of_sameAt (h : ∀ part, c.SameAt d part) : d = c := by
  have hmemory : d.machine.memory = c.machine.memory :=
    Memory.ext_byteAt fun address => h (.cell address)
  have hstack : d.machine.stack.slots = c.machine.stack.slots := by
    apply Vector.ext
    intro k hk
    have hslot := h (.slot (UInt8.ofNat k))
    have hsmall : k < 256 := by omega
    simpa [SameAt, Stack.get?, Nat.mod_eq_of_lt hsmall, hk] using hslot
  have hregs : d.machine.v = c.machine.v := by
    apply Vector.ext
    intro k hk
    exact h (.register ⟨k, hk⟩)
  obtain ⟨⟨memory, ⟨slots⟩, v, index, pc, sp, delay, sound⟩, screen, latch,
    random⟩ := c
  obtain ⟨⟨memory', ⟨slots'⟩, v', index', pc', sp', delay', sound'⟩, screen',
    latch', random'⟩ := d
  simp only at hmemory hstack hregs
  have hindex : index' = index := h .index
  have hpc : pc' = pc := h .counter
  have hsp : sp' = sp := h .stackPointer
  have hdelay : delay' = delay := h .delay
  have hsound : sound' = sound := h .sound
  have hscreen : screen' = screen := h .screen
  have hlatch : latch' = latch := h .latch
  have hrandom : random' = random := h .random
  subst hmemory hstack hregs hindex hpc hsp hdelay hsound hscreen hlatch
    hrandom
  rfl

/-! ## Instructions -/

theorem changesOnly_setReg (c : Console) (x : Register) (value : UInt8) :
    c.ChangesOnly (c.withMachine (c.machine.setReg x value))
      {.register x} := by
  intro part hpart
  cases part with
  | register y =>
      have hne : x ≠ y := fun heq => hpart (by rw [heq]; rfl)
      exact (c.machine.reg_setReg x y value).trans (if_neg hne)
  | _ => rfl

theorem changesOnly_setFlagged (c : Console) (x : Register) (result : UInt8)
    (flag : Bool) :
    c.ChangesOnly (c.withMachine (c.machine.setFlagged x result flag))
      {.register x, .register .flag} := by
  have hflag := c.changesOnly_setReg .flag (UInt8.ofNat flag.toNat)
  have hresult := (c.withMachine (c.machine.setReg .flag
    (UInt8.ofNat flag.toNat))).changesOnly_setReg x result
  exact (hflag.mono (by simp)).trans (hresult.mono (by simp))

theorem changesOnly_counter (c : Console) (pc : UInt16) :
    c.ChangesOnly (c.withMachine { c.machine with pc := pc })
      {.counter} := by
  intro part hpart
  cases part with
  | counter => exact absurd rfl hpart
  | _ => rfl

theorem changesOnly_index (c : Console) (index : UInt16) :
    c.ChangesOnly (c.withMachine { c.machine with index := index })
      {.index} := by
  intro part hpart
  cases part with
  | index => exact absurd rfl hpart
  | _ => rfl

/-- What is done to the machine alone changes the parts that it changes
there. -/
theorem changesOnly_onMachine {act : Machine → Outcome Fault Machine}
    (h : c.ChangesOnly (c.withMachine (act c.machine).state) parts) :
    c.ChangesOnly (c.onMachine act).state parts := h

theorem changesOnly_storeAtIndex (c : Console) (data : List UInt8) :
    c.ChangesOnly (c.withMachine (c.machine.storeAtIndex data).state)
      {part | ∃ k < data.length,
        part = .cell (c.machine.index.toNat + k)} := by
  cases herror : (c.machine.storeAtIndex data).error with
  | some fault =>
      rw [Machine.storeAtIndex_state_of_error herror]
      exact .refl c _
  | none =>
      obtain ⟨-, hstore⟩ := Machine.storeAtIndex_eq_of_ok herror
      rw [hstore]
      intro part hpart
      cases part with
      | cell address =>
          refine (Memory.byteAt_put _ _ _ _).trans (if_neg ?_)
          rintro ⟨hfirst, hlast, -⟩
          apply hpart
          refine ⟨address - c.machine.index.toNat, by omega, ?_⟩
          congr 1
          omega
      | _ => rfl

theorem changesOnly_setRegs (c : Console) (values : List UInt8) :
    c.ChangesOnly (c.withMachine (c.machine.setRegs values))
      {part | ∃ y : Register, y.val < values.length ∧ part = .register y} := by
  intro part hpart
  cases part with
  | register y =>
      have hbeyond : values.length ≤ y.val := by
        by_contra hlt
        exact hpart ⟨y, Nat.lt_of_not_le hlt, rfl⟩
      exact (c.machine.reg_setRegs values y).trans
        (List.getD_eq_default _ _ hbeyond)
  | _ => simp only [SameAt, withMachine, Machine.setRegs]

theorem changesOnly_fillRegisters (c : Console) (x : Register) :
    c.ChangesOnly (c.withMachine (c.machine.fillRegisters x).state)
      {part | ∃ y ≤ x, part = .register y} := by
  rw [Machine.fillRegisters, Memory.readBlock_eq]
  by_cases hfits : x.val + 1 ≤ Memory.size - c.machine.index.toNat
  · rw [if_pos hfits]
    apply (c.changesOnly_setRegs _).mono
    rintro part ⟨y, hlt, rfl⟩
    rw [Memory.length_block] at hlt
    exact ⟨y, Nat.le_of_lt_succ hlt, rfl⟩
  · rw [if_neg hfits]
    exact .refl c _

theorem changesOnly_draw (c : Console) (x y : Register) (rows : Nibble) :
    c.ChangesOnly (c.draw x y rows).state {.screen, .register .flag} := by
  let drawn := c.screen.drawSprite c.machine.memory (c.machine.reg x).toNat
    rows.val (c.machine.reg y).toNat c.machine.index.toNat
  let shown : Console := { c with screen := drawn.state.1 }
  have hscreen : c.ChangesOnly shown {.screen} := by
    intro part hpart
    cases part with
    | screen => exact absurd rfl hpart
    | _ => rfl
  have hflag := shown.changesOnly_setReg .flag
    (UInt8.ofNat drawn.state.2.toNat)
  simp only [draw]
  split
  · exact hscreen.mono (by simp)
  · exact (hscreen.mono (by simp)).trans (hflag.mono (by simp))

theorem changesOnly_ret (c : Console) :
    c.ChangesOnly (c.withMachine c.machine.ret.state)
      {.counter, .stackPointer} := by
  cases herror : c.machine.ret.error with
  | some fault =>
      rw [Machine.ret_state_of_error herror]
      exact .refl c _
  | none =>
      obtain ⟨-, call, -, hret⟩ := Machine.ret_eq_of_ok herror
      rw [hret]
      intro part hpart
      cases part with
      | counter | stackPointer => exact absurd (by simp) hpart
      | _ => rfl

theorem changesOnly_call (c : Console) (target : Address) :
    c.ChangesOnly (c.withMachine (c.machine.call target).state)
      {.counter, .slot (c.machine.sp + 1), .stackPointer} := by
  cases herror : (c.machine.call target).error with
  | some fault =>
      rw [Machine.call_state_of_error herror]
      exact .refl c _
  | none =>
      obtain ⟨hslot, hcall⟩ := Machine.call_eq_of_ok herror
      rw [hcall]
      intro part hpart
      cases part with
      | counter | stackPointer => exact absurd (by simp) hpart
      | slot number =>
          have hne : number ≠ c.machine.sp + 1 := by
            rintro rfl
            exact hpart (by simp)
          exact (Stack.get?_set hslot _ number).trans (if_neg hne)
      | _ => rfl

theorem changesOnly_waitKey (c : Console) (x : Register) :
    c.ChangesOnly (c.waitKey x)
      (insert .counter ((Instruction.waitKey x).footprint c)) := by
  simp only [waitKey]
  split
  next key hfirst =>
    have hdown : c.latch key = some true :=
      Latch.isPressed_iff.mp (List.find?_some hfirst)
    apply (c.changesOnly_setReg x _).mono
    rintro part rfl
    exact Or.inr ⟨rfl, key, hdown⟩
  next =>
    apply (c.changesOnly_counter _).mono
    rintro part rfl
    exact Or.inl rfl

/-- An instruction changes nothing outside its footprint but the counter. -/
theorem execute_changesOnly (c : Console) (i : Instruction) :
    c.ChangesOnly (c.execute i).state
      (insert .counter (i.footprint c)) := by
  have hreg (x : Register) (value : UInt8) :
      c.ChangesOnly (c.withMachine (c.machine.setReg x value))
        (insert .counter {.register x}) :=
    (c.changesOnly_setReg x value).mono (by simp)
  have hflagged (x : Register) (result : UInt8) (flag : Bool) :
      c.ChangesOnly (c.withMachine (c.machine.setFlagged x result flag))
        (insert .counter {.register x, .register .flag}) :=
    (c.changesOnly_setFlagged x result flag).mono (by simp)
  cases i with
  | jump target | jumpOffset target =>
      exact (c.changesOnly_counter _).mono (by simp)
  | ret => exact changesOnly_onMachine c.changesOnly_ret
  | call target => exact changesOnly_onMachine (c.changesOnly_call target)
  | skip condition =>
      cases hholds : condition.holds c.machine c.latch with
      | false =>
          simp only [execute, hholds]
          exact .refl c _
      | true =>
          simp only [execute, hholds]
          exact (c.changesOnly_counter _).mono (by simp)
  | setByte x byte | addByte x byte | getDelay x => exact hreg x _
  | combine op x y =>
      cases op with
      | copy | or | and | xor => exact hreg x _
      | add | subtract | subtractFrom => exact hflagged x _ _
  | shift direction x => exact hflagged x _ _
  | setIndex target | addIndex x | pointGlyph x =>
      exact (c.changesOnly_index _).mono (Set.subset_insert _ _)
  | draw x y rows =>
      exact (c.changesOnly_draw x y rows).mono (Set.subset_insert _ _)
  | waitKey x => exact c.changesOnly_waitKey x
  | storeDigits x =>
      apply changesOnly_onMachine
      exact (c.changesOnly_storeAtIndex _).mono (Set.subset_insert _ _)
  | storeRegisters x =>
      apply changesOnly_onMachine
      apply (c.changesOnly_storeAtIndex _).mono
      rintro part ⟨k, hk, rfl⟩
      rw [Machine.length_regsThrough] at hk
      exact Or.inr ⟨k, Nat.le_of_lt_succ hk, rfl⟩
  | fillRegisters x =>
      apply changesOnly_onMachine
      exact (c.changesOnly_fillRegisters x).mono (Set.subset_insert _ _)
  | clear =>
      intro part hpart
      cases part with
      | screen => exact absurd (Or.inr rfl) hpart
      | _ => rfl
  | setDelay x =>
      intro part hpart
      cases part with
      | delay => exact absurd (Or.inr rfl) hpart
      | _ => rfl
  | setSound x =>
      intro part hpart
      cases part with
      | sound => exact absurd (Or.inr rfl) hpart
      | _ => rfl
  | random x mask =>
      intro part hpart
      cases part with
      | random => exact absurd (Or.inr (Or.inr rfl)) hpart
      | register y =>
          refine hreg x _ (.register y) ?_
          rintro (heq | heq)
          · cases heq
          · exact hpart (Or.inr (Or.inl heq))
      | _ => rfl

end Console

namespace Engine

theorem footprint_of_instruction? {e : Engine} {i : Instruction}
    (hahead : e.instruction? = some i) :
    e.footprint = insert .counter (i.footprint e.console) := by
  simp only [footprint, hahead]

theorem cycle_changesOnly (e : Engine) :
    e.console.ChangesOnly e.cycle.state.console e.footprint := by
  cases e.course with
  | noWord fault hword =>
      rw [cycle_of_word_error hword]
      exact .refl e.console _
  | passedOver word hword hdecode =>
      rw [(cycle_of_decode_none hword hdecode).2]
      apply (e.console.changesOnly_counter _).mono
      rintro part rfl
      exact Or.inl rfl
  | wentWrong word i fault hword hdecode hexecute =>
      have hahead := (instruction?_of_word hword).trans hdecode
      rw [(cycle_of_execute_error hahead hexecute).2,
        footprint_of_instruction? hahead]
      exact e.console.execute_changesOnly i
  | carriedOut word i hword hdecode hexecute =>
      have hahead := (instruction?_of_word hword).trans hdecode
      rw [(cycle_of_execute_ok hahead hexecute).2,
        footprint_of_instruction? hahead]
      apply (e.console.execute_changesOnly i).trans
      apply ((e.console.execute i).state.changesOnly_counter _).mono
      rintro part rfl
      exact Or.inl rfl

/-- Only a word that stands for no instruction can be noted down. -/
theorem cycle_dispatcher (e : Engine) :
    e.cycle.state.dispatcher.policy = e.dispatcher.policy ∧
      (e.cycle.state.dispatcher.unknown = e.dispatcher.unknown ∨
        ∃ word, e.word = .ok word ∧ Instruction.decode word = none) := by
  cases e.course with
  | noWord fault hword =>
      rw [cycle_of_word_error hword]
      exact ⟨rfl, Or.inl rfl⟩
  | passedOver word hword hdecode =>
      rw [cycle_eq_of_decode_none hword hdecode]
      refine ⟨?_, Or.inr ⟨word, hword, hdecode⟩⟩
      simp only [Outcome.state_ok, Dispatcher.passOver]
      split
      · rfl
      · rfl
  | wentWrong word i fault hword hdecode hexecute =>
      rw [cycle_eq_of_execute_error hword hdecode hexecute]
      exact ⟨rfl, Or.inl rfl⟩
  | carriedOut word i hword hdecode hexecute =>
      rw [cycle_eq_of_execute_ok hword hdecode hexecute]
      exact ⟨rfl, Or.inl rfl⟩

theorem countDown_changesOnly (e : Engine) :
    e.console.ChangesOnly e.countDown.console {.delay, .sound} := by
  intro part hpart
  cases part with
  | delay | sound => exact absurd (by simp) hpart
  | _ => rfl

theorem storesAt_of_mem_footprint {e : Engine} {address : Nat}
    (hok : e.cycle.error = none) (hmem : .cell address ∈ e.footprint) :
    e.storesAt address = true := by
  simp only [footprint] at hmem
  split at hmem
  next i hahead =>
    simp only [storesAt, hok, hahead]
    cases i with
    | storeDigits x =>
        obtain ⟨k, hk, heq⟩ := Or.resolve_left hmem (by simp)
        cases heq
        simp
        omega
    | storeRegisters x =>
        obtain ⟨k, hk, heq⟩ := Or.resolve_left hmem (by simp)
        cases heq
        simp
        omega
    | combine op => cases op with
      | _ => simp [Instruction.footprint] at hmem
    | _ => simp [Instruction.footprint] at hmem
  next => simp at hmem

theorem cycle_machine_of_error {e : Engine} {fault : Fault}
    (h : e.cycle.error = some fault) :
    e.cycle.state.console.machine = e.console.machine := by
  rcases cycle_of_error h with
    ⟨-, hstate⟩ | ⟨word, i, -, -, hexecute, hstate⟩
  · rw [hstate]
  · rw [hstate]
    exact Console.execute_machine_of_error hexecute

/-- A cell that a cycle does not store in keeps its byte, whether the cycle
goes well or not. -/
theorem cycle_sameAt_cell {e : Engine} {address : Nat}
    (h : e.storesAt address = false) :
    e.console.SameAt e.cycle.state.console (.cell address) := by
  cases herror : e.cycle.error with
  | some fault =>
      exact congrArg (fun m => m.memory.byteAt address)
        (cycle_machine_of_error herror)
  | none =>
      apply e.cycle_changesOnly
      intro hmem
      rw [storesAt_of_mem_footprint herror hmem] at h
      cases h

end Engine

/-! ## Sessions -/

namespace Emulator

variable {rom : Program} {latch : Latch} {config : Config}
  {source : Tape Nat} {entropy : Entropy} {e : Emulator}

/-- A part that no cycle of a session changes is what it was, unless it is one
of the timers. -/
theorem run_sameAt (hpaced : e.Paced) {requests : List Request}
    (hwork : ∀ request ∈ requests, request.isWork = true)
    (part : Part) (hdelay : part ≠ .delay) (hsound : part ≠ .sound)
    (hcycles : ∀ engine ∈ e.cycles requests,
      engine.console.SameAt engine.cycle.state.console part) :
    e.engine.console.SameAt (e.run requests).1.engine.console part := by
  let Kept (done : List Engine) (engine : Engine) : Prop :=
    (∀ earlier ∈ done,
      earlier.console.SameAt earlier.cycle.state.console part) →
        e.engine.console.SameAt engine.console part
  have hcycle (done : List Engine) (engine : Engine)
      (h : Kept done engine) : Kept (done ++ [engine]) engine.cycle.state := by
    intro hdone
    rw [List.forall_mem_append] at hdone
    exact (h hdone.1).trans (hdone.2 engine (List.mem_singleton_self engine))
  have hcount (done : List Engine) (engine : Engine)
      (h : Kept done engine) : Kept done engine.countDown := by
    intro hdone
    apply (h hdone).trans
    apply engine.countDown_changesOnly
    simp [hdelay, hsound]
  have hhost : ∀ request ∈ requests, request.isWork = false →
      ∀ done (now : Emulator), Kept done now.engine →
        Kept done (now.answer request).1.engine := by
    intro request hmem hhost
    rw [hwork request hmem] at hhost
    cases hhost
  have hrun := run_engine_history hcycle hcount hpaced hhost []
    fun _ => .refl _ part
  exact hrun hcycles

theorem boot_byteAt (h : boot rom latch config source entropy = .ok e)
    (address : Nat) :
    e.machine.memory.byteAt address = rom.initialByte address := by
  obtain ⟨hroom, hmachine⟩ := boot_machine h
  have hfont : Font.sheet.length = 80 := rfl
  have hstart : Program.start = 512 := rfl
  have hmax : Program.maxSize = 3584 := rfl
  have hsize : Memory.size = 4096 := rfl
  rw [hmachine, Memory.byteAt_put, Memory.byteAt_put, Memory.byteAt_blank,
    Program.initialByte, hfont]
  by_cases hlow : address < Program.start
  · rw [if_pos hlow, if_neg (by omega)]
    by_cases hglyph : address < 80
    · rw [if_pos (by omega), Nat.sub_zero]
    · rw [if_neg (by omega)]
      exact (List.getD_eq_default _ _ (by omega)).symm
  · rw [if_neg hlow]
    by_cases hcode : address - Program.start < rom.length
    · rw [if_pos (by omega)]
    · rw [if_neg (by omega), if_neg (by omega)]
      exact (List.getD_eq_default _ _ (by omega)).symm

/-- What a session of work can change.  The parts are all there is of a
console.  Each word carried out changes no part outside the footprint of its
instruction and notes down nothing if it stands for one; a step of the timers
changes the timers alone; and a request does nothing else.  So a part, the
timers apart, that lies in no footprint of a session is what it was, and a cell
that nothing was stored in holds the byte that it was set up with. -/
theorem work_changes_footprints (rom : Program) (latch : Latch)
    (config : Config) (source : Tape Nat) (entropy : Entropy)
    (e : Emulator) (hboot : boot rom latch config source entropy = .ok e)
    (requests : List Request)
    (hwork : ∀ request ∈ requests, request.isWork = true) :
    (∀ c d : Console, (∀ part, c.SameAt d part) → d = c) ∧
    (∀ engine ∈ e.cycles requests,
      let after := engine.cycle.state
      engine.console.ChangesOnly after.console engine.footprint ∧
      after.dispatcher.policy = engine.dispatcher.policy ∧
      (after.dispatcher.unknown = engine.dispatcher.unknown ∨
        ∃ word, engine.word = .ok word ∧
          Instruction.decode word = none)) ∧
    (∀ engine : Engine,
      engine.console.ChangesOnly engine.countDown.console {.delay, .sound} ∧
      engine.countDown.dispatcher = engine.dispatcher) ∧
    (∀ before request after, requests = before ++ request :: after →
      let now := (e.run before).1
      (now.answer request).1.engine = now.afterWord request ∨
        (now.answer request).1.engine =
          (now.afterWord request).countDown) ∧
    (∀ part, part ≠ .delay → part ≠ .sound →
      (∀ engine ∈ e.cycles requests, part ∉ engine.footprint) →
      e.engine.console.SameAt (e.run requests).1.engine.console part) ∧
    ∀ address,
      (∀ engine ∈ e.cycles requests, engine.storesAt address = false) →
      (e.run requests).1.machine.memory.byteAt address =
        rom.initialByte address := by
  have hpaced := boot_paced hboot
  refine ⟨?_, ?_, ?_, ?_, ?_, ?_⟩
  · intro c d hsame
    exact Console.eq_of_sameAt hsame
  · intro engine hmem after
    exact ⟨engine.cycle_changesOnly, engine.cycle_dispatcher⟩
  · intro engine
    exact ⟨engine.countDown_changesOnly, rfl⟩
  · intro before request after hsplit now
    apply answer_engine (run_paced hpaced before)
    apply hwork
    simp [hsplit]
  · intro part hdelay hsound huntouched
    apply run_sameAt hpaced hwork part hdelay hsound
    intro engine hmem
    exact engine.cycle_changesOnly part (huntouched engine hmem)
  · intro address huntouched
    rw [← boot_byteAt hboot address]
    apply run_sameAt hpaced hwork (.cell address) (by simp) (by simp)
    intro engine hmem
    exact Engine.cycle_sameAt_cell (huntouched engine hmem)

/-- The digits of a byte are stored in three cells, and the cell after them
keeps its zero. -/
theorem work_changes_footprints_of_digits :
    let rom : Program := [0x60, 0x7B, 0xA3, 0x00, 0xF0, 0x33]
    let requests := [Request.step, .poll, .countDown, .step]
    ∃ e, boot rom (fun _ => none) {} (.ofCells fun n => 2000000 * n)
        (fun _ => .ofCells fun _ => 0) = .ok e ∧
      (∀ request ∈ requests, request.isWork = true) ∧
      (e.cycles requests).length = 3 ∧
      (∀ engine ∈ e.cycles requests, engine.storesAt 0x303 = false) ∧
      (e.run requests).1.machine.memory.byteAt 0x302 = 3 ∧
      (e.run requests).1.machine.memory.byteAt 0x303 = 0 := by
  intro rom requests
  obtain ⟨e, hboot, hlength, huntouched, hstored⟩ : ∃ e,
      boot rom (fun _ => none) {} (.ofCells fun n => 2000000 * n)
        (fun _ => .ofCells fun _ => 0) = .ok e ∧
      (e.cycles requests).length = 3 ∧
      (∀ engine ∈ e.cycles requests, engine.storesAt 0x303 = false) ∧
      (e.run requests).1.machine.memory.byteAt 0x302 = 3 :=
    ⟨_, rfl, by decide +kernel, by decide +kernel, by decide +kernel⟩
  have hwork : ∀ request ∈ requests, request.isWork = true := by
    simp [requests, Request.isWork]
  obtain ⟨-, -, -, -, -, hcells⟩ :=
    work_changes_footprints rom _ _ _ _ e hboot requests hwork
  exact ⟨e, hboot, hwork, hlength, huntouched, hstored,
    hcells 0x303 huntouched⟩

end Emulator

end Chip8
