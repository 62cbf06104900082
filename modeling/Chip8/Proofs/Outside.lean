import Chip8.Proofs.Footprint
import Chip8.Proofs.Sprite

/-!
# What the outside has a say in

The random bytes and the keys come from outside the machine.  Few instructions
ask for them, and nothing else of an emulator does: two emulators with the same
machine and the same frame go on alike for as long as no such instruction comes
by, however their random bytes and their keys differ.  A random byte is taken by
the one instruction that asks for it, and by each such instruction exactly once.
-/

namespace Chip8

/-- Whether an instruction asks for a random byte or for the state of the
keys. -/
def Instruction.looksOutside : Instruction → Bool
  | .random .. | .waitKey _ | .skip (.keyDown _) | .skip (.keyUp _) => true
  | _ => false

/-- Whether the counter points at an instruction that looks outside. -/
def Engine.looksOutside (e : Engine) : Bool :=
  e.instruction?.any Instruction.looksOutside

/-- Whether the counter points at an instruction that takes a random byte. -/
def Engine.takesByte (e : Engine) : Bool :=
  match e.instruction? with
  | some (.random ..) => true
  | _ => false

namespace Console

/-- Two consoles have the same machine and the same frame, and also the same
mark on it if that is asked for. -/
structure SameInside (marked : Prop) (c d : Console) : Prop where
  machine : d.machine = c.machine
  frame : d.screen.frame = c.screen.frame
  mark : marked → d.screen.dirty = c.screen.dirty

variable {marked : Prop} {b c d : Console}

theorem SameInside.trans (hbc : SameInside marked b c)
    (hcd : SameInside marked c d) : SameInside marked b d where
  machine := hcd.machine.trans hbc.machine
  frame := hcd.frame.trans hbc.frame
  mark hmarked := (hcd.mark hmarked).trans (hbc.mark hmarked)

theorem SameInside.withMachine (h : SameInside marked c d)
    (machine : Machine) :
    SameInside marked (c.withMachine machine) (d.withMachine machine) :=
  ⟨rfl, h.frame, h.mark⟩

theorem SameInside.onMachine (h : SameInside marked c d)
    (act : Machine → Outcome Fault Machine) :
    (c.onMachine act).Alike (SameInside marked) (d.onMachine act) := by
  simp only [Console.onMachine, h.machine]
  exact ⟨rfl, h.withMachine _⟩

theorem SameInside.draw (h : SameInside marked c d) (x y : Register)
    (rows : Nibble) :
    (c.draw x y rows).Alike (SameInside marked) (d.draw x y rows) := by
  have hmark (flipped : Bool) (hmarked : marked) :
      (d.screen.dirty || flipped) = (c.screen.dirty || flipped) := by
    rw [h.mark hmarked]
  simp only [Console.draw, Screen.drawSprite_eq, h.machine, h.frame]
  split
  · exact ⟨rfl, rfl, rfl, hmark _⟩
  · exact ⟨rfl, rfl, rfl, hmark _⟩

/-- An instruction that does not look outside does the same on both. -/
theorem SameInside.execute (h : SameInside marked c d) {i : Instruction}
    (hinside : i.looksOutside = false) :
    (c.execute i).Alike (SameInside marked) (d.execute i) := by
  cases i with
  | random x mask | waitKey x => cases hinside
  | clear => exact ⟨rfl, h.machine, rfl, fun _ => rfl⟩
  | draw x y rows => exact h.draw x y rows
  | skip condition =>
      have hholds : condition.holds c.machine d.latch =
          condition.holds c.machine c.latch := by
        cases condition with
        | keyDown x | keyUp x => cases hinside
        | _ => rfl
      simp only [Console.execute, h.machine, hholds]
      exact ⟨rfl, h.withMachine _⟩
  | ret | call | storeDigits | storeRegisters | fillRegisters =>
      simp only [Console.execute]
      exact h.onMachine _
  | _ =>
      simp only [Console.execute, h.machine]
      exact ⟨rfl, h.withMachine _⟩

end Console

namespace Engine

variable {marked : Prop} {e d : Engine}

theorem word_of_sameInside (h : e.console.SameInside marked d.console) :
    d.word = e.word := by
  rw [word, word, h.machine]

/-- A cycle that does not look outside does the same on both. -/
theorem cycle_sameInside (h : e.console.SameInside marked d.console)
    (hinside : e.looksOutside = false) :
    e.cycle.Alike (fun e d => e.console.SameInside marked d.console)
      d.cycle := by
  have hword := word_of_sameInside h
  cases e.course with
  | noWord fault hfetch =>
      rw [cycle_of_word_error hfetch,
        cycle_of_word_error (hword.trans hfetch)]
      exact ⟨rfl, h⟩
  | passedOver word hfetch hdecode =>
      rw [cycle_eq_of_decode_none hfetch hdecode,
        cycle_eq_of_decode_none (hword.trans hfetch) hdecode, h.machine]
      exact ⟨rfl, h.withMachine _⟩
  | wentWrong word i fault hfetch hdecode hexecute =>
      have hi : i.looksOutside = false := by
        rwa [looksOutside, instruction?_of_word hfetch, hdecode] at hinside
      have halike := h.execute hi
      rw [cycle_eq_of_execute_error hfetch hdecode hexecute,
        cycle_eq_of_execute_error (hword.trans hfetch) hdecode
          (halike.error.trans hexecute)]
      exact ⟨rfl, halike.state⟩
  | carriedOut word i hfetch hdecode hexecute =>
      have hi : i.looksOutside = false := by
        rwa [looksOutside, instruction?_of_word hfetch, hdecode] at hinside
      have halike := h.execute hi
      rw [cycle_eq_of_execute_ok hfetch hdecode hexecute,
        cycle_eq_of_execute_ok (hword.trans hfetch) hdecode
          (halike.error.trans hexecute), halike.state.machine]
      exact ⟨rfl, halike.state.withMachine _⟩

theorem countDown_sameInside (h : e.console.SameInside marked d.console) :
    e.countDown.console.SameInside marked d.countDown.console := by
  unfold countDown withMachine
  rw [h.machine]
  exact h.withMachine _

/-! ## Random bytes -/

theorem random_notMem_footprint (h : e.takesByte = false) :
    .random ∉ e.footprint := by
  cases hahead : e.instruction? with
  | none => simp [footprint, hahead]
  | some i =>
      rw [footprint_of_instruction? hahead]
      cases i with
      | random x mask => simp [takesByte, hahead] at h
      | combine op => cases op with
        | _ => simp [Instruction.footprint]
      | _ => simp [Instruction.footprint]

/-- What the instruction does that takes a random byte. -/
theorem cycle_of_random {x : Register} {mask : UInt8}
    (hahead : e.instruction? = some (.random x mask)) :
    e.cycle.error = none ∧
      e.cycle.state.console.random = e.console.random.advance ∧
      e.cycle.state.console.machine.reg x = e.console.random.head &&& mask := by
  have hexecute : (e.console.execute (.random x mask)).error = none := rfl
  obtain ⟨hok, hconsole⟩ := cycle_of_execute_ok hahead hexecute
  rw [hconsole]
  refine ⟨hok, rfl, ?_⟩
  exact (e.console.machine.reg_setReg x x _).trans (if_pos rfl)

/-- A cycle takes one random byte or none. -/
theorem cycle_random (e : Engine) :
    e.cycle.state.console.random =
      { e.console.random with
        position :=
          e.console.random.position + [e].countP Engine.takesByte } := by
  cases htakes : e.takesByte with
  | false =>
      have hsame := e.cycle_changesOnly .random (random_notMem_footprint htakes)
      rw [List.countP_singleton, htakes]
      exact hsame
  | true =>
      obtain ⟨x, mask, hahead⟩ :
          ∃ x mask, e.instruction? = some (.random x mask) := by
        unfold takesByte at htakes
        split at htakes
        next x mask hahead => exact ⟨x, mask, hahead⟩
        next => cases htakes
      rw [List.countP_singleton, htakes, (cycle_of_random hahead).2.1]
      rfl

end Engine

/-! ## Sessions by hand -/

/-- Whether a request asks by hand for a word or for a step of the timers, or
changes the keys. -/
def Request.isByHand : Request → Bool
  | .step | .countDown | .setLatch _ => true
  | _ => false

namespace Emulator

/-- The replies of a session to the requests that have the emulator do some of
its own work. -/
def workReplies (e : Emulator) : List Request → List Reply
  | [] => []
  | request :: rest =>
    (if request.isWork then [(e.answer request).2] else []) ++
      (e.answer request).1.workReplies rest

/-- Two emulators agree inside, and in their fault. -/
structure SameInside (marked : Prop) (e d : Emulator) : Prop where
  console : e.engine.console.SameInside marked d.engine.console
  fault : d.fault = e.fault

variable {marked : Prop} {b e d : Emulator}

theorem SameInside.trans (hbe : SameInside marked b e)
    (hed : SameInside marked e d) : SameInside marked b d :=
  ⟨hbe.console.trans hed.console, hed.fault.trans hbe.fault⟩

theorem step_sameInside (h : SameInside marked e d)
    (hinside : e.carriesOut .step = true → e.engine.looksOutside = false) :
    (d.answer .step).2 = (e.answer .step).2 ∧
      SameInside marked (e.answer .step).1 (d.answer .step).1 := by
  cases hfault : e.fault with
  | some fault =>
      rw [answer, answer, step_of_fault hfault,
        step_of_fault (h.fault.trans hfault)]
      exact ⟨rfl, h⟩
  | none =>
      have hcarries : e.carriesOut .step = true := by
        rw [carriesOut, hfault, Option.isNone_none]
      have halike := Engine.cycle_sameInside h.console (hinside hcarries)
      rw [answer, answer, step_of_running hfault,
        step_of_running (h.fault.trans hfault)]
      simp only [replyTo, Outcome.error_map, Outcome.state_map, halike.error]
      exact ⟨trivial, halike.state, rfl⟩

/-- A request by hand has the same reply from both and leaves them the same
inside. -/
theorem answer_sameInside (h : SameInside marked e d) {request : Request}
    (hmanual : request.isByHand = true)
    (hinside : e.carriesOut request = true → e.engine.looksOutside = false) :
    (d.answer request).2 = (e.answer request).2 ∧
      SameInside marked (e.answer request).1 (d.answer request).1 := by
  cases request with
  | step => exact step_sameInside h hinside
  | countDown =>
      exact ⟨rfl, Engine.countDown_sameInside h.console, h.fault⟩
  | setLatch latch =>
      exact ⟨rfl, ⟨h.console.machine, h.console.frame, h.console.mark⟩, h.fault⟩
  | poll | refresh | edit | load => cases hmanual

/-- A change of the keys cannot be seen from inside, before or after. -/
theorem answer_idle (e : Emulator) {request : Request}
    (hmanual : request.isByHand = true) (hidle : ¬request.isWork = true) :
    SameInside marked e (e.answer request).1 ∧
      SameInside marked (e.answer request).1 e := by
  cases request with
  | step | countDown => exact absurd rfl hidle
  | setLatch latch => exact ⟨⟨⟨rfl, rfl, fun _ => rfl⟩, rfl⟩,
      ⟨⟨rfl, rfl, fun _ => rfl⟩, rfl⟩⟩
  | poll | refresh | edit | load => cases hmanual

/-- Any number of such changes cannot be seen from inside. -/
theorem run_idle (h : SameInside marked e d) {requests : List Request}
    (hmanual : ∀ request ∈ requests, request.isByHand = true)
    (hidle : ∀ request ∈ requests, ¬request.isWork = true) :
    SameInside marked e (d.run requests).1 ∧ d.workReplies requests = [] := by
  induction requests generalizing d with
  | nil => exact ⟨h, rfl⟩
  | cons request rest ih =>
      rw [List.forall_mem_cons] at hmanual hidle
      rw [workReplies, if_neg hidle.1]
      exact ih (h.trans (answer_idle d hmanual.1 hidle.1).1) hmanual.2 hidle.2

theorem workReplies_append (e : Emulator) (requests more : List Request) :
    e.workReplies (requests ++ more) =
      e.workReplies requests ++ (e.run requests).1.workReplies more := by
  induction requests generalizing e with
  | nil => rfl
  | cons request rest ih =>
      rw [List.cons_append, workReplies, workReplies, ih, List.append_assoc]
      rfl

/-- Two sessions by hand with the same requests for work go on alike, as long
as no word of the first looks outside. -/
theorem run_sameInside (h : SameInside marked e d)
    {requests others : List Request}
    (hmanual : ∀ request ∈ requests, request.isByHand = true)
    (hothers : ∀ request ∈ others, request.isByHand = true)
    (hwork : others.filter Request.isWork = requests.filter Request.isWork)
    (hinside : ∀ engine ∈ e.cycles requests, engine.looksOutside = false) :
    d.workReplies others = e.workReplies requests ∧
      SameInside marked (e.run requests).1 (d.run others).1 := by
  induction requests generalizing e d others with
  | nil =>
      rw [List.filter_nil, List.filter_eq_nil_iff] at hwork
      exact (run_idle h hothers hwork).symm
  | cons request rest ih =>
      rw [List.forall_mem_cons] at hmanual
      rw [cycles, List.forall_mem_append] at hinside
      have hlooks (hcarries : e.carriesOut request = true) :
          e.engine.looksOutside = false := by
        apply hinside.1
        rw [if_pos hcarries]
        exact List.mem_singleton_self _
      rw [workReplies]
      by_cases hrequest : request.isWork = true
      · -- The other session comes to this request after some changes of keys.
        rw [List.filter_cons_of_pos hrequest, List.filter_eq_cons_iff] at hwork
        obtain ⟨idle, later, rfl, hidle, -, hlater⟩ := hwork
        rw [List.forall_mem_append, List.forall_mem_cons] at hothers
        obtain ⟨hidled, hnone⟩ := run_idle h hothers.1 hidle
        obtain ⟨hreply, hanswer⟩ :=
          answer_sameInside hidled hmanual.1 hlooks
        obtain ⟨hreplies, hrest⟩ :=
          ih hanswer hmanual.2 hothers.2.2 hlater hinside.2
        rw [workReplies_append, hnone, List.nil_append, workReplies,
          if_pos hrequest, if_pos hrequest, hreply, hreplies, run_append]
        exact ⟨rfl, hrest⟩
      · rw [List.filter_cons_of_neg hrequest] at hwork
        rw [if_neg hrequest]
        exact ih ((answer_idle e hmanual.1 hrequest).2.trans h) hmanual.2
          hothers hwork hinside.2

/-! ## Random bytes over a session -/

/-- What a host does itself takes no random byte. -/
theorem answer_random_of_not_isWork (e : Emulator) {request : Request}
    (hwork : request.isWork = false) :
    (e.answer request).1.engine.console.random = e.engine.console.random := by
  cases request with
  | step | poll | countDown => cases hwork
  | refresh | setLatch | edit => rfl
  | load rom =>
      simp only [answer, loadProgram]
      cases (e.machine.loadProgram rom).error with
      | some reason => rfl
      | none => rfl

/-- A session takes a random byte for each of its words that asks for one. -/
theorem run_random (hpaced : e.Paced) (requests : List Request) :
    (e.run requests).1.engine.console.random =
      { e.engine.console.random with
        position := e.engine.console.random.position +
          (e.cycles requests).countP Engine.takesByte } := by
  let start := e.engine.console.random
  let Taken (done : List Engine) (engine : Engine) : Prop :=
    engine.console.random =
      { start with position := start.position + done.countP Engine.takesByte }
  have hcycle (done : List Engine) (engine : Engine) (h : Taken done engine) :
      Taken (done ++ [engine]) engine.cycle.state := by
    simp only [Taken] at h ⊢
    rw [engine.cycle_random, h, List.countP_append, Nat.add_assoc]
  have hhost : ∀ request ∈ requests, request.isWork = false →
      ∀ done (now : Emulator), Taken done now.engine →
        Taken done (now.answer request).1.engine := by
    intro request _ hwork done now h
    exact (now.answer_random_of_not_isWork hwork).trans h
  have hstart : Taken [] e.engine := rfl
  exact run_engine_history hcycle (fun _ _ h => h) hpaced hhost [] hstart

/-- A word that asks for a random byte gets the one after those that the words
before it have taken. -/
theorem cycles_random (hpaced : e.Paced) {requests : List Request}
    {earlier later : List Engine} {engine : Engine} {x : Register}
    {mask : UInt8} (hcycles : e.cycles requests = earlier ++ engine :: later)
    (hahead : engine.instruction? = some (.random x mask)) :
    let random := e.engine.console.random
    engine.cycle.error = none ∧
      engine.cycle.state.console.machine.reg x =
        random.cell (random.position + earlier.countP Engine.takesByte) &&&
          mask := by
  obtain ⟨before, -, -, -, rfl, rfl, -⟩ := cycles_eq_append_cons hcycles
  obtain ⟨hok, -, hreg⟩ := Engine.cycle_of_random hahead
  refine ⟨hok, ?_⟩
  rw [hreg, run_random hpaced before]
  rfl

/-- Two emulators at work with the same machine and frame cannot be told apart,
whatever their random bytes and their keys are and become, for as long as the
words that are carried out do not look outside.  And in every session, the host
doing what it likes, each word that asks for a random byte takes the next one,
and nothing else takes any. -/
theorem outside_matters_where_asked :
    (∀ e d : Emulator, e.fault = none → d.fault = none →
      d.machine = e.machine → d.screen.frame = e.screen.frame →
      ∀ requests others : List Request,
        (∀ request ∈ requests ++ others, request.isByHand = true) →
        others.filter Request.isWork = requests.filter Request.isWork →
        (∀ engine ∈ e.cycles requests, engine.looksOutside = false) →
        let one := (e.run requests).1
        let other := (d.run others).1
        d.workReplies others = e.workReplies requests ∧
          other.machine = one.machine ∧
          other.screen.frame = one.screen.frame ∧
          (d.screen = e.screen → other.screen = one.screen)) ∧
    ∀ rom latch config source entropy e,
      boot rom latch config source entropy = .ok e →
      let bytes := entropy config.seed
      ∀ requests,
        (e.run requests).1.engine.console.random =
            { bytes with
              position := bytes.position +
                (e.cycles requests).countP Engine.takesByte } ∧
          ∀ earlier engine later x mask,
            e.cycles requests = earlier ++ engine :: later →
            engine.instruction? = some (.random x mask) →
            engine.cycle.error = none ∧
              engine.cycle.state.console.machine.reg x =
                bytes.cell
                    (bytes.position + earlier.countP Engine.takesByte) &&&
                  mask := by
  constructor
  · intro e d hrunning hrunning' hmachine hframe requests others hmanual hwork
      hinside one other
    rw [List.forall_mem_append] at hmanual
    have hsame : SameInside (d.screen = e.screen) e d :=
      ⟨⟨hmachine, hframe, congrArg Screen.dirty⟩,
        hrunning'.trans hrunning.symm⟩
    obtain ⟨hreplies, hafter⟩ :=
      run_sameInside hsame hmanual.1 hmanual.2 hwork hinside
    refine ⟨hreplies, hafter.console.machine, hafter.console.frame, ?_⟩
    intro hscreen
    exact congrArg₂ Screen.mk hafter.console.frame
      (hafter.console.mark hscreen)
  · intro rom latch config source entropy e hboot bytes requests
    have hpaced := boot_paced hboot
    have hbytes : e.engine.console.random = bytes := by
      obtain ⟨machine, -, hconsole, -⟩ := boot_eq_ok hboot
      rw [hconsole]
    rw [← hbytes]
    refine ⟨run_random hpaced requests, ?_⟩
    intro earlier engine later x mask hcycles hahead
    exact cycles_random hpaced hcycles hahead

/-- A glyph is drawn alike with any random bytes and keys, and the second word
that asks for a random byte gets the second byte, although the first has cleared
the one it got. -/
theorem outside_matters_where_asked_of_cleared_byte :
    let rom : Program := [0x60, 0x05, 0xD0, 0x05, 0xC1, 0x00, 0xC2, 0xF0]
    let source : Tape Nat := .ofCells fun n => 2000000 * n
    let held : Latch := fun _ => some true
    let requests := [Request.step, .countDown, .step, .setLatch held]
    let others := [Request.setLatch held, .step, .countDown, .step]
    let played := [Request.step, .step, .poll, .refresh, .poll]
    ∃ e d, boot rom (fun _ => none) {} source (fun _ => .ofCells fun _ => 0) = .ok e ∧
      boot rom held {} source (fun _ => .ofCells fun n => UInt8.ofNat (77 * n)) = .ok d ∧
      (∀ engine ∈ e.cycles requests, engine.looksOutside = false) ∧
      (d.run others).1.machine = (e.run requests).1.machine ∧
      (d.run others).1.screen = (e.run requests).1.screen ∧
      ∃ earlier engine,
        d.cycles played = earlier ++ [engine] ∧
        engine.instruction? = some (.random 2 0xF0) ∧
        earlier.countP Engine.takesByte = 1 ∧
        engine.cycle.state.console.machine.reg 2 = 0x40 := by
  intro rom source held requests others played
  obtain ⟨e, d, hboot, hbooted, hrunning, hmachine, hscreen, hinside, hlast,
      hcount⟩ : ∃ e d,
      boot rom (fun _ => none) {} source (fun _ => .ofCells fun _ => 0) = .ok e ∧
      boot rom held {} source (fun _ => .ofCells fun n => UInt8.ofNat (77 * n)) = .ok d ∧
      (e.fault = none ∧ d.fault = none) ∧
      d.machine = e.machine ∧ d.screen = e.screen ∧
      (∀ engine ∈ e.cycles requests, engine.looksOutside = false) ∧
      (d.cycles played).getLast?.bind Engine.instruction? =
        some (.random 2 0xF0) ∧
      (d.cycles played).dropLast.countP Engine.takesByte = 1 :=
    ⟨_, _, rfl, rfl, by decide +kernel, rfl, rfl, by decide +kernel,
      by decide +kernel, by decide +kernel⟩
  obtain ⟨engine, hengine, hahead⟩ := Option.bind_eq_some_iff.mp hlast
  obtain ⟨earlier, hcycles⟩ := List.getLast?_eq_some_iff.mp hengine
  rw [hcycles, List.dropLast_concat] at hcount
  obtain ⟨halike, htaken⟩ := outside_matters_where_asked
  obtain ⟨-, hmachines, -, hscreens⟩ :=
    halike e d hrunning.1 hrunning.2 hmachine (congrArg Screen.frame hscreen)
      requests others (by decide) rfl hinside
  obtain ⟨-, hreg⟩ :=
    (htaken rom held {} source _ d hbooted played).2 earlier engine [] 2 0xF0
      hcycles hahead
  refine ⟨e, d, hboot, hbooted, hinside, hmachines, hscreens hscreen,
    earlier, engine, hcycles, hahead, hcount, ?_⟩
  rw [hreg, hcount]
  decide

end Emulator

end Chip8
