import Chip8.ControlUnit
import Chip8.Dispatcher
import Chip8.Proofs.Digits
import Mathlib.Data.List.Nodup
import Mathlib.Data.List.Range
import Mathlib.Tactic.SplitIfs
import Mathlib.Tactic.Tauto

/-!
# Dispatching words to a unit

Which operation of its unit a dispatcher asks for can be read off the digits of
a word: `ControlUnit.Names` lists the patterns of words and the operation that
each of them names.  A word that fits none of the patterns is passed over.  The
words noted down are, whatever the unit does, the words passed over, each at its
first sighting.
-/

namespace Chip8

/-! ## Words that name an operation -/

/-- A word that fits a pattern names an operation of a unit, with the operands
that the word carries. -/
inductive ControlUnit.Names {σ : Type} (u : ControlUnit σ) :
    UInt16 → Operation σ → Prop
  | clear x : Names u (Word.ofByte 0x0 x 0xE0) u.clear
  | ret x : Names u (Word.ofByte 0x0 x 0xEE) u.ret
  | jump target : Names u (Word.ofAddress 0x1 target) (u.jump target)
  | call target : Names u (Word.ofAddress 0x2 target) (u.call target)
  | skipIfByte x byte :
    Names u (Word.ofByte 0x3 x byte) (u.skipIfByte x byte)
  | skipIfNotByte x byte :
    Names u (Word.ofByte 0x4 x byte) (u.skipIfNotByte x byte)
  | skipIfSame x y n :
    Names u (Word.ofNibble 0x5 x y n) (u.skipIfSame x y)
  | setByte x byte : Names u (Word.ofByte 0x6 x byte) (u.setByte x byte)
  | addByte x byte : Names u (Word.ofByte 0x7 x byte) (u.addByte x byte)
  | copy x y : Names u (Word.ofNibble 0x8 x y 0x0) (u.copy x y)
  | or x y : Names u (Word.ofNibble 0x8 x y 0x1) (u.or x y)
  | and x y : Names u (Word.ofNibble 0x8 x y 0x2) (u.and x y)
  | xor x y : Names u (Word.ofNibble 0x8 x y 0x3) (u.xor x y)
  | add x y : Names u (Word.ofNibble 0x8 x y 0x4) (u.add x y)
  | subtract x y : Names u (Word.ofNibble 0x8 x y 0x5) (u.subtract x y)
  | shiftRight x y : Names u (Word.ofNibble 0x8 x y 0x6) (u.shiftRight x)
  | subtractFrom x y :
    Names u (Word.ofNibble 0x8 x y 0x7) (u.subtractFrom x y)
  | shiftLeft x y : Names u (Word.ofNibble 0x8 x y 0xE) (u.shiftLeft x)
  | skipIfDiffer x y n :
    Names u (Word.ofNibble 0x9 x y n) (u.skipIfDiffer x y)
  | setIndex target : Names u (Word.ofAddress 0xA target) (u.setIndex target)
  | jumpOffset target :
    Names u (Word.ofAddress 0xB target) (u.jumpOffset target)
  | random x mask : Names u (Word.ofByte 0xC x mask) (u.random x mask)
  | draw x y rows : Names u (Word.ofNibble 0xD x y rows) (u.draw x y rows)
  | skipIfKeyDown x : Names u (Word.ofByte 0xE x 0x9E) (u.skipIfKeyDown x)
  | skipIfKeyUp x : Names u (Word.ofByte 0xE x 0xA1) (u.skipIfKeyUp x)
  | getDelay x : Names u (Word.ofByte 0xF x 0x07) (u.getDelay x)
  | waitKey x : Names u (Word.ofByte 0xF x 0x0A) (u.waitKey x)
  | setDelay x : Names u (Word.ofByte 0xF x 0x15) (u.setDelay x)
  | setSound x : Names u (Word.ofByte 0xF x 0x18) (u.setSound x)
  | addIndex x : Names u (Word.ofByte 0xF x 0x1E) (u.addIndex x)
  | pointGlyph x : Names u (Word.ofByte 0xF x 0x29) (u.pointGlyph x)
  | storeDigits x : Names u (Word.ofByte 0xF x 0x33) (u.storeDigits x)
  | storeRegisters x : Names u (Word.ofByte 0xF x 0x55) (u.storeRegisters x)
  | fillRegisters x : Names u (Word.ofByte 0xF x 0x65) (u.fillRegisters x)

namespace ControlUnit

variable {σ : Type} {u : ControlUnit σ} {word : UInt16}

/-- A word that names an operation is decoded to an instruction that the unit
performs by that operation. -/
theorem Names.decode {operation : Operation σ}
    (h : u.Names word operation) :
    ∃ i, Instruction.decode word = some i ∧ u.perform i = operation := by
  cases h with
  | _ => exact ⟨_, by simp [Instruction.decode]; rfl, rfl⟩

theorem names_of_ofSystem? {i : Instruction} {byte : UInt8} (x : Register)
    (h : Instruction.ofSystem? byte.toNat = some i) :
    u.Names (Word.ofByte 0x0 x byte) (u.perform i) := by
  rw [Instruction.ofSystem?] at h
  split_ifs at h with hclear hret
  · obtain rfl : byte = 0xE0 := UInt8.toNat_inj.mp hclear
    cases h
    exact .clear x
  · obtain rfl : byte = 0xEE := UInt8.toNat_inj.mp hret
    cases h
    exact .ret x

theorem names_of_ofArithmetic? {i : Instruction} {x y : Register} {n : Nibble}
    (h : Instruction.ofArithmetic? n.val x y = some i) :
    u.Names (Word.ofNibble 0x8 x y n) (u.perform i) := by
  rw [Instruction.ofArithmetic?.eq_def] at h
  split at h
  all_goals cases h
  next hn => exact Fin.ext (b := 0x0) hn ▸ .copy x y
  next hn => exact Fin.ext (b := 0x1) hn ▸ .or x y
  next hn => exact Fin.ext (b := 0x2) hn ▸ .and x y
  next hn => exact Fin.ext (b := 0x3) hn ▸ .xor x y
  next hn => exact Fin.ext (b := 0x4) hn ▸ .add x y
  next hn => exact Fin.ext (b := 0x5) hn ▸ .subtract x y
  next hn => exact Fin.ext (b := 0x6) hn ▸ .shiftRight x y
  next hn => exact Fin.ext (b := 0x7) hn ▸ .subtractFrom x y
  next hn => exact Fin.ext (b := 0xE) hn ▸ .shiftLeft x y

theorem names_of_ofKey? {i : Instruction} {x : Register} {byte : UInt8}
    (h : Instruction.ofKey? byte.toNat x = some i) :
    u.Names (Word.ofByte 0xE x byte) (u.perform i) := by
  rw [Instruction.ofKey?] at h
  split_ifs at h with hdown hup
  all_goals cases h
  · obtain rfl : byte = 0x9E := UInt8.toNat_inj.mp hdown
    exact .skipIfKeyDown x
  · obtain rfl : byte = 0xA1 := UInt8.toNat_inj.mp hup
    exact .skipIfKeyUp x

theorem names_of_ofTransfer? {i : Instruction} {x : Register} {byte : UInt8}
    (h : Instruction.ofTransfer? byte.toNat x = some i) :
    u.Names (Word.ofByte 0xF x byte) (u.perform i) := by
  rw [Instruction.ofTransfer?] at h
  split_ifs at h with h07 h0A h15 h18 h1E h29 h33 h55 h65
  all_goals cases h
  · obtain rfl : byte = 0x07 := UInt8.toNat_inj.mp h07
    exact .getDelay x
  · obtain rfl : byte = 0x0A := UInt8.toNat_inj.mp h0A
    exact .waitKey x
  · obtain rfl : byte = 0x15 := UInt8.toNat_inj.mp h15
    exact .setDelay x
  · obtain rfl : byte = 0x18 := UInt8.toNat_inj.mp h18
    exact .setSound x
  · obtain rfl : byte = 0x1E := UInt8.toNat_inj.mp h1E
    exact .addIndex x
  · obtain rfl : byte = 0x29 := UInt8.toNat_inj.mp h29
    exact .pointGlyph x
  · obtain rfl : byte = 0x33 := UInt8.toNat_inj.mp h33
    exact .storeDigits x
  · obtain rfl : byte = 0x55 := UInt8.toNat_inj.mp h55
    exact .storeRegisters x
  · obtain rfl : byte = 0x65 := UInt8.toNat_inj.mp h65
    exact .fillRegisters x

/-- A word that is decoded names the operation that the unit performs for its
instruction. -/
theorem names_of_decode {i : Instruction}
    (h : Instruction.decode word = some i) :
    u.Names word (u.perform i) := by
  rw [Instruction.decode.eq_def] at h
  dsimp only at h
  split at h
  next hf =>
    rw [Word.eq_ofByte 0x0 hf]
    exact names_of_ofSystem? _ h
  next hf =>
    cases h
    rw [Word.eq_ofAddress 0x1 hf, Word.address_ofAddress]
    exact .jump _
  next hf =>
    cases h
    rw [Word.eq_ofAddress 0x2 hf, Word.address_ofAddress]
    exact .call _
  next hf =>
    cases h
    rw [Word.eq_ofByte 0x3 hf, Word.x_ofByte, Word.byte_ofByte]
    exact .skipIfByte _ _
  next hf =>
    cases h
    rw [Word.eq_ofByte 0x4 hf, Word.x_ofByte, Word.byte_ofByte]
    exact .skipIfNotByte _ _
  next hf =>
    cases h
    rw [Word.eq_ofNibble 0x5 hf, Word.x_ofNibble, Word.y_ofNibble]
    exact .skipIfSame _ _ _
  next hf =>
    cases h
    rw [Word.eq_ofByte 0x6 hf, Word.x_ofByte, Word.byte_ofByte]
    exact .setByte _ _
  next hf =>
    cases h
    rw [Word.eq_ofByte 0x7 hf, Word.x_ofByte, Word.byte_ofByte]
    exact .addByte _ _
  next hf =>
    rw [Word.eq_ofNibble 0x8 hf]
    exact names_of_ofArithmetic? h
  next hf =>
    cases h
    rw [Word.eq_ofNibble 0x9 hf, Word.x_ofNibble, Word.y_ofNibble]
    exact .skipIfDiffer _ _ _
  next hf =>
    cases h
    rw [Word.eq_ofAddress 0xA hf, Word.address_ofAddress]
    exact .setIndex _
  next hf =>
    cases h
    rw [Word.eq_ofAddress 0xB hf, Word.address_ofAddress]
    exact .jumpOffset _
  next hf =>
    cases h
    rw [Word.eq_ofByte 0xC hf, Word.x_ofByte, Word.byte_ofByte]
    exact .random _ _
  next hf =>
    cases h
    rw [Word.eq_ofNibble 0xD hf, Word.x_ofNibble, Word.y_ofNibble,
      Word.nibble_ofNibble]
    exact .draw _ _ _
  next hf =>
    rw [Word.eq_ofByte 0xE hf]
    exact names_of_ofKey? h
  next hf =>
    rw [Word.eq_ofByte 0xF hf]
    exact names_of_ofTransfer? h
  next => cases h

/-- The words that name an operation are the ones that are decoded. -/
theorem decode_eq_none_iff :
    Instruction.decode word = none ↔
      ∀ operation, ¬u.Names word operation := by
  constructor
  · intro hdecode operation hnames
    obtain ⟨i, hsome, -⟩ := hnames.decode
    rw [hdecode] at hsome
    cases hsome
  · intro hnone
    cases hdecode : Instruction.decode word with
    | none => rfl
    | some i => exact absurd (names_of_decode hdecode) (hnone _)

end ControlUnit

/-! ## Words passed over -/

/-- Whether a word stands for no instruction. -/
def Word.isUnknown (word : UInt16) : Bool := (Instruction.decode word).isNone

namespace Policy

/-- The words that a dispatcher has noted down once it has passed over some: of
each word the first sighting. -/
def noted : Policy → List UInt16 → List UInt16
  | .ignore, _ => []
  | .record, passed => passed.eraseDups

/-- The warnings at passing over a word after others. -/
def warnings (policy : Policy) (passed : List UInt16) (word : UInt16) :
    List Entry :=
  if policy = .record ∧ word ∉ passed then [.unknown word] else []

@[simp] theorem noted_nil (policy : Policy) : policy.noted [] = [] := by
  cases policy with
  | ignore => rfl
  | record => rfl

theorem noted_concat (policy : Policy) (passed : List UInt16)
    (word : UInt16) :
    policy.noted (passed ++ [word]) =
      policy.noted passed ++
        if policy = .record ∧ word ∉ passed then [word] else [] := by
  cases policy with
  | ignore => simp [noted]
  | record =>
      by_cases hmem : word ∈ passed
      · simp [noted, List.eraseDups_append, List.removeAll, hmem]
      · simp [noted, List.eraseDups_append, List.removeAll, hmem,
          List.eraseDups_cons]

theorem mem_noted {policy : Policy} {passed : List UInt16} {word : UInt16} :
    word ∈ policy.noted passed ↔ policy = .record ∧ word ∈ passed := by
  cases policy with
  | ignore => simp [noted]
  | record => simp [noted]

theorem nodup_noted (policy : Policy) (passed : List UInt16) :
    (policy.noted passed).Nodup := by
  induction passed using List.reverseRecOn with
  | nil => simp
  | append_singleton passed word ih =>
      rw [noted_concat]
      split
      next hnew =>
        apply ih.append (List.nodup_singleton word)
        rw [List.disjoint_singleton, mem_noted]
        exact fun hmem => hnew.2 hmem.2
      next => rwa [List.append_nil]

theorem length_noted_le (policy : Policy) (passed : List UInt16) :
    (policy.noted passed).length ≤ 65536 := by
  have hnodup : ((policy.noted passed).map UInt16.toNat).Nodup :=
    (nodup_noted policy passed).map fun _ _ => UInt16.toNat_inj.mp
  have hsub : (policy.noted passed).map UInt16.toNat ⊆ List.range 65536 := by
    intro n hn
    obtain ⟨word, -, rfl⟩ := List.mem_map.mp hn
    exact List.mem_range.mpr word.toNat_lt
  calc
    (policy.noted passed).length =
        ((policy.noted passed).map UInt16.toNat).length := by
      rw [List.length_map]
    _ ≤ (List.range 65536).length := hnodup.length_le_of_subset hsub
    _ = 65536 := List.length_range

end Policy

namespace Dispatcher

variable {σ : Type}

/-- Passing over a word notes it down at its first sighting, if at all. -/
theorem passOver_noted (policy : Policy) (passed : List UInt16)
    (word : UInt16) :
    (⟨policy, policy.noted passed⟩ : Dispatcher).passOver word =
      (⟨policy, policy.noted (passed ++ [word])⟩,
        policy.warnings passed word) := by
  rw [Policy.noted_concat, Policy.warnings]
  by_cases hnew : policy = .record ∧ word ∉ passed
  · have hnews : (⟨policy, policy.noted passed⟩ : Dispatcher).isNews word := by
      simp [isNews, Policy.mem_noted, hnew]
    rw [passOver, if_pos hnews, if_pos hnew, if_pos hnew]
  · have hnews :
        ¬(⟨policy, policy.noted passed⟩ : Dispatcher).isNews word := by
      simp only [isNews, Bool.and_eq_true, beq_iff_eq, Bool.not_eq_true',
        List.contains_eq_mem, decide_eq_false_iff_not, Policy.mem_noted]
      tauto
    rw [passOver, if_neg hnews, if_neg hnew, if_neg hnew, List.append_nil]

section

variable {act : Instruction → Operation σ} {word : UInt16} {i : Instruction}

theorem dispatch_of_decode_none (d : Dispatcher) (state : σ)
    (hdecode : Instruction.decode word = none) :
    d.dispatch act word state =
      ⟨(d.passOver word).1, state, .ok none, (d.passOver word).2⟩ := by
  simp only [dispatch, hdecode]

theorem dispatch_of_decode_some (d : Dispatcher) (state : σ)
    (hdecode : Instruction.decode word = some i) :
    d.dispatch act word state =
      ⟨d, (act i state).state,
        match (act i state).error with
        | none => .ok (some i)
        | some fault => .error fault, []⟩ := by
  simp only [dispatch, hdecode]
  split
  next fault hfault => simp only [hfault]
  next hnone => simp only [hnone]

end

/-- A dispatcher and the state of its unit once words have been dispatched one
after another, also after one that went wrong. -/
def afterWords (act : Instruction → Operation σ) (start : Dispatcher × σ)
    (words : List UInt16) : Dispatcher × σ :=
  words.foldl
    (fun now word =>
      let next := now.1.dispatch act word now.2
      (next.dispatcher, next.state))
    start

theorem afterWords_concat (act : Instruction → Operation σ)
    (start : Dispatcher × σ) (words : List UInt16) (word : UInt16) :
    afterWords act start (words ++ [word]) =
      let now := afterWords act start words
      let next := now.1.dispatch act word now.2
      (next.dispatcher, next.state) := by
  rw [afterWords, List.foldl_concat]
  rfl

/-- The unit has no say in what is noted down. -/
theorem afterWords_dispatcher (act : Instruction → Operation σ)
    (policy : Policy) (state : σ) (words : List UInt16) :
    (afterWords act (.ofPolicy policy, state) words).1 =
      ⟨policy, policy.noted (words.filter Word.isUnknown)⟩ := by
  induction words using List.reverseRecOn with
  | nil => simp [afterWords, ofPolicy]
  | append_singleton words word ih =>
      rw [afterWords_concat]
      dsimp only
      rw [ih, List.filter_append]
      cases hdecode : Instruction.decode word with
      | none =>
          have hunknown : [word].filter Word.isUnknown = [word] := by
            simp [Word.isUnknown, hdecode]
          rw [dispatch_of_decode_none _ _ hdecode, hunknown, passOver_noted]
      | some i =>
          have hknown : [word].filter Word.isUnknown = [] := by
            simp [Word.isUnknown, hdecode]
          rw [dispatch_of_decode_some _ _ hdecode, hknown, List.append_nil]

/-- Dispatching words to any unit.  Each word that names an operation has that
operation carried out, once, and its outcome reported; every other word leaves
the unit alone.  The words noted down so far are, under the recording policy,
the words passed over, each at its first sighting, and there is one warning for
each of them. -/
theorem dispatch_asks_for_named_operation (u : ControlUnit σ)
    (policy : Policy) (state : σ) (before : List UInt16) :
    let now := afterWords u.perform (.ofPolicy policy, state) before
    (now.1.unknown =
        match policy with
        | .ignore => []
        | .record =>
          (before.filter fun w => (Instruction.decode w).isNone).eraseDups) ∧
      now.1.unknown.Nodup ∧
      now.1.unknown.length ≤ 65536 ∧
      ∀ word,
        let next := now.1.dispatch u.perform word now.2
        (∀ operation, u.Names word operation →
          next.state = (operation now.2).state ∧
            next.notes = [] ∧
            ∃ i, Instruction.decode word = some i ∧
              next.result =
                match (operation now.2).error with
                | none => .ok (some i)
                | some fault => .error fault) ∧
        ((∀ operation, ¬u.Names word operation) →
          Instruction.decode word = none ∧
            next.state = now.2 ∧
            next.result = .ok none ∧
            next.notes =
              if policy = .record ∧ word ∉ before then [.unknown word]
              else []) := by
  intro now
  have hnow : now.1 = ⟨policy, policy.noted (before.filter Word.isUnknown)⟩ :=
    afterWords_dispatcher u.perform policy state before
  refine ⟨?_, ?_, ?_, ?_⟩
  · rw [hnow]
    cases policy with
    | ignore => rfl
    | record => rfl
  · rw [hnow]
    exact policy.nodup_noted _
  · rw [hnow]
    exact policy.length_noted_le _
  · intro word next
    constructor
    · intro operation hnames
      obtain ⟨i, hdecode, rfl⟩ := hnames.decode
      have hnext : now.1.dispatch u.perform word now.2 = _ :=
        now.1.dispatch_of_decode_some now.2 hdecode
      exact ⟨congrArg Dispatched.state hnext, congrArg Dispatched.notes hnext,
        i, hdecode, congrArg Dispatched.result hnext⟩
    · intro hnone
      have hdecode := ControlUnit.decode_eq_none_iff.mpr hnone
      have hnext : now.1.dispatch u.perform word now.2 = _ :=
        now.1.dispatch_of_decode_none now.2 hdecode
      refine ⟨hdecode, congrArg Dispatched.state hnext,
        congrArg Dispatched.result hnext, ?_⟩
      have hseen : word ∈ before.filter Word.isUnknown ↔ word ∈ before := by
        simp [List.mem_filter, Word.isUnknown, hdecode]
      rw [congrArg Dispatched.notes hnext, hnow, passOver_noted]
      simp only [Policy.warnings, hseen]

/-- A unit that writes down what it is asked for, and goes wrong at the first
word.  That has no effect on the words noted down, and the next word that stands
for an instruction is asked for with its operands in order. -/
theorem dispatch_asks_for_named_operation_of_writer :
    let u : ControlUnit (List Instruction) := .ofAct fun i asked =>
      if asked = [] then .fail [i] (.stackUnderflow 0x200)
      else .ok (asked ++ [i])
    let now := afterWords u.perform (.ofPolicy .record, [])
      [0x0123, 0x00EE, 0x0123]
    now.1.unknown = [0x0123] ∧
      u.Names 0x8127 (u.subtractFrom 1 2) ∧
      (now.1.dispatch u.perform 0x8127 now.2).state =
        [.ret, .combine .subtractFrom 1 2] ∧
      (∀ operation, ¬u.Names 0x8128 operation) ∧
      (now.1.dispatch u.perform 0x8128 now.2).notes.map Entry.line =
        ["WARN ignoring unknown opcode 8128"] := by
  intro u now
  obtain ⟨hunknown, -, -, hnext⟩ :=
    dispatch_asks_for_named_operation u .record [] [0x0123, 0x00EE, 0x0123]
  have hnames : u.Names 0x8127 (u.subtractFrom 1 2) := .subtractFrom 1 2
  have hnone : ∀ operation, ¬u.Names 0x8128 operation :=
    ControlUnit.decode_eq_none_iff.mp (by decide)
  obtain ⟨hstate, -, -⟩ := (hnext 0x8127).1 _ hnames
  obtain ⟨-, -, -, hnotes⟩ := (hnext 0x8128).2 hnone
  refine ⟨hunknown, hnames, hstate, hnone, ?_⟩
  rw [hnotes]
  decide +kernel

end Dispatcher

end Chip8
