import Chip8.Console
import Mathlib.Data.List.Basic

/-!
# Results and flags

The 8-bit result of an arithmetic instruction and its flag account together for
the sum, difference or shift that they come from.  The flag is put into `VF`
before the result is put into `Vx`, so both can be read afterwards unless `Vx`
is `VF` itself, which keeps the result.  The operands are read before either is
put anywhere, so it makes no difference which registers they are.
-/

namespace Chip8

/-- How the result and the flag of an arithmetic instruction account for what
`Vx` and `Vy` held before. -/
def Instruction.Accounts : Instruction → (x y result flag : Int) → Prop
  | .combine .add _ _, x, y, result, flag => result + 256 * flag = x + y
  | .combine .subtract _ _, x, y, result, flag =>
    result + y = x + 256 * (1 - flag)
  | .combine .subtractFrom _ _, x, y, result, flag =>
    result + x = y + 256 * (1 - flag)
  | .shift .right _, x, _, result, flag => 2 * result + flag = x
  | .shift .left _, x, _, result, flag => result + 256 * flag = 2 * x
  | _, _, _, _, _ => False

/-! ## Bytes -/

theorem toNat_decide_cases (p : Prop) [Decidable p] :
    p ∧ (decide p).toNat = 1 ∨ ¬p ∧ (decide p).toNat = 0 := by
  by_cases hp : p
  · exact Or.inl ⟨hp, by rw [decide_eq_true hp, Bool.toNat_true]⟩
  · exact Or.inr ⟨hp, by rw [decide_eq_false hp, Bool.toNat_false]⟩

namespace Combination

variable (x y : UInt8)

theorem add_accounts :
    ((x + y).toNat : Int) +
        256 * ((decide (256 ≤ x.toNat + y.toNat)).toNat : Int) =
      x.toNat + y.toNat := by
  have hx := x.toNat_lt
  have hy := y.toNat_lt
  rw [UInt8.toNat_add]
  rcases toNat_decide_cases (256 ≤ x.toNat + y.toNat) with
    ⟨hcarry, hflag⟩ | ⟨hcarry, hflag⟩
  · omega
  · omega

/-- A difference borrows unless its flag says that it need not. -/
theorem subtract_accounts :
    ((x - y).toNat : Int) + y.toNat =
      x.toNat + 256 * (1 - ((decide (y ≤ x)).toNat : Int)) := by
  have hx := x.toNat_lt
  have hy := y.toNat_lt
  rw [UInt8.toNat_sub]
  rcases toNat_decide_cases (y ≤ x) with ⟨hfits, hflag⟩ | ⟨hborrow, hflag⟩
  · rw [UInt8.le_iff_toNat_le] at hfits
    omega
  · rw [UInt8.le_iff_toNat_le] at hborrow
    omega

end Combination

namespace Shift

variable (x : UInt8)

theorem right_accounts :
    2 * ((result .right x).toNat : Int) + ((flag .right x).toNat : Int) =
      x.toNat := by
  have hx := x.toNat_lt
  rw [result, flag, UInt8.toNat_ofNat']
  rcases toNat_decide_cases (x.toNat % 2 = 1) with
    ⟨hodd, hflag⟩ | ⟨heven, hflag⟩
  · omega
  · omega

theorem left_accounts :
    ((result .left x).toNat : Int) + 256 * ((flag .left x).toNat : Int) =
      2 * x.toNat := by
  have hx := x.toNat_lt
  rw [result, flag, UInt8.toNat_ofNat']
  rcases toNat_decide_cases (128 ≤ x.toNat) with
    ⟨hhigh, hflag⟩ | ⟨hlow, hflag⟩
  · omega
  · omega

end Shift

/-! ## Registers -/

namespace Machine

/-- The number that a register holds. -/
def value (m : Machine) (x : Register) : Int := (m.reg x).toNat

variable (m : Machine) {x y : Register} (result : UInt8) (flag : Bool)

theorem value_setFlagged_self :
    (m.setFlagged x result flag).value x = result.toNat := by
  rw [value, setFlagged, reg_setReg, if_pos rfl]

theorem value_setFlagged_flag (hx : x ≠ .flag) :
    (m.setFlagged x result flag).value .flag = flag.toNat := by
  rw [value, setFlagged, reg_setReg, if_neg hx, reg_setReg, if_pos rfl]
  cases flag with
  | false => rfl
  | true => rfl

theorem value_setFlagged_of_ne (hx : y ≠ x) (hflag : y ≠ .flag) :
    (m.setFlagged x result flag).value y = m.value y := by
  rw [value, setFlagged, reg_setReg, if_neg hx.symm, reg_setReg,
    if_neg hflag.symm, value]

end Machine

namespace Console

variable {c : Console} {x y : Register} {i : Instruction}

theorem accounts_of_setFlagged {result : UInt8} {flag : Bool}
    (hexecute : c.execute i =
      .ok (c.withMachine (c.machine.setFlagged x result flag)))
    (haccounts : i.Accounts (c.machine.value x) (c.machine.value y)
      result.toNat flag.toNat) :
    ∃ (after : Machine) (result flag : Int),
      c.execute i = .ok (c.withMachine after) ∧
      (0 ≤ result ∧ result ≤ 255) ∧ (flag = 0 ∨ flag = 1) ∧
      i.Accounts (c.machine.value x) (c.machine.value y) result flag ∧
      after.value x = result ∧ (x ≠ .flag → after.value .flag = flag) ∧
      ∀ z, z ≠ x → z ≠ .flag → after.value z = c.machine.value z := by
  have hbyte := result.toNat_lt
  refine ⟨_, _, _, hexecute, by omega, ?_, haccounts,
    c.machine.value_setFlagged_self result flag,
    c.machine.value_setFlagged_flag result flag, ?_⟩
  · cases flag with
    | false => exact Or.inl rfl
    | true => exact Or.inr rfl
  · intro z hx hflag
    exact c.machine.value_setFlagged_of_ne result flag hx hflag

/-- Arithmetic on registers, whichever registers `Vx` and `Vy` are.  For the
instructions with a flag there is a result of eight bits and a flag of one that
account for the operands; `Vx` gets the result, `VF` the flag unless it is `Vx`,
and no other register changes.  For the instructions without a flag `Vx` gets
the result, and no other register changes, `VF` included. -/
theorem arithmetic_accounts_for_operands (c : Console) (x y : Register)
    (byte : UInt8) :
    let m := c.machine
    (∀ i ∈ [.combine .add x y, .combine .subtract x y,
        .combine .subtractFrom x y, .shift .right x, .shift .left x],
      ∃ (after : Machine) (result flag : Int),
        c.execute i = .ok (c.withMachine after) ∧
        (0 ≤ result ∧ result ≤ 255) ∧ (flag = 0 ∨ flag = 1) ∧
        i.Accounts (m.value x) (m.value y) result flag ∧
        after.value x = result ∧ (x ≠ .flag → after.value .flag = flag) ∧
        ∀ z, z ≠ x → z ≠ .flag → after.value z = m.value z) ∧
    ∀ i result,
      (i, result) ∈ [(.addByte x byte, m.reg x + byte),
        (.combine .copy x y, m.reg y),
        (.combine .or x y, m.reg x ||| m.reg y),
        (.combine .and x y, m.reg x &&& m.reg y),
        (.combine .xor x y, m.reg x ^^^ m.reg y)] →
      ∃ after : Machine, c.execute i = .ok (c.withMachine after) ∧
        after.reg x = result ∧ ∀ z, z ≠ x → after.reg z = m.reg z := by
  intro m
  constructor
  · intro i hi
    simp only [List.mem_cons, List.not_mem_nil, or_false] at hi
    rcases hi with rfl | rfl | rfl | rfl | rfl
    · exact accounts_of_setFlagged rfl (Combination.add_accounts _ _)
    · exact accounts_of_setFlagged rfl (Combination.subtract_accounts _ _)
    · exact accounts_of_setFlagged rfl (Combination.subtract_accounts _ _)
    · exact accounts_of_setFlagged (y := y) rfl (Shift.right_accounts _)
    · exact accounts_of_setFlagged (y := y) rfl (Shift.left_accounts _)
  · intro i result hi
    have hset : c.execute i = .ok (c.withMachine (m.setReg x result)) := by
      simp only [List.mem_cons, Prod.mk.injEq, List.not_mem_nil,
        or_false] at hi
      rcases hi with ⟨rfl, rfl⟩ | ⟨rfl, rfl⟩ | ⟨rfl, rfl⟩ | ⟨rfl, rfl⟩ |
        ⟨rfl, rfl⟩
      · rfl
      · rfl
      · rfl
      · rfl
      · rfl
    refine ⟨m.setReg x result, hset, ?_, ?_⟩
    · rw [Machine.reg_setReg, if_pos rfl]
    · intro z hz
      rw [Machine.reg_setReg, if_neg hz.symm]

/-- Adding `VF` reads it before the carry is put there, and the difference of
`VF` and itself leaves its zero, not the flag of one. -/
theorem arithmetic_accounts_for_operands_of_flag :
    let m := (Machine.blank.setReg 3 200).setReg .flag 100
    let c : Console := ⟨m, .blank, fun _ => none, .ofCells fun _ => 0⟩
    (∃ after : Machine,
      c.execute (.combine .add 3 .flag) = .ok (c.withMachine after) ∧
      after.value 3 = 44 ∧ after.value .flag = 1) ∧
    ∃ after : Machine,
      c.execute (.combine .subtract .flag .flag) =
        .ok (c.withMachine after) ∧
      after.value .flag = 0 := by
  intro m c
  have hthree : c.machine.value 3 = 200 := by decide +kernel
  have hvf : c.machine.value .flag = 100 := by decide +kernel
  constructor
  · obtain ⟨after, result, flag, hexecute, hbyte, hbit, haccounts, hresult,
      hflag, -⟩ := (arithmetic_accounts_for_operands c 3 .flag 0).1
        (.combine .add 3 .flag) (by simp)
    have hsum : result + 256 * flag = 200 + 100 := by
      rwa [hthree, hvf] at haccounts
    have hcarry := hflag (by decide)
    exact ⟨after, hexecute, by omega, by omega⟩
  · obtain ⟨after, result, flag, hexecute, hbyte, hbit, haccounts, hresult,
      -⟩ := (arithmetic_accounts_for_operands c .flag .flag 0).1
        (.combine .subtract .flag .flag) (by simp)
    have hdifference : result + 100 = 100 + 256 * (1 - flag) := by
      rwa [hvf] at haccounts
    exact ⟨after, hexecute, by omega⟩

end Console

end Chip8
