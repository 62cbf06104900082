import Chip8.Journal
import Chip8.Proofs.Encoding
import Mathlib.Algebra.Order.Ring.Nat

/-!
# Reading assembly back

A line of assembly falls into tokens at its blanks and commas, and neither a
mnemonic nor an operand has one of these in it.  Every operand can be read back
from its token and the instruction from its mnemonic and operands, so that two
instructions with the same text are the same.  The lines of a journal that tell
of an instruction carried out fall into tokens in the same way.  A fault can be
told from its sentence by the kind it opens with and the numeral it ends in.
-/

namespace Chip8

/-! ## Numerals -/

namespace Hex

/-- The value of a digit. -/
def value (c : Char) : Nat :=
  if c.toNat < 65 then c.toNat - 48 else c.toNat - 55

/-- The number that a numeral stands for. -/
def read (numeral : List Char) : Nat :=
  numeral.foldl (fun n c => 16 * n + value c) 0

theorem value_digit {d : Nat} (h : d < 16) : value (digit d) = d := by
  have hall : ∀ d : Fin 16, value (digit d.val) = d.val := by decide
  exact hall ⟨d, h⟩

theorem read_concat (numeral : List Char) (c : Char) :
    read (numeral ++ [c]) = 16 * read numeral + value c := by
  simp [read, List.foldl_append]

theorem read_fixed {width n : Nat} (h : n < 16 ^ width) :
    read (fixed width n) = n := by
  induction width generalizing n with
  | zero =>
      rw [pow_zero, Nat.lt_one_iff] at h
      rw [h]
      rfl
  | succ width ih =>
      have hdiv : n / 16 < 16 ^ width := by
        rw [pow_succ'] at h
        exact Nat.div_lt_of_lt_mul h
      rw [fixed, read_concat, ih hdiv, value_digit (Nat.mod_lt n (by decide))]
      exact Nat.div_add_mod n 16

theorem lt_pow_size (n : Nat) : n < 16 ^ size n := by
  have hlog : n < 2 ^ (n.log2 + 1) := Nat.lt_log2_self
  have hdigits : n.log2 + 1 ≤ 4 * size n := by
    unfold size
    omega
  have hpow : 2 ^ (n.log2 + 1) ≤ 2 ^ (4 * size n) :=
    Nat.pow_le_pow_right (by decide) hdigits
  rw [pow_mul] at hpow
  exact hlog.trans_le hpow

theorem read_padded (width n : Nat) : read (padded width n) = n := by
  apply read_fixed
  exact (lt_pow_size n).trans_le
    (Nat.pow_le_pow_right (by decide) (Nat.le_max_right _ _))

theorem marked_inj {width m n : Nat} (h : marked width m = marked width n) :
    m = n := by
  have hdigits : padded width m = padded width n :=
    (List.cons.inj (List.cons.inj h).2).2
  rw [← read_padded width m, hdigits, read_padded]

end Hex

theorem Word.text_inj {v w : UInt16} (h : text v = text w) : v = w := by
  have hread (w : UInt16) : Hex.read (text w) = w.toNat :=
    Hex.read_fixed w.toNat_lt
  apply UInt16.toNat_inj.mp
  rw [← hread v, h, hread]

namespace Fault

theorem numeral_inj {m n : Nat} (h : numeral m = numeral n) : m = n :=
  Hex.marked_inj (String.ofList_inj.mp h)

/-- Texts that open differently differ. -/
theorem append_ne_append {s t : String} (x y : String)
    (hlength : 7 ≤ s.toList.length ∧ 7 ≤ t.toList.length)
    (hopening : s.toList.take 7 ≠ t.toList.take 7) : s ++ x ≠ t ++ y := by
  intro h
  have hchars := congrArg (fun line : String => line.toList.take 7) h
  simp only [String.toList_append, List.take_append_of_le_length hlength.1,
    List.take_append_of_le_length hlength.2] at hchars
  exact hopening hchars

theorem message_injective : Function.Injective message := by
  intro f g h
  cases f with
  | outsideMemory address =>
      cases g with
      | outsideMemory other =>
          rw [numeral_inj ((String.append_right_inj _).mp h)]
      | stackOverflow | stackUnderflow =>
          exact absurd h
            (append_ne_append _ _ (by decide +kernel) (by decide +kernel))
  | stackOverflow pc =>
      cases g with
      | stackOverflow other =>
          have hpc := numeral_inj ((String.append_right_inj _).mp h)
          rw [UInt16.toNat_inj.mp hpc]
      | outsideMemory | stackUnderflow =>
          exact absurd h
            (append_ne_append _ _ (by decide +kernel) (by decide +kernel))
  | stackUnderflow pc =>
      cases g with
      | stackUnderflow other =>
          have hpc := numeral_inj ((String.append_right_inj _).mp h)
          rw [UInt16.toNat_inj.mp hpc]
      | outsideMemory | stackOverflow =>
          exact absurd h
            (append_ne_append _ _ (by decide +kernel) (by decide +kernel))

end Fault

/-! ## Tokens -/

/-- Whether a character stands between tokens. -/
def isSeparator (c : Char) : Bool := c == ' ' || c == ','

/-- The tokens of a line. -/
def tokens (line : List Char) : List (List Char) :=
  (line.splitOnP isSeparator).filter (!·.isEmpty)

/-- Whether some characters are a single token. -/
def isToken (chars : List Char) : Bool :=
  !chars.isEmpty && chars.all (!isSeparator ·)

section

variable {token : List Char} {c : Char}

theorem isToken_iff :
    isToken token = true ↔
      token.isEmpty = false ∧ ∀ c ∈ token, isSeparator c = false := by
  simp only [isToken, Bool.and_eq_true, List.all_eq_true, Bool.not_eq_true']

theorem tokens_cons_separator (hc : isSeparator c = true) (rest : List Char) :
    tokens (c :: rest) = tokens rest := by
  have hempty : ∀ c ∈ ([] : List Char), isSeparator c = false := by simp
  have hsplit : (c :: rest).splitOnP isSeparator =
      [] :: rest.splitOnP isSeparator :=
    List.splitOnP_append_cons_of_forall_mem hempty c hc rest
  simp [tokens, hsplit]

theorem tokens_append_separator (h : isToken token = true)
    (hc : isSeparator c = true) (rest : List Char) :
    tokens (token ++ c :: rest) = token :: tokens rest := by
  obtain ⟨hnonempty, hnone⟩ := isToken_iff.mp h
  have hsplit := List.splitOnP_append_cons_of_forall_mem hnone c hc rest
  simp [tokens, hsplit, hnonempty]

theorem tokens_of_isToken (h : isToken token = true) :
    tokens token = [token] := by
  obtain ⟨hnonempty, hnone⟩ := isToken_iff.mp h
  have hsplit := List.splitOnP_eq_singleton hnone
  simp [tokens, hsplit, hnonempty]

end

/-! ## Operands -/

theorem not_isSeparator_digit (n : Nat) :
    isSeparator (Hex.digit (n % 16)) = false := by
  have hall : ∀ d : Fin 16, isSeparator (Hex.digit d.val) = false := by decide
  exact hall ⟨n % 16, Nat.mod_lt n (by decide)⟩

theorem all_not_isSeparator_fixed (width n : Nat) :
    (Hex.fixed width n).all (!isSeparator ·) = true := by
  induction width generalizing n with
  | zero => rfl
  | succ width ih =>
      simp [Hex.fixed, List.all_append, ih, not_isSeparator_digit]

theorem isToken_fixed (width n : Nat) :
    isToken (Hex.fixed (width + 1) n) = true := by
  rw [isToken, all_not_isSeparator_fixed, Hex.fixed]
  simp

theorem isToken_numeral (width n : Nat) :
    isToken ('0' :: 'x' :: Hex.fixed width n) = true := by
  simp only [isToken, List.all_cons, all_not_isSeparator_fixed]
  rfl

namespace Operand

/-- An operand as its text shows it: the register that offsets a jump looks
like `V0`. -/
def shown : Operand → Operand
  | .place .offset => .register .first
  | operand => operand

/-- The operand that a token shows, if it shows one. -/
def ofToken? : List Char → Option Operand
  | 'V' :: digits => some (.register (Register.ofNat (Hex.read digits)))
  | '0' :: 'x' :: digits =>
    if digits.length = 2 then some (.byte (UInt8.ofNat (Hex.read digits)))
    else some (.address (Address.ofNat (Hex.read digits)))
  | ['I'] => some (.place .index)
  | ['[', 'I', ']'] => some (.place .pointed)
  | ['D', 'T'] => some (.place .delay)
  | ['S', 'T'] => some (.place .sound)
  | ['K'] => some (.place .key)
  | ['F'] => some (.place .glyph)
  | ['B'] => some (.place .digits)
  | token =>
    ((List.finRange 16).find? fun n => Nibble.text n == token).map .nibble

theorem isToken_text (operand : Operand) : isToken operand.text = true := by
  cases operand with
  | register x =>
      have hall : ∀ x : Register, isToken x.text = true := by decide
      exact hall x
  | nibble n =>
      have hall : ∀ n : Nibble, isToken (Nibble.text n) = true := by decide
      exact hall n
  | address a => exact isToken_numeral 3 a.val
  | byte b => exact isToken_numeral 2 b.toNat
  | place p => cases p with
    | _ => decide

theorem ofToken?_text (operand : Operand) :
    ofToken? operand.text = some operand.shown := by
  cases operand with
  | register x =>
      have hall : ∀ x : Register, ofToken? x.text = some (.register x) := by
        decide
      exact hall x
  | nibble n =>
      have hall : ∀ n : Nibble,
          ofToken? (Nibble.text n) = some (.nibble n) := by decide
      exact hall n
  | address a =>
      have hread : Hex.read (Hex.fixed 3 a.val) = a.val :=
        Hex.read_fixed a.isLt
      simp only [text, Address.text, ofToken?, Hex.length_fixed, hread]
      exact congrArg (some ∘ Operand.address) (Fin.ofNat_val_eq_self a)
  | byte b =>
      have hread : Hex.read (Hex.fixed 2 b.toNat) = b.toNat :=
        Hex.read_fixed b.toNat_lt
      simp only [text, byteText, ofToken?, Hex.length_fixed, hread, if_true,
        UInt8.ofNat_toNat]
      rfl
  | place p => cases p with
    | _ => decide

end Operand

/-! ## Instructions -/

namespace Instruction

theorem isToken_mnemonic (i : Instruction) : isToken i.mnemonic = true := by
  cases i with
  | skip condition => cases condition with
    | _ => rfl
  | combine op x y => cases op with
    | _ => rfl
  | shift direction x => cases direction with
    | _ => rfl
  | _ => rfl

theorem tokens_operands {operand : Operand} {rest : List Operand} :
    tokens (operand.text ++
        rest.flatMap fun next => ',' :: ' ' :: next.text) =
      operand.text :: rest.map Operand.text := by
  induction rest generalizing operand with
  | nil =>
      rw [List.flatMap_nil, List.append_nil,
        tokens_of_isToken operand.isToken_text]
      rfl
  | cons next rest ih =>
      rw [List.flatMap_cons, List.cons_append, List.cons_append,
        tokens_append_separator operand.isToken_text rfl,
        tokens_cons_separator rfl, ih]
      rfl

/-- The tokens of a line of assembly are the mnemonic and the operands. -/
theorem tokens_chars (i : Instruction) :
    tokens i.chars = i.mnemonic :: i.operands.map Operand.text := by
  rw [chars]
  cases i.operands with
  | nil =>
      rw [operandChars, List.append_nil, tokens_of_isToken i.isToken_mnemonic]
      rfl
  | cons operand rest =>
      rw [operandChars, List.cons_append,
        tokens_append_separator i.isToken_mnemonic rfl, tokens_operands]
      rfl

/-- The instruction with a mnemonic and operands, if there is one. -/
def ofParts? : List Char → List Operand → Option Instruction
  | ['C', 'L', 'S'], [] => some .clear
  | ['R', 'E', 'T'], [] => some .ret
  | ['J', 'P'], [.address target] => some (.jump target)
  | ['J', 'P'], [.register _, .address target] => some (.jumpOffset target)
  | ['C', 'A', 'L', 'L'], [.address target] => some (.call target)
  | ['S', 'E'], [.register x, .byte byte] => some (.skip (.isByte x byte))
  | ['S', 'E'], [.register x, .register y] => some (.skip (.same x y))
  | ['S', 'N', 'E'], [.register x, .byte byte] =>
    some (.skip (.isNotByte x byte))
  | ['S', 'N', 'E'], [.register x, .register y] => some (.skip (.differ x y))
  | ['S', 'K', 'P'], [.register x] => some (.skip (.keyDown x))
  | ['S', 'K', 'N', 'P'], [.register x] => some (.skip (.keyUp x))
  | ['A', 'D', 'D'], [.register x, .byte byte] => some (.addByte x byte)
  | ['A', 'D', 'D'], [.register x, .register y] => some (.combine .add x y)
  | ['A', 'D', 'D'], [.place .index, .register x] => some (.addIndex x)
  | ['O', 'R'], [.register x, .register y] => some (.combine .or x y)
  | ['A', 'N', 'D'], [.register x, .register y] => some (.combine .and x y)
  | ['X', 'O', 'R'], [.register x, .register y] => some (.combine .xor x y)
  | ['S', 'U', 'B'], [.register x, .register y] =>
    some (.combine .subtract x y)
  | ['S', 'U', 'B', 'N'], [.register x, .register y] =>
    some (.combine .subtractFrom x y)
  | ['S', 'H', 'R'], [.register x] => some (.shift .right x)
  | ['S', 'H', 'L'], [.register x] => some (.shift .left x)
  | ['R', 'N', 'D'], [.register x, .byte mask] => some (.random x mask)
  | ['D', 'R', 'W'], [.register x, .register y, .nibble rows] =>
    some (.draw x y rows)
  | ['L', 'D'], [.register x, .byte byte] => some (.setByte x byte)
  | ['L', 'D'], [.register x, .register y] => some (.combine .copy x y)
  | ['L', 'D'], [.register x, .place .delay] => some (.getDelay x)
  | ['L', 'D'], [.register x, .place .key] => some (.waitKey x)
  | ['L', 'D'], [.register x, .place .pointed] => some (.fillRegisters x)
  | ['L', 'D'], [.place .index, .address target] => some (.setIndex target)
  | ['L', 'D'], [.place .delay, .register x] => some (.setDelay x)
  | ['L', 'D'], [.place .sound, .register x] => some (.setSound x)
  | ['L', 'D'], [.place .glyph, .register x] => some (.pointGlyph x)
  | ['L', 'D'], [.place .digits, .register x] => some (.storeDigits x)
  | ['L', 'D'], [.place .pointed, .register x] => some (.storeRegisters x)
  | _, _ => none

theorem ofParts?_shown (i : Instruction) :
    ofParts? i.mnemonic (i.operands.map Operand.shown) = some i := by
  cases i with
  | skip condition => cases condition with
    | _ => rfl
  | combine op x y => cases op with
    | _ => rfl
  | shift direction x => cases direction with
    | _ => rfl
  | _ => rfl

/-- The instruction that tokens show, if they show one. -/
def ofTokens? : List (List Char) → Option Instruction
  | [] => none
  | mnemonic :: rest => ofParts? mnemonic (rest.filterMap Operand.ofToken?)

/-- An instruction can be read back from its assembly. -/
theorem ofTokens?_chars (i : Instruction) :
    ofTokens? (tokens i.chars) = some i := by
  have hoperands : (i.operands.map Operand.text).filterMap Operand.ofToken? =
      i.operands.map Operand.shown := by
    rw [List.filterMap_map, ← List.filterMap_eq_map]
    congr 1
    funext operand
    exact operand.ofToken?_text
  rw [tokens_chars, ofTokens?, hoperands, ofParts?_shown]

theorem tokens_chars_injective :
    Function.Injective fun i : Instruction => tokens i.chars := by
  have hback : ofTokens? ∘ (fun i : Instruction => tokens i.chars) = some :=
    funext ofTokens?_chars
  apply Function.Injective.of_comp (f := ofTokens?)
  rw [hback]
  exact fun _ _ => Option.some.inj

theorem chars_injective : Function.Injective chars :=
  Function.Injective.of_comp (f := tokens) tokens_chars_injective

theorem text_eq_iff {i j : Instruction} : i.text = j.text ↔ i = j := by
  rw [text, text, String.ofList_inj, chars_injective.eq_iff]

end Instruction

/-! ## Lines of a journal -/

namespace Entry

theorem isToken_level (entry : Entry) : isToken entry.level.toList = true := by
  have hlevels : ∀ level ∈ ["DEBUG", "WARN", "TRACE", "ERROR"],
      isToken level.toList = true := by decide
  apply hlevels
  cases entry with
  | _ => simp [level]

theorem tokens_line (entry : Entry) :
    tokens entry.line.toList =
      entry.level.toList :: tokens entry.message.toList := by
  have hline : entry.line.toList =
      entry.level.toList ++ ' ' :: entry.message.toList := by
    simp [line]
  rw [hline, tokens_append_separator entry.isToken_level rfl]

/-- The counter and the word that a line tells of come before the rest. -/
theorem tokens_at (pc w : UInt16) (rest : String) :
    tokens (counter pc ++ "  " ++ word w ++ "  " ++ rest).toList =
      Hex.marked 3 pc.toNat :: Word.text w :: tokens rest.toList := by
  have hcounter : isToken (Hex.marked 3 pc.toNat) = true :=
    isToken_numeral _ _
  have hword : isToken (Word.text w) = true := isToken_fixed 3 _
  have hchars : (counter pc ++ "  " ++ word w ++ "  " ++ rest).toList =
      Hex.marked 3 pc.toNat ++
        ' ' :: ' ' :: (Word.text w ++ ' ' :: ' ' :: rest.toList) := by
    simp [counter, word]
  rw [hchars, tokens_append_separator hcounter rfl, tokens_cons_separator rfl,
    tokens_append_separator hword rfl, tokens_cons_separator rfl]

theorem tokens_executed (pc w : UInt16) (i : Instruction) :
    tokens (executed pc w i).message.toList =
      Hex.marked 3 pc.toNat :: Word.text w :: tokens i.chars := by
  have htext : i.text.toList = i.chars := String.toList_ofList
  rw [← htext]
  exact tokens_at pc w i.text

theorem tokens_skipped (pc w : UInt16) :
    tokens (skipped pc w).message.toList =
      [Hex.marked 3 pc.toNat, Word.text w, "(skipped)".toList] := by
  have hblanks : "  (skipped)" = "  " ++ "(skipped)" := by simp
  have hrest : tokens "(skipped)".toList = ["(skipped)".toList] :=
    tokens_of_isToken (by decide)
  have hmessage : (skipped pc w).message =
      counter pc ++ "  " ++ word w ++ "  (skipped)" := rfl
  rw [hmessage, hblanks, ← String.append_assoc, tokens_at, hrest]

/-- No other entry has the line of an instruction that was carried out. -/
theorem eq_executed_of_line_eq {entry : Entry} {pc w : UInt16}
    {i : Instruction} (h : entry.line = (executed pc w i).line) :
    entry = executed pc w i := by
  have htokens : entry.level.toList :: tokens entry.message.toList =
      "TRACE".toList :: tokens (executed pc w i).message.toList := by
    rw [← tokens_line, h]
    exact tokens_line _
  obtain ⟨hlevel, hmessage⟩ := List.cons.inj htokens
  have htrace : entry.level = "TRACE" := String.toList_inj.mp hlevel
  replace hmessage := hmessage.trans (tokens_executed pc w i)
  cases entry with
  | loaded | scheduled | ready | unknown | halted => simp [level] at htrace
  | executed qc v j =>
      replace hmessage := (tokens_executed qc v j).symm.trans hmessage
      obtain ⟨hpc, hmessage⟩ := List.cons.inj hmessage
      obtain ⟨hword, hrest⟩ := List.cons.inj hmessage
      obtain rfl : qc = pc := UInt16.toNat_inj.mp (Hex.marked_inj hpc)
      obtain rfl : v = w := Word.text_inj hword
      obtain rfl := Instruction.tokens_chars_injective hrest
      rfl
  | skipped qc v =>
      replace hmessage := (tokens_skipped qc v).symm.trans hmessage
      obtain ⟨-, hmessage⟩ := List.cons.inj hmessage
      obtain ⟨-, hrest⟩ := List.cons.inj hmessage
      have hread := i.ofTokens?_chars
      have hnone : Instruction.ofTokens? ["(skipped)".toList] = none := by
        decide
      rw [← hrest, hnone] at hread
      cases hread

end Entry

namespace Instruction

/-- Assembly can be read in one way only.  The texts of two instructions are
the same if and only if the instructions are; the texts of two words that stand
for instructions are the same if and only if the words are, apart from a nibble
that their pattern does not use; and the line that tells of an instruction
carried out has the counter, the word and the instruction in it, so that no
other entry of a journal has the same line. -/
theorem text_is_unambiguous :
    (∀ i j : Instruction, i.text = j.text ↔ i = j) ∧
    (∀ (v w : UInt16) (i j : Instruction),
      decode v = some i → decode w = some j →
      (i.text = j.text ↔ Word.essential v = Word.essential w)) ∧
    ∀ (entry : Entry) (pc w : UInt16) (i : Instruction),
      entry.line = (Entry.executed pc w i).line →
      entry = .executed pc w i := by
  refine ⟨?_, ?_, ?_⟩
  · intro i j
    exact text_eq_iff
  · intro v w i j hv hw
    exact text_eq_iff.trans (eq_iff_essential_eq hv hw)
  · intro entry pc w i h
    exact Entry.eq_executed_of_line_eq h

/-- A shift does not use the third nibble of its word, and a sum does. -/
theorem text_is_unambiguous_of_third_nibble :
    decode 0x8126 = some (.shift .right 1) ∧
      decode 0x8136 = some (.shift .right 1) ∧
      Word.essential 0x8126 = Word.essential 0x8136 ∧
      decode 0x8124 = some (.combine .add 1 2) ∧
      decode 0x8134 = some (.combine .add 1 3) ∧
      (combine .add 1 2).text ≠ (combine .add 1 3).text ∧
      ∃ entry : Entry, entry.line = "TRACE 0x200  8126  SHR V1" ∧
        entry = .executed 0x200 0x8126 (.shift .right 1) := by
  obtain ⟨-, hwords, hlines⟩ := text_is_unambiguous
  have hshift : decode 0x8126 = some (.shift .right 1) := by decide
  have hother : decode 0x8136 = some (.shift .right 1) := by decide
  have hsum : decode 0x8124 = some (.combine .add 1 2) := by decide
  have hnext : decode 0x8134 = some (.combine .add 1 3) := by decide
  have hdiffer : Word.essential 0x8124 ≠ Word.essential 0x8134 := by decide
  exact ⟨hshift, hother, (hwords _ _ _ _ hshift hother).mp rfl, hsum, hnext,
    mt (hwords _ _ _ _ hsum hnext).mp hdiffer,
    .executed 0x200 0x8126 (.shift .right 1), by decide +kernel,
    hlines _ _ _ _ rfl⟩

end Instruction

end Chip8
