import Mathlib.Data.BitVec

/-!
# RV32I

The base integer instructions, their encodings, and the effect of each one
stated on integers. A word stands for its residue modulo `2 ^ 32`, `wrap` takes
an integer to its word.
-/

namespace Rv32i

inductive RegOp where
  | add | sub | sll | slt | sltu | xor | srl | sra | or | and
  deriving DecidableEq, Repr

inductive ImmOp where
  | addi | slti | sltiu | xori | ori | andi
  deriving DecidableEq, Repr

inductive ShiftOp where
  | slli | srli | srai
  deriving DecidableEq, Repr

inductive BranchOp where
  | beq | bne | blt | bge | bltu | bgeu
  deriving DecidableEq, Repr

/-- Branch and jump offsets are even and given without their bit 0. The other
fields of a fence do not matter. -/
inductive Instr where
  | reg (op : RegOp) (rd rs1 rs2 : BitVec 5)
  | imm (op : ImmOp) (rd rs1 : BitVec 5) (imm : BitVec 12)
  | shift (op : ShiftOp) (rd rs1 shamt : BitVec 5)
  | lw (rd rs1 : BitVec 5) (imm : BitVec 12)
  | sw (rs1 rs2 : BitVec 5) (imm : BitVec 12)
  | branch (op : BranchOp) (rs1 rs2 : BitVec 5) (offset : BitVec 12)
  | jal (rd : BitVec 5) (offset : BitVec 20)
  | jalr (rd rs1 : BitVec 5) (imm : BitVec 12)
  | lui (rd : BitVec 5) (imm : BitVec 20)
  | auipc (rd : BitVec 5) (imm : BitVec 20)
  | fence (fields : BitVec 12) (rs1 rd : BitVec 5)
  deriving DecidableEq, Repr

/-- The first source register, `x0` if there is none. -/
def Instr.rs1 : Instr → BitVec 5
  | .reg _ _ rs1 _ => rs1
  | .imm _ _ rs1 _ => rs1
  | .shift _ _ rs1 _ => rs1
  | .lw _ rs1 _ => rs1
  | .sw rs1 _ _ => rs1
  | .branch _ rs1 _ _ => rs1
  | .jalr _ rs1 _ => rs1
  | _ => 0#5

def Instr.rs2 : Instr → BitVec 5
  | .reg _ _ _ rs2 => rs2
  | .sw _ rs2 _ => rs2
  | .branch _ _ rs2 _ => rs2
  | _ => 0#5

/-! ## Encodings -/

def word (funct7 : BitVec 7) (rs2 rs1 : BitVec 5) (funct3 : BitVec 3) (rd : BitVec 5) (opcode : BitVec 7) : BitVec 32 :=
  funct7 ++ (rs2 ++ (rs1 ++ (funct3 ++ (rd ++ opcode))))

def iType (imm : BitVec 12) (rs1 : BitVec 5) (funct3 : BitVec 3) (rd : BitVec 5) (opcode : BitVec 7) : BitVec 32 :=
  word (imm.extractLsb 11 5) (imm.extractLsb 4 0) rs1 funct3 rd opcode

def sType (imm : BitVec 12) (rs2 rs1 : BitVec 5) (funct3 : BitVec 3) (opcode : BitVec 7) : BitVec 32 :=
  word (imm.extractLsb 11 5) rs2 rs1 funct3 (imm.extractLsb 4 0) opcode

/-- `imm[12|10:5]` and `imm[4:1|11]`, of the offset without `imm[0]`. -/
def bType (offset : BitVec 12) (rs2 rs1 : BitVec 5) (funct3 : BitVec 3) (opcode : BitVec 7) : BitVec 32 :=
  word (BitVec.ofBool offset[11] ++ offset.extractLsb 9 4) rs2 rs1 funct3
    (offset.extractLsb 3 0 ++ BitVec.ofBool offset[10]) opcode

def uType (imm : BitVec 20) (rd : BitVec 5) (opcode : BitVec 7) : BitVec 32 :=
  word (imm.extractLsb 19 13) (imm.extractLsb 12 8) (imm.extractLsb 7 3) (imm.extractLsb 2 0) rd opcode

/-- `imm[20|10:1|11|19:12]`, of the offset without `imm[0]`. -/
def jType (offset : BitVec 20) (rd : BitVec 5) (opcode : BitVec 7) : BitVec 32 :=
  uType (BitVec.ofBool offset[19] ++ (offset.extractLsb 9 0 ++ (BitVec.ofBool offset[10] ++ offset.extractLsb 18 11)))
    rd opcode

def RegOp.funct3 : RegOp → BitVec 3
  | add => 0b000#3
  | sub => 0b000#3
  | sll => 0b001#3
  | slt => 0b010#3
  | sltu => 0b011#3
  | xor => 0b100#3
  | srl => 0b101#3
  | sra => 0b101#3
  | or => 0b110#3
  | and => 0b111#3

def RegOp.funct7 : RegOp → BitVec 7
  | sub => 0b0100000#7
  | sra => 0b0100000#7
  | _ => 0b0000000#7

def ImmOp.reg : ImmOp → RegOp
  | addi => .add
  | slti => .slt
  | sltiu => .sltu
  | xori => .xor
  | ori => .or
  | andi => .and

def ShiftOp.reg : ShiftOp → RegOp
  | slli => .sll
  | srli => .srl
  | srai => .sra

def BranchOp.funct3 : BranchOp → BitVec 3
  | beq => 0b000#3
  | bne => 0b001#3
  | blt => 0b100#3
  | bge => 0b101#3
  | bltu => 0b110#3
  | bgeu => 0b111#3

def encode : Instr → BitVec 32
  | .reg op rd rs1 rs2 => word op.funct7 rs2 rs1 op.funct3 rd 0b0110011#7
  | .imm op rd rs1 imm => iType imm rs1 op.reg.funct3 rd 0b0010011#7
  | .shift op rd rs1 shamt => word op.reg.funct7 shamt rs1 op.reg.funct3 rd 0b0010011#7
  | .lw rd rs1 imm => iType imm rs1 0b010#3 rd 0b0000011#7
  | .sw rs1 rs2 imm => sType imm rs2 rs1 0b010#3 0b0100011#7
  | .branch op rs1 rs2 offset => bType offset rs2 rs1 op.funct3 0b1100011#7
  | .jal rd offset => jType offset rd 0b1101111#7
  | .jalr rd rs1 imm => iType imm rs1 0b000#3 rd 0b1100111#7
  | .lui rd imm => uType imm rd 0b0110111#7
  | .auipc rd imm => uType imm rd 0b0010111#7
  | .fence fields rs1 rd => iType fields rs1 0b000#3 rd 0b0001111#7

/-- `beq x1, x2, -4`, `jal x1, 2048`, `srai x1, x2, 3`. -/
example : encode (.branch .beq 1#5 2#5 (-2#12)) = 0xFE208EE3#32 ∧ encode (.jal 1#5 1024#20) = 0x001000EF#32 ∧
    encode (.shift .srai 1#5 2#5 3#5) = 0x40315093#32 := by
  decide

/-! ## Effects -/

def wrap (x : Int) : BitVec 32 := BitVec.ofInt 32 x

/-- What an instruction does: the register it writes, the address it loads
from, the word it stores, the address of the next instruction. -/
structure Effect where
  write : Option (BitVec 5 × BitVec 32)
  load : Option (BitVec 32)
  store : Option (BitVec 32 × BitVec 32)
  nextPc : BitVec 32
  deriving DecidableEq, Repr

def Effect.next (pc : BitVec 32) : Effect where
  write := none
  load := none
  store := none
  nextPc := wrap (pc.toNat + 4)

def writeTo (rd : BitVec 5) (value : BitVec 32) : Option (BitVec 5 × BitVec 32) :=
  if rd = 0#5 then none else some (rd, value)

/-- The result as an integer; the shift amount is the low five bits of `b`. -/
def RegOp.eval (a b : BitVec 32) : RegOp → Int
  | add => a.toInt + b.toInt
  | sub => a.toInt - b.toInt
  | sll => a.toNat * 2 ^ (b.toNat % 32)
  | slt => if a.toInt < b.toInt then 1 else 0
  | sltu => if a.toNat < b.toNat then 1 else 0
  | xor => (a.toNat ^^^ b.toNat : Nat)
  | srl => a.toNat / 2 ^ (b.toNat % 32)
  | sra => a.toInt / 2 ^ (b.toNat % 32)
  | or => (a.toNat ||| b.toNat : Nat)
  | and => (a.toNat &&& b.toNat : Nat)

def BranchOp.holds (a b : BitVec 32) : BranchOp → Bool
  | beq => a.toNat = b.toNat
  | bne => a.toNat ≠ b.toNat
  | blt => a.toInt < b.toInt
  | bge => b.toInt ≤ a.toInt
  | bltu => a.toNat < b.toNat
  | bgeu => b.toNat ≤ a.toNat

/-- The effect of the instruction at `pc`, where `a` and `b` are the values of
its source registers and `mem` gives the word at an address. -/
def exec (mem : BitVec 32 → BitVec 32) (pc a b : BitVec 32) : Instr → Effect
  | .reg op rd _ _ => { Effect.next pc with write := writeTo rd (wrap (op.eval a b)) }
  | .imm op rd _ imm => { Effect.next pc with write := writeTo rd (wrap (op.reg.eval a (wrap imm.toInt))) }
  | .shift op rd _ shamt => { Effect.next pc with write := writeTo rd (wrap (op.reg.eval a (wrap shamt.toNat))) }
  | .lw rd _ imm =>
    { Effect.next pc with
      write := writeTo rd (mem (wrap (a.toInt + imm.toInt)))
      load := some (wrap (a.toInt + imm.toInt)) }
  | .sw _ _ imm => { Effect.next pc with store := some (wrap (a.toInt + imm.toInt), b) }
  | .branch op _ _ offset =>
    { Effect.next pc with
      nextPc := if op.holds a b then wrap (pc.toNat + 2 * offset.toInt) else wrap (pc.toNat + 4) }
  | .jal rd offset =>
    { Effect.next pc with
      write := writeTo rd (wrap (pc.toNat + 4))
      nextPc := wrap (pc.toNat + 2 * offset.toInt) }
  | .jalr rd _ imm =>
    { Effect.next pc with
      write := writeTo rd (wrap (pc.toNat + 4))
      nextPc := wrap (a.toInt + imm.toInt - (a.toInt + imm.toInt) % 2) }
  | .lui rd imm => { Effect.next pc with write := writeTo rd (wrap (imm.toNat * 2 ^ 12)) }
  | .auipc rd imm => { Effect.next pc with write := writeTo rd (wrap (pc.toNat + imm.toNat * 2 ^ 12)) }
  | .fence .. => Effect.next pc

/-! ## The word of an integer -/

theorem wrap_toInt (x : BitVec 32) : wrap x.toInt = x := BitVec.ofInt_toInt

theorem wrap_toNat (x : BitVec 32) : wrap x.toNat = x := by
  rw [wrap, BitVec.ofInt_natCast, BitVec.ofNat_toNat, BitVec.setWidth_eq]

theorem wrap_add (x y : Int) : wrap (x + y) = wrap x + wrap y := BitVec.ofInt_add x y

theorem wrap_sub (x y : Int) : wrap (x - y) = wrap x - wrap y := by
  rw [wrap, Int.sub_eq_add_neg, BitVec.ofInt_add, BitVec.ofInt_neg, ← BitVec.sub_eq_add_neg]
  rfl

theorem and_not_one (w : BitVec 32) : w &&& ~~~1#32 = w >>> 1 <<< 1 := by
  ext i hi
  cases i with
  | zero => simp
  | succ i => simp [-BitVec.reduceNot, Nat.add_comm 1 i, BitVec.getLsbD_eq_getElem hi]

theorem wrap_even (x : Int) : wrap (x - x % 2) = wrap x &&& ~~~1#32 := by
  rw [and_not_one]
  apply BitVec.eq_of_toNat_eq
  rw [BitVec.toNat_shiftLeft, BitVec.toNat_ushiftRight, Nat.shiftLeft_eq, Nat.shiftRight_eq_div_pow, wrap, wrap,
    BitVec.toNat_ofInt, BitVec.toNat_ofInt]
  omega

/-! ## The operations on words -/

theorem shamt_toNat (b : BitVec 32) : (b.extractLsb 4 0).toNat = b.toNat % 32 := BitVec.extractLsb_toNat ..

section
variable (a b : BitVec 32)

theorem wrap_eval_add : wrap (RegOp.add.eval a b) = a + b := by
  rw [RegOp.eval, wrap_add, wrap_toInt, wrap_toInt]

theorem wrap_eval_sub : wrap (RegOp.sub.eval a b) = a - b := by
  rw [RegOp.eval, wrap_sub, wrap_toInt, wrap_toInt]

theorem wrap_eval_sll : wrap (RegOp.sll.eval a b) = a <<< b.extractLsb 4 0 := by
  apply BitVec.eq_of_toNat_eq
  rw [RegOp.eval, BitVec.shiftLeft_eq', BitVec.toNat_shiftLeft, shamt_toNat, Nat.shiftLeft_eq]
  norm_cast

theorem wrap_eval_slt : wrap (RegOp.slt.eval a b) = if a.slt b then 1#32 else 0#32 := by
  rw [RegOp.eval, BitVec.slt_eq_decide]
  by_cases h : a.toInt < b.toInt <;> simp [h, wrap]

theorem wrap_eval_sltu : wrap (RegOp.sltu.eval a b) = if a.ult b then 1#32 else 0#32 := by
  rw [RegOp.eval, BitVec.ult_eq_decide]
  by_cases h : a.toNat < b.toNat <;> simp [h, wrap]

theorem wrap_eval_xor : wrap (RegOp.xor.eval a b) = a ^^^ b := by
  rw [RegOp.eval, ← BitVec.toNat_xor, wrap_toNat]

theorem wrap_eval_srl : wrap (RegOp.srl.eval a b) = a >>> b.extractLsb 4 0 := by
  have h : (a >>> b.extractLsb 4 0).toNat = a.toNat / 2 ^ (b.toNat % 32) := by
    rw [BitVec.ushiftRight_eq', BitVec.toNat_ushiftRight, shamt_toNat, Nat.shiftRight_eq_div_pow]
  rw [RegOp.eval, ← wrap_toNat (a >>> b.extractLsb 4 0), h]
  norm_cast

theorem wrap_eval_sra : wrap (RegOp.sra.eval a b) = a.sshiftRight' (b.extractLsb 4 0) := by
  rw [RegOp.eval, BitVec.sshiftRight_eq', shamt_toNat, BitVec.sshiftRight, Int.shiftRight_eq_div_pow]
  norm_cast

theorem wrap_eval_or : wrap (RegOp.or.eval a b) = a ||| b := by
  rw [RegOp.eval, ← BitVec.toNat_or, wrap_toNat]

theorem wrap_eval_and : wrap (RegOp.and.eval a b) = a &&& b := by
  rw [RegOp.eval, ← BitVec.toNat_and, wrap_toNat]

end

/-! ## Fields as numbers -/

theorem toNat_append {n m : Nat} (x : BitVec n) (y : BitVec m) : (x ++ y).toNat = x.toNat * 2 ^ m + y.toNat := by
  rw [BitVec.toNat_append, ← Nat.shiftLeft_add_eq_or_of_lt y.isLt, Nat.shiftLeft_eq]

theorem toNat_ofBool_getLsbD {n : Nat} (x : BitVec n) (i : Nat) :
    (BitVec.ofBool (x.getLsbD i)).toNat = x.toNat / 2 ^ i % 2 := by
  rw [BitVec.toNat_ofBool, ← BitVec.testBit_toNat, Nat.testBit_eq_decide_div_mod_eq]
  rcases Nat.mod_two_eq_zero_or_one (x.toNat / 2 ^ i) with h | h <;> simp [h]

theorem getLsbD_eq_decide {n : Nat} (x : BitVec n) (i : Nat) : x.getLsbD i = decide (x.toNat / 2 ^ i % 2 = 1) := by
  rw [← BitVec.testBit_toNat, Nat.testBit_eq_decide_div_mod_eq]

theorem toNat_extractLsb {n : Nat} (x : BitVec n) (hi lo : Nat) :
    (x.extractLsb hi lo).toNat = x.toNat / 2 ^ lo % 2 ^ (hi - lo + 1) := by
  rw [BitVec.extractLsb_toNat, Nat.shiftRight_eq_div_pow]

theorem word_toNat (funct7 : BitVec 7) (rs2 rs1 : BitVec 5) (funct3 : BitVec 3) (rd : BitVec 5) (opcode : BitVec 7) :
    (word funct7 rs2 rs1 funct3 rd opcode).toNat =
      funct7.toNat * 2 ^ 25 + rs2.toNat * 2 ^ 20 + rs1.toNat * 2 ^ 15 + funct3.toNat * 2 ^ 12 + rd.toNat * 2 ^ 7 +
        opcode.toNat := by
  simp only [word, toNat_append]
  omega

/-! ## Constants in two parts

An upper immediate and a signed low part that add up to the constant. -/

def upper (c : BitVec 32) : BitVec 20 := ((c + 0x800#32) >>> 12).setWidth 20

def lower (c : BitVec 32) : BitVec 12 := c.setWidth 12

theorem upper_add_lower (c : BitVec 32) : wrap ((upper c).toNat * 2 ^ 12) + wrap (lower c).toInt = c := by
  have hupper : (upper c).toNat = (c.toNat + 2048) % 2 ^ 32 / 2 ^ 12 := by
    rw [upper, BitVec.toNat_setWidth, BitVec.toNat_ushiftRight, Nat.shiftRight_eq_div_pow, BitVec.toNat_add]
    exact Nat.mod_eq_of_lt (by omega)
  have hlower : (lower c).toNat = c.toNat % 2 ^ 12 := BitVec.toNat_setWidth ..
  rw [← wrap_add, hupper, BitVec.toInt_eq_toNat_cond, hlower]
  apply BitVec.eq_of_toNat_eq
  rw [wrap, BitVec.toNat_ofInt]
  split <;> omega

end Rv32i
