import Mathlib.Logic.Function.Basic

/-!
# The modules of the datapath

One definition for each Verilog module under `rtl/`, in two-state semantics. A
combinational module is a function from its inputs to its outputs. A clocked
module is the function its `always @(posedge clk ...)` block computes: from the
inputs and the stored value to the value stored after the edge.

Reading the data array outside its 256 entries gives no defined value in
Verilog. It is the parameter `undef`, an arbitrary word for each address.
-/

namespace RiscV

abbrev Word := BitVec 32
abbrev RegIdx := BitVec 5

abbrev RegArray := RegIdx → Word

abbrev MemArray := Fin 256 → Word

abbrev InstrArray := BitVec 30 → Word

/-! ## Instruction fields -/

def opcodeOf (instruction : Word) : BitVec 7 := instruction.extractLsb 6 0
def rdOf (instruction : Word) : RegIdx := instruction.extractLsb 11 7
def funct3Of (instruction : Word) : BitVec 3 := instruction.extractLsb 14 12
def rs1Of (instruction : Word) : RegIdx := instruction.extractLsb 19 15
def rs2Of (instruction : Word) : RegIdx := instruction.extractLsb 24 20
def funct7Of (instruction : Word) : BitVec 7 := instruction.extractLsb 31 25

/-! ## `alu`, `alu_control`, `branch_comparator` -/

structure AluOut where
  result : Word
  zero : Bool
  deriving DecidableEq, Repr

def aluResult (a b : Word) (aluControl : BitVec 4) : Word :=
  match aluControl with
  | 0b0000#4 => a + b
  | 0b0001#4 => a - b
  | 0b0010#4 => a &&& b
  | 0b0011#4 => a ||| b
  | 0b0100#4 => a ^^^ b
  | 0b0101#4 => a <<< b.extractLsb 4 0
  | 0b0110#4 => a >>> b.extractLsb 4 0
  | 0b0111#4 => if a.slt b then 1#32 else 0#32
  | 0b1000#4 => a.sshiftRight' (b.extractLsb 4 0)
  | 0b1001#4 => if a.ult b then 1#32 else 0#32
  | _ => 0#32

def alu (a b : Word) (aluControl : BitVec 4) : AluOut where
  result := aluResult a b aluControl
  zero := aluResult a b aluControl == 0#32

def aluControl (aluOp : BitVec 2) (funct3 : BitVec 3) (funct7 : BitVec 7) (isItype : Bool) : BitVec 4 :=
  let subAlt := funct7[5] && !isItype
  let shiftAlt := funct7[5]
  match aluOp with
  | 0b00#2 => 0b0000#4
  | 0b01#2 => 0b0001#4
  | 0b10#2 =>
    match funct3 with
    | 0b000#3 => if subAlt then 0b0001#4 else 0b0000#4
    | 0b001#3 => 0b0101#4
    | 0b010#3 => 0b0111#4
    | 0b011#3 => 0b1001#4
    | 0b100#3 => 0b0100#4
    | 0b101#3 => if shiftAlt then 0b1000#4 else 0b0110#4
    | 0b110#3 => 0b0011#4
    | 0b111#3 => 0b0010#4
    | _ => 0b0000#4
  | _ => 0b0000#4

def branchComparator (rs1Data rs2Data : Word) (funct3 : BitVec 3) : Bool :=
  match funct3 with
  | 0b000#3 => rs1Data == rs2Data
  | 0b001#3 => rs1Data != rs2Data
  | 0b100#3 => rs1Data.slt rs2Data
  | 0b101#3 => rs2Data.sle rs1Data
  | 0b110#3 => rs1Data.ult rs2Data
  | 0b111#3 => rs2Data.ule rs1Data
  | _ => false

/-! ## `control_unit`, `immediate_generator` -/

structure ControlSignals where
  regWrite : Bool
  aluSrc : Bool
  memRead : Bool
  memWrite : Bool
  memtoReg : Bool
  branch : Bool
  jump : Bool
  jalr : Bool
  aluOp : BitVec 2
  op1Sel : BitVec 2
  deriving DecidableEq, Repr

def op1Reg : BitVec 2 := 0b00#2
def op1Pc : BitVec 2 := 0b01#2
def op1Zero : BitVec 2 := 0b10#2

def ControlSignals.defaults : ControlSignals where
  regWrite := false
  aluSrc := false
  memRead := false
  memWrite := false
  memtoReg := false
  branch := false
  jump := false
  jalr := false
  aluOp := 0b00#2
  op1Sel := op1Reg

def controlUnit (opcode : BitVec 7) : ControlSignals :=
  match opcode with
  -- R-Type
  | 0b0110011#7 => { ControlSignals.defaults with regWrite := true, aluOp := 0b10#2 }
  -- I-Type ALU
  | 0b0010011#7 => { ControlSignals.defaults with regWrite := true, aluSrc := true, aluOp := 0b10#2 }
  -- Load
  | 0b0000011#7 =>
    { ControlSignals.defaults with
      regWrite := true, aluSrc := true, memRead := true, memtoReg := true, aluOp := 0b00#2 }
  -- Store
  | 0b0100011#7 => { ControlSignals.defaults with aluSrc := true, memWrite := true, aluOp := 0b00#2 }
  -- Branch
  | 0b1100011#7 => { ControlSignals.defaults with branch := true, aluOp := 0b01#2 }
  -- JAL
  | 0b1101111#7 => { ControlSignals.defaults with jump := true, regWrite := true }
  -- JALR
  | 0b1100111#7 => { ControlSignals.defaults with jump := true, jalr := true, regWrite := true, aluSrc := true }
  -- LUI
  | 0b0110111#7 => { ControlSignals.defaults with regWrite := true, aluSrc := true, op1Sel := op1Zero }
  -- AUIPC
  | 0b0010111#7 => { ControlSignals.defaults with regWrite := true, aluSrc := true, op1Sel := op1Pc }
  -- FENCE
  | 0b0001111#7 => ControlSignals.defaults
  | _ => ControlSignals.defaults

def replicate (n : Nat) (b : Bool) : BitVec n := BitVec.fill n b

def immediateGenerator (instruction : Word) : Word :=
  let s := instruction[31]
  match opcodeOf instruction with
  -- I-Type
  | 0b0010011#7 | 0b0000011#7 | 0b1100111#7 => replicate 20 s ++ instruction.extractLsb 31 20
  -- S-Type
  | 0b0100011#7 => replicate 20 s ++ (instruction.extractLsb 31 25 ++ instruction.extractLsb 11 7)
  -- B-Type
  | 0b1100011#7 =>
    replicate 19 s ++ (BitVec.ofBool s ++ (BitVec.ofBool instruction[7] ++
      (instruction.extractLsb 30 25 ++ (instruction.extractLsb 11 8 ++ 0b0#1))))
  -- U-Type
  | 0b0110111#7 | 0b0010111#7 => instruction.extractLsb 31 12 ++ 0#12
  -- J-Type
  | 0b1101111#7 =>
    replicate 11 s ++ (BitVec.ofBool s ++ (instruction.extractLsb 19 12 ++
      (BitVec.ofBool instruction[20] ++ (instruction.extractLsb 30 21 ++ 0b0#1))))
  | _ => 0#32

/-! ## Memories and the register file -/

def instructionMemory (memory : InstrArray) (pc : Word) : Word := memory (pc.extractLsb 31 2)

/-- `memory[address]`, when the raw address is an index of the array. -/
def MemArray.get? (memory : MemArray) (address : Word) : Option Word :=
  if h : address.toNat < 256 then some (memory ⟨address.toNat, h⟩) else none

/-- `memory[address] <= write_data`, dropped when the raw address is not an index. -/
def MemArray.set (memory : MemArray) (address writeData : Word) : MemArray :=
  if h : address.toNat < 256 then Function.update memory ⟨address.toNat, h⟩ writeData else memory

def dataMemoryRead (undef : Word → Word) (memory : MemArray) (memRead : Bool) (address : Word) : Word :=
  if memRead then (memory.get? address).getD (undef address) else 0#32

def dataMemoryEdge (memory : MemArray) (memWrite : Bool) (address writeData : Word) : MemArray :=
  if memWrite then memory.set address writeData else memory

def registerFileRead (registers : RegArray) (we : Bool) (rs rd : RegIdx) (writeData : Word) : Word :=
  if rs = 0#5 then 0#32
  else if we ∧ rd = rs ∧ rd ≠ 0#5 then writeData
  else registers rs

def registerFileEdge (registers : RegArray) (reset we : Bool) (rd : RegIdx) (writeData : Word) : RegArray :=
  if reset then fun _ => 0#32
  else if we ∧ rd ≠ 0#5 then Function.update registers rd writeData
  else registers

def programCounter (pc : Word) (reset : Bool) (nextPc : Word) (pcWrite : Bool) : Word :=
  if reset then 0#32 else if pcWrite then nextPc else pc

end RiscV
