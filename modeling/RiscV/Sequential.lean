import Mathlib.Logic.Function.Iterate
import RiscV.Stages

/-!
# The sequential machine

One whole instruction per step, through the design's own decoder, execute stage
without forwarding, memory and write-back. Both source registers are read from
the register array before the instruction writes it.
-/

namespace RiscV

structure ArchState where
  pc : Word
  registers : RegArray
  memory : MemArray

def readArray (registers : RegArray) (rs : RegIdx) : Word := if rs = 0#5 then 0#32 else registers rs

namespace ArchState

def initial (memory : MemArray) : ArchState where
  pc := 0#32
  registers _ := 0#32
  memory := memory

variable (imem : InstrArray) (undef : Word → Word) (σ : ArchState)

def instruction : Word := instructionMemory imem σ.pc

def control : ControlSignals := controlUnit (opcodeOf (σ.instruction imem))

def exPorts : ExStageIn where
  readData1 := readArray σ.registers (rs1Of (σ.instruction imem))
  readData2 := readArray σ.registers (rs2Of (σ.instruction imem))
  immediate := immediateGenerator (σ.instruction imem)
  pc := σ.pc
  funct3 := funct3Of (σ.instruction imem)
  funct7 := funct7Of (σ.instruction imem)
  aluSrc := (σ.control imem).aluSrc
  aluOp := (σ.control imem).aluOp
  op1Sel := (σ.control imem).op1Sel
  jalr := (σ.control imem).jalr
  forwardA := 0b00#2
  forwardB := 0b00#2
  exMemAluResult := 0#32
  wbWriteBackData := 0#32

def ex : ExStageOut := exStage (σ.exPorts imem)

/-- JAL, JALR or a taken branch. -/
def redirects : Bool := ((σ.control imem).branch && (σ.ex imem).branchTaken) || (σ.control imem).jump

def memReadData : Word := memStage undef σ.memory (σ.control imem).memRead (σ.ex imem).aluResult

def writeBackData : Word :=
  wbStage (σ.memReadData imem undef) (σ.ex imem).aluResult (σ.ex imem).pcPlus4 (σ.control imem).memtoReg
    (σ.control imem).jump

def step : ArchState where
  pc := if σ.redirects imem then (σ.ex imem).branchTarget else σ.pc + 4#32
  registers :=
    registerFileEdge σ.registers false (σ.control imem).regWrite (rdOf (σ.instruction imem))
      (σ.writeBackData imem undef)
  memory :=
    memStageEdge σ.memory (σ.control imem).memWrite (σ.ex imem).aluResult (σ.ex imem).storeData

end ArchState

section
variable (imem : InstrArray) (undef : Word → Word) (dmem : MemArray)

def sequentialAt (k : Nat) : ArchState := (ArchState.step imem undef)^[k] (.initial dmem)

theorem sequentialAt_succ (k : Nat) :
    sequentialAt imem undef dmem (k + 1) = (sequentialAt imem undef dmem k).step imem undef :=
  Function.iterate_succ_apply' _ k _

variable {imem undef dmem} in
theorem sequentialAt_parked {k : Nat}
    (hpark : (sequentialAt imem undef dmem k).step imem undef = sequentialAt imem undef dmem k) (i : Nat) :
    sequentialAt imem undef dmem (k + i) = sequentialAt imem undef dmem k := by
  induction i with
  | zero => rfl
  | succ i ih => rw [← Nat.add_assoc, sequentialAt_succ, ih, hpark]

end

end RiscV
