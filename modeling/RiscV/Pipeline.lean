import RiscV.Stages
import RiscV.Lib.Clocked

/-!
# `cpu_pipeline`

The state holds every register of the design: the program counter, the four
pipeline registers, and the arrays inside `register_file` and `data_memory`.
Each wire is a function of the state; the instances follow the source's order.
-/

namespace RiscV

open Clocked

@[ext]
structure PipelineState where
  pc : Word
  ifId : IfId
  idEx : IdEx
  exMem : ExMem
  memWb : MemWb
  registers : RegArray
  memory : MemArray

namespace PipelineState

/-- Everything with a reset input is cleared; the data memory has none. -/
def cleared (memory : MemArray) : PipelineState where
  pc := 0#32
  ifId := .clear
  idEx := .clear
  exMem := .clear
  memWb := .clear
  registers _ := 0#32
  memory := memory

variable (imem : InstrArray) (undef : Word → Word) (s : PipelineState)

/-! ## Wires -/

def wbWriteBackData : Word :=
  wbStage s.memWb.readData s.memWb.aluResult s.memWb.pcPlus4 s.memWb.memtoReg s.memWb.jump

def memReadData : Word := memStage undef s.memory s.exMem.memRead s.exMem.aluResult

def forwarding : ForwardingOut :=
  forwardingUnit
    { idExRs1 := s.idEx.rs1
      idExRs2 := s.idEx.rs2
      exMemRd := s.exMem.rd
      exMemRegwrite := s.exMem.regWrite
      memWbRd := s.memWb.rd
      memWbRegwrite := s.memWb.regWrite }

def exPorts : ExStageIn where
  readData1 := s.idEx.readData1
  readData2 := s.idEx.readData2
  immediate := s.idEx.immediate
  pc := s.idEx.pc
  funct3 := s.idEx.funct3
  funct7 := s.idEx.funct7
  aluSrc := s.idEx.aluSrc
  aluOp := s.idEx.aluOp
  op1Sel := s.idEx.op1Sel
  jalr := s.idEx.jalr
  forwardA := s.forwarding.forwardA
  forwardB := s.forwarding.forwardB
  exMemAluResult := s.exMem.aluResult
  wbWriteBackData := s.wbWriteBackData

def ex : ExStageOut := exStage s.exPorts

def pipelineFlush : Bool := (s.idEx.branch && s.ex.branchTaken) || s.idEx.jump

def ifIdRs1 : RegIdx := s.ifId.instruction.extractLsb 19 15
def ifIdRs2 : RegIdx := s.ifId.instruction.extractLsb 24 20

def hazardStall : Bool := hazardDetectionUnit s.idEx.memRead s.idEx.rd s.ifIdRs1 s.ifIdRs2

def idPorts : IdStageIn where
  instruction := s.ifId.instruction
  writeData := s.wbWriteBackData
  writeReg := s.memWb.rd
  regWrite := s.memWb.regWrite

def id : IdStageOut := idStage s.registers s.idPorts

def ifPcPlus4 : Word := s.pc + 4#32
def pcWrite : Bool := !s.hazardStall
def nextPc : Word := if s.pipelineFlush then s.ex.branchTarget else s.ifPcPlus4

def instruction : Word := instructionMemory imem s.pc

/-! ## Data inputs of the pipeline registers -/

def ifIdIn : IfId where
  pc := s.pc
  instruction := s.instruction imem

def idExIn : IdEx where
  pc := s.ifId.pc
  readData1 := s.id.readData1
  readData2 := s.id.readData2
  immediate := s.id.immediate
  rs1 := s.id.rs1
  rs2 := s.id.rs2
  rd := s.id.rd
  funct3 := s.id.funct3
  funct7 := s.id.funct7
  regWrite := s.id.control.regWrite
  aluSrc := s.id.control.aluSrc
  memRead := s.id.control.memRead
  memWrite := s.id.control.memWrite
  memtoReg := s.id.control.memtoReg
  branch := s.id.control.branch
  jump := s.id.control.jump
  jalr := s.id.control.jalr
  aluOp := s.id.control.aluOp
  op1Sel := s.id.control.op1Sel

def exMemIn : ExMem where
  aluResult := s.ex.aluResult
  writeData := s.ex.storeData
  rd := s.idEx.rd
  branchTarget := s.ex.branchTarget
  branchTaken := s.ex.branchTaken
  pcPlus4 := s.ex.pcPlus4
  regWrite := s.idEx.regWrite
  memRead := s.idEx.memRead
  memWrite := s.idEx.memWrite
  memtoReg := s.idEx.memtoReg
  branch := s.idEx.branch
  jump := s.idEx.jump

def memWbIn : MemWb where
  readData := s.memReadData undef
  aluResult := s.exMem.aluResult
  pcPlus4 := s.exMem.pcPlus4
  rd := s.exMem.rd
  regWrite := s.exMem.regWrite
  memtoReg := s.exMem.memtoReg
  jump := s.exMem.jump

/-! ## Events -/

def clockEdge (reset : Bool) : PipelineState where
  pc := programCounter s.pc reset s.nextPc s.pcWrite
  ifId := ifIdRegister s.ifId reset s.hazardStall s.pipelineFlush (s.ifIdIn imem)
  idEx := idExRegister reset (s.pipelineFlush || s.hazardStall) s.idExIn
  exMem := exMemRegister reset s.exMemIn
  memWb := memWbRegister reset (s.memWbIn undef)
  registers := idStageEdge s.registers reset s.idPorts
  memory := memStageEdge s.memory s.exMem.memWrite s.exMem.aluResult s.exMem.writeData

/-- `posedge reset`: the blocks sensitive to it run with reset high. -/
def resetEdge : PipelineState where
  pc := programCounter s.pc true s.nextPc s.pcWrite
  ifId := ifIdRegister s.ifId true s.hazardStall s.pipelineFlush (s.ifIdIn imem)
  idEx := idExRegister true (s.pipelineFlush || s.hazardStall) s.idExIn
  exMem := exMemRegister true s.exMemIn
  memWb := memWbRegister true (s.memWbIn undef)
  registers := idStageEdge s.registers true s.idPorts
  memory := s.memory

theorem resetEdge_eq : s.resetEdge imem undef = cleared s.memory := rfl

end PipelineState

def cpuPipeline (imem : InstrArray) (undef : Word → Word) : Circuit PipelineState where
  edge reset s := s.clockEdge imem undef reset
  clear s := s.resetEdge imem undef

/-- The pipeline `n` clock edges after the release of a reset that left `dmem`
in the data memory. -/
def pipelineAt (imem : InstrArray) (undef : Word → Word) (dmem : MemArray) (n : Nat) : PipelineState :=
  (cpuPipeline imem undef).cycles n (.cleared dmem)

theorem pipelineAt_succ (imem : InstrArray) (undef : Word → Word) (dmem : MemArray) (n : Nat) :
    pipelineAt imem undef dmem (n + 1) = (pipelineAt imem undef dmem n).clockEdge imem undef false :=
  Circuit.cycles_succ _ n _

end RiscV
