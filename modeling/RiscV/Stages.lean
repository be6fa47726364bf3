import RiscV.Datapath

/-!
# Pipeline stages and pipeline registers

Modules with many ports take one structure whose fields are the ports, so that
an instance reads like its port list in the source. A pipeline register holds
the structure of its outputs; its data inputs form the same structure.
-/

namespace RiscV

/-! ## `id_stage` -/

structure IdStageIn where
  instruction : Word
  writeData : Word
  writeReg : RegIdx
  regWrite : Bool

structure IdStageOut where
  readData1 : Word
  readData2 : Word
  immediate : Word
  rs1 : RegIdx
  rs2 : RegIdx
  rd : RegIdx
  funct3 : BitVec 3
  funct7 : BitVec 7
  control : ControlSignals

/-- The combinational part of `id_stage`; `registers` is the array inside its
register file. -/
def idStage (registers : RegArray) (i : IdStageIn) : IdStageOut where
  readData1 := registerFileRead registers i.regWrite (rs1Of i.instruction) i.writeReg i.writeData
  readData2 := registerFileRead registers i.regWrite (rs2Of i.instruction) i.writeReg i.writeData
  immediate := immediateGenerator i.instruction
  rs1 := rs1Of i.instruction
  rs2 := rs2Of i.instruction
  rd := rdOf i.instruction
  funct3 := funct3Of i.instruction
  funct7 := funct7Of i.instruction
  control := controlUnit (opcodeOf i.instruction)

def idStageEdge (registers : RegArray) (reset : Bool) (i : IdStageIn) : RegArray :=
  registerFileEdge registers reset i.regWrite i.writeReg i.writeData

/-! ## `ex_stage` -/

structure ExStageIn where
  readData1 : Word
  readData2 : Word
  immediate : Word
  pc : Word
  funct3 : BitVec 3
  funct7 : BitVec 7
  aluSrc : Bool
  aluOp : BitVec 2
  op1Sel : BitVec 2
  jalr : Bool
  forwardA : BitVec 2
  forwardB : BitVec 2
  exMemAluResult : Word
  wbWriteBackData : Word

structure ExStageOut where
  aluResult : Word
  zero : Bool
  branchTaken : Bool
  branchTarget : Word
  storeData : Word
  pcPlus4 : Word

namespace ExStageIn

variable (i : ExStageIn)

def operand1Fwd : Word :=
  if i.forwardA = 0b10#2 then i.exMemAluResult
  else if i.forwardA = 0b01#2 then i.wbWriteBackData
  else i.readData1

def operand1 : Word :=
  if i.op1Sel = 0b01#2 then i.pc
  else if i.op1Sel = 0b10#2 then 0#32
  else i.operand1Fwd

def operand2Base : Word :=
  if i.forwardB = 0b10#2 then i.exMemAluResult
  else if i.forwardB = 0b01#2 then i.wbWriteBackData
  else i.readData2

def operand2 : Word := if i.aluSrc then i.immediate else i.operand2Base

end ExStageIn

def exStage (i : ExStageIn) : ExStageOut :=
  let aluCtrl := aluControl i.aluOp i.funct3 i.funct7 i.aluSrc
  let aluUnit := alu i.operand1 i.operand2 aluCtrl
  { aluResult := aluUnit.result
    zero := aluUnit.zero
    branchTaken := branchComparator i.operand1 i.operand2Base i.funct3
    branchTarget := if i.jalr then (i.operand1 + i.immediate) &&& ~~~1#32 else i.pc + i.immediate
    storeData := i.operand2Base
    pcPlus4 := i.pc + 4#32 }

/-! ## `mem_stage`, `wb_stage` -/

def memStage (undef : Word → Word) (memory : MemArray) (memRead : Bool) (address : Word) : Word :=
  dataMemoryRead undef memory memRead address

def memStageEdge (memory : MemArray) (memWrite : Bool) (address writeData : Word) : MemArray :=
  dataMemoryEdge memory memWrite address writeData

def wbStage (readData aluResult pcPlus4 : Word) (memtoReg jump : Bool) : Word :=
  if jump then pcPlus4 else if memtoReg then readData else aluResult

/-! ## `forwarding_unit`, `hazard_detection_unit` -/

structure ForwardingIn where
  idExRs1 : RegIdx
  idExRs2 : RegIdx
  exMemRd : RegIdx
  exMemRegwrite : Bool
  memWbRd : RegIdx
  memWbRegwrite : Bool

def ForwardingIn.select (i : ForwardingIn) (rs : RegIdx) : BitVec 2 :=
  if i.exMemRegwrite ∧ i.exMemRd ≠ 0#5 ∧ i.exMemRd = rs then 0b10#2
  else if i.memWbRegwrite ∧ i.memWbRd ≠ 0#5 ∧ i.memWbRd = rs then 0b01#2
  else 0b00#2

structure ForwardingOut where
  forwardA : BitVec 2
  forwardB : BitVec 2

def forwardingUnit (i : ForwardingIn) : ForwardingOut where
  forwardA := i.select i.idExRs1
  forwardB := i.select i.idExRs2

def hazardDetectionUnit (idExMemread : Bool) (idExRd ifIdRs1 ifIdRs2 : RegIdx) : Bool :=
  if idExMemread ∧ idExRd ≠ 0#5 ∧ (idExRd = ifIdRs1 ∨ idExRd = ifIdRs2) then true else false

/-! ## Pipeline registers -/

structure IfId where
  pc : Word
  instruction : Word

def IfId.clear : IfId := ⟨0#32, 0#32⟩

def ifIdRegister (q : IfId) (reset stall flush : Bool) (d : IfId) : IfId :=
  if reset then .clear else if flush then .clear else if !stall then d else q

structure IdEx where
  pc : Word
  readData1 : Word
  readData2 : Word
  immediate : Word
  rs1 : RegIdx
  rs2 : RegIdx
  rd : RegIdx
  funct3 : BitVec 3
  funct7 : BitVec 7
  regWrite : Bool
  aluSrc : Bool
  memRead : Bool
  memWrite : Bool
  memtoReg : Bool
  branch : Bool
  jump : Bool
  jalr : Bool
  aluOp : BitVec 2
  op1Sel : BitVec 2

def IdEx.clear : IdEx where
  pc := 0#32
  readData1 := 0#32
  readData2 := 0#32
  immediate := 0#32
  rs1 := 0#5
  rs2 := 0#5
  rd := 0#5
  funct3 := 0#3
  funct7 := 0#7
  regWrite := false
  aluSrc := false
  memRead := false
  memWrite := false
  memtoReg := false
  branch := false
  jump := false
  jalr := false
  aluOp := 0#2
  op1Sel := 0#2

def idExRegister (reset flush : Bool) (d : IdEx) : IdEx :=
  if reset then .clear else if flush then .clear else d

structure ExMem where
  aluResult : Word
  writeData : Word
  rd : RegIdx
  branchTarget : Word
  branchTaken : Bool
  pcPlus4 : Word
  regWrite : Bool
  memRead : Bool
  memWrite : Bool
  memtoReg : Bool
  branch : Bool
  jump : Bool

def ExMem.clear : ExMem where
  aluResult := 0#32
  writeData := 0#32
  rd := 0#5
  branchTarget := 0#32
  branchTaken := false
  pcPlus4 := 0#32
  regWrite := false
  memRead := false
  memWrite := false
  memtoReg := false
  branch := false
  jump := false

def exMemRegister (reset : Bool) (d : ExMem) : ExMem := if reset then .clear else d

structure MemWb where
  readData : Word
  aluResult : Word
  pcPlus4 : Word
  rd : RegIdx
  regWrite : Bool
  memtoReg : Bool
  jump : Bool

def MemWb.clear : MemWb where
  readData := 0#32
  aluResult := 0#32
  pcPlus4 := 0#32
  rd := 0#5
  regWrite := false
  memtoReg := false
  jump := false

def memWbRegister (reset : Bool) (d : MemWb) : MemWb := if reset then .clear else d

end RiscV
