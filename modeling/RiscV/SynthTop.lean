import RiscV.Commits

/-!
# The synthesis top

`synthesis/cpu_pipeline_synth_top.v` writes the wiring of `cpu_pipeline` out a
second time and adds debug ports. Its wires are translated on their own here,
in the same form, and the two circuits turn out to be one.
-/

namespace RiscV

open Clocked InOrder WriteLog

namespace SynthTop

section
variable (imem : InstrArray) (undef : Word → Word) (s : PipelineState)

/-! ## Wires -/

def wbWriteBackData : Word :=
  wbStage s.memWb.readData s.memWb.aluResult s.memWb.pcPlus4 s.memWb.memtoReg s.memWb.jump

def forwarding : ForwardingOut :=
  forwardingUnit
    { idExRs1 := s.idEx.rs1
      idExRs2 := s.idEx.rs2
      exMemRd := s.exMem.rd
      exMemRegwrite := s.exMem.regWrite
      memWbRd := s.memWb.rd
      memWbRegwrite := s.memWb.regWrite }

def ex : ExStageOut :=
  exStage
    { readData1 := s.idEx.readData1
      readData2 := s.idEx.readData2
      immediate := s.idEx.immediate
      pc := s.idEx.pc
      funct3 := s.idEx.funct3
      funct7 := s.idEx.funct7
      aluSrc := s.idEx.aluSrc
      aluOp := s.idEx.aluOp
      op1Sel := s.idEx.op1Sel
      jalr := s.idEx.jalr
      forwardA := (forwarding s).forwardA
      forwardB := (forwarding s).forwardB
      exMemAluResult := s.exMem.aluResult
      wbWriteBackData := wbWriteBackData s }

def pipelineFlush : Bool := (s.idEx.branch && (ex s).branchTaken) || s.idEx.jump

def ifIdRs1 : RegIdx := s.ifId.instruction.extractLsb 19 15
def ifIdRs2 : RegIdx := s.ifId.instruction.extractLsb 24 20

def hazardStall : Bool := hazardDetectionUnit s.idEx.memRead s.idEx.rd (ifIdRs1 s) (ifIdRs2 s)

def ifPcPlus4 : Word := s.pc + 4#32
def pcWrite : Bool := !hazardStall s
def nextPc : Word := if pipelineFlush s then (ex s).branchTarget else ifPcPlus4 s

def instruction : Word := instructionMemory imem s.pc

def idPorts : IdStageIn where
  instruction := s.ifId.instruction
  writeData := wbWriteBackData s
  writeReg := s.memWb.rd
  regWrite := s.memWb.regWrite

def id : IdStageOut := idStage s.registers (idPorts s)

def memReadData : Word := memStage undef s.memory s.exMem.memRead s.exMem.aluResult

/-! ## Registers -/

def pcReg (reset : Bool) : Word := programCounter s.pc reset (nextPc s) (pcWrite s)

def ifIdReg (reset : Bool) : IfId :=
  ifIdRegister s.ifId reset (hazardStall s) (pipelineFlush s)
    { pc := s.pc
      instruction := instruction imem s }

def idExReg (reset : Bool) : IdEx :=
  idExRegister reset (pipelineFlush s || hazardStall s)
    { pc := s.ifId.pc
      readData1 := (id s).readData1
      readData2 := (id s).readData2
      immediate := (id s).immediate
      rs1 := (id s).rs1
      rs2 := (id s).rs2
      rd := (id s).rd
      funct3 := (id s).funct3
      funct7 := (id s).funct7
      regWrite := (id s).control.regWrite
      aluSrc := (id s).control.aluSrc
      memRead := (id s).control.memRead
      memWrite := (id s).control.memWrite
      memtoReg := (id s).control.memtoReg
      branch := (id s).control.branch
      jump := (id s).control.jump
      jalr := (id s).control.jalr
      aluOp := (id s).control.aluOp
      op1Sel := (id s).control.op1Sel }

def exMemReg (reset : Bool) : ExMem :=
  exMemRegister reset
    { aluResult := (ex s).aluResult
      writeData := (ex s).storeData
      rd := s.idEx.rd
      branchTarget := (ex s).branchTarget
      branchTaken := (ex s).branchTaken
      pcPlus4 := (ex s).pcPlus4
      regWrite := s.idEx.regWrite
      memRead := s.idEx.memRead
      memWrite := s.idEx.memWrite
      memtoReg := s.idEx.memtoReg
      branch := s.idEx.branch
      jump := s.idEx.jump }

def memWbReg (reset : Bool) : MemWb :=
  memWbRegister reset
    { readData := memReadData undef s
      aluResult := s.exMem.aluResult
      pcPlus4 := s.exMem.pcPlus4
      rd := s.exMem.rd
      regWrite := s.exMem.regWrite
      memtoReg := s.exMem.memtoReg
      jump := s.exMem.jump }

def clockEdge (reset : Bool) : PipelineState where
  pc := pcReg s reset
  ifId := ifIdReg imem s reset
  idEx := idExReg s reset
  exMem := exMemReg s reset
  memWb := memWbReg undef s reset
  registers := idStageEdge s.registers reset (idPorts s)
  memory := memStageEdge s.memory s.exMem.memWrite s.exMem.aluResult s.exMem.writeData

def resetEdge : PipelineState where
  pc := pcReg s true
  ifId := ifIdReg imem s true
  idEx := idExReg s true
  exMem := exMemReg s true
  memWb := memWbReg undef s true
  registers := idStageEdge s.registers true (idPorts s)
  memory := s.memory

/-! ## Debug ports -/

structure DbgPorts where
  pc : Word
  wbData : Word
  wbRd : RegIdx
  wbRegwrite : Bool

def dbg : DbgPorts where
  pc := s.pc
  wbData := wbWriteBackData s
  wbRd := s.memWb.rd
  wbRegwrite := s.memWb.regWrite

theorem clockEdge_eq (reset : Bool) : clockEdge imem undef s reset = s.clockEdge imem undef reset := rfl

theorem resetEdge_eq : resetEdge imem undef s = s.resetEdge imem undef := rfl

end

def circuit (imem : InstrArray) (undef : Word → Word) : Circuit PipelineState where
  edge reset s := clockEdge imem undef s reset
  clear s := resetEdge imem undef s

theorem circuit_eq (imem : InstrArray) (undef : Word → Word) : circuit imem undef = cpuPipeline imem undef := by
  simp only [circuit, cpuPipeline, clockEdge_eq, resetEdge_eq]

section
variable (imem : InstrArray) (undef : Word → Word) (dmem : MemArray)

def stateAt (n : Nat) : PipelineState := (circuit imem undef).cycles n (.cleared dmem)

theorem stateAt_eq (n : Nat) : stateAt imem undef dmem n = pipelineAt imem undef dmem n := by
  rw [stateAt, circuit_eq, pipelineAt]

/-- What the debug ports show in cycle `n`, with writes to `x0` left out. -/
def dbgWrite (n : Nat) : List (RegIdx × Word) :=
  let ports := dbg (stateAt imem undef dmem n)
  if ports.wbRegwrite ∧ ports.wbRd ≠ 0#5 then [(ports.wbRd, ports.wbData)] else []

def dbgStream (n : Nat) : List (RegIdx × Word) := collect (dbgWrite imem undef dmem) (n + 1)

theorem dbgWrite_eq (n : Nat) : dbgWrite imem undef dmem n = (pipelineCommit imem undef dmem n).registerWrite := by
  unfold dbgWrite
  rw [stateAt_eq]
  rfl

/-- One debug write for every register write of the sequential run, in program
order. -/
theorem dbgStream_eq (n : Nat) :
    dbgStream imem undef dmem n =
      collect (fun k => (sequentialCommit imem undef dmem k).registerWrite) (retiredAt imem undef dmem (n + 1)) := by
  rw [← registerWrites_eq, dbgStream, funext (dbgWrite_eq imem undef dmem)]

theorem replay_dbgStream (n : Nat) :
    replay (dbgStream imem undef dmem n) (fun _ => 0#32) = (stateAt imem undef dmem (n + 1)).registers := by
  rw [dbgStream_eq, ← sequentialAt_registers_eq_replay, stateAt_eq, pipelineAt_registers]

theorem retiredAt_succ_surjective : Function.Surjective fun n => retiredAt imem undef dmem (n + 1) := by
  intro k
  obtain ⟨n, hn⟩ := retiredAt_surjective imem undef dmem k
  cases n with
  | zero => exact ⟨0, hn⟩
  | succ n => exact ⟨n, hn⟩

end

end SynthTop

section
variable (imem : InstrArray) (undef : Word → Word) (dmem : MemArray)

/-- **The debug stream of the synthesis top.** Its states are those of
`cpu_pipeline`; the stream lists the register writes of the first `k n`
instructions, no write left out in the long run; and replayed it gives the
register array after the next edge. -/
theorem synthTop_reports_writes :
    (∀ n, SynthTop.stateAt imem undef dmem n = pipelineAt imem undef dmem n) ∧
    (∃ k : Nat → Nat, Monotone k ∧ Function.Surjective k ∧
      ∀ n, SynthTop.dbgStream imem undef dmem n =
        collect (fun j => (sequentialCommit imem undef dmem j).registerWrite) (k n)) ∧
    ∀ n, replay (SynthTop.dbgStream imem undef dmem n) (fun _ => 0#32) =
      (SynthTop.stateAt imem undef dmem (n + 1)).registers := by
  refine ⟨SynthTop.stateAt_eq imem undef dmem, ⟨fun n => retiredAt imem undef dmem (n + 1), ?_, ?_, ?_⟩,
    SynthTop.replay_dbgStream imem undef dmem⟩
  · exact fun m n h => retiredAt_mono imem undef dmem (Nat.succ_le_succ h)
  · exact SynthTop.retiredAt_succ_surjective imem undef dmem
  · exact SynthTop.dbgStream_eq imem undef dmem

end

end RiscV
