import RiscV.Rv32iSound
import RiscV.StageLemmas
import RiscV.Lib.Feedback

/-!
# `cpu`

The single-cycle implementation, read as its wire equations. Its registers are
those of the sequential machine; what a cycle does is read off an assignment of
the wires that satisfies every `assign` and every instance. The register file's
bypass puts `write_back_data` on the read ports in the same cycle, so that the
equations may be cyclic.
-/

namespace RiscV

open Feedback

structure CpuWires where
  nextPc : Word
  pcPlus4 : Word
  branchTarget : Word
  instruction : Word
  readData1 : Word
  readData2 : Word
  immediate : Word
  aluResult : Word
  zero : Bool
  memoryData : Word
  writeBackData : Word
  branchTaken : Bool
  control : ControlSignals
  aluCtrl : BitVec 4
  aluInputA : Word
  aluInputB : Word

section
variable (imem : InstrArray) (undef : Word → Word) (σ : ArchState)

/-- The wire equations in the state `σ`, in the order of the source. -/
structure CpuWires.Satisfies (w : CpuWires) : Prop where
  aluInputA : w.aluInputA =
    if w.control.op1Sel = 0b01#2 then σ.pc else if w.control.op1Sel = 0b10#2 then 0#32 else w.readData1
  aluInputB : w.aluInputB = if w.control.aluSrc then w.immediate else w.readData2
  writeBackData : w.writeBackData =
    if w.control.jump then w.pcPlus4 else if w.control.memtoReg then w.memoryData else w.aluResult
  pcPlus4 : w.pcPlus4 = σ.pc + 4#32
  branchTarget : w.branchTarget =
    if w.control.jalr then (w.aluInputA + w.immediate) &&& ~~~1#32 else σ.pc + w.immediate
  nextPc : w.nextPc =
    if w.control.jump then w.branchTarget
    else if w.control.branch && w.branchTaken then w.branchTarget
    else w.pcPlus4
  instruction : w.instruction = instructionMemory imem σ.pc
  control : w.control = controlUnit (w.instruction.extractLsb 6 0)
  immediate : w.immediate = immediateGenerator w.instruction
  readData1 : w.readData1 =
    registerFileRead σ.registers w.control.regWrite (w.instruction.extractLsb 19 15) (w.instruction.extractLsb 11 7)
      w.writeBackData
  readData2 : w.readData2 =
    registerFileRead σ.registers w.control.regWrite (w.instruction.extractLsb 24 20) (w.instruction.extractLsb 11 7)
      w.writeBackData
  aluCtrl : w.aluCtrl =
    aluControl w.control.aluOp (w.instruction.extractLsb 14 12) (w.instruction.extractLsb 31 25) w.control.aluSrc
  aluUnit : ⟨w.aluResult, w.zero⟩ = alu w.aluInputA w.aluInputB w.aluCtrl
  memoryData : w.memoryData = dataMemoryRead undef σ.memory w.control.memRead w.aluResult
  branchTaken : w.branchTaken = branchComparator w.readData1 w.readData2 (w.instruction.extractLsb 14 12)

def CpuWires.clockEdge (w : CpuWires) (reset : Bool) : ArchState where
  pc := programCounter σ.pc reset w.nextPc true
  registers :=
    registerFileEdge σ.registers reset w.control.regWrite (w.instruction.extractLsb 11 7) w.writeBackData
  memory := dataMemoryEdge σ.memory w.control.memWrite w.aluResult w.readData2

end

/-! ## Cutting the cycle

All wires follow from `write_back_data`, which drives itself through
`Cpu.feedback`. -/

namespace Cpu

section
variable (imem : InstrArray) (undef : Word → Word) (σ : ArchState) (v : Word)

def readData1 : Word :=
  registerFileRead σ.registers (σ.control imem).regWrite (rs1Of (σ.instruction imem)) (rdOf (σ.instruction imem)) v

def readData2 : Word :=
  registerFileRead σ.registers (σ.control imem).regWrite (rs2Of (σ.instruction imem)) (rdOf (σ.instruction imem)) v

def aluInputA : Word :=
  if (σ.control imem).op1Sel = 0b01#2 then σ.pc
  else if (σ.control imem).op1Sel = 0b10#2 then 0#32
  else readData1 imem σ v

def aluInputB : Word :=
  if (σ.control imem).aluSrc then immediateGenerator (σ.instruction imem) else readData2 imem σ v

def aluCtrl : BitVec 4 :=
  aluControl (σ.control imem).aluOp (funct3Of (σ.instruction imem)) (funct7Of (σ.instruction imem))
    (σ.control imem).aluSrc

def aluOut : AluOut := alu (aluInputA imem σ v) (aluInputB imem σ v) (aluCtrl imem σ)

def memoryData : Word := dataMemoryRead undef σ.memory (σ.control imem).memRead (aluOut imem σ v).result

/-- What `write_back_data` is driven with while it carries `v`. -/
def feedback : Word :=
  if (σ.control imem).jump then σ.pc + 4#32
  else if (σ.control imem).memtoReg then memoryData imem undef σ v
  else (aluOut imem σ v).result

def branchTaken : Bool := branchComparator (readData1 imem σ v) (readData2 imem σ v) (funct3Of (σ.instruction imem))

def branchTarget : Word :=
  if (σ.control imem).jalr then (aluInputA imem σ v + immediateGenerator (σ.instruction imem)) &&& ~~~1#32
  else σ.pc + immediateGenerator (σ.instruction imem)

def wires : CpuWires where
  nextPc :=
    if (σ.control imem).jump then branchTarget imem σ v
    else if (σ.control imem).branch && branchTaken imem σ v then branchTarget imem σ v
    else σ.pc + 4#32
  pcPlus4 := σ.pc + 4#32
  branchTarget := branchTarget imem σ v
  instruction := σ.instruction imem
  readData1 := readData1 imem σ v
  readData2 := readData2 imem σ v
  immediate := immediateGenerator (σ.instruction imem)
  aluResult := (aluOut imem σ v).result
  zero := (aluOut imem σ v).zero
  memoryData := memoryData imem undef σ v
  writeBackData := v
  branchTaken := branchTaken imem σ v
  control := σ.control imem
  aluCtrl := aluCtrl imem σ
  aluInputA := aluInputA imem σ v
  aluInputB := aluInputB imem σ v

end

section
variable {imem : InstrArray} {undef : Word → Word} {σ : ArchState}

theorem wires_satisfies {v : Word} (hv : feedback imem undef σ v = v) :
    (wires imem undef σ v).Satisfies imem undef σ where
  aluInputA := rfl
  aluInputB := rfl
  writeBackData := hv.symm
  pcPlus4 := rfl
  branchTarget := rfl
  nextPc := rfl
  instruction := rfl
  control := rfl
  immediate := rfl
  readData1 := rfl
  readData2 := rfl
  aluCtrl := rfl
  aluUnit := rfl
  memoryData := rfl
  branchTaken := rfl

theorem eq_wires {w : CpuWires} (h : w.Satisfies imem undef σ) : w = wires imem undef σ w.writeBackData := by
  obtain ⟨nextPc, pcPlus4, branchTarget, instruction, readData1, readData2, immediate, aluResult, zero, memoryData,
    writeBackData, branchTaken, control, aluCtrl, aluInputA, aluInputB⟩ := w
  obtain ⟨ha, hb, -, hpc4, htarget, hnext, hinstr, hcontrol, himm, hrd1, hrd2, hctrl, halu, hmem, htaken⟩ := h
  simp only at ha hb hpc4 htarget hnext hinstr hcontrol himm hrd1 hrd2 hctrl halu hmem htaken
  subst hinstr hcontrol himm hpc4 hrd1 hrd2 hctrl ha hb
  obtain ⟨rfl, rfl⟩ := AluOut.mk.inj halu
  subst hmem htaken htarget hnext
  rfl

theorem satisfies_iff (w : CpuWires) :
    w.Satisfies imem undef σ ↔
      w = wires imem undef σ w.writeBackData ∧ feedback imem undef σ w.writeBackData = w.writeBackData := by
  constructor
  · intro h
    have hw := eq_wires h
    refine ⟨hw, ?_⟩
    have hb := h.writeBackData
    rw [hw] at hb
    exact hb.symm
  · rintro ⟨hw, hv⟩
    rw [hw]
    exact wires_satisfies hv

variable (imem undef σ) in
theorem existsUnique_satisfies_iff : (∃! w, CpuWires.Satisfies imem undef σ w) ↔ Settles (feedback imem undef σ) :=
  existsUnique_iff_settles (fun _ => rfl) satisfies_iff

end

end Cpu

end RiscV
