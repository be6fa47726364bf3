import RiscV.Sequential

/-!
# Facts about single modules

What later proofs use of the register file, the control unit, the execute stage
and the pipeline registers, so that they need not unfold them.
-/

namespace RiscV

/-! ## The register file -/

@[simp] theorem readArray_zero (registers : RegArray) : readArray registers 0#5 = 0#32 := by simp [readArray]

theorem registerFileEdge_of_not_we (registers : RegArray) (rd : RegIdx) (writeData : Word) :
    registerFileEdge registers false false rd writeData = registers := by
  simp [registerFileEdge]

theorem readArray_edge (registers : RegArray) (we : Bool) (rd rs : RegIdx) (writeData : Word) :
    readArray (registerFileEdge registers false we rd writeData) rs =
      if we ∧ rd ≠ 0#5 ∧ rd = rs then writeData else readArray registers rs := by
  unfold readArray registerFileEdge
  by_cases hs : rs = 0#5
  · subst hs; simp
  · by_cases hw : we ∧ rd ≠ 0#5
    · by_cases hr : rd = rs
      · subst hr; simp [hw]
      · simp [hw, hr, Function.update_of_ne (Ne.symm hr)]
    · have : ¬ (we = true ∧ rd ≠ 0#5 ∧ rd = rs) := fun h => hw ⟨h.1, h.2.1⟩
      simp [hw, this]

/-- The write-first bypass reads the array as it will be after the edge. -/
theorem registerFileRead_eq (registers : RegArray) (we : Bool) (rs rd : RegIdx) (writeData : Word) :
    registerFileRead registers we rs rd writeData =
      readArray (registerFileEdge registers false we rd writeData) rs := by
  rw [readArray_edge]
  unfold registerFileRead readArray
  by_cases hs : rs = 0#5
  · subst hs; simp
  · simp only [hs, ite_false]
    congr 1
    simp only [and_comm]

/-! ## The control unit -/

theorem controlUnit_memRead (opcode : BitVec 7) : (controlUnit opcode).memRead = (opcode == 0b0000011#7) := by
  unfold controlUnit; split <;> simp_all [ControlSignals.defaults]

theorem controlUnit_memWrite (opcode : BitVec 7) : (controlUnit opcode).memWrite = (opcode == 0b0100011#7) := by
  unfold controlUnit; split <;> simp_all [ControlSignals.defaults]

theorem controlUnit_memtoReg (opcode : BitVec 7) : (controlUnit opcode).memtoReg = (controlUnit opcode).memRead := by
  unfold controlUnit; split <;> rfl

theorem controlUnit_branch (opcode : BitVec 7) : (controlUnit opcode).branch = (opcode == 0b1100011#7) := by
  unfold controlUnit; split <;> simp_all [ControlSignals.defaults]

theorem controlUnit_jump (opcode : BitVec 7) :
    (controlUnit opcode).jump = (opcode == 0b1101111#7 || opcode == 0b1100111#7) := by
  unfold controlUnit; split <;> simp_all [ControlSignals.defaults]

theorem controlUnit_jalr (opcode : BitVec 7) : (controlUnit opcode).jalr = (opcode == 0b1100111#7) := by
  unfold controlUnit; split <;> simp_all [ControlSignals.defaults]

theorem controlUnit_load {opcode : BitVec 7} (h : (controlUnit opcode).memRead = true) :
    (controlUnit opcode).branch = false ∧ (controlUnit opcode).jump = false := by
  rw [controlUnit_memRead, beq_iff_eq] at h
  subst h
  exact ⟨rfl, rfl⟩

/-! ## The execute stage -/

theorem exStage_congr {i j : ExStageIn} (h1 : i.operand1Fwd = j.operand1Fwd)
    (h2 : i.operand2Base = j.operand2Base) (himm : i.immediate = j.immediate) (hpc : i.pc = j.pc)
    (hf3 : i.funct3 = j.funct3) (hf7 : i.funct7 = j.funct7) (hsrc : i.aluSrc = j.aluSrc)
    (hop : i.aluOp = j.aluOp) (hsel : i.op1Sel = j.op1Sel) (hjalr : i.jalr = j.jalr) :
    exStage i = exStage j := by
  simp only [exStage, ExStageIn.operand1, ExStageIn.operand2, h1, h2, himm, hpc, hf3, hf7, hsrc, hop, hsel, hjalr]

theorem operand1Fwd_none {i : ExStageIn} (h : i.forwardA = 0b00#2) : i.operand1Fwd = i.readData1 := by
  simp [ExStageIn.operand1Fwd, h]

theorem operand2Base_none {i : ExStageIn} (h : i.forwardB = 0b00#2) : i.operand2Base = i.readData2 := by
  simp [ExStageIn.operand2Base, h]

/-! ## Forwarding -/

/-- The value behind a forwarding mux, by what the forwarding unit selects on. -/
theorem forward_value (i : ForwardingIn) (rs : RegIdx) (exMem wb latched : Word) :
    (if i.select rs = 0b10#2 then exMem else if i.select rs = 0b01#2 then wb else latched) =
      if i.exMemRegwrite ∧ i.exMemRd ≠ 0#5 ∧ i.exMemRd = rs then exMem
      else if i.memWbRegwrite ∧ i.memWbRd ≠ 0#5 ∧ i.memWbRd = rs then wb
      else latched := by
  unfold ForwardingIn.select
  split
  · simp
  · split <;> simp

/-! ## Pipeline registers out of reset -/

theorem ifIdRegister_flush (q : IfId) (stall : Bool) (d : IfId) : ifIdRegister q false stall true d = .clear := rfl
theorem ifIdRegister_stall (q d : IfId) : ifIdRegister q false true false d = q := rfl
theorem memWbRegister_load (d : MemWb) : memWbRegister false d = d := rfl

/-! ## The zero word -/

theorem rs1Of_zero : rs1Of 0#32 = 0#5 := by decide
theorem rs2Of_zero : rs2Of 0#32 = 0#5 := by decide
theorem rdOf_zero : rdOf 0#32 = 0#5 := by decide
theorem funct3Of_zero : funct3Of 0#32 = 0#3 := by decide
theorem funct7Of_zero : funct7Of 0#32 = 0#7 := by decide
theorem controlUnit_zero : controlUnit (opcodeOf 0#32) = ControlSignals.defaults := by decide
theorem immediateGenerator_zero : immediateGenerator 0#32 = 0#32 := by decide

theorem registerFileRead_zero (registers : RegArray) (we : Bool) (rd : RegIdx) (writeData : Word) :
    registerFileRead registers we 0#5 rd writeData = 0#32 := by
  simp [registerFileRead]

end RiscV
