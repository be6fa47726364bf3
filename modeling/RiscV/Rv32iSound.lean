import RiscV.Sequential
import RiscV.Decoding

/-!
# The design executes RV32I

The way of one instruction through the decoders, the execute stage without
forwarding, the memory stage and write-back, from the instruction word, its
address and the values of its two source registers to what it writes, loads,
stores and where it goes next.
-/

namespace RiscV

open Rv32i

/-! ## The chain -/

def wordAt (undef : Word → Word) (memory : MemArray) (address : Word) : Word := (memory.get? address).getD (undef address)

def decode (instruction readData1 readData2 : Word) : IdStageOut where
  readData1 := readData1
  readData2 := readData2
  immediate := immediateGenerator instruction
  rs1 := rs1Of instruction
  rs2 := rs2Of instruction
  rd := rdOf instruction
  funct3 := funct3Of instruction
  funct7 := funct7Of instruction
  control := controlUnit (opcodeOf instruction)

namespace Chain

section
variable (undef : Word → Word) (memory : MemArray) (d : IdStageOut) (pc : Word)

def exPorts : ExStageIn where
  readData1 := d.readData1
  readData2 := d.readData2
  immediate := d.immediate
  pc := pc
  funct3 := d.funct3
  funct7 := d.funct7
  aluSrc := d.control.aluSrc
  aluOp := d.control.aluOp
  op1Sel := d.control.op1Sel
  jalr := d.control.jalr
  forwardA := 0b00#2
  forwardB := 0b00#2
  exMemAluResult := 0#32
  wbWriteBackData := 0#32

def ex : ExStageOut := exStage (exPorts d pc)

def memReadData : Word := memStage undef memory d.control.memRead (ex d pc).aluResult

def writeBackData : Word :=
  wbStage (memReadData undef memory d pc) (ex d pc).aluResult (ex d pc).pcPlus4 d.control.memtoReg d.control.jump

def redirects : Bool := (d.control.branch && (ex d pc).branchTaken) || d.control.jump

/-- What the signals at the register file, the data memory and the program
counter amount to. -/
def effect : Effect where
  write := if d.control.regWrite ∧ d.rd ≠ 0#5 then some (d.rd, writeBackData undef memory d pc) else none
  load := if d.control.memRead then some (ex d pc).aluResult else none
  store := if d.control.memWrite then some ((ex d pc).aluResult, (ex d pc).storeData) else none
  nextPc := if redirects d pc then (ex d pc).branchTarget else pc + 4#32

end

end Chain

/-! ## Operations -/

theorem aluControl_reg (op : RegOp) (a b : Word) :
    aluResult a b (aluControl 0b10#2 op.funct3 op.funct7 false) = wrap (op.eval a b) := by
  cases op with
  | add => exact (wrap_eval_add a b).symm
  | sub => exact (wrap_eval_sub a b).symm
  | sll => exact (wrap_eval_sll a b).symm
  | slt => exact (wrap_eval_slt a b).symm
  | sltu => exact (wrap_eval_sltu a b).symm
  | xor => exact (wrap_eval_xor a b).symm
  | srl => exact (wrap_eval_srl a b).symm
  | sra => exact (wrap_eval_sra a b).symm
  | or => exact (wrap_eval_or a b).symm
  | and => exact (wrap_eval_and a b).symm

/-- The upper immediate bits stand where R-type has `funct7`, and do not count. -/
theorem aluControl_imm (op : ImmOp) (a b : Word) (funct7 : BitVec 7) :
    aluResult a b (aluControl 0b10#2 op.reg.funct3 funct7 true) = wrap (op.reg.eval a b) := by
  have h : aluControl 0b10#2 op.reg.funct3 funct7 true = aluControl 0b10#2 op.reg.funct3 op.reg.funct7 false := by
    cases op <;> simp [aluControl, ImmOp.reg, RegOp.funct3, RegOp.funct7]
  rw [h, aluControl_reg]

/-- Of `funct7` the ALU sees bit 30 of the word alone. -/
theorem aluControl_regOpOf (funct3 : BitVec 3) (funct7 : BitVec 7) (a b : Word) :
    aluResult a b (aluControl 0b10#2 funct3 funct7 false) =
      wrap ((regOpOf funct3 (funct7.getLsbD 5)).eval a b) := by
  have hbit : funct7[5] = funct7.getLsbD 5 := (BitVec.getLsbD_eq_getElem (by decide)).symm
  have h : aluControl 0b10#2 funct3 funct7 false = aluControl 0b10#2 (regOpOf funct3 (funct7.getLsbD 5)).funct3
      (regOpOf funct3 (funct7.getLsbD 5)).funct7 false := by
    unfold aluControl
    rw [hbit]
    generalize funct7.getLsbD 5 = alt
    revert funct3 alt
    decide
  rw [h, aluControl_reg]

theorem aluControl_slli (funct7 : BitVec 7) (a b : Word) :
    aluResult a b (aluControl 0b10#2 0b001#3 funct7 true) = wrap (ShiftOp.slli.reg.eval a b) :=
  (wrap_eval_sll a b).symm

theorem aluControl_srli (funct7 : BitVec 7) (a b : Word) :
    aluResult a b (aluControl 0b10#2 0b101#3 funct7 true) =
      wrap ((if funct7.getLsbD 5 then ShiftOp.srai else ShiftOp.srli).reg.eval a b) := by
  have hbit : funct7[5] = funct7.getLsbD 5 := (BitVec.getLsbD_eq_getElem (by decide)).symm
  have h : aluControl 0b10#2 0b101#3 funct7 true = if funct7.getLsbD 5 then 0b1000#4 else 0b0110#4 := by
    simp only [aluControl, hbit]
  rw [h]
  cases funct7.getLsbD 5 with
  | false => exact (wrap_eval_srl a b).symm
  | true => exact (wrap_eval_sra a b).symm

theorem branchComparator_eq (op : BranchOp) (a b : Word) : branchComparator a b op.funct3 = op.holds a b := by
  cases op with
  | beq => simp [branchComparator, BranchOp.funct3, BranchOp.holds, BitVec.toNat_inj, beq_eq_decide]
  | bne => simp [branchComparator, BranchOp.funct3, BranchOp.holds, BitVec.toNat_inj, bne]; rfl
  | blt => exact BitVec.slt_eq_decide
  | bge => exact BitVec.sle_eq_decide
  | bltu => exact BitVec.ult_eq_decide
  | bgeu => exact BitVec.ule_eq_decide

/-! ## Effects of the decoded instructions -/

theorem wrap_next (pc : Word) : wrap (pc.toNat + 4) = pc + 4#32 := by
  rw [wrap_add, wrap_toNat]
  rfl

namespace Chain

section
variable {undef : Word → Word} {memory : MemArray} {d : IdStageOut} {pc : Word}

theorem effect_alu {aluSrc : Bool} {aluOp op1Sel : BitVec 2}
    (hc : d.control =
      { ControlSignals.defaults with regWrite := true, aluSrc := aluSrc, aluOp := aluOp, op1Sel := op1Sel }) :
    effect undef memory d pc = { Effect.next pc with write := writeTo d.rd (ex d pc).aluResult } := by
  simp [effect, redirects, writeBackData, wbStage, writeTo, Effect.next, wrap_next, hc, ControlSignals.defaults]

theorem effect_reg {op : RegOp} (hc : d.control = { ControlSignals.defaults with regWrite := true, aluOp := 0b10#2 })
    (halu : ∀ a b, aluResult a b (aluControl 0b10#2 d.funct3 d.funct7 false) = wrap (op.eval a b)) (rs1 rs2 : RegIdx) :
    effect undef memory d pc = exec (wordAt undef memory) pc d.readData1 d.readData2 (.reg op d.rd rs1 rs2) := by
  have hx : (ex d pc).aluResult = wrap (op.eval d.readData1 d.readData2) := by
    rw [← halu, ex, exStage, exPorts, hc]
    rfl
  rw [effect_alu hc, hx]
  rfl

theorem effect_imm {op : ImmOp} {imm : BitVec 12}
    (hc : d.control = { ControlSignals.defaults with regWrite := true, aluSrc := true, aluOp := 0b10#2 })
    (h3 : d.funct3 = op.reg.funct3) (hi : d.immediate = wrap imm.toInt) (rs1 : RegIdx) :
    effect undef memory d pc = exec (wordAt undef memory) pc d.readData1 d.readData2 (.imm op d.rd rs1 imm) := by
  have hx : (ex d pc).aluResult = wrap (op.reg.eval d.readData1 (wrap imm.toInt)) := by
    rw [← aluControl_imm op _ _ d.funct7, ← h3, ← hi, ex, exStage, exPorts, hc]
    rfl
  rw [effect_alu hc, hx]
  rfl

theorem effect_shift {op : ShiftOp} {shamt : BitVec 5}
    (hc : d.control = { ControlSignals.defaults with regWrite := true, aluSrc := true, aluOp := 0b10#2 })
    (halu : ∀ a b, aluResult a b (aluControl 0b10#2 d.funct3 d.funct7 true) = wrap (op.reg.eval a b))
    (hi : d.immediate.extractLsb 4 0 = shamt) (rs1 : RegIdx) :
    effect undef memory d pc = exec (wordAt undef memory) pc d.readData1 d.readData2 (.shift op d.rd rs1 shamt) := by
  have hx : (ex d pc).aluResult = wrap (op.reg.eval d.readData1 d.immediate) := by
    rw [← halu, ex, exStage, exPorts, hc]
    rfl
  have hamount : op.reg.eval d.readData1 d.immediate = op.reg.eval d.readData1 (wrap shamt.toNat) := by
    have h : d.immediate.toNat % 32 = (wrap shamt.toNat).toNat % 32 := by
      rw [← shamt_toNat, hi, wrap, BitVec.ofInt_natCast, BitVec.toNat_ofNat]
      omega
    cases op <;> simp only [ShiftOp.reg, RegOp.eval, h]
  rw [effect_alu hc, hx, hamount]
  rfl

theorem effect_lui {imm : BitVec 20}
    (hc : d.control = { ControlSignals.defaults with regWrite := true, aluSrc := true, op1Sel := op1Zero })
    (hi : d.immediate = wrap (imm.toNat * 2 ^ 12)) :
    effect undef memory d pc = exec (wordAt undef memory) pc d.readData1 d.readData2 (.lui d.rd imm) := by
  have hx : (ex d pc).aluResult = 0#32 + wrap (imm.toNat * 2 ^ 12) := by
    rw [← hi, ex, exStage, exPorts, hc]
    rfl
  rw [effect_alu hc, hx, BitVec.zero_add]
  rfl

theorem effect_auipc {imm : BitVec 20}
    (hc : d.control = { ControlSignals.defaults with regWrite := true, aluSrc := true, op1Sel := op1Pc })
    (hi : d.immediate = wrap (imm.toNat * 2 ^ 12)) :
    effect undef memory d pc = exec (wordAt undef memory) pc d.readData1 d.readData2 (.auipc d.rd imm) := by
  have hx : (ex d pc).aluResult = wrap (pc.toNat + imm.toNat * 2 ^ 12) := by
    rw [wrap_add, wrap_toNat, ← hi, ex, exStage, exPorts, hc]
    rfl
  rw [effect_alu hc, hx]
  rfl

theorem address_eq {imm : BitVec 12} (hi : d.immediate = wrap imm.toInt) :
    d.readData1 + d.immediate = wrap (d.readData1.toInt + imm.toInt) := by
  rw [wrap_add, wrap_toInt, hi]

theorem target_eq {offset : Int} (hi : d.immediate = wrap offset) : pc + d.immediate = wrap (pc.toNat + offset) := by
  rw [wrap_add, wrap_toNat, hi]

theorem effect_lw {imm : BitVec 12}
    (hc : d.control =
      { ControlSignals.defaults with
        regWrite := true, aluSrc := true, memRead := true, memtoReg := true, aluOp := 0b00#2 })
    (hi : d.immediate = wrap imm.toInt) (rs1 : RegIdx) :
    effect undef memory d pc = exec (wordAt undef memory) pc d.readData1 d.readData2 (.lw d.rd rs1 imm) := by
  have hx : (ex d pc).aluResult = wrap (d.readData1.toInt + imm.toInt) := by
    rw [← address_eq hi, ex, exStage, exPorts, hc]
    rfl
  simp [effect, redirects, writeBackData, wbStage, memReadData, memStage, dataMemoryRead, hc, hx,
    ControlSignals.defaults, exec, writeTo, Effect.next, wrap_next, wordAt]

theorem effect_sw {imm : BitVec 12}
    (hc : d.control = { ControlSignals.defaults with aluSrc := true, memWrite := true, aluOp := 0b00#2 })
    (hi : d.immediate = wrap imm.toInt) (rs1 rs2 : RegIdx) :
    effect undef memory d pc = exec (wordAt undef memory) pc d.readData1 d.readData2 (.sw rs1 rs2 imm) := by
  have hx : (ex d pc).aluResult = wrap (d.readData1.toInt + imm.toInt) := by
    rw [← address_eq hi, ex, exStage, exPorts, hc]
    rfl
  have hd : (ex d pc).storeData = d.readData2 := rfl
  simp [effect, redirects, hc, hx, hd, ControlSignals.defaults, exec, Effect.next, wrap_next]

theorem effect_branch {op : BranchOp} {offset : BitVec 12}
    (hc : d.control = { ControlSignals.defaults with branch := true, aluOp := 0b01#2 })
    (h3 : d.funct3 = op.funct3) (hi : d.immediate = wrap (2 * offset.toInt)) (rs1 rs2 : RegIdx) :
    effect undef memory d pc =
      exec (wordAt undef memory) pc d.readData1 d.readData2 (.branch op rs1 rs2 offset) := by
  have ht : (ex d pc).branchTaken = op.holds d.readData1 d.readData2 := by
    rw [← branchComparator_eq, ← h3, ex, exStage, exPorts, hc]
    rfl
  have hg : (ex d pc).branchTarget = wrap (pc.toNat + 2 * offset.toInt) := by
    rw [← target_eq hi, ex, exStage, exPorts, hc]
    rfl
  simp [effect, redirects, hc, ht, hg, ControlSignals.defaults, exec, Effect.next, wrap_next]

theorem effect_jal {offset : BitVec 20}
    (hc : d.control = { ControlSignals.defaults with jump := true, regWrite := true })
    (hi : d.immediate = wrap (2 * offset.toInt)) :
    effect undef memory d pc = exec (wordAt undef memory) pc d.readData1 d.readData2 (.jal d.rd offset) := by
  have hl : (ex d pc).pcPlus4 = pc + 4#32 := rfl
  have hg : (ex d pc).branchTarget = wrap (pc.toNat + 2 * offset.toInt) := by
    rw [← target_eq hi, ex, exStage, exPorts, hc]
    rfl
  simp [effect, redirects, writeBackData, wbStage, hc, hl, hg, ControlSignals.defaults, exec, writeTo, Effect.next,
    wrap_next]

theorem effect_jalr {imm : BitVec 12}
    (hc : d.control =
      { ControlSignals.defaults with jump := true, jalr := true, regWrite := true, aluSrc := true })
    (hi : d.immediate = wrap imm.toInt) (rs1 : RegIdx) :
    effect undef memory d pc = exec (wordAt undef memory) pc d.readData1 d.readData2 (.jalr d.rd rs1 imm) := by
  have hl : (ex d pc).pcPlus4 = pc + 4#32 := rfl
  have hg : (ex d pc).branchTarget =
      wrap (d.readData1.toInt + imm.toInt - (d.readData1.toInt + imm.toInt) % 2) := by
    rw [wrap_even, ← address_eq hi, ex, exStage, exPorts, hc]
    rfl
  simp [effect, redirects, writeBackData, wbStage, hc, hl, hg, ControlSignals.defaults, exec, writeTo, Effect.next,
    wrap_next]

theorem effect_none (hc : d.control = ControlSignals.defaults) : effect undef memory d pc = Effect.next pc := by
  simp [effect, redirects, hc, ControlSignals.defaults, Effect.next, wrap_next]

theorem effect_untaken (hc : d.control = { ControlSignals.defaults with branch := true, aluOp := 0b01#2 })
    (hnever : ∀ a b, branchComparator a b d.funct3 = false) : effect undef memory d pc = Effect.next pc := by
  have ht : (ex d pc).branchTaken = false := hnever _ _
  simp [effect, redirects, hc, ht, ControlSignals.defaults, Effect.next, wrap_next]

end

end Chain

/-! ## Every word -/

/-- The low bits of the immediate of an immediate shift are the shift amount,
whatever `funct7` adds above them. -/
theorem shift_immediate {w : Word} (h : opcodeOf w = 0b0010011#7) :
    (immediateGenerator w).extractLsb 4 0 = rs2Of w := by
  have hfield : (w.extractLsb 31 20).toInt % 32 = (rs2Of w).toNat := by
    rw [BitVec.toInt_eq_toNat_cond, rs2Of, toNat_extractLsb, toNat_extractLsb]
    split <;> omega
  apply BitVec.eq_of_toNat_eq
  rw [immediateGenerator_i (.inl h), shamt_toNat, wrap, BitVec.toNat_ofInt]
  omega

theorem immOpOf_funct3 {funct3 : BitVec 3} (h₁ : funct3 ≠ 0b001#3) (h₅ : funct3 ≠ 0b101#3) :
    (immOpOf funct3).reg.funct3 = funct3 := by
  revert funct3
  decide

theorem branchComparator_none {funct3 : BitVec 3} (h : branchOpOf funct3 = none) (a b : Word) :
    branchComparator a b funct3 = false := by
  have h' : funct3 = 0b010#3 ∨ funct3 = 0b011#3 := by
    revert funct3
    decide
  rcases h' with rfl | rfl <;> rfl

/-- **Every word.** The chain has the effect of the instruction the word is
executed as, or none. -/
theorem Chain.effect_word (undef : Word → Word) (memory : MemArray) (pc a b w : Word) :
    Chain.effect undef memory (decode w a b) pc =
      (executedAs w).elim (Effect.next pc) (exec (wordAt undef memory) pc a b) := by
  unfold executedAs
  split
  next h =>
    exact Chain.effect_reg (congrArg controlUnit h) (aluControl_regOpOf _ _) (rs1Of w) (rs2Of w)
  next h =>
    split
    next h₁ =>
      have halu : ∀ a b, aluResult a b (aluControl 0b10#2 (funct3Of w) (funct7Of w) true) =
          wrap (ShiftOp.slli.reg.eval a b) := fun a b => by rw [h₁, aluControl_slli]
      exact Chain.effect_shift (congrArg controlUnit h) halu (shift_immediate h) (rs1Of w)
    next h₁ =>
      split
      next h₅ =>
        have halu : ∀ a b, aluResult a b (aluControl 0b10#2 (funct3Of w) (funct7Of w) true) =
            wrap ((if (funct7Of w).getLsbD 5 then ShiftOp.srai else ShiftOp.srli).reg.eval a b) := fun a b => by
          rw [h₅, aluControl_srli]
        exact Chain.effect_shift (congrArg controlUnit h) halu (shift_immediate h) (rs1Of w)
      next h₅ =>
        exact Chain.effect_imm (congrArg controlUnit h) (immOpOf_funct3 h₁ h₅).symm (immediateGenerator_i (.inl h))
          (rs1Of w)
  next h =>
    exact Chain.effect_lw (congrArg controlUnit h) (immediateGenerator_i (.inr (.inl h))) (rs1Of w)
  next h =>
    exact Chain.effect_sw (congrArg controlUnit h) (immediateGenerator_s h) (rs1Of w) (rs2Of w)
  next h =>
    cases hop : branchOpOf (funct3Of w) with
    | none => exact Chain.effect_untaken (congrArg controlUnit h) (branchComparator_none hop)
    | some op =>
      exact Chain.effect_branch (congrArg controlUnit h) (branchOpOf_funct3 hop).symm (immediateGenerator_b h)
        (rs1Of w) (rs2Of w)
  next h =>
    exact Chain.effect_jal (congrArg controlUnit h) (immediateGenerator_j h)
  next h =>
    exact Chain.effect_jalr (congrArg controlUnit h) (immediateGenerator_i (.inr (.inr h))) (rs1Of w)
  next h =>
    exact Chain.effect_lui (congrArg controlUnit h) (immediateGenerator_u (.inl h))
  next h =>
    exact Chain.effect_auipc (congrArg controlUnit h) (immediateGenerator_u (.inr h))
  next h =>
    have hnone : Chain.effect undef memory (decode w a b) pc = Effect.next pc :=
      Chain.effect_none (congrArg controlUnit h)
    split <;> exact hnone
  next h =>
    refine Chain.effect_none ?_
    show controlUnit (opcodeOf w) = ControlSignals.defaults
    unfold controlUnit
    split <;> first | rfl | (exfalso; simp_all)

theorem Chain.effect_encode (undef : Word → Word) (memory : MemArray) (pc a b : Word) (i : Instr) :
    Chain.effect undef memory (decode (encode i) a b) pc = exec (wordAt undef memory) pc a b i := by
  rw [Chain.effect_word, executedAs_encode, Option.elim_some]

/-- **The design executes RV32I.** At every address, for all source values and
memory words, the chain writes, loads, stores and goes on as the encoded
instruction does. -/
theorem chain_executes_rv32i (undef : Word → Word) (memory : MemArray) (pc a b : Word) (i : Instr) :
    (Chain.effect undef memory (decode (encode i) a b) pc).write = (exec (wordAt undef memory) pc a b i).write ∧
      (Chain.effect undef memory (decode (encode i) a b) pc).load = (exec (wordAt undef memory) pc a b i).load ∧
      (Chain.effect undef memory (decode (encode i) a b) pc).store = (exec (wordAt undef memory) pc a b i).store ∧
      (Chain.effect undef memory (decode (encode i) a b) pc).nextPc =
        (exec (wordAt undef memory) pc a b i).nextPc := by
  rw [Chain.effect_encode]
  exact ⟨rfl, rfl, rfl, rfl⟩

/-! ## The sequential machine -/

namespace ArchState

variable (imem : InstrArray) (undef : Word → Word) (σ : ArchState)

def apply (e : Effect) : ArchState where
  pc := e.nextPc
  registers := e.write.elim σ.registers fun w => Function.update σ.registers w.1 w.2
  memory := e.store.elim σ.memory fun w => σ.memory.set w.1 w.2

theorem step_eq_apply :
    σ.step imem undef =
      σ.apply (Chain.effect undef σ.memory
        (decode (σ.instruction imem) (readArray σ.registers (rs1Of (σ.instruction imem)))
          (readArray σ.registers (rs2Of (σ.instruction imem)))) σ.pc) := by
  have hregs : ∀ (we : Bool) (rd : RegIdx) (v : Word), registerFileEdge σ.registers false we rd v =
      (if we ∧ rd ≠ 0#5 then some (rd, v) else none).elim σ.registers fun w => Function.update σ.registers w.1 w.2 := by
    intro we rd v
    unfold registerFileEdge
    by_cases h : we ∧ rd ≠ 0#5 <;> simp [h]
  have hmem : ∀ (we : Bool) (a v : Word), memStageEdge σ.memory we a v =
      (if we then some (a, v) else none).elim σ.memory fun w => σ.memory.set w.1 w.2 := by
    intro we a v
    cases we <;> rfl
  unfold step apply
  rw [hregs, hmem]
  rfl

/-- The register fields of the word are the sources the instruction uses. -/
theorem exec_sources (mem : Word → Word) (i : Instr) :
    exec mem σ.pc (readArray σ.registers (rs1Of (encode i))) (readArray σ.registers (rs2Of (encode i))) i =
      exec mem σ.pc (readArray σ.registers i.rs1) (readArray σ.registers i.rs2) i := by
  cases i with
  | reg op rd rs1 rs2 => rw [encode, rs1Of_word, rs2Of_word]; rfl
  | imm op rd rs1 imm => rw [encode, iType, rs1Of_word]; rfl
  | shift op rd rs1 shamt => rw [encode, rs1Of_word]; rfl
  | lw rd rs1 imm => rw [encode, iType, rs1Of_word]; rfl
  | sw rs1 rs2 imm => rw [encode, sType, rs1Of_word, rs2Of_word]; rfl
  | branch op rs1 rs2 offset => rw [encode, bType, rs1Of_word, rs2Of_word]; rfl
  | jal rd offset => rfl
  | jalr rd rs1 imm => rw [encode, iType, rs1Of_word]; rfl
  | lui rd imm => rfl
  | auipc rd imm => rfl
  | fence fields rs1 rd => rfl

theorem step_executedAs :
    σ.step imem undef = (executedAs (σ.instruction imem)).elim { σ with pc := σ.pc + 4#32 } fun i =>
      σ.apply (exec (wordAt undef σ.memory) σ.pc (readArray σ.registers i.rs1) (readArray σ.registers i.rs2) i) := by
  rw [step_eq_apply, Chain.effect_word]
  cases hi : executedAs (σ.instruction imem) with
  | none => rw [Option.elim_none, Option.elim_none, apply, Effect.next, wrap_next]; rfl
  | some i =>
    obtain ⟨-, -, h1, h2⟩ := executedAs_fields hi
    rw [Option.elim_some, Option.elim_some, ← h1, ← h2, exec_sources]

/-- **A step of the sequential machine is one RV32I instruction.** -/
theorem step_rv32i {i : Instr} (h : σ.instruction imem = encode i) :
    σ.step imem undef =
      σ.apply (exec (wordAt undef σ.memory) σ.pc (readArray σ.registers i.rs1) (readArray σ.registers i.rs2) i) := by
  rw [step_executedAs, h, executedAs_encode, Option.elim_some]

/-- A jump to itself, without a link. -/
theorem step_jal_self (h : σ.instruction imem = encode (.jal 0#5 0#20)) : σ.step imem undef = σ := by
  have hpc : wrap (σ.pc.toNat + 2 * (0#20).toInt) = σ.pc := wrap_toNat σ.pc
  rw [σ.step_rv32i imem undef h, apply, exec, writeTo, if_pos rfl, hpc]
  rfl

end ArchState

end RiscV
