import RiscV.CpuAgree

/-!
# The instruction set of `cpu`

The bypass of the register file makes `cpu` an RV32I machine of another kind:
an instruction reads its source registers after it has written its destination.
A clock edge leads to the states that are consistent with that, none, one or
several.
-/

namespace RiscV

open Rv32i

theorem registerFileEdge_eq_elim (registers : RegArray) (we : Bool) (rd : RegIdx) (v : Word) :
    registerFileEdge registers false we rd v =
      (if we ∧ rd ≠ 0#5 then some (rd, v) else none).elim registers fun w => Function.update registers w.1 w.2 := by
  unfold registerFileEdge
  by_cases h : we ∧ rd ≠ 0#5 <;> simp [h]

namespace Cpu

section
variable (imem : InstrArray) (undef : Word → Word) (σ : ArchState) (v : Word)

def effect : Effect :=
  Chain.effect undef σ.memory (decode (σ.instruction imem) (readData1 imem σ v) (readData2 imem σ v)) σ.pc

theorem feedback_eq :
    feedback imem undef σ v =
      Chain.writeBackData undef σ.memory (decode (σ.instruction imem) (readData1 imem σ v) (readData2 imem σ v)) σ.pc :=
  rfl

end

section
variable {imem : InstrArray} {undef : Word → Word} {σ : ArchState} {v : Word}

theorem nextPc_eq : (wires imem undef σ v).nextPc = (effect imem undef σ v).nextPc := by
  -- the two comparators look at different signals, which agree for branches
  have htaken : (σ.control imem).branch = true →
      branchTaken imem σ v =
        (Chain.ex (decode (σ.instruction imem) (readData1 imem σ v) (readData2 imem σ v)) σ.pc).branchTaken := by
    intro hb
    have hsel : (σ.control imem).op1Sel = op1Reg := op1Sel_of_branch hb
    have hsel' : (controlUnit (opcodeOf (σ.instruction imem))).op1Sel = op1Reg := hsel
    simp only [branchTaken, Chain.ex, exStage, ExStageIn.operand1, Chain.exPorts, decode, hsel']
    rfl
  have hnext : (wires imem undef σ v).nextPc =
      if (σ.control imem).jump then branchTarget imem σ v
      else if (σ.control imem).branch && branchTaken imem σ v then branchTarget imem σ v
      else σ.pc + 4#32 := rfl
  have heffect : (effect imem undef σ v).nextPc =
      if ((σ.control imem).branch &&
          (Chain.ex (decode (σ.instruction imem) (readData1 imem σ v) (readData2 imem σ v)) σ.pc).branchTaken) ||
            (σ.control imem).jump then branchTarget imem σ v
      else σ.pc + 4#32 := rfl
  rw [hnext, heffect]
  cases hj : (σ.control imem).jump with
  | true => simp
  | false =>
    cases hb : (σ.control imem).branch with
    | false => simp
    | true => simp [htaken hb]

theorem effect_write (hv : feedback imem undef σ v = v) :
    (effect imem undef σ v).write =
      if (σ.control imem).regWrite ∧ rdOf (σ.instruction imem) ≠ 0#5 then some (rdOf (σ.instruction imem), v)
      else none := by
  rw [feedback_eq] at hv
  rw [effect, Chain.effect, hv]
  rfl

theorem clockEdge_wires (hv : feedback imem undef σ v = v) :
    (wires imem undef σ v).clockEdge σ false = σ.apply (effect imem undef σ v) := by
  have hregs : ((wires imem undef σ v).clockEdge σ false).registers = (σ.apply (effect imem undef σ v)).registers := by
    rw [ArchState.apply, effect_write hv]
    exact registerFileEdge_eq_elim ..
  have hmem : ((wires imem undef σ v).clockEdge σ false).memory = (σ.apply (effect imem undef σ v)).memory := by
    show dataMemoryEdge σ.memory (σ.control imem).memWrite (aluOut imem σ v).result (readData2 imem σ v) =
      (if (σ.control imem).memWrite then some ((aluOut imem σ v).result, readData2 imem σ v) else none).elim σ.memory
        fun w => σ.memory.set w.1 w.2
    cases (σ.control imem).memWrite <;> rfl
  have hpc : (wires imem undef σ v).nextPc = (effect imem undef σ v).nextPc := nextPc_eq
  exact (ArchState.mk.injEq ..).mpr ⟨hpc, hregs, hmem⟩

theorem readData_eq (registers : RegArray)
    (h : registers = registerFileEdge σ.registers false (σ.control imem).regWrite (rdOf (σ.instruction imem)) v) :
    readData1 imem σ v = readArray registers (rs1Of (σ.instruction imem)) ∧
      readData2 imem σ v = readArray registers (rs2Of (σ.instruction imem)) := by
  rw [h]
  exact ⟨registerFileRead_eq .., registerFileRead_eq ..⟩

end

end Cpu

/-! ## Write first -/

section
variable (imem : InstrArray) (undef : Word → Word) (σ : ArchState)

def effectReading (registers : RegArray) : Effect :=
  (executedAs (σ.instruction imem)).elim (Effect.next σ.pc) fun i =>
    exec (wordAt undef σ.memory) σ.pc (readArray registers i.rs1) (readArray registers i.rs2) i

theorem effectReading_eq (registers : RegArray) :
    effectReading imem undef σ registers =
      Chain.effect undef σ.memory
        (decode (σ.instruction imem) (readArray registers (rs1Of (σ.instruction imem)))
          (readArray registers (rs2Of (σ.instruction imem)))) σ.pc := by
  rw [Chain.effect_word, effectReading]
  cases hi : executedAs (σ.instruction imem) with
  | none => rw [Option.elim_none, Option.elim_none]
  | some i =>
    obtain ⟨-, -, h1, h2⟩ := executedAs_fields hi
    have hsources := ArchState.exec_sources ⟨σ.pc, registers, σ.memory⟩ (wordAt undef σ.memory) i
    rw [Option.elim_some, Option.elim_some, ← h1, ← h2]
    exact hsources.symm

end

end RiscV
