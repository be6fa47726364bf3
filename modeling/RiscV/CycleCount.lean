import RiscV.Throughput
import RiscV.Lib.Timed

/-!
# Counting cycles

The sequential machine with a clock. Each of its steps takes the cycles by which
the next instruction follows into execute, which can be told from the two
instructions and the source values. What triples say of it holds of the
pipeline, cycle for cycle.
-/

namespace RiscV

open Rv32i Timed

/-! ## The clock of the sequential machine -/

def timed (imem : InstrArray) (undef : Word → Word) : Machine ArchState where
  step := ArchState.step imem undef
  time σ := 1 + (if σ.feeds imem (σ.step imem undef) then 1 else 0) + (if σ.transfers imem then 2 else 0)

/-! ## The clock of an instruction -/

/-- `next` is the word behind the instruction. -/
def loadFeeds (next : Word) : Instr → Bool
  | .lw rd _ _ => rd != 0#5 && (rs1Of next == rd || rs2Of next == rd)
  | _ => false

def transfersOn (a b : Word) : Instr → Bool
  | .jal .. => true
  | .jalr .. => true
  | .branch op _ _ _ => op.holds a b
  | _ => false

def cyclesOf (next a b : Word) (i : Instr) : Nat :=
  1 + (if loadFeeds next i then 1 else 0) + (if transfersOn a b i then 2 else 0)

namespace ArchState

variable {imem : InstrArray} {σ : ArchState} {i : Instr}

theorem feeds_encode (h : σ.instruction imem = encode i) {user : ArchState} :
    σ.feeds imem user = loadFeeds (user.instruction imem) i := by
  unfold feeds isLoad
  rw [h]
  cases i with
  | lw rd rs1 imm => rw [encode, iType, opcodeOf_word, rdOf_word]; rfl
  | _ =>
    simp only [encode, iType, sType, bType, uType, jType, opcodeOf_word]
    rfl

theorem transfers_encode (h : σ.instruction imem = encode i) :
    σ.transfers imem = transfersOn (readArray σ.registers i.rs1) (readArray σ.registers i.rs2) i := by
  unfold transfers isJal isJalr isBranch conditionHolds
  rw [h]
  cases i with
  | branch op rs1 rs2 offset =>
    rw [encode, bType, opcodeOf_word, rs1Of_word, rs2Of_word, funct3Of_word, branchComparator_eq]
    rfl
  | _ =>
    simp only [encode, iType, sType, uType, jType, opcodeOf_word]
    rfl

end ArchState

section
variable {imem : InstrArray} (undef : Word → Word)

theorem takes_encode {σ : ArchState} {i : Instr} (h : instructionMemory imem σ.pc = encode i) :
    (timed imem undef).Takes σ
      (cyclesOf (instructionMemory imem (σ.pc + 4#32)) (readArray σ.registers i.rs1) (readArray σ.registers i.rs2) i)
      (σ.apply (exec (wordAt undef σ.memory) σ.pc (readArray σ.registers i.rs1) (readArray σ.registers i.rs2) i)) := by
  have hi : σ.instruction imem = encode i := h
  have hs := σ.step_rv32i imem undef hi
  refine .one hs ?_
  show 1 + (if σ.feeds imem (σ.step imem undef) then 1 else 0) + (if σ.transfers imem then 2 else 0) = _
  rw [ArchState.feeds_encode hi, ArchState.transfers_encode hi, hs]
  cases i with
  | lw rd rs1 imm =>
    -- a load is followed by the word behind it
    rw [ArchState.instruction, ArchState.apply, exec, Effect.next, wrap_next]
    rfl
  | _ => rfl

end

/-! ## On the pipeline -/

section
variable (imem : InstrArray) (undef : Word → Word) (dmem : MemArray)

theorem executeTime_timed (k : Nat) :
    executeTime imem undef dmem (k + 1) =
      executeTime imem undef dmem k + (timed imem undef).time (sequentialAt imem undef dmem k) := by
  rw [executeTime_succ, feedsNext, sequentialAt_succ, Nat.add_assoc, Nat.add_assoc]
  show _ = _ + (1 + _ + _)
  rw [Nat.add_assoc]
  rfl

/-- `σ` is the state before an instruction that enters execute after `n` edges. -/
structure Executes (n : Nat) (σ : ArchState) : Prop where
  idEx : (pipelineAt imem undef dmem n).idEx = σ.idEx imem (pipelineAt imem undef dmem n).registers
  memory : (pipelineAt imem undef dmem (n + 1)).memory = σ.memory
  registers : (pipelineAt imem undef dmem (n + 2)).registers = σ.registers

theorem executes_at_executeTime (k : Nat) :
    Executes imem undef dmem (executeTime imem undef dmem k) (sequentialAt imem undef dmem k) where
  idEx := idEx_at_executeTime imem undef dmem k
  memory := memory_at_executeTime imem undef dmem k
  registers := registers_at_executeTime imem undef dmem k

variable {imem undef dmem}

theorem executes_of_triple {P Q : ArchState → Prop} {c k : Nat} (h : (timed imem undef).Triple P c Q)
    (hP : P (sequentialAt imem undef dmem k)) :
    ∃ k', k ≤ k' ∧ executeTime imem undef dmem k' = executeTime imem undef dmem k + c ∧
      Q (sequentialAt imem undef dmem k') ∧
      Executes imem undef dmem (executeTime imem undef dmem k + c) (sequentialAt imem undef dmem k') := by
  obtain ⟨σ', htakes, hQ⟩ := h _ hP
  obtain ⟨k', hle, rfl, htime⟩ := htakes.on_run (sequentialAt_succ imem undef dmem) (executeTime_timed imem undef dmem) k rfl
  refine ⟨k', hle, htime, hQ, ?_⟩
  rw [← htime]
  exact executes_at_executeTime imem undef dmem k'

end

end RiscV
