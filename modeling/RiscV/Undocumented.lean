import RiscV.Rv32iSound

/-!
# Undocumented words

Words that encode none of the documented instructions. Without a documented
opcode they do nothing, and so do branches the comparator does not know. With
the opcode of a load, a store, JALR or an ALU operation they are executed as the
documented instruction in whose place they stand.
-/

namespace RiscV

open Rv32i

/-! ## RV32I beyond the documented instructions

Byte and halfword accesses. The byte and the halfword at an address are the low
bits of the word there. The two environment calls trap, which is no change of
the state modelled here. -/

inductive LoadOp where
  | lb | lh | lbu | lhu
  deriving DecidableEq, Repr

inductive StoreOp where
  | sb | sh
  deriving DecidableEq, Repr

inductive Narrow where
  | load (op : LoadOp) (rd rs1 : RegIdx) (imm : BitVec 12)
  | store (op : StoreOp) (rs1 rs2 : RegIdx) (imm : BitVec 12)
  deriving DecidableEq, Repr

def LoadOp.funct3 : LoadOp → BitVec 3
  | lb => 0b000#3
  | lh => 0b001#3
  | lbu => 0b100#3
  | lhu => 0b101#3

def StoreOp.funct3 : StoreOp → BitVec 3
  | sb => 0b000#3
  | sh => 0b001#3

def LoadOp.extend (word : Word) : LoadOp → Word
  | lb => (word.extractLsb 7 0).signExtend 32
  | lh => (word.extractLsb 15 0).signExtend 32
  | lbu => (word.extractLsb 7 0).zeroExtend 32
  | lhu => (word.extractLsb 15 0).zeroExtend 32

def StoreOp.merge (word data : Word) : StoreOp → Word
  | sb => word.extractLsb 31 8 ++ data.extractLsb 7 0
  | sh => word.extractLsb 31 16 ++ data.extractLsb 15 0

namespace Narrow

def encode : Narrow → Word
  | load op rd rs1 imm => iType imm rs1 op.funct3 rd 0b0000011#7
  | store op rs1 rs2 imm => sType imm rs2 rs1 op.funct3 0b0100011#7

def rs1 : Narrow → RegIdx
  | load _ _ rs1 _ => rs1
  | store _ rs1 _ _ => rs1

def rs2 : Narrow → RegIdx
  | load .. => 0#5
  | store _ _ rs2 _ => rs2

def exec (mem : Word → Word) (pc a b : Word) : Narrow → Effect
  | load op rd _ imm =>
    { Effect.next pc with
      write := writeTo rd (op.extend (mem (wrap (a.toInt + imm.toInt))))
      load := some (wrap (a.toInt + imm.toInt)) }
  | store op _ _ imm =>
    { Effect.next pc with
      store := some (wrap (a.toInt + imm.toInt), op.merge (mem (wrap (a.toInt + imm.toInt))) b) }

end Narrow

namespace ArchState

variable (imem : InstrArray) (undef : Word → Word) (σ : ArchState)

/-- No register, no memory word, no jump. -/
def Inert : Prop := σ.step imem undef = { σ with pc := σ.pc + 4#32 }

/-- The effect RV32I defines for a word that is not documented. -/
def FollowsRv32i : Prop :=
  ∃ i : Narrow, i.encode = σ.instruction imem ∧
    σ.step imem undef =
      σ.apply (i.exec (wordAt undef σ.memory) σ.pc (readArray σ.registers i.rs1) (readArray σ.registers i.rs2))

end ArchState

/-! ## What undocumented words do -/

/-- `lb x1, 0(x0)`, where the byte has its top bit set, leaves the whole word. -/
theorem lb_loads_word :
    ¬ ∀ (imem : InstrArray) (undef : Word → Word) (σ : ArchState), ¬ DocumentedWord (σ.instruction imem) →
      σ.FollowsRv32i imem undef ∨ σ.Inert imem undef := by
  intro h
  have hdoc : ¬ DocumentedWord 0x00000083#32 := by decide
  have hone : ((ArchState.initial fun _ => 0x180#32).step (fun _ => 0x00000083#32) fun _ => 0#32).registers 1#5 =
      0x180#32 := by decide
  rcases h (fun _ => 0x00000083#32) (fun _ => 0#32) (.initial fun _ => 0x180#32) hdoc with ⟨i, hi, hs⟩ | hs
  · cases i with
    | load op rd rs1 imm =>
      have hop : op.funct3 = 0b000#3 := (funct3Of_word ..).symm.trans (congrArg funct3Of hi)
      have hrd : rd = 1#5 := (rdOf_word ..).symm.trans (congrArg rdOf hi)
      have hrs1 : rs1 = 0#5 := (rs1Of_word ..).symm.trans (congrArg rs1Of hi)
      have himm : imm = 0#12 := (iType_imm ..).symm.trans (congrArg (BitVec.extractLsb 31 20) hi)
      subst hrd hrs1 himm
      rw [hs] at hone
      cases op with
      | lb => exact absurd hone (by decide)
      | lh => cases hop
      | lbu => cases hop
      | lhu => cases hop
    | store op rs1 rs2 imm =>
      have hop : 0b0100011#7 = 0b0000011#7 := (opcodeOf_word ..).symm.trans (congrArg opcodeOf hi)
      cases hop
  · rw [ArchState.Inert] at hs
    rw [hs] at hone
    exact absurd hone (by decide)

/-- **Undocumented words.** Unless the opcode is that of a load, a store, JALR
or an ALU operation, nothing happens. With one of these the word has the effect
of a documented instruction with the same opcode and register fields. -/
theorem undocumented_word (imem : InstrArray) (undef : Word → Word) (σ : ArchState) :
    (¬ DocumentedWord (σ.instruction imem) → opcodeOf (σ.instruction imem) ∉ looseOpcodes → σ.Inert imem undef) ∧
    (¬ DocumentedWord (σ.instruction imem) → opcodeOf (σ.instruction imem) ∈ looseOpcodes →
      ∃ i, executedAs (σ.instruction imem) = some i ∧
        opcodeOf (encode i) = opcodeOf (σ.instruction imem) ∧ rdOf (encode i) = rdOf (σ.instruction imem) ∧
        rs1Of (encode i) = rs1Of (σ.instruction imem) ∧ rs2Of (encode i) = rs2Of (σ.instruction imem) ∧
        σ.step imem undef =
          σ.apply (exec (wordAt undef σ.memory) σ.pc (readArray σ.registers i.rs1) (readArray σ.registers i.rs2) i)) := by
  have hstep := σ.step_executedAs imem undef
  refine ⟨fun hdoc hop => ?_, fun _ hop => ?_⟩
  · rw [(executedAs_eq_none_iff hdoc).mpr hop] at hstep
    exact hstep
  · obtain ⟨i, hi⟩ := Option.ne_none_iff_exists'.mp (executedAs_isSome hop)
    obtain ⟨ho, hd, h1, h2⟩ := executedAs_fields hi
    rw [hi] at hstep
    exact ⟨i, hi, ho, hd, h1, h2, hstep⟩

end RiscV
