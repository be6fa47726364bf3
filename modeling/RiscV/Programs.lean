import Mathlib.Data.Set.Function
import RiscV.AddressPairs
import RiscV.DataMemory
import RiscV.Lib.Machine

/-!
# Programs on the pipeline

`cpu_pipeline` against a machine that runs RV32I instructions and knows no
words: first with the array of `data_memory` as its memory, then, for programs
that keep to addresses the array tells apart as the documentation does, with
the documented memory of 256 words.
-/

namespace RiscV

open Rv32i WriteLog

/-! ## Instructions and memory of the design -/

/-- The instruction a word stands for. A word that is executed as nothing does
what a fence does. -/
def disassemble (w : Word) : Instr := (executedAs w).getD (.fence 0#12 0#5 0#5)

def assemble (program : BitVec 30 → Instr) : InstrArray := fun i => encode (program i)

def fetchInstr (imem : InstrArray) (pc : Word) : Instr := disassemble (instructionMemory imem pc)

def arrayMemory (undef : Word → Word) : Memory MemArray where
  load := wordAt undef
  store := MemArray.set

def documentedMemory : Memory (BitVec 8 → Word) where
  load m a := m (wordIndex a)
  store m a v := Function.update m (wordIndex a) v

theorem disassemble_encode (i : Instr) : disassemble (encode i) = i := by
  rw [disassemble, executedAs_encode, Option.getD_some]

theorem fetchInstr_assemble (program : BitVec 30 → Instr) (pc : Word) :
    fetchInstr (assemble program) pc = program (pc.extractLsb 31 2) :=
  disassemble_encode _

/-! ## The sequential machine is an RV32I machine -/

def archOf (h : Hart MemArray) : ArchState := ⟨h.pc, h.registers.value, h.memory⟩

section
variable (imem : InstrArray) (undef : Word → Word)

theorem readArray_value (r : Registers) (rs : RegIdx) : readArray r.value rs = r.value rs := by
  unfold readArray
  split
  next h => rw [h, r.zero]
  next => rfl

theorem apply_exec (h : Hart MemArray) {mem : Word → Word} {pc a b : Word} {i : Instr} :
    (archOf h).apply (exec mem pc a b i) =
      archOf
        { pc := (exec mem pc a b i).nextPc
          registers := (exec mem pc a b i).write.elim h.registers fun w => h.registers.write w.1 w.2
          memory := (exec mem pc a b i).store.elim h.memory fun w => h.memory.set w.1 w.2 } := by
  unfold ArchState.apply archOf
  cases hw : (exec mem pc a b i).write with
  | none => rfl
  | some w =>
    have hwrite : (h.registers.write w.1 w.2).value = Function.update h.registers.value w.1 w.2 :=
      if_neg (exec_write_ne hw)
    simp only [Option.elim_some, hwrite]

theorem effect_hart (h : Hart MemArray) :
    Chain.effect undef h.memory
        (decode (instructionMemory imem h.pc) (readArray h.registers.value (rs1Of (instructionMemory imem h.pc)))
          (readArray h.registers.value (rs2Of (instructionMemory imem h.pc)))) h.pc =
      h.effect (arrayMemory undef) (fetchInstr imem) := by
  rw [Chain.effect_word, Hart.effect, fetchInstr, disassemble]
  cases hi : executedAs (instructionMemory imem h.pc) with
  | none => rfl
  | some i =>
    obtain ⟨-, -, h1, h2⟩ := executedAs_fields hi
    rw [Option.elim_some, Option.getD_some, ← h1, ← h2]
    refine ((archOf h).exec_sources _ i).trans ?_
    show exec _ h.pc (readArray h.registers.value i.rs1) (readArray h.registers.value i.rs2) i = _
    rw [readArray_value, readArray_value]
    rfl

theorem archOf_step (h : Hart MemArray) :
    archOf (h.step (arrayMemory undef) (fetchInstr imem)) = (archOf h).step imem undef := by
  rw [ArchState.step_eq_apply]
  exact ((congrArg (archOf h).apply (effect_hart imem undef h)).trans (apply_exec h)).symm

def hartAt (dmem : MemArray) (k : Nat) : Hart MemArray :=
  Hart.run (arrayMemory undef) (fetchInstr imem) ⟨0#32, .initial, dmem⟩ k

theorem archOf_hartAt (dmem : MemArray) (k : Nat) :
    archOf (hartAt imem undef dmem k) = sequentialAt imem undef dmem k := by
  induction k with
  | zero => rfl
  | succ k ih => rw [sequentialAt_succ, ← ih, ← archOf_step, hartAt, Hart.run_succ, hartAt]

end

/-! ## The pipeline runs programs -/

/-- The pipeline carries out the run `h`: at every edge the first `k n`
instructions have left it, in order, none forgotten, and its registers are
theirs; the memory, read through `view`, is one instruction ahead at most. -/
structure CarriesOut {μ : Type*} (imem : InstrArray) (undef : Word → Word) (dmem : MemArray) (h : Nat → Hart μ)
    (view : MemArray → μ → Prop) (k : Nat → Nat) : Prop where
  mono : Monotone k
  succ_le : ∀ n, k (n + 1) ≤ k n + 1
  surjective : Function.Surjective k
  registers : ∀ n, (pipelineAt imem undef dmem n).registers = (h (k n)).registers.value
  memory : ∀ n, view (pipelineAt imem undef dmem n).memory (h (k (n + 1))).memory
  completed : ∀ n, completedLog imem undef dmem n = (List.range (k n)).map fun j => (h j).pc

theorem carriesOut_hartAt (imem : InstrArray) (undef : Word → Word) (dmem : MemArray) :
    CarriesOut imem undef dmem (hartAt imem undef dmem) Eq (retiredAt imem undef dmem) where
  mono := retiredAt_mono imem undef dmem
  succ_le := retiredAt_succ_le imem undef dmem
  surjective := retiredAt_surjective imem undef dmem
  registers n := by rw [pipelineAt_registers, ← archOf_hartAt]; rfl
  memory n := by rw [pipelineAt_memory, ← archOf_hartAt]; rfl
  completed n := by
    rw [completedLog_eq]
    simp only [← archOf_hartAt]
    rfl

def documentedHartAt (imem : InstrArray) (m : BitVec 8 → Word) (k : Nat) : Hart (BitVec 8 → Word) :=
  Hart.run documentedMemory (fetchInstr imem) ⟨0#32, .initial, m⟩ k

def Holds (S : Set Word) (memory : MemArray) (m : BitVec 8 → Word) : Prop :=
  ∀ a ∈ S, memory.get? a = some (m (wordIndex a))

def wordAddresses : Set Word := {a | a.toNat < 256 ∧ a.toNat % 4 = 0}

theorem wordIndex_toNat (a : Word) : (wordIndex a).toNat = a.toNat / 4 % 256 := toNat_extractLsb a 9 2

theorem injOn_wordAddresses : Set.InjOn wordIndex wordAddresses := by
  rintro a ⟨ha, ha4⟩ b ⟨hb, hb4⟩ h
  have hnat := congrArg BitVec.toNat h
  rw [wordIndex_toNat, wordIndex_toNat] at hnat
  exact BitVec.eq_of_toNat_eq (by omega)

section
variable {S : Set Word} (hrange : ∀ a ∈ S, a.toNat < 256) (hinj : Set.InjOn wordIndex S)
include hrange hinj

theorem documentedMemory_simulates (undef : Word → Word) :
    documentedMemory.Simulates (arrayMemory undef) S fun m memory => Holds S memory m where
  load {m memory a} hm ha := by
    show m (wordIndex a) = wordAt undef memory a
    rw [wordAt, hm a ha, Option.getD_some]
  store {m memory a v} hm ha b hb := by
    show (memory.set a v).get? b = some (Function.update m (wordIndex a) v (wordIndex b))
    rw [MemArray.get?_set]
    by_cases hab : a = b
    · rw [if_pos ⟨hab, hrange b hb⟩, hab, Function.update_self]
    · have hne : wordIndex b ≠ wordIndex a := fun he => hab (hinj hb ha he).symm
      rw [if_neg fun h => hab h.1, hm b hb, Function.update_of_ne hne]

end

/-- `addi x1, x0, 5`, `sw x1, 4(x0)`, and `lw x2, 4(x0)` from there on. -/
def storeAndLoad : BitVec 30 → Instr := fun i =>
  if i = 0#30 then .imm .addi 1#5 0#5 5#12 else if i = 1#30 then .sw 0#5 1#5 4#12 else .lw 2#5 0#5 4#12

end RiscV
