import RiscV.Buses
import RiscV.WrongPath

/-!
# Reads without a defined value

Both memories are arrays of 256 words read at a wider address. A program that
loads only inside the data array leaves no trace of what is read outside it; one
that also stays inside its instruction array runs on defined values alone, even
where the two words behind a jump are fetched from beyond the end.
-/

namespace RiscV

open InOrder Rv32i

/-- `instruction_memory`: the word at index `pc[31:2]`, no defined value beyond
the end of the array. -/
def instructionRom (rom : Fin 256 → Word) (unmapped : InstrArray) : InstrArray := fun i =>
  if h : i.toNat < 256 then rom ⟨i.toNat, h⟩ else unmapped i

/-! ## Loads of the program -/

section
variable (imem : InstrArray) (undef : Word → Word) (dmem : MemArray)

def LoadsInRange : Prop := ∀ k a, Access.load a ∈ programAccesses imem undef dmem k → a.toNat < 256

theorem load_mem_programAccesses (k : Nat) (a : Word) :
    Access.load a ∈ programAccesses imem undef dmem k ↔
      ((sequentialAt imem undef dmem k).control imem).memRead = true ∧
        ((sequentialAt imem undef dmem k).ex imem).aluResult = a := by
  rw [← exMem_access]
  show Access.load a ∈ accessAt ((sequentialAt imem undef dmem k).control imem).memRead _
    ((sequentialAt imem undef dmem k).ex imem).aluResult _ ↔ _
  simp only [accessAt, List.mem_append, List.mem_ite_nil_right, List.mem_singleton, reduceCtorEq, and_false, false_or,
    Access.load.injEq]
  exact and_congr_right fun _ => eq_comm

end

section
variable {undef undef' : Word → Word} {memory : MemArray} {memRead : Bool} {address : Word}

theorem memStage_congr (h : memRead = true → address.toNat < 256) :
    memStage undef memory memRead address = memStage undef' memory memRead address := by
  unfold memStage dataMemoryRead
  cases memRead with
  | false => rfl
  | true => simp [MemArray.get?, h rfl]

theorem memStage_undef (h : ¬ address.toNat < 256) : memStage undef memory true address = undef address := by
  simp [memStage, dataMemoryRead, MemArray.get?, h]

end

/-! ## Undefined data -/

section
variable {imem : InstrArray} {undef : Word → Word} {dmem : MemArray} (hloads : LoadsInRange imem undef dmem)
include hloads

theorem LoadsInRange.sequentialAt_eq (undef' : Word → Word) (k : Nat) :
    sequentialAt imem undef dmem k = sequentialAt imem undef' dmem k := by
  induction k with
  | zero => rfl
  | succ k ih =>
    rw [sequentialAt_succ, sequentialAt_succ, ← ih]
    have hread : (sequentialAt imem undef dmem k).memReadData imem undef =
        (sequentialAt imem undef dmem k).memReadData imem undef' :=
      memStage_congr fun hr => hloads k _ ((load_mem_programAccesses imem undef dmem k _).mpr ⟨hr, rfl⟩)
    simp only [ArchState.step, ArchState.writeBackData, hread]

theorem LoadsInRange.memReadData_eq (undef' : Word → Word) (n : Nat) :
    (pipelineAt imem undef dmem n).memReadData undef = (pipelineAt imem undef dmem n).memReadData undef' := by
  refine memStage_congr fun hr => ?_
  have h := pipelineAt_refines imem undef dmem n
  cases hm : (occupancyAt imem undef dmem n).mem with
  | false =>
    rw [(h.exMem_bubble hm).2.1] at hr
    cases hr
  | true =>
    rw [h.exMem hm] at hr ⊢
    exact hloads _ _ ((load_mem_programAccesses imem undef dmem _ _).mpr ⟨hr, rfl⟩)

theorem LoadsInRange.pipelineAt_eq (undef' : Word → Word) (n : Nat) :
    pipelineAt imem undef dmem n = pipelineAt imem undef' dmem n := by
  induction n with
  | zero => rfl
  | succ n ih =>
    rw [pipelineAt_succ, pipelineAt_succ, ← ih]
    simp only [PipelineState.clockEdge, PipelineState.memWbIn, hloads.memReadData_eq undef' n]

end

/-- **Undefined data.** What the data array reads outside its indices is
invisible in every register of the pipeline exactly when no load of the program
goes there. -/
theorem undefined_data_iff (imem : InstrArray) (undef : Word → Word) (dmem : MemArray) :
    (∀ undef' n, pipelineAt imem undef' dmem n = pipelineAt imem undef dmem n) ↔ LoadsInRange imem undef dmem := by
  constructor
  · intro hsame k a ha
    by_contra hrange
    -- the load shows in MEM/WB, whatever its destination
    obtain ⟨hr, rfl⟩ := (load_mem_programAccesses imem undef dmem k a).mp ha
    generalize hn : executeTime imem undef dmem k + 1 = n
    have hexMem : (pipelineAt imem undef dmem n).exMem = (sequentialAt imem undef dmem k).exMem imem := by
      rw [← hn, exMem_at_executeTime]
    have hread : ∀ undef' : Word → Word, (pipelineAt imem undef dmem (n + 1)).memWb.readData =
        undef' ((sequentialAt imem undef dmem k).ex imem).aluResult := fun undef' => by
      have hread : ((sequentialAt imem undef dmem k).exMem imem).memRead = true := hr
      rw [← hsame undef', pipelineAt_succ, hsame undef']
      show (pipelineAt imem undef dmem n).memReadData undef' = _
      rw [PipelineState.memReadData, hexMem, hread]
      exact memStage_undef hrange
    have hne := (hread fun _ => 0#32).symm.trans (hread fun _ => 1#32)
    exact absurd hne (by decide)
  · intro hloads undef' n
    exact (hloads.pipelineAt_eq undef' n).symm

/-! ## Undefined instructions -/

section
variable {rom : Fin 256 → Word} {unmapped : InstrArray} {undef : Word → Word} {dmem : MemArray}

def StaysInRom (rom : Fin 256 → Word) (unmapped : InstrArray) (undef : Word → Word) (dmem : MemArray) : Prop :=
  ∀ k, (sequentialAt (instructionRom rom unmapped) undef dmem k).pc.toNat < 1024

theorem StaysInRom.instruction_eq (hrom : StaysInRom rom unmapped undef dmem) (unmapped' : InstrArray) (k : Nat) :
    (sequentialAt (instructionRom rom unmapped) undef dmem k).instruction (instructionRom rom unmapped) =
      (sequentialAt (instructionRom rom unmapped) undef dmem k).instruction (instructionRom rom unmapped') := by
  have hindex : ((sequentialAt (instructionRom rom unmapped) undef dmem k).pc.extractLsb 31 2).toNat < 256 := by
    have hpc := hrom k
    rw [BitVec.extractLsb_toNat, Nat.shiftRight_eq_div_pow]
    omega
  simp only [ArchState.instruction, instructionMemory, instructionRom, hindex, dite_true]

/-- **A defined run.** While the program stays inside both arrays, all of the
pipeline but the fetch slot is fixed by the two arrays, in every cycle. -/
theorem defined_run (hrom : StaysInRom rom unmapped undef dmem)
    (hloads : LoadsInRange (instructionRom rom unmapped) undef dmem) (unmapped' : InstrArray) (undef' : Word → Word)
    (n : Nat) :
    let s := pipelineAt (instructionRom rom unmapped) undef dmem n
    let s' := pipelineAt (instructionRom rom unmapped') undef' dmem n
    s.pc = s'.pc ∧ s.idEx = s'.idEx ∧ s.exMem = s'.exMem ∧ s.memWb = s'.memWb ∧ s.registers = s'.registers ∧
      s.memory = s'.memory := by
  intro s s'
  have hagree : ∀ k, (sequentialAt (instructionRom rom unmapped) undef' dmem k).instruction (instructionRom rom unmapped) =
      (sequentialAt (instructionRom rom unmapped) undef' dmem k).instruction (instructionRom rom unmapped') := fun k => by
    rw [← hloads.sequentialAt_eq undef' k]
    exact hrom.instruction_eq unmapped' k
  have hs : s = pipelineAt (instructionRom rom unmapped) undef' dmem n := hloads.pipelineAt_eq undef' n
  rw [hs]
  obtain ⟨hpc, hidEx, hregisters, hmemory⟩ := pipelineAt_front_congr hagree n
  obtain ⟨hexMem, hmemWb⟩ := pipelineAt_back_congr hagree n
  exact ⟨hpc, hidEx, hexMem, hmemWb, hregisters, hmemory⟩

end

/-- `lw x1, 4(x0)`, a jump to the last word of the array, and a jump to itself
there. The two words behind it are fetched from beyond the end. -/
def lastWordProgram : Fin 256 → Word := fun i =>
  if i = 0 then encode (.lw 1#5 0#5 4#12) else if i = 1 then encode (.jal 0#5 508#20) else encode (.jal 0#5 0#20)

def lastWordImem : InstrArray := instructionRom lastWordProgram fun _ => 0#32

def lastWordRun : Nat → ArchState := sequentialAt lastWordImem (fun _ => 0#32) fun _ => 7#32

theorem lastWordRun_load : ((lastWordRun 0).ex lastWordImem).aluResult = 4#32 := by decide
theorem lastWordRun_jump : (lastWordRun 1).instruction lastWordImem = encode (.jal 0#5 508#20) := by decide
theorem lastWordRun_park : (lastWordRun 2).instruction lastWordImem = encode (.jal 0#5 0#20) := by decide

theorem lastWordRun_cases :
    ∀ k, lastWordRun k = lastWordRun 0 ∨ lastWordRun k = lastWordRun 1 ∨ lastWordRun k = lastWordRun 2
  | 0 => .inl rfl
  | 1 => .inr (.inl rfl)
  | k + 2 => by
    rw [Nat.add_comm]
    exact .inr (.inr (sequentialAt_parked (ArchState.step_jal_self _ _ _ lastWordRun_park) k))

theorem defined_run_last_word :
    let s := pipelineAt (instructionRom lastWordProgram fun _ => 0#32) (fun _ => 0#32) (fun _ => 7#32) 6
    let s' := pipelineAt (instructionRom lastWordProgram fun _ => 1#32) (fun _ => 1#32) (fun _ => 7#32) 6
    s.ifId.instruction ≠ s'.ifId.instruction ∧ s.pc = s'.pc ∧ s.idEx = s'.idEx ∧ s.exMem = s'.exMem ∧
      s.memWb = s'.memWb ∧ s.registers = s'.registers ∧ s.memory = s'.memory := by
  have hrom : StaysInRom lastWordProgram (fun _ => 0#32) (fun _ => 0#32) (fun _ => 7#32) := by
    intro k
    show (lastWordRun k).pc.toNat < 1024
    rcases lastWordRun_cases k with hk | hk | hk <;> rw [hk] <;> decide
  have hjal : ∀ {σ : ArchState} {offset}, σ.instruction lastWordImem = encode (.jal 0#5 offset) →
      (σ.control lastWordImem).memRead = false := by
    intro σ offset h
    rw [ArchState.control, h]
    simp only [encode, jType, uType, opcodeOf_word]
    rfl
  have hloads : LoadsInRange lastWordImem (fun _ => 0#32) (fun _ => 7#32) := by
    intro k a ha
    obtain ⟨hr, rfl⟩ := (load_mem_programAccesses _ _ _ k a).mp ha
    have hr' : ((lastWordRun k).control lastWordImem).memRead = true := hr
    show ((lastWordRun k).ex lastWordImem).aluResult.toNat < 256
    rcases lastWordRun_cases k with hk | hk | hk
    · rw [hk, lastWordRun_load]
      decide
    · rw [hk, hjal lastWordRun_jump] at hr'
      cases hr'
    · rw [hk, hjal lastWordRun_park] at hr'
      cases hr'
  exact ⟨by decide, defined_run hrom hloads (fun _ => 1#32) (fun _ => 1#32) 6⟩

end RiscV
