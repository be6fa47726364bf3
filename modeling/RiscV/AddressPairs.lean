import RiscV.Commits
import RiscV.Rv32iSound

/-!
# Constants and addresses in two instructions

LUI and ADDI put any constant into a register, AUIPC and JALR call any address:
one after the other in the sequential run, and so in the pipeline once the pair
has left it.
-/

namespace RiscV

open InOrder WriteLog Rv32i

/-! ## One instruction of a pair -/

namespace ArchState

variable {imem : InstrArray} (undef : Word → Word) {σ : ArchState} {r : RegIdx}

theorem readArray_apply {e : Effect} {v : Word} (he : e.write = writeTo r v) (hr : r ≠ 0#5) :
    readArray (σ.apply e).registers r = v := by
  rw [readArray, if_neg hr, apply, he, writeTo, if_neg hr]
  exact Function.update_self ..

theorem lui_step {imm : BitVec 20} (h : σ.instruction imem = encode (.lui r imm)) (hr : r ≠ 0#5) :
    (σ.step imem undef).pc = σ.pc + 4#32 ∧
      readArray (σ.step imem undef).registers r = wrap (imm.toNat * 2 ^ 12) := by
  rw [σ.step_rv32i imem undef h]
  exact ⟨wrap_next _, readArray_apply rfl hr⟩

theorem auipc_step {imm : BitVec 20} (h : σ.instruction imem = encode (.auipc r imm)) (hr : r ≠ 0#5) :
    (σ.step imem undef).pc = σ.pc + 4#32 ∧
      readArray (σ.step imem undef).registers r = σ.pc + wrap (imm.toNat * 2 ^ 12) := by
  rw [σ.step_rv32i imem undef h]
  refine ⟨wrap_next _, (readArray_apply rfl hr).trans ?_⟩
  rw [wrap_add, wrap_toNat]

theorem addi_step {imm : BitVec 12} (h : σ.instruction imem = encode (.imm .addi r r imm)) (hr : r ≠ 0#5) :
    readArray (σ.step imem undef).registers r = readArray σ.registers r + wrap imm.toInt := by
  rw [σ.step_rv32i imem undef h]
  exact (readArray_apply rfl hr).trans (wrap_eval_add ..)

theorem jalr_step {imm : BitVec 12} (h : σ.instruction imem = encode (.jalr r r imm)) (hr : r ≠ 0#5) :
    (σ.step imem undef).pc = (readArray σ.registers r + wrap imm.toInt) &&& ~~~1#32 ∧
      readArray (σ.step imem undef).registers r = σ.pc + 4#32 := by
  rw [σ.step_rv32i imem undef h]
  refine ⟨?_, (readArray_apply rfl hr).trans (wrap_next _)⟩
  have htarget := wrap_even ((readArray σ.registers r).toInt + imm.toInt)
  rw [wrap_add, wrap_toInt] at htarget
  exact htarget

/-! ## Pairs in the sequential machine -/

theorem lui_addi_step {c : Word} (hr : r ≠ 0#5)
    (hlui : instructionMemory imem σ.pc = encode (.lui r (upper c)))
    (haddi : instructionMemory imem (σ.pc + 4#32) = encode (.imm .addi r r (lower c))) :
    readArray ((σ.step imem undef).step imem undef).registers r = c := by
  obtain ⟨hpc, hreg⟩ := lui_step undef hlui hr
  rw [← hpc] at haddi
  rw [addi_step undef haddi hr, hreg, upper_add_lower]

theorem auipc_jalr_step {c : Word} (hr : r ≠ 0#5)
    (hauipc : instructionMemory imem σ.pc = encode (.auipc r (upper c)))
    (hjalr : instructionMemory imem (σ.pc + 4#32) = encode (.jalr r r (lower c))) :
    ((σ.step imem undef).step imem undef).pc = (σ.pc + c) &&& ~~~1#32 ∧
      readArray ((σ.step imem undef).step imem undef).registers r = σ.pc + 8#32 := by
  obtain ⟨hpc, hreg⟩ := auipc_step undef hauipc hr
  rw [← hpc] at hjalr
  obtain ⟨htarget, hlink⟩ := jalr_step undef hjalr hr
  rw [htarget, hlink, hreg, hpc, BitVec.add_assoc, upper_add_lower, BitVec.add_assoc]
  exact ⟨rfl, rfl⟩

end ArchState

/-! ## Pairs in the pipeline -/

section
variable (imem : InstrArray) (undef : Word → Word) (dmem : MemArray)

def completedLog (n : Nat) : List Word := collect (fun i => (pipelineCommit imem undef dmem i).completed) n

/-- The instructions from number `k` on complete at the addresses `pcs`, and
when the last of them is the latest to have completed, `P` holds. -/
def CompletesWith (k : Nat) (pcs : List Word) (P : PipelineState → Prop) : Prop :=
  (∃ n, (completedLog imem undef dmem n).length = k + pcs.length) ∧
    ∀ n, (completedLog imem undef dmem n).length = k + pcs.length →
      (completedLog imem undef dmem n).drop k = pcs ∧ P (pipelineAt imem undef dmem n)

variable {imem undef dmem}

theorem completedLog_eq (n : Nat) :
    completedLog imem undef dmem n =
      (List.range (retiredAt imem undef dmem n)).map fun j => (sequentialAt imem undef dmem j).pc :=
  (completed_eq imem undef dmem n).trans (collect_singleton _ _)

theorem length_completedLog (n : Nat) : (completedLog imem undef dmem n).length = retiredAt imem undef dmem n := by
  rw [completedLog_eq, List.length_map, List.length_range]

theorem completesWith_of_sequential {k : Nat} {pcs : List Word} {P : PipelineState → Prop}
    (hpcs : (List.range pcs.length).map (fun j => (sequentialAt imem undef dmem (k + j)).pc) = pcs)
    (hP : ∀ s : PipelineState, s.registers = (sequentialAt imem undef dmem (k + pcs.length)).registers → P s) :
    CompletesWith imem undef dmem k pcs P := by
  obtain ⟨n, hn⟩ := retiredAt_surjective imem undef dmem (k + pcs.length)
  refine ⟨⟨n, (length_completedLog n).trans hn⟩, fun n hn => ?_⟩
  rw [length_completedLog] at hn
  refine ⟨?_, hP _ ?_⟩
  · rw [completedLog_eq, hn, List.range_add, List.map_append, List.map_map,
      List.drop_left' (by rw [List.length_map, List.length_range])]
    exact hpcs
  · rw [pipelineAt_registers, hn]

variable (imem undef dmem) in
/-- **Every constant, every address.** Let the sequential run reach `p`. The
words of LUI and ADDI at `p` and `p + 4` leave `c` in `r` when both have
completed. The words of AUIPC and JALR leave the address behind them in `r`, and
the next instruction to complete is the one at `p + c`, with bit 0 cleared. -/
theorem pairs_reach_every_word {k : Nat} {p : Word} {r : RegIdx} (c : Word)
    (hp : (sequentialAt imem undef dmem k).pc = p) (hr : r ≠ 0#5) :
    (instructionMemory imem p = encode (.lui r (upper c)) →
      instructionMemory imem (p + 4#32) = encode (.imm .addi r r (lower c)) →
      CompletesWith imem undef dmem k [p, p + 4#32] fun s => s.registers r = c) ∧
    (instructionMemory imem p = encode (.auipc r (upper c)) →
      instructionMemory imem (p + 4#32) = encode (.jalr r r (lower c)) →
      CompletesWith imem undef dmem k [p, p + 4#32] (fun s => s.registers r = p + 8#32) ∧
        CompletesWith imem undef dmem k [p, p + 4#32, (p + c) &&& ~~~1#32] fun _ => True) := by
  subst hp
  have hread : ∀ registers : RegArray, readArray registers r = registers r := fun _ => if_neg hr
  have h1 : sequentialAt imem undef dmem (k + 1) = (sequentialAt imem undef dmem k).step imem undef :=
    sequentialAt_succ imem undef dmem k
  have h2 : sequentialAt imem undef dmem (k + 2) =
      ((sequentialAt imem undef dmem k).step imem undef).step imem undef := by
    rw [sequentialAt_succ, h1]
  constructor
  · intro hlui haddi
    have hpc := (ArchState.lui_step undef hlui hr).1
    have hreg := ArchState.lui_addi_step undef hr hlui haddi
    rw [← h1] at hpc
    rw [← h2, hread] at hreg
    refine completesWith_of_sequential ?_ fun s hs => ?_
    · exact congrArg (fun q => [_, q]) hpc
    · rw [hs]; exact hreg
  · intro hauipc hjalr
    have hpc := (ArchState.auipc_step undef hauipc hr).1
    obtain ⟨htarget, hreg⟩ := ArchState.auipc_jalr_step undef hr hauipc hjalr
    rw [← h1] at hpc
    rw [← h2] at htarget
    rw [← h2, hread] at hreg
    constructor
    · refine completesWith_of_sequential ?_ fun s hs => ?_
      · exact congrArg (fun q => [_, q]) hpc
      · rw [hs]; exact hreg
    · refine completesWith_of_sequential ?_ fun _ _ => trivial
      exact congrArg₂ (fun q q' => [_, q, q']) hpc htarget

def pairProgram (first second : Instr) : InstrArray := fun i => if i = 0#30 then encode first else encode second

/-- The constant 0xDEADBEEF, whose low part is negative, and a call of 0x12345FFF. -/
theorem pairs_reach_deadbeef :
    CompletesWith (pairProgram (.lui 1#5 0xDEADC#20) (.imm .addi 1#5 1#5 0xEEF#12)) (fun _ => 0#32) (fun _ => 0#32) 0
        [0#32, 4#32] (fun s => s.registers 1#5 = 0xDEADBEEF#32) ∧
      CompletesWith (pairProgram (.auipc 1#5 0x12346#20) (.jalr 1#5 1#5 0xFFF#12)) (fun _ => 0#32) (fun _ => 0#32) 0
        [0#32, 4#32] (fun s => s.registers 1#5 = 8#32) ∧
      CompletesWith (pairProgram (.auipc 1#5 0x12346#20) (.jalr 1#5 1#5 0xFFF#12)) (fun _ => 0#32) (fun _ => 0#32) 0
        [0#32, 4#32, 0x12345FFE#32] fun _ => True :=
  ⟨(pairs_reach_every_word _ _ _ 0xDEADBEEF#32 rfl (by decide)).1 (by decide) (by decide),
    (pairs_reach_every_word _ _ _ 0x12345FFF#32 rfl (by decide)).2 (by decide) (by decide)⟩

end

end RiscV
