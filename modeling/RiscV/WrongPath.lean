import RiscV.PipelineSound
import RiscV.Rv32iSound

/-!
# Words that are never executed

Two instruction memories that agree on every word of the sequential run give
the same sequential run, hence the same timetable, and `Refines` then leaves
only the fetch slot behind a redirect to differ. The next edge clears it.
-/

namespace RiscV

open InOrder

section
variable {imem₁ imem₂ : InstrArray} {undef : Word → Word} {dmem : MemArray}

/-! ## The sequential machine reads one word per step -/

section
variable {σ : ArchState} (h : σ.instruction imem₁ = σ.instruction imem₂)
include h

theorem ArchState.control_congr : σ.control imem₁ = σ.control imem₂ := by
  simp only [ArchState.control, h]

theorem ArchState.ex_congr : σ.ex imem₁ = σ.ex imem₂ := by
  simp only [ArchState.ex, ArchState.exPorts, ArchState.control_congr h, h]

theorem ArchState.redirects_congr : σ.redirects imem₁ = σ.redirects imem₂ := by
  simp only [ArchState.redirects, ArchState.ex_congr h, ArchState.control_congr h]

theorem ArchState.step_congr : σ.step imem₁ undef = σ.step imem₂ undef := by
  simp only [ArchState.step, ArchState.redirects_congr h, ArchState.writeBackData, ArchState.memReadData,
    ArchState.ex_congr h, ArchState.control_congr h, h]

theorem ArchState.idEx_congr (registers : RegArray) : σ.idEx imem₁ registers = σ.idEx imem₂ registers := by
  simp only [ArchState.idEx, ArchState.control_congr h, h]

end

section
variable (hagree : ∀ k, (sequentialAt imem₁ undef dmem k).instruction imem₁ =
  (sequentialAt imem₁ undef dmem k).instruction imem₂)
include hagree

theorem sequentialAt_congr (k : Nat) : sequentialAt imem₁ undef dmem k = sequentialAt imem₂ undef dmem k := by
  induction k with
  | zero => rfl
  | succ k ih => rw [sequentialAt_succ, sequentialAt_succ, ArchState.step_congr (hagree k), ih]

theorem loadUse_congr : loadUse imem₁ undef dmem = loadUse imem₂ undef dmem := by
  funext k
  unfold loadUse
  rw [ArchState.control_congr (hagree k), hagree k, hagree (k + 1), sequentialAt_congr hagree,
    sequentialAt_congr hagree]

theorem redirectsAt_congr : redirectsAt imem₁ undef dmem = redirectsAt imem₂ undef dmem := by
  funext k
  unfold redirectsAt
  rw [ArchState.redirects_congr (hagree k), sequentialAt_congr hagree]

theorem occupancyAt_congr (n : Nat) : occupancyAt imem₁ undef dmem n = occupancyAt imem₂ undef dmem n := by
  unfold occupancyAt
  rw [loadUse_congr hagree, redirectsAt_congr hagree]

/-! ## The pipeline outside the fetch slot -/

/-- What the timetable fixes of the state in both runs. -/
theorem pipelineAt_front_congr (n : Nat) :
    (pipelineAt imem₁ undef dmem n).pc = (pipelineAt imem₂ undef dmem n).pc ∧
      (pipelineAt imem₁ undef dmem n).idEx = (pipelineAt imem₂ undef dmem n).idEx ∧
      (pipelineAt imem₁ undef dmem n).registers = (pipelineAt imem₂ undef dmem n).registers ∧
      (pipelineAt imem₁ undef dmem n).memory = (pipelineAt imem₂ undef dmem n).memory := by
  have h₁ := pipelineAt_refines imem₁ undef dmem n
  have h₂ := pipelineAt_refines imem₂ undef dmem n
  rw [← occupancyAt_congr hagree n] at h₂
  generalize occupancyAt imem₁ undef dmem n = o at h₁ h₂
  have hseq := sequentialAt_congr hagree
  refine ⟨?_, ?_, ?_, ?_⟩
  · cases hf : o.fetched with
    | false => rw [h₁.pc_refill hf, h₂.pc_refill hf, hseq]
    | true => rw [h₁.pc hf, h₂.pc hf, fetchPc, fetchPc, hseq]
  · cases hx : o.ex with
    | false => rw [h₁.idEx_bubble hx, h₂.idEx_bubble hx]
    | true => rw [h₁.idEx hx, h₂.idEx hx, ArchState.idEx_congr (hagree _), hseq, hseq]
  · rw [h₁.registers, h₂.registers, hseq]
  · rw [h₁.memory, h₂.memory, hseq]

end

theorem clockEdge_back_congr {s₁ s₂ : PipelineState} (hx : s₁.idEx = s₂.idEx) (hm : s₁.exMem = s₂.exMem)
    (hw : s₁.memWb = s₂.memWb) (hd : s₁.memory = s₂.memory) :
    (s₁.clockEdge imem₁ undef false).exMem = (s₂.clockEdge imem₂ undef false).exMem ∧
      (s₁.clockEdge imem₁ undef false).memWb = (s₂.clockEdge imem₂ undef false).memWb := by
  have hports : s₁.exPorts = s₂.exPorts := by
    simp only [PipelineState.exPorts, PipelineState.forwarding, PipelineState.wbWriteBackData, hx, hm, hw]
  constructor
  · simp only [PipelineState.clockEdge, PipelineState.exMemIn, PipelineState.ex, hports, hx]
  · simp only [PipelineState.clockEdge, PipelineState.memWbIn, PipelineState.memReadData, hm, hd]

theorem pipelineAt_back_congr
    (hagree : ∀ k, (sequentialAt imem₁ undef dmem k).instruction imem₁ =
      (sequentialAt imem₁ undef dmem k).instruction imem₂) (n : Nat) :
    (pipelineAt imem₁ undef dmem n).exMem = (pipelineAt imem₂ undef dmem n).exMem ∧
      (pipelineAt imem₁ undef dmem n).memWb = (pipelineAt imem₂ undef dmem n).memWb := by
  induction n with
  | zero => exact ⟨rfl, rfl⟩
  | succ n ih =>
    obtain ⟨-, hx, -, hd⟩ := pipelineAt_front_congr hagree n
    rw [pipelineAt_succ, pipelineAt_succ]
    exact clockEdge_back_congr hx ih.1 ih.2 hd

/-- **Wrong-path words are invisible.** -/
theorem wrong_path_invisible
    (hagree : ∀ k, (sequentialAt imem₁ undef dmem k).instruction imem₁ =
      (sequentialAt imem₁ undef dmem k).instruction imem₂) (n : Nat) :
    (pipelineAt imem₁ undef dmem n).pc = (pipelineAt imem₂ undef dmem n).pc ∧
      (pipelineAt imem₁ undef dmem n).idEx = (pipelineAt imem₂ undef dmem n).idEx ∧
      (pipelineAt imem₁ undef dmem n).exMem = (pipelineAt imem₂ undef dmem n).exMem ∧
      (pipelineAt imem₁ undef dmem n).memWb = (pipelineAt imem₂ undef dmem n).memWb ∧
      (pipelineAt imem₁ undef dmem n).registers = (pipelineAt imem₂ undef dmem n).registers ∧
      (pipelineAt imem₁ undef dmem n).memory = (pipelineAt imem₂ undef dmem n).memory := by
  obtain ⟨hpc, hx, hr, hd⟩ := pipelineAt_front_congr hagree n
  obtain ⟨hm, hw⟩ := pipelineAt_back_congr hagree n
  exact ⟨hpc, hx, hm, hw, hr, hd⟩

end

/-! ## A jump to itself, with stores behind it -/

def jumpToSelf (filler : Word) : InstrArray := fun i => if i = 0#30 then 0x0000006F#32 else filler

theorem jumpToSelf_instruction (filler : Word) {σ : ArchState} (h : σ.pc = 0#32) :
    σ.instruction (jumpToSelf filler) = 0x0000006F#32 := by
  rw [ArchState.instruction, h]; rfl

theorem jumpToSelf_pc (filler : Word) (undef : Word → Word) (dmem : MemArray) (k : Nat) :
    (sequentialAt (jumpToSelf filler) undef dmem k).pc = 0#32 := by
  induction k with
  | zero => rfl
  | succ k ih =>
    rw [sequentialAt_succ, ArchState.step_jal_self _ _ _ (jumpToSelf_instruction filler ih), ih]

/-- `sw x0, 0(x0)` against `addi x1, x0, 1` in the shadow of the jump. -/
theorem wrong_path_invisible_jumpToSelf :
    (pipelineAt (jumpToSelf 0x00002023#32) (fun _ => 0#32) (fun _ => 7#32) 9).idEx =
        (pipelineAt (jumpToSelf 0x00100093#32) (fun _ => 0#32) (fun _ => 7#32) 9).idEx ∧
      (pipelineAt (jumpToSelf 0x00002023#32) (fun _ => 0#32) (fun _ => 7#32) 9).memory =
        (pipelineAt (jumpToSelf 0x00100093#32) (fun _ => 0#32) (fun _ => 7#32) 9).memory := by
  have hagree : ∀ k,
      (sequentialAt (jumpToSelf 0x00002023#32) (fun _ => 0#32) (fun _ => 7#32) k).instruction
          (jumpToSelf 0x00002023#32) =
        (sequentialAt (jumpToSelf 0x00002023#32) (fun _ => 0#32) (fun _ => 7#32) k).instruction
          (jumpToSelf 0x00100093#32) := fun k => by
    rw [ArchState.instruction, ArchState.instruction, jumpToSelf_pc]; rfl
  obtain ⟨-, hx, -, -, -, hd⟩ := wrong_path_invisible hagree 9
  exact ⟨hx, hd⟩

end RiscV
