import RiscV.PipelineSound

/-!
# The architectural state of the pipeline

Corollaries of the refinement that speak of `cpu_pipeline` and the sequential
machine alone: the two arrays after every number of edges, and the values the
execute stage works on.
-/

namespace RiscV

open InOrder

section
variable (imem : InstrArray) (undef : Word → Word) (dmem : MemArray)

/-- The number of instructions that have left the pipeline after `n` edges. -/
def retiredAt (n : Nat) : Nat := (occupancyAt imem undef dmem n).retired

theorem retiredAt_succ (n : Nat) : retiredAt imem undef dmem (n + 1) = (occupancyAt imem undef dmem n).memIndex :=
  retired_succ n

theorem retiredAt_succ_succ (n : Nat) :
    retiredAt imem undef dmem (n + 2) = (occupancyAt imem undef dmem n).exIndex := by
  rw [retiredAt_succ, occupancyAt, occupancy_succ_advance, Occupancy.advance_memIndex]
  rfl

theorem pipelineAt_registers (n : Nat) :
    (pipelineAt imem undef dmem n).registers =
      (sequentialAt imem undef dmem (retiredAt imem undef dmem n)).registers :=
  (pipelineAt_refines imem undef dmem n).registers

/-- The memory stage has already stored for the instruction in write-back, which
retires on the next edge. -/
theorem pipelineAt_memory (n : Nat) :
    (pipelineAt imem undef dmem n).memory =
      (sequentialAt imem undef dmem (retiredAt imem undef dmem (n + 1))).memory := by
  rw [(pipelineAt_refines imem undef dmem n).memory, retiredAt_succ]

theorem retiredAt_mono : Monotone (retiredAt imem undef dmem) := retired_mono

theorem retiredAt_succ_le (n : Nat) : retiredAt imem undef dmem (n + 1) ≤ retiredAt imem undef dmem n + 1 :=
  retired_succ_le n

theorem retiredAt_surjective : Function.Surjective (retiredAt imem undef dmem) := fun k =>
  ⟨_, retired_issueTime (loadUse_not_redirects imem undef dmem) k⟩

/-- **The pipeline refines sequential execution.** -/
theorem pipeline_refines_sequential :
    ∃ k : Nat → Nat,
      (∀ n, (pipelineAt imem undef dmem n).registers = (sequentialAt imem undef dmem (k n)).registers ∧
        ∃ k', k n ≤ k' ∧ k' ≤ k n + 1 ∧
          (pipelineAt imem undef dmem n).memory = (sequentialAt imem undef dmem k').memory) ∧
      Monotone k ∧ (∀ n, k (n + 1) ≤ k n + 1) ∧ Function.Surjective k := by
  refine ⟨retiredAt imem undef dmem, fun n => ⟨pipelineAt_registers imem undef dmem n, ?_⟩,
    retiredAt_mono imem undef dmem, retiredAt_succ_le imem undef dmem, retiredAt_surjective imem undef dmem⟩
  exact ⟨retiredAt imem undef dmem (n + 1), retiredAt_mono imem undef dmem (Nat.le_succ n),
    retiredAt_succ_le imem undef dmem n, pipelineAt_memory imem undef dmem n⟩

/-! ## The operand network -/

theorem pipelineAt_registers_drained (n : Nat) :
    (pipelineAt imem undef dmem (n + 2)).registers =
      (sequentialAt imem undef dmem (occupancyAt imem undef dmem n).exIndex).registers := by
  rw [pipelineAt_registers, retiredAt_succ_succ]

theorem select_exMem {i : ForwardingIn} {rs : RegIdx} (h : i.select rs = 0b10#2) :
    i.exMemRegwrite = true ∧ i.exMemRd ≠ 0#5 ∧ i.exMemRd = rs := by
  unfold ForwardingIn.select at h
  split at h
  · assumption
  · split at h <;> simp at h

theorem wbWriteBackData_next (s : PipelineState) (ht : s.exMem.memtoReg = false) (hj : s.exMem.jump = false) :
    (s.clockEdge imem undef false).wbWriteBackData = s.exMem.aluResult := by
  rw [PipelineState.wbWriteBackData, PipelineState.clockEdge, memWbRegister_load, PipelineState.memWbIn, ht, hj]
  rfl

/-- **The operand network.** The latched operands are the register array's; a
value forwarded from EX/MEM is what that instruction writes back, as it is no
load and no jump; and the forwarded operands are the array's once the older
instructions in flight have written back. -/
theorem operand_network (n : Nat) :
    ((pipelineAt imem undef dmem n).idEx.readData1 =
        readArray (pipelineAt imem undef dmem n).registers (pipelineAt imem undef dmem n).idEx.rs1 ∧
      (pipelineAt imem undef dmem n).idEx.readData2 =
        readArray (pipelineAt imem undef dmem n).registers (pipelineAt imem undef dmem n).idEx.rs2) ∧
    ((pipelineAt imem undef dmem n).forwarding.forwardA = 0b10#2 ∨
        (pipelineAt imem undef dmem n).forwarding.forwardB = 0b10#2 →
      (pipelineAt imem undef dmem n).exMem.aluResult = (pipelineAt imem undef dmem (n + 1)).wbWriteBackData ∧
        (pipelineAt imem undef dmem n).exMem.memRead = false ∧
        (pipelineAt imem undef dmem n).exMem.memtoReg = false ∧
        (pipelineAt imem undef dmem n).exMem.jump = false) ∧
    (pipelineAt imem undef dmem n).exPorts.operand1Fwd =
        readArray (pipelineAt imem undef dmem (n + 2)).registers (pipelineAt imem undef dmem n).idEx.rs1 ∧
      (pipelineAt imem undef dmem n).exPorts.operand2Base =
        readArray (pipelineAt imem undef dmem (n + 2)).registers (pipelineAt imem undef dmem n).idEx.rs2 := by
  have h := pipelineAt_refines imem undef dmem n
  have ht := occupancyAt_onTime imem undef dmem n
  refine ⟨h.idEx_readData, fun hsel => ?_, ?_⟩
  · have hfresh : (pipelineAt imem undef dmem n).exMem.memRead = false ∧
        (pipelineAt imem undef dmem n).exMem.memtoReg = false ∧
        (pipelineAt imem undef dmem n).exMem.jump = false := by
      rcases hsel with hsel | hsel
      · obtain ⟨hw, hd, he⟩ := select_exMem hsel
        exact h.exMem_fresh ht (.inl rfl) hw hd he
      · obtain ⟨hw, hd, he⟩ := select_exMem hsel
        exact h.exMem_fresh ht (.inr rfl) hw hd he
    refine ⟨?_, hfresh⟩
    rw [pipelineAt_succ, wbWriteBackData_next imem undef _ hfresh.2.1 hfresh.2.2]
  · rw [pipelineAt_registers_drained]
    exact h.operands ht

end

end RiscV
