import RiscV.AddressPairs
import RiscV.Schedule

/-!
# Throughput

The arrays when an instruction is in execute, when it has completed, and how far
apart two completions can be: a cycle at least and three at most, whatever the
program.
-/

namespace RiscV

open InOrder

section
variable (imem : InstrArray) (undef : Word → Word) (dmem : MemArray)

theorem retiredAt_executeTime (k : Nat) : retiredAt imem undef dmem (executeTime imem undef dmem k + 2) = k := by
  rw [retiredAt_succ_succ, (occupancyAt_executeTime imem undef dmem k).2]

theorem memory_at_executeTime (k : Nat) :
    (pipelineAt imem undef dmem (executeTime imem undef dmem k + 1)).memory = (sequentialAt imem undef dmem k).memory := by
  rw [pipelineAt_memory, retiredAt_executeTime]

theorem registers_at_executeTime (k : Nat) :
    (pipelineAt imem undef dmem (executeTime imem undef dmem k + 2)).registers =
      (sequentialAt imem undef dmem k).registers := by
  rw [pipelineAt_registers, retiredAt_executeTime]

theorem executeTime_step (k : Nat) :
    executeTime imem undef dmem k + 1 ≤ executeTime imem undef dmem (k + 1) ∧
      executeTime imem undef dmem (k + 1) ≤ executeTime imem undef dmem k + 3 := by
  rw [executeTime_succ]
  -- a load-use pair and a transfer never meet in one instruction
  have hexcl := loadUse_not_redirects imem undef dmem k
  rw [← feedsNext_eq_loadUse, ← transfersAt_eq_redirectsAt] at hexcl
  by_cases hl : feedsNext imem undef dmem k = true
  · rw [hexcl hl, hl]
    simp
  · by_cases ht : transfersAt imem undef dmem k = true
    · simp [hl, ht]
    · simp [hl, ht]

theorem executeTime_bounds (k : Nat) :
    k + 2 ≤ executeTime imem undef dmem k ∧ executeTime imem undef dmem k ≤ 3 * k + 2 := by
  induction k with
  | zero => exact ⟨Nat.le_refl 2, Nat.le_refl 2⟩
  | succ k ih =>
    have hstep := executeTime_step imem undef dmem k
    omega

theorem lt_retiredAt_iff (k n : Nat) : k < retiredAt imem undef dmem n ↔ executeTime imem undef dmem k + 3 ≤ n := by
  have hbefore := retiredAt_executeTime imem undef dmem k
  have hafter : retiredAt imem undef dmem (executeTime imem undef dmem k + 3) = k + 1 := by
    obtain ⟨hx, hk⟩ := occupancyAt_executeTime imem undef dmem k
    rw [retiredAt_succ_succ, occupancyAt_succ, next_eq_advance, Occupancy.advance_exIndex, Occupancy.issued_of_ex hx, hk]
  constructor
  · intro hk
    by_contra hn
    have hle := retiredAt_mono imem undef dmem (show n ≤ executeTime imem undef dmem k + 2 by omega)
    omega
  · intro hn
    have hle := retiredAt_mono imem undef dmem hn
    omega

/-- **Throughput.** Instruction `k` has completed once `E(k) + 3` edges have
passed. Once the pipeline has filled, an instruction completes in every three
cycles. The first four edges complete none, and `m` more complete `m` at most and
a third of `m` at least. -/
theorem throughput :
    (∀ k n, k < (completedLog imem undef dmem n).length ↔ executeTime imem undef dmem k + 3 ≤ n) ∧
      (∀ n, 2 ≤ n → (completedLog imem undef dmem n).length < (completedLog imem undef dmem (n + 3)).length) ∧
      ∀ n, (completedLog imem undef dmem n).length ≤ n - 4 ∧ n ≤ 3 * (completedLog imem undef dmem n).length + 4 := by
  simp only [length_completedLog]
  refine ⟨lt_retiredAt_iff imem undef dmem, fun n hn => ?_, fun n => ?_⟩
  · rw [lt_retiredAt_iff]
    cases hk : retiredAt imem undef dmem n with
    | zero =>
      have hzero := executeTime_bounds imem undef dmem 0
      omega
    | succ k =>
      have hdone := (lt_retiredAt_iff imem undef dmem k n).mp (by omega)
      have hstep := executeTime_step imem undef dmem k
      omega
  · have hnext := (lt_retiredAt_iff imem undef dmem (retiredAt imem undef dmem n) n).not.mp (Nat.lt_irrefl _)
    have hbounds := executeTime_bounds imem undef dmem (retiredAt imem undef dmem n)
    refine ⟨?_, by omega⟩
    cases hk : retiredAt imem undef dmem n with
    | zero => exact Nat.zero_le _
    | succ k =>
      have hdone := (lt_retiredAt_iff imem undef dmem k n).mp (by omega)
      have hfirst := executeTime_bounds imem undef dmem k
      omega

end

end RiscV
