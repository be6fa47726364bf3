import RiscV.Hazards

/-!
# Timing

What the control of `cpu_pipeline` gives away of the data it works on. Beside
the program counter it drives two signals, stall and flush; two runs look alike
on them in every cycle exactly when their instructions go the same way.
-/

namespace RiscV

open InOrder

structure Observation where
  pc : Word
  hazardStall : Bool
  pipelineFlush : Bool

def PipelineState.observed (s : PipelineState) : Observation := ⟨s.pc, s.hazardStall, s.pipelineFlush⟩

section
variable {imem : InstrArray} {undef₁ undef₂ : Word → Word} {dmem₁ dmem₂ : MemArray}

theorem hazardStall_eq_holdSignal (n : Nat) :
    (pipelineAt imem undef₁ dmem₁ n).hazardStall =
      holdSignal (loadUse imem undef₁ dmem₁) (redirectsAt imem undef₁ dmem₁) n :=
  (pipelineAt_refines imem undef₁ dmem₁ n).hazardStall (occupancyAt_onTime imem undef₁ dmem₁ n)

theorem pipelineFlush_eq_redirectSignal (n : Nat) :
    (pipelineAt imem undef₁ dmem₁ n).pipelineFlush =
      redirectSignal (loadUse imem undef₁ dmem₁) (redirectsAt imem undef₁ dmem₁) n :=
  (pipelineAt_refines imem undef₁ dmem₁ n).pipelineFlush (occupancyAt_onTime imem undef₁ dmem₁ n)

theorem loadUse_of_pcs (hpc : ∀ k, (sequentialAt imem undef₁ dmem₁ k).pc = (sequentialAt imem undef₂ dmem₂ k).pc) :
    loadUse imem undef₁ dmem₁ = loadUse imem undef₂ dmem₂ := by
  funext k
  simp only [loadUse, ArchState.control, ArchState.instruction, hpc]

theorem pc_at_executeTime (k : Nat) :
    (pipelineAt imem undef₁ dmem₁ (executeTime imem undef₁ dmem₁ k)).pc =
      (sequentialAt imem undef₁ dmem₁ k).pc + 4#32 + 4#32 := by
  obtain ⟨hx, hk⟩ := occupancyAt_executeTime imem undef₁ dmem₁ k
  have hf := (occupancyAt_onTime imem undef₁ dmem₁ _).ex_fetched hx
  rw [(pipelineAt_refines imem undef₁ dmem₁ _).pc hf, fetchPc, if_pos hx, hk]

theorem pc_of_timetable (hpc : ∀ k, (sequentialAt imem undef₁ dmem₁ k).pc = (sequentialAt imem undef₂ dmem₂ k).pc)
    {n : Nat} (ho : occupancyAt imem undef₁ dmem₁ n = occupancyAt imem undef₂ dmem₂ n) :
    (pipelineAt imem undef₁ dmem₁ n).pc = (pipelineAt imem undef₂ dmem₂ n).pc := by
  have h₁ := pipelineAt_refines imem undef₁ dmem₁ n
  have h₂ := pipelineAt_refines imem undef₂ dmem₂ n
  rw [← ho] at h₂
  cases hf : (occupancyAt imem undef₁ dmem₁ n).fetched with
  | false => rw [h₁.pc_refill hf, h₂.pc_refill hf, hpc]
  | true => rw [h₁.pc hf, h₂.pc hf, fetchPc, fetchPc, hpc]

end

/-- **Timing tells the control flow and nothing else.** Two runs of a program,
on whatever data, show the same program counter, stalls and flushes in every
cycle exactly when they execute the same addresses and the same jumps and
branches are taken. -/
theorem same_timing_iff (imem : InstrArray) (undef₁ undef₂ : Word → Word) (dmem₁ dmem₂ : MemArray) :
    (∀ n, (pipelineAt imem undef₁ dmem₁ n).observed = (pipelineAt imem undef₂ dmem₂ n).observed) ↔
      ∀ k, (sequentialAt imem undef₁ dmem₁ k).pc = (sequentialAt imem undef₂ dmem₂ k).pc ∧
        transfersAt imem undef₁ dmem₁ k = transfersAt imem undef₂ dmem₂ k := by
  have hexcl := loadUse_not_redirects imem undef₁ dmem₁
  constructor
  · intro hobs
    have hsignals : loadUse imem undef₁ dmem₁ = loadUse imem undef₂ dmem₂ ∧
        redirectsAt imem undef₁ dmem₁ = redirectsAt imem undef₂ dmem₂ := by
      refine (signals_iff hexcl).mp fun n => ⟨?_, ?_⟩
      · rw [← hazardStall_eq_holdSignal, ← hazardStall_eq_holdSignal]
        exact congrArg Observation.hazardStall (hobs n)
      · rw [← pipelineFlush_eq_redirectSignal, ← pipelineFlush_eq_redirectSignal]
        exact congrArg Observation.pipelineFlush (hobs n)
    have htime : executeTime imem undef₁ dmem₁ = executeTime imem undef₂ dmem₂ := by
      rw [executeTime_eq, executeTime_eq, hsignals.1, hsignals.2]
    intro k
    constructor
    · have hpc : (pipelineAt imem undef₁ dmem₁ (executeTime imem undef₁ dmem₁ k)).pc = _ :=
        congrArg Observation.pc (hobs _)
      rw [pc_at_executeTime, htime] at hpc
      have hpc₂ : (sequentialAt imem undef₁ dmem₁ k).pc + 4#32 + 4#32 =
          (sequentialAt imem undef₂ dmem₂ k).pc + 4#32 + 4#32 := hpc.trans (pc_at_executeTime k)
      simpa only [BitVec.add_left_inj] using hpc₂
    · rw [transfersAt_eq_redirectsAt, transfersAt_eq_redirectsAt, hsignals.2]
  · intro h n
    have hpc := fun k => (h k).1
    have hloads := loadUse_of_pcs hpc
    have hredirects : redirectsAt imem undef₁ dmem₁ = redirectsAt imem undef₂ dmem₂ := by
      rw [← transfersAt_eq_redirectsAt, ← transfersAt_eq_redirectsAt]
      exact funext fun k => (h k).2
    have ho : occupancyAt imem undef₁ dmem₁ n = occupancyAt imem undef₂ dmem₂ n := by
      rw [occupancyAt, occupancyAt, hloads, hredirects]
    unfold PipelineState.observed
    rw [pc_of_timetable hpc ho, hazardStall_eq_holdSignal, hazardStall_eq_holdSignal, pipelineFlush_eq_redirectSignal,
      pipelineFlush_eq_redirectSignal, hloads, hredirects]

end RiscV
