import RiscV.Reset
import RiscV.CpuReset

/-!
# Runs with any number of resets

Both implementations from their first reset on, under clock edges and changes of
reset in any order. The data memory passes from period to period, and nothing
else does: it decides, with the clock edges since the last reset, the whole
state.
-/

namespace RiscV

open Clocked Rv32i

section
variable (imem : InstrArray) (undef : Word → Word) (dmem : MemArray)

/-- `cpu_pipeline` cut off by reset: the instructions whose stores are in the
memory are those that have passed MEM. -/
def pipelinePeriod (es : List Event) : Period MemArray :=
  periodAfter (fun m n => (sequentialAt imem undef m (retiredAt imem undef m (n + 1))).memory) id dmem es

/-- `cpu` cut off by reset, where each clock edge has completed an instruction.
The word at address 0 goes on storing in reset. -/
def cpuPeriod (es : List Event) : Period MemArray :=
  periodAfter (fun m n => (sequentialAt imem undef m n).memory) (resetStore imem) dmem es

theorem bench_eq_period (es : List Event) :
    bench imem undef dmem es = (pipelinePeriod imem undef dmem es).bench (pipelineAt imem undef) := by
  have hclear : ∀ m n, (cpuPipeline imem undef).clear (pipelineAt imem undef m n) =
      pipelineAt imem undef (sequentialAt imem undef m (retiredAt imem undef m (n + 1))).memory 0 := fun m n => by
    rw [← pipelineAt_memory]
    exact PipelineState.resetEdge_eq imem undef _
  have hheld : ∀ m, (cpuPipeline imem undef).edge true (pipelineAt imem undef m 0) = pipelineAt imem undef m 0 :=
    fun _ => rfl
  have hedge : ∀ m n, (cpuPipeline imem undef).edge false (pipelineAt imem undef m n) = pipelineAt imem undef m (n + 1) :=
    fun m n => (pipelineAt_succ imem undef m n).symm
  exact Circuit.play_periods _ hclear hheld hedge dmem es

/-- **The pipeline under any resets.** After any events its state is that of the
current period, a fresh run on the memory the periods before have left: each of
them a whole number of sequential instructions from the memory it found. -/
theorem pipeline_periods (es : List Event) :
    let p := pipelinePeriod imem undef dmem es
    (bench imem undef dmem es).reset = p.reset ∧
      (bench imem undef dmem es).state = pipelineAt imem undef p.memory p.clocks ∧
      (bench imem undef dmem es).state.registers =
        (sequentialAt imem undef p.memory (retiredAt imem undef p.memory p.clocks)).registers ∧
      (bench imem undef dmem es).state.memory =
        (sequentialAt imem undef p.memory (retiredAt imem undef p.memory (p.clocks + 1))).memory := by
  intro p
  rw [bench_eq_period]
  exact ⟨rfl, rfl, pipelineAt_registers imem undef _ _, pipelineAt_memory imem undef _ _⟩

end

section
variable {imem : InstrArray} {undef : Word → Word}

theorem cpu_edge_own {σ σ' : ArchState} (hr : σ.readsOwnTarget imem = false) (h : (cpu imem undef).edge false σ σ') :
    σ' = σ.step imem undef := by
  obtain ⟨w, hw, rfl⟩ := h
  exact (Cpu.cycle_own hr (hw.settled (Cpu.exists_satisfies hr))).2

/-- **`cpu` under any resets.** For a program that never executes an instruction
reading the register it writes, there is exactly one state after any events, and
it is that of the current period. -/
theorem cpu_periods (hr : ∀ m k, (sequentialAt imem undef m k).readsOwnTarget imem = false) (dmem : MemArray)
    (es : List Event) (b : Bench ArchState) :
    (cpu imem undef).Plays ⟨true, .initial dmem⟩ es b ↔
      b = (cpuPeriod imem undef dmem es).bench (sequentialAt imem undef) := by
  have hplays : ∀ b, (cpu imem undef).Plays ⟨true, .initial dmem⟩ es b →
      b = (cpuPeriod imem undef dmem es).bench (sequentialAt imem undef) := fun b h => by
    refine Relational.plays_periods (fun m n => rfl) (fun m _ he => clockEdge_in_reset he) (fun m n σ' he => ?_) h
    rw [sequentialAt_succ]
    exact cpu_edge_own (hr m n) he
  constructor
  · exact hplays b
  · rintro rfl
    obtain ⟨b, hb⟩ := Relational.exists_plays exists_cpu_edge ⟨true, .initial dmem⟩ es
    rw [← hplays b hb]
    exact hb

theorem cpu_periods_addi :
    (cpu (fun _ => encode (.imm .addi 1#5 0#5 1#12)) fun _ => 0#32).Plays ⟨true, .initial fun _ => 7#32⟩
      [.release, .clock, .clock, .assert, .clock, .release, .clock]
      ((cpuPeriod (fun _ => encode (.imm .addi 1#5 0#5 1#12)) (fun _ => 0#32) (fun _ => 7#32)
        [.release, .clock, .clock, .assert, .clock, .release, .clock]).bench
          (sequentialAt (fun _ => encode (.imm .addi 1#5 0#5 1#12)) fun _ => 0#32)) := by
  have hr : ∀ σ : ArchState, σ.readsOwnTarget (fun _ => encode (.imm .addi 1#5 0#5 1#12)) =
      (ArchState.initial fun _ => 0#32).readsOwnTarget fun _ => encode (.imm .addi 1#5 0#5 1#12) := fun _ => rfl
  exact (cpu_periods (fun m k => (hr _).trans (by decide)) _ _ _).mpr rfl

end

end RiscV
