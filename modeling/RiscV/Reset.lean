import RiscV.Architectural

/-!
# Resets at any time

The bench plays clock edges and reset changes on `cpu_pipeline`, from its first
reset on. The data memory has no reset input: at the moment of a reset it holds
what a whole number of instructions of the period before left in it.
-/

namespace RiscV

open Clocked

section
variable (imem : InstrArray) (undef : Word → Word) (dmem : MemArray)

/-- `cpu_pipeline` after the events `es`, from a first reset with `dmem` in the
data memory. -/
def bench (es : List Event) : Bench PipelineState := (cpuPipeline imem undef).play ⟨true, .cleared dmem⟩ es

theorem edge_cleared (s : PipelineState) :
    (cpuPipeline imem undef).edge true ((cpuPipeline imem undef).clear s) = (cpuPipeline imem undef).clear s := rfl

theorem bench_append (es es' : List Event) :
    bench imem undef dmem (es ++ es') = (cpuPipeline imem undef).play (bench imem undef dmem es) es' :=
  Circuit.play_append _ _ es es'

variable {imem undef dmem}

theorem bench_high {es : List Event} (hr : (bench imem undef dmem es).reset = true) :
    bench imem undef dmem es = ⟨true, .cleared (bench imem undef dmem es).state.memory⟩ := by
  obtain ⟨s, hs⟩ := (cpuPipeline imem undef).play_high (edge_cleared imem undef) (.cleared dmem) es hr
  have hb : bench imem undef dmem es = ⟨true, .cleared s.memory⟩ := hs
  rw [hb]
  rfl

variable (imem undef dmem) in
/-- The cycles that follow the events `es`: those of a period out of reset, or
no change. -/
theorem bench_cycles (es : List Event) :
    (∃ M n, ∀ k, (bench imem undef dmem (es ++ List.replicate k .clock)).state = pipelineAt imem undef M (n + k)) ∨
      ∃ M, ∀ k, (bench imem undef dmem (es ++ List.replicate k .clock)).state = .cleared M := by
  cases hr : (bench imem undef dmem es).reset with
  | true =>
    have hhigh := bench_high hr
    generalize (bench imem undef dmem es).state.memory = M at hhigh
    refine .inr ⟨M, fun k => ?_⟩
    have hrelease : Event.release ∉ List.replicate k Event.clock := by simp
    rw [bench_append, hhigh]
    exact congrArg Bench.state ((cpuPipeline imem undef).play_held (edge_cleared imem undef (.cleared M)) hrelease)
  | false =>
    obtain ⟨s, n, hs, -⟩ := (cpuPipeline imem undef).play_state (edge_cleared imem undef) (.cleared dmem) es
    refine .inl ⟨s.memory, n, fun k => ?_⟩
    have hb : bench imem undef dmem es = ⟨false, pipelineAt imem undef s.memory n⟩ :=
      (Bench.mk.injEq ..).mpr ⟨hr, hs⟩
    have hassert : Event.assert ∉ List.replicate k Event.clock := by simp
    rw [bench_append, hb, Circuit.play_running _ _ hassert, List.count_replicate_self, Nat.add_comm]
    exact ((cpuPipeline imem undef).cycles_add k n _).symm

/-- **Reset is a clean cut.** Let reset be high after `es`. While it stays high
nothing changes. Once released, the pipeline runs as a fresh one on the data
memory `M` found then. When reset is asserted again, the data memory stays what
it was at that moment, and that is `M` after a whole number of instructions. -/
theorem reset_clean_cut {es active held : List Event} (hes : (bench imem undef dmem es).reset = true)
    (hactive : .assert ∉ active) (hheld : .release ∉ held) :
    bench imem undef dmem (es ++ held) = bench imem undef dmem es ∧
      (bench imem undef dmem (es ++ .release :: active)).state =
        pipelineAt imem undef (bench imem undef dmem es).state.memory (active.count .clock) ∧
      (bench imem undef dmem (es ++ (.release :: active ++ .assert :: held))).reset = true ∧
      (bench imem undef dmem (es ++ (.release :: active ++ .assert :: held))).state.memory =
        (bench imem undef dmem (es ++ .release :: active)).state.memory ∧
      ∃ k, (bench imem undef dmem (es ++ (.release :: active ++ .assert :: held))).state.memory =
        (sequentialAt imem undef (bench imem undef dmem es).state.memory k).memory := by
  have hhigh := bench_high hes
  generalize (bench imem undef dmem es).state.memory = M at hhigh ⊢
  obtain ⟨hrun, hcut⟩ := (cpuPipeline imem undef).play_period (edge_cleared imem undef) (s := .cleared M) hactive hheld
  have hrun' : bench imem undef dmem (es ++ .release :: active) =
      ⟨false, pipelineAt imem undef M (active.count .clock)⟩ := by
    rw [bench_append, hhigh]; exact hrun
  have hcut' : bench imem undef dmem (es ++ (.release :: active ++ .assert :: held)) =
      ⟨true, .cleared (pipelineAt imem undef M (active.count .clock)).memory⟩ := by
    rw [bench_append, hhigh]; exact hcut
  rw [hrun', hcut']
  refine ⟨?_, rfl, rfl, rfl, _, pipelineAt_memory imem undef M _⟩
  rw [bench_append, hhigh]
  exact (cpuPipeline imem undef).play_held (edge_cleared imem undef (.cleared M)) hheld

/-- Four edges of a program of stores, cut off with a store in EX/MEM. -/
theorem reset_clean_cut_stores :
    ∃ k, (bench (fun _ => 0x00002023#32) (fun _ => 0#32) (fun _ => 7#32)
        [.release, .clock, .clock, .clock, .clock, .assert, .clock]).state.memory =
      (sequentialAt (fun _ => 0x00002023#32) (fun _ => 0#32) (fun _ => 7#32) k).memory := by
  have hes : (bench (fun _ => 0x00002023#32) (fun _ => 0#32) (fun _ => 7#32) []).reset = true := rfl
  have hactive : Event.assert ∉ [Event.clock, .clock, .clock, .clock] := by decide
  have hheld : Event.release ∉ [Event.clock] := by decide
  obtain ⟨-, -, -, -, hk⟩ := reset_clean_cut hes hactive hheld
  exact hk

end

end RiscV
