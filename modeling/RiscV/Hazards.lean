import RiscV.Schedule
import RiscV.Reset
import RiscV.Immediates

/-!
# Stalls and flushes

The two events of the pipeline control, over all states a bench can reach: they
never meet, and each is followed by quiet cycles. The stall answers raw bit
fields, so that it is the load-use stall of the documentation only for programs
without a register number in the wrong place.
-/

namespace RiscV

open Clocked InOrder Rv32i

/-! ## Neither collides nor repeats -/

def PipelineState.Quiet (s : PipelineState) : Prop := s.hazardStall = false ∧ s.pipelineFlush = false

section
variable {imem : InstrArray} {undef : Word → Word} {dmem : MemArray}

theorem quiet_cleared (memory : MemArray) : (PipelineState.cleared memory).Quiet := ⟨rfl, rfl⟩

section
variable {n : Nat}

theorem hazardStall_iff :
    (pipelineAt imem undef dmem n).hazardStall = true ↔
      (occupancyAt imem undef dmem n).ex = true ∧
        loadUse imem undef dmem (occupancyAt imem undef dmem n).exIndex = true := by
  rw [(pipelineAt_refines imem undef dmem n).hazardStall (occupancyAt_onTime imem undef dmem n), Bool.and_eq_true]

theorem pipelineFlush_iff :
    (pipelineAt imem undef dmem n).pipelineFlush = true ↔
      (occupancyAt imem undef dmem n).ex = true ∧
        redirectsAt imem undef dmem (occupancyAt imem undef dmem n).exIndex = true := by
  rw [(pipelineAt_refines imem undef dmem n).pipelineFlush (occupancyAt_onTime imem undef dmem n), Bool.and_eq_true]

theorem quiet_of_not_ex (h : (occupancyAt imem undef dmem n).ex = false) : (pipelineAt imem undef dmem n).Quiet := by
  constructor
  · rw [← Bool.not_eq_true, hazardStall_iff, h]
    exact fun h' => by cases h'.1
  · rw [← Bool.not_eq_true, pipelineFlush_iff, h]
    exact fun h' => by cases h'.1

theorem not_stall_and_flush :
    ¬ ((pipelineAt imem undef dmem n).hazardStall = true ∧ (pipelineAt imem undef dmem n).pipelineFlush = true) := by
  rintro ⟨hs, hf⟩
  have hl := loadUse_not_redirects imem undef dmem _ (hazardStall_iff.mp hs).2
  rw [(pipelineFlush_iff.mp hf).2] at hl
  cases hl

theorem quiet_after_stall (h : (pipelineAt imem undef dmem n).hazardStall = true) :
    (pipelineAt imem undef dmem (n + 1)).Quiet := by
  obtain ⟨hx, hl⟩ := hazardStall_iff.mp h
  apply quiet_of_not_ex
  rw [occupancyAt_succ]
  exact not_ex_of_hold hx (loadUse_not_redirects imem undef dmem _ hl) hl

theorem quiet_after_flush (h : (pipelineAt imem undef dmem n).pipelineFlush = true) :
    (pipelineAt imem undef dmem (n + 1)).Quiet ∧ (pipelineAt imem undef dmem (n + 2)).Quiet := by
  obtain ⟨hx, hr⟩ := pipelineFlush_iff.mp h
  constructor
  · apply quiet_of_not_ex
    rw [occupancyAt_succ]
    exact (not_ex_of_redirect hx hr).1
  · apply quiet_of_not_ex
    rw [occupancyAt_succ, occupancyAt_succ]
    exact (not_ex_of_redirect hx hr).2

end

/-- **Stall and flush stay apart.** After any events of a bench, and over the
cycles that follow. -/
theorem stall_flush_apart (imem : InstrArray) (undef : Word → Word) (dmem : MemArray) (es : List Event) :
    let s k := (bench imem undef dmem (es ++ List.replicate k .clock)).state
    ¬ ((s 0).hazardStall = true ∧ (s 0).pipelineFlush = true) ∧
      ((s 0).hazardStall = true → (s 1).Quiet) ∧
      ((s 0).pipelineFlush = true → (s 1).Quiet ∧ (s 2).Quiet) := by
  intro s
  rcases bench_cycles imem undef dmem es with ⟨M, n, h⟩ | ⟨M, h⟩
  · have hs : ∀ k, s k = pipelineAt imem undef M (n + k) := h
    rw [hs, hs, hs]
    exact ⟨not_stall_and_flush, quiet_after_stall, quiet_after_flush⟩
  · have hs : ∀ k, s k = .cleared M := h
    rw [hs, hs, hs]
    have hq := quiet_cleared M
    refine ⟨fun h' => ?_, fun _ => hq, fun _ => ⟨hq, hq⟩⟩
    rw [hq.1] at h'
    cases h'.1

end

/-! ## When the stall is exact -/

/-- The registers an instruction reads, by its format. -/
def sourceRegisters (w : Word) : List RegIdx :=
  match formatOf (opcodeOf w) with
  | some f => (if f.hasRs1 then [rs1Of w] else []) ++ (if f.hasRs2 then [rs2Of w] else [])
  | none => []

/-- The instruction in the fetch slot reads the destination of a load in ID/EX. -/
def PipelineState.NeedsLoad (s : PipelineState) : Prop :=
  s.idEx.memRead = true ∧ s.idEx.rd ≠ 0#5 ∧ s.idEx.rd ∈ sourceRegisters s.ifId.instruction

section
variable (imem : InstrArray) (undef : Word → Word) (dmem : MemArray)

/-- No load of the sequential run is directly followed by an instruction that
has its destination in bits 19:15 or 24:20 but does not read it. -/
def NoStrayFields : Prop :=
  ∀ k, feedsNext imem undef dmem k = true →
    rdOf ((sequentialAt imem undef dmem k).instruction imem) ∈
      sourceRegisters ((sequentialAt imem undef dmem (k + 1)).instruction imem)

end

section
variable {imem : InstrArray} {undef : Word → Word} {dmem : MemArray}

theorem eq_of_mem_sourceRegisters {w : Word} {r : RegIdx} (h : r ∈ sourceRegisters w) : r = rs1Of w ∨ r = rs2Of w := by
  unfold sourceRegisters at h
  split at h
  next f _ =>
    rcases List.mem_append.mp h with h | h
    · exact .inl (List.mem_singleton.mp (List.mem_ite_nil_right.mp h).2)
    · exact .inr (List.mem_singleton.mp (List.mem_ite_nil_right.mp h).2)
  next => cases h

theorem PipelineState.NeedsLoad.hazardStall {s : PipelineState} (h : s.NeedsLoad) : s.hazardStall = true :=
  hazardDetectionUnit_eq_true.mpr ⟨h.1, h.2.1, eq_of_mem_sourceRegisters h.2.2⟩

theorem stalled_pair {n : Nat} (h : (pipelineAt imem undef dmem n).hazardStall = true) :
    let k := (occupancyAt imem undef dmem n).exIndex
    (pipelineAt imem undef dmem n).idEx.rd = rdOf ((sequentialAt imem undef dmem k).instruction imem) ∧
      (pipelineAt imem undef dmem n).ifId.instruction = (sequentialAt imem undef dmem (k + 1)).instruction imem ∧
      feedsNext imem undef dmem k = true := by
  obtain ⟨hx, hl⟩ := hazardStall_iff.mp h
  have href := pipelineAt_refines imem undef dmem n
  have ht := occupancyAt_onTime imem undef dmem n
  have hr := loadUse_not_redirects imem undef dmem _ hl
  refine ⟨?_, ?_, ?_⟩
  · rw [href.idEx hx]; rfl
  · rw [href.ifId (ht.ex_fetched hx), fetchPc_eq fun _ => hr, Occupancy.issued_of_ex hx]; rfl
  · rw [feedsNext_eq_loadUse, hl]

theorem hazardStall_at_executeTime {k : Nat} (h : feedsNext imem undef dmem k = true) :
    (pipelineAt imem undef dmem (executeTime imem undef dmem k)).hazardStall = true := by
  have hexcl := loadUse_not_redirects imem undef dmem
  rw [feedsNext_eq_loadUse] at h
  rw [hazardStall_iff, executeTime_eq, occupancyAt, ex_iff hexcl, exIndex_issueTime hexcl]
  exact ⟨⟨k, rfl⟩, h⟩

end

/-- **When the load-use stall is exact**: in all states of a run exactly when
its program has no stray fields. -/
theorem hazardStall_exact_iff (imem : InstrArray) (undef : Word → Word) (dmem : MemArray) :
    (∀ n, (pipelineAt imem undef dmem n).hazardStall = true ↔ (pipelineAt imem undef dmem n).NeedsLoad) ↔
      NoStrayFields imem undef dmem := by
  constructor
  · intro hexact k hk
    have hstall := hazardStall_at_executeTime hk
    obtain ⟨hrd, hnext, -⟩ := stalled_pair hstall
    have hmem := ((hexact _).mp hstall).2.2
    rw [hrd, hnext, executeTime_eq, occupancyAt, exIndex_issueTime (loadUse_not_redirects imem undef dmem)] at hmem
    exact hmem
  · intro hno n
    refine ⟨fun hstall => ?_, fun h => h.hazardStall⟩
    obtain ⟨hload, hd, -⟩ := hazardDetectionUnit_eq_true.mp hstall
    obtain ⟨hrd, hnext, hfeeds⟩ := stalled_pair hstall
    refine ⟨hload, hd, ?_⟩
    rw [hrd, hnext]
    exact hno _ hfeeds

/-- `lw x1, 0(x0)`, then `lui x2, 8` at all other addresses: bits 19:15 of the
second are 1. -/
def luiAfterLoad : InstrArray := fun i => if i = 0#30 then 0x00002083#32 else 0x00008137#32

theorem stall_on_lui :
    ¬ ((pipelineAt luiAfterLoad (fun _ => 0#32) (fun _ => 0#32) 2).hazardStall = true ↔
      (pipelineAt luiAfterLoad (fun _ => 0#32) (fun _ => 0#32) 2).NeedsLoad) := by
  intro h
  have hmem := (h.mp (by decide)).2.2
  exact absurd hmem (by decide)

end RiscV
