import RiscV.Commits
import RiscV.CpuSettles

/-!
# The two implementations

Runs of `cpu`, one solution of its wire equations a cycle, against `cpu_pipeline`.
An instruction that does not read the register it writes is executed as by the
sequential machine. One that does meets its own result on the read port.
-/

namespace RiscV

open WriteLog Rv32i

def CpuWires.commit (σ : ArchState) (w : CpuWires) : Commit where
  registerWrite := registerWriteOf w.control.regWrite (w.instruction.extractLsb 11 7) w.writeBackData
  memoryWrite := memoryWriteOf w.control.memWrite w.aluResult w.readData2
  completed := [σ.pc]

structure CpuRun (imem : InstrArray) (undef : Word → Word) (dmem : MemArray) (σ : Nat → ArchState)
    (w : Nat → CpuWires) : Prop where
  reset : σ 0 = .initial dmem
  satisfies : ∀ k, (w k).Satisfies imem undef (σ k)
  edge : ∀ k, σ (k + 1) = (w k).clockEdge (σ k) false

/-- `cpu` runs, and whatever it does `cpu_pipeline` does the same, later. -/
def CpusAgree (imem : InstrArray) (undef : Word → Word) (dmem : MemArray) : Prop :=
  (∃ σ w, CpuRun imem undef dmem σ w) ∧
  ∀ σ w, CpuRun imem undef dmem σ w →
    (∀ n, collect (fun i => (pipelineCommit imem undef dmem i).registerWrite) n <+:
      collect (fun k => ((w k).commit (σ k)).registerWrite) n) ∧
    (∀ n, collect (fun i => (pipelineCommit imem undef dmem i).memoryWrite) n <+:
      collect (fun k => ((w k).commit (σ k)).memoryWrite) n) ∧
    (∀ n, collect (fun i => (pipelineCommit imem undef dmem i).completed) n <+:
      collect (fun k => ((w k).commit (σ k)).completed) n) ∧
    ∀ m, ∃ n, collect (fun i => (pipelineCommit imem undef dmem i).completed) n =
      collect (fun k => ((w k).commit (σ k)).completed) m

/-- `JALR x1, 0(x1)` at every address goes to the link of the JALR before it: the
addresses are 0, 0, 4, 4, 8, 8 and so on. In `cpu` it meets its own link value,
and 4 follows on the first 0. -/
theorem cpus_disagree_jalr :
    ¬ CpusAgree (fun _ => encode (.jalr 1#5 1#5 0#12)) (fun _ => 0#32) (fun _ => 0#32) := by
  rintro ⟨⟨σ, w, hrun⟩, hall⟩
  obtain ⟨-, -, -, hsame⟩ := hall σ w hrun
  obtain ⟨n, hn⟩ := hsame 2
  have hcpu : (σ 1).pc = 4#32 := by
    obtain ⟨hw, hv⟩ := (Cpu.satisfies_iff (w 0)).mp (hrun.satisfies 0)
    rw [hrun.reset] at hw hv
    rw [Cpu.feedback_jump (by decide)] at hv
    rw [hrun.edge, hrun.reset, hw, ← hv]
    decide
  have hseq : (sequentialAt (fun _ => encode (.jalr 1#5 1#5 0#12)) (fun _ => 0#32) (fun _ => 0#32) 1).pc = 0#32 := by
    rw [sequentialAt_succ]
    decide
  rw [completed_eq] at hn
  have hpcs : (List.range (retiredAt _ _ _ n)).map (fun k => (sequentialAt _ _ _ k).pc) =
      (List.range 2).map fun k => (σ k).pc :=
    (collect_singleton _ _).symm.trans (hn.trans (collect_singleton _ 2))
  have hlen := congrArg List.length hpcs
  rw [List.length_map, List.length_map, List.length_range, List.length_range] at hlen
  rw [hlen] at hpcs
  have h1 := congrArg (fun l => l[1]?) hpcs
  simp [hseq, hcpu] at h1

/-! ## One cycle -/

namespace ArchState

variable (imem : InstrArray) (undef : Word → Word) (σ : ArchState)

/-- The destination is an operand of the result, or of a JALR's target. -/
def readsOwnTarget : Bool :=
  σ.feedsA imem || σ.feedsB imem || ((σ.control imem).jalr && σ.writes imem (rs1Of (σ.instruction imem)))

end ArchState

theorem not_regWrite_of_memWrite {opcode : BitVec 7} (h : (controlUnit opcode).memWrite = true) :
    (controlUnit opcode).regWrite = false := by
  revert h
  unfold controlUnit
  split <;> simp [ControlSignals.defaults]

theorem not_regWrite_of_branch {opcode : BitVec 7} (h : (controlUnit opcode).branch = true) :
    (controlUnit opcode).regWrite = false := by
  rw [controlUnit_branch, beq_iff_eq] at h
  subst h
  rfl

theorem op1Sel_of_branch {opcode : BitVec 7} (h : (controlUnit opcode).branch = true) :
    (controlUnit opcode).op1Sel = op1Reg := by
  rw [controlUnit_branch, beq_iff_eq] at h
  subst h
  rfl

namespace Cpu

section
variable {imem : InstrArray} {undef : Word → Word} {σ : ArchState}

theorem readData1_own (h : σ.writes imem (rs1Of (σ.instruction imem)) = false) (v : Word) :
    readData1 imem σ v = readArray σ.registers (rs1Of (σ.instruction imem)) := by
  rw [readData1, registerFileRead_writes, h]
  rfl

theorem readData2_own (h : σ.writes imem (rs2Of (σ.instruction imem)) = false) (v : Word) :
    readData2 imem σ v = readArray σ.registers (rs2Of (σ.instruction imem)) := by
  rw [readData2, registerFileRead_writes, h]
  rfl

theorem writes_of_not_regWrite (h : (σ.control imem).regWrite = false) (rs : RegIdx) : σ.writes imem rs = false := by
  rw [ArchState.writes, h]
  rfl

theorem feedback_own (hA : σ.feedsA imem = false) (hB : σ.feedsB imem = false) (v : Word) :
    feedback imem undef σ v = σ.writeBackData imem undef := by
  cases hj : (σ.control imem).jump with
  | true =>
    rw [feedback_jump hj, ArchState.writeBackData, hj]
    rfl
  | false =>
    rw [feedback, memoryData, aluOut, aluInputA_own hj hA, aluInputB_own hj hB, ArchState.writeBackData, hj]
    rfl

theorem aluInputA_array (h : σ.writes imem (rs1Of (σ.instruction imem)) = false) (v : Word) :
    aluInputA imem σ v = σ.operandA imem := by
  rw [aluInputA, readData1_own h]
  rfl

theorem aluInputB_array (h : σ.writes imem (rs2Of (σ.instruction imem)) = false) (v : Word) :
    aluInputB imem σ v = σ.operandB imem := by
  rw [aluInputB, readData2_own h]
  rfl

theorem branchTarget_own (hr : σ.readsOwnTarget imem = false) (v : Word) :
    branchTarget imem σ v = (σ.ex imem).branchTarget := by
  have htarget : (σ.ex imem).branchTarget =
      if (σ.control imem).jalr then (σ.operandA imem + immediateGenerator (σ.instruction imem)) &&& ~~~1#32
      else σ.pc + immediateGenerator (σ.instruction imem) := rfl
  rw [htarget, branchTarget]
  cases hl : (σ.control imem).jalr with
  | false => rfl
  | true =>
    have hw : σ.writes imem (rs1Of (σ.instruction imem)) = false := by
      simp only [ArchState.readsOwnTarget, hl, Bool.true_and, Bool.or_eq_false_iff] at hr
      exact hr.2
    rw [aluInputA_array hw]

theorem branchTaken_own (hb : (σ.control imem).branch = true) (v : Word) :
    branchTaken imem σ v = (σ.ex imem).branchTaken := by
  have hw : (σ.control imem).regWrite = false := not_regWrite_of_branch hb
  have hsel : (σ.control imem).op1Sel = op1Reg := op1Sel_of_branch hb
  have hA : σ.operandA imem = readArray σ.registers (rs1Of (σ.instruction imem)) := by
    rw [ArchState.operandA, hsel]
    rfl
  have htaken : (σ.ex imem).branchTaken = branchComparator (σ.operandA imem)
      (readArray σ.registers (rs2Of (σ.instruction imem))) (funct3Of (σ.instruction imem)) := rfl
  rw [htaken, hA, branchTaken, readData1_own (writes_of_not_regWrite hw _), readData2_own (writes_of_not_regWrite hw _)]

theorem nextPc_own (hr : σ.readsOwnTarget imem = false) (v : Word) :
    (wires imem undef σ v).nextPc = (σ.step imem undef).pc := by
  have hstep : (σ.step imem undef).pc =
      if ((σ.control imem).branch && (σ.ex imem).branchTaken) || (σ.control imem).jump then (σ.ex imem).branchTarget
      else σ.pc + 4#32 := rfl
  have hnext : (wires imem undef σ v).nextPc =
      if (σ.control imem).jump then branchTarget imem σ v
      else if (σ.control imem).branch && branchTaken imem σ v then branchTarget imem σ v
      else σ.pc + 4#32 := rfl
  rw [hstep, hnext, branchTarget_own hr]
  cases hj : (σ.control imem).jump with
  | true => simp
  | false =>
    cases hb : (σ.control imem).branch with
    | false => simp
    | true =>
      simp [branchTaken_own hb]

theorem store_own (hm : (σ.control imem).memWrite = true) (v : Word) :
    (aluOut imem σ v).result = (σ.ex imem).aluResult ∧ readData2 imem σ v = (σ.ex imem).storeData := by
  have hw : (σ.control imem).regWrite = false := not_regWrite_of_memWrite hm
  refine ⟨?_, readData2_own (writes_of_not_regWrite hw _) v⟩
  rw [aluOut, aluInputA_array (writes_of_not_regWrite hw _), aluInputB_array (writes_of_not_regWrite hw _)]
  rfl

/-- Whatever is gated with `MemWrite` sees the sequential address and data. -/
theorem memWrite_own {α : Type} (f : Word → Word → α) (idle : α) (v : Word) :
    (if (σ.control imem).memWrite then f (aluOut imem σ v).result (readData2 imem σ v) else idle) =
      if (σ.control imem).memWrite then f (σ.ex imem).aluResult (σ.ex imem).storeData else idle := by
  cases hm : (σ.control imem).memWrite with
  | false => rfl
  | true => rw [(store_own hm v).1, (store_own hm v).2]

/-- **One cycle.** Without an own target the wires have a solution, and every
solution commits the sequential instruction and goes on to its state. -/
theorem cycle_own (hr : σ.readsOwnTarget imem = false) {w : CpuWires} (hw : w.Satisfies imem undef σ) :
    w.commit σ = σ.commit imem undef ∧ w.clockEdge σ false = σ.step imem undef := by
  obtain ⟨hbuild, hv⟩ := (satisfies_iff w).mp hw
  have hfeeds : σ.feedsA imem = false ∧ σ.feedsB imem = false := by
    simp only [ArchState.readsOwnTarget, Bool.or_eq_false_iff] at hr
    exact hr.1
  rw [feedback_own hfeeds.1 hfeeds.2] at hv
  rw [← hv] at hbuild
  subst hbuild
  have hstores := @memWrite_own imem σ _ (fun address data => [(address, data)]) []
    (σ.writeBackData imem undef)
  have hmemory := @memWrite_own imem σ _ σ.memory.set σ.memory (σ.writeBackData imem undef)
  exact ⟨congrArg (Commit.mk _ · _) hstores, congrArg₂ (ArchState.mk · _ ·) (nextPc_own hr _) hmemory⟩

theorem exists_satisfies (hr : σ.readsOwnTarget imem = false) : ∃ w, CpuWires.Satisfies imem undef σ w := by
  simp only [ArchState.readsOwnTarget, Bool.or_eq_false_iff] at hr
  exact ⟨_, wires_satisfies (feedback_own hr.1.1 hr.1.2 (σ.writeBackData imem undef))⟩

end

end Cpu

/-! ## Runs -/

section
variable {imem : InstrArray} {undef : Word → Word} {dmem : MemArray} {σ : Nat → ArchState} {w : Nat → CpuWires}

theorem CpuRun.state_eq (hrun : CpuRun imem undef dmem σ w)
    (hr : ∀ k, (sequentialAt imem undef dmem k).readsOwnTarget imem = false) (k : Nat) :
    σ k = sequentialAt imem undef dmem k := by
  induction k with
  | zero => exact hrun.reset
  | succ k ih =>
    have hcycle := Cpu.cycle_own (by rw [ih]; exact hr k) (hrun.satisfies k)
    rw [hrun.edge, hcycle.2, ih, sequentialAt_succ]

theorem CpuRun.commit_eq (hrun : CpuRun imem undef dmem σ w)
    (hr : ∀ k, (sequentialAt imem undef dmem k).readsOwnTarget imem = false) (k : Nat) :
    (w k).commit (σ k) = sequentialCommit imem undef dmem k := by
  have hk := hrun.state_eq hr k
  have hcycle := Cpu.cycle_own (by rw [hk]; exact hr k) (hrun.satisfies k)
  rw [hcycle.1, hk, sequentialCommit]

theorem exists_cpuRun (hr : ∀ k, (sequentialAt imem undef dmem k).readsOwnTarget imem = false) :
    ∃ σ w, CpuRun imem undef dmem σ w := by
  have hsolve : ∀ k, ∃ w, CpuWires.Satisfies imem undef (sequentialAt imem undef dmem k) w :=
    fun k => Cpu.exists_satisfies (hr k)
  choose w hw using hsolve
  refine ⟨sequentialAt imem undef dmem, w, rfl, hw, fun k => ?_⟩
  rw [sequentialAt_succ, (Cpu.cycle_own (hr k) (hw k)).2]

end

section
variable (imem : InstrArray) (undef : Word → Word) (dmem : MemArray)

theorem retiredAt_succ_le_self (n : Nat) : retiredAt imem undef dmem (n + 1) ≤ n := by
  induction n with
  | zero => exact Nat.le_refl 0
  | succ n ih => exact (retiredAt_succ_le imem undef dmem (n + 1)).trans (Nat.succ_le_succ ih)

theorem retiredAt_le_self (n : Nat) : retiredAt imem undef dmem n ≤ n :=
  (retiredAt_mono imem undef dmem (Nat.le_succ n)).trans (retiredAt_succ_le_self imem undef dmem n)

/-- **The two implementations agree** on every program that never executes an
instruction reading the register it writes. -/
theorem cpus_agree (hr : ∀ k, (sequentialAt imem undef dmem k).readsOwnTarget imem = false) :
    CpusAgree imem undef dmem := by
  refine ⟨exists_cpuRun hr, fun σ w hrun => ?_⟩
  have hcommit : ∀ k, (w k).commit (σ k) = sequentialCommit imem undef dmem k := hrun.commit_eq hr
  simp only [hcommit]
  refine ⟨fun n => ?_, fun n => ?_, fun n => ?_, fun m => ?_⟩
  · rw [registerWrites_eq]
    exact collect_prefix _ (retiredAt_le_self imem undef dmem n)
  · rw [memoryWrites_eq]
    exact collect_prefix _ (retiredAt_succ_le_self imem undef dmem n)
  · rw [completed_eq]
    exact collect_prefix _ (retiredAt_le_self imem undef dmem n)
  · obtain ⟨n, hn⟩ := retiredAt_surjective imem undef dmem m
    exact ⟨n, by rw [completed_eq, hn]⟩

end

theorem cpus_agree_addi :
    CpusAgree (fun _ => encode (.imm .addi 1#5 0#5 1#12)) (fun _ => 0#32) (fun _ => 0#32) := by
  refine cpus_agree _ _ _ fun k => ?_
  have h : ∀ σ : ArchState, σ.readsOwnTarget (fun _ => encode (.imm .addi 1#5 0#5 1#12)) =
      (ArchState.initial fun _ => 0#32).readsOwnTarget fun _ => encode (.imm .addi 1#5 0#5 1#12) := fun _ => rfl
  rw [h]
  decide

end RiscV
