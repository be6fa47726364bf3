import RiscV.Timing
import RiscV.CpuSettles

/-!
# Where an operand comes from

A register value reaches the execute stage in one of four ways: over the two
forwarding paths, through the bypass of the register file, or from its array.
Which one is a matter of the cycles between the instruction and the latest one
that writes the register.
-/

namespace RiscV

open InOrder

inductive OperandSource where
  | exMem
  | memWb
  | bypass
  | array
  deriving DecidableEq, Repr

def OperandSource.ofSlack : Nat → OperandSource
  | 1 => .exMem
  | 2 => .memWb
  | 3 => .bypass
  | _ => .array

namespace PipelineState

def bypasses (s : PipelineState) (rs : RegIdx) : Bool := s.memWb.regWrite && s.memWb.rd == rs && s.memWb.rd != 0#5

def select (s : PipelineState) (rs : RegIdx) : BitVec 2 :=
  ForwardingIn.select
    { idExRs1 := s.idEx.rs1
      idExRs2 := s.idEx.rs2
      exMemRd := s.exMem.rd
      exMemRegwrite := s.exMem.regWrite
      memWbRd := s.memWb.rd
      memWbRegwrite := s.memWb.regWrite } rs

def sourceOf (select : BitVec 2) (bypassed : Bool) : OperandSource :=
  if select = 0b10#2 then .exMem
  else if select = 0b01#2 then .memWb
  else if bypassed then .bypass
  else .array

/-- The sources of both operands in EX: what forwarding takes, else what the
register file took in the cycle before, in `decoded`. -/
def operandSources (decoded s : PipelineState) : OperandSource × OperandSource :=
  (sourceOf s.forwarding.forwardA (decoded.bypasses decoded.ifIdRs1),
    sourceOf s.forwarding.forwardB (decoded.bypasses decoded.ifIdRs2))

end PipelineState

section
variable (imem : InstrArray) (undef : Word → Word) (dmem : MemArray)

def writesAt (j : Nat) (rs : RegIdx) : Bool := (sequentialAt imem undef dmem j).writes imem rs

structure LatestWriter (rs : RegIdx) (j k : Nat) : Prop where
  lt : j < k
  writes : writesAt imem undef dmem j rs = true
  latest : ∀ i, j < i → i < k → writesAt imem undef dmem i rs = false

end

section
variable {imem : InstrArray} {undef : Word → Word} {dmem : MemArray} {n : Nat} {rs : RegIdx}

theorem writesAt_eq_true {j : Nat} :
    writesAt imem undef dmem j rs = true ↔
      ((sequentialAt imem undef dmem j).control imem).regWrite = true ∧
        rdOf ((sequentialAt imem undef dmem j).instruction imem) ≠ 0#5 ∧
        rdOf ((sequentialAt imem undef dmem j).instruction imem) = rs := by
  simp only [writesAt, ArchState.writes, Bool.and_eq_true, bne_iff_ne, beq_iff_eq, and_assoc]

/-! ## The writer in each pipeline register -/

/-- What shows `d` cycles after a writer has been in execute, and never else. -/
theorem shows_writer_iff {p : Nat → Prop} {d : Nat}
    (hat : ∀ i, p (executeTime imem undef dmem i + d) ↔ writesAt imem undef dmem i rs = true)
    (hbubble : (∀ i, n ≠ executeTime imem undef dmem i + d) → ¬ p n) :
    p n ↔ ∃ i, n = executeTime imem undef dmem i + d ∧ writesAt imem undef dmem i rs = true := by
  constructor
  · intro hp
    by_contra hno
    refine hbubble (fun i hi => ?_) hp
    subst hi
    exact hno ⟨i, rfl, (hat i).mp hp⟩
  · rintro ⟨i, rfl, hw⟩
    exact (hat i).mpr hw

theorem exMem_writes_iff :
    ((pipelineAt imem undef dmem n).exMem.regWrite = true ∧ (pipelineAt imem undef dmem n).exMem.rd ≠ 0#5 ∧
        (pipelineAt imem undef dmem n).exMem.rd = rs) ↔
      ∃ i, n = executeTime imem undef dmem i + 1 ∧ writesAt imem undef dmem i rs = true := by
  let p : Nat → Prop := fun n => (pipelineAt imem undef dmem n).exMem.regWrite = true ∧
    (pipelineAt imem undef dmem n).exMem.rd ≠ 0#5 ∧ (pipelineAt imem undef dmem n).exMem.rd = rs
  refine shows_writer_iff (p := p) (fun i => ?_) fun hne hp => ?_
  · show (_ ∧ _ ∧ _) ↔ _
    rw [exMem_at_executeTime]
    exact writesAt_eq_true.symm
  · have hw : (pipelineAt imem undef dmem n).exMem.regWrite = true := hp.1
    rw [(exMem_bubble_of_ne imem undef dmem hne).1] at hw
    cases hw

theorem memWb_writes_iff :
    ((pipelineAt imem undef dmem n).memWb.regWrite = true ∧ (pipelineAt imem undef dmem n).memWb.rd ≠ 0#5 ∧
        (pipelineAt imem undef dmem n).memWb.rd = rs) ↔
      ∃ i, n = executeTime imem undef dmem i + 2 ∧ writesAt imem undef dmem i rs = true := by
  let p : Nat → Prop := fun n => (pipelineAt imem undef dmem n).memWb.regWrite = true ∧
    (pipelineAt imem undef dmem n).memWb.rd ≠ 0#5 ∧ (pipelineAt imem undef dmem n).memWb.rd = rs
  refine shows_writer_iff (p := p) (fun i => ?_) fun hne hp => ?_
  · show (_ ∧ _ ∧ _) ↔ _
    rw [memWb_at_executeTime]
    exact writesAt_eq_true.symm
  · have hw : (pipelineAt imem undef dmem n).memWb.regWrite = true := hp.1
    rw [(memWb_bubble_of_ne imem undef dmem hne).1] at hw
    cases hw

theorem bypasses_iff :
    (pipelineAt imem undef dmem n).bypasses rs = true ↔
      ∃ i, n = executeTime imem undef dmem i + 2 ∧ writesAt imem undef dmem i rs = true := by
  rw [← memWb_writes_iff, PipelineState.bypasses, Bool.and_eq_true, Bool.and_eq_true, beq_iff_eq, bne_iff_ne, and_assoc]
  exact and_congr_right fun _ => and_comm

theorem select_exMem_iff :
    (pipelineAt imem undef dmem n).select rs = 0b10#2 ↔
      ∃ i, n = executeTime imem undef dmem i + 1 ∧ writesAt imem undef dmem i rs = true := by
  rw [← exMem_writes_iff, PipelineState.select, ForwardingIn.select]
  split
  next hw => exact iff_of_true rfl hw
  next hw => split <;> exact iff_of_false (by decide) hw

theorem select_memWb_iff (hno : (pipelineAt imem undef dmem n).select rs ≠ 0b10#2) :
    (pipelineAt imem undef dmem n).select rs = 0b01#2 ↔
      ∃ i, n = executeTime imem undef dmem i + 2 ∧ writesAt imem undef dmem i rs = true := by
  rw [← memWb_writes_iff]
  unfold PipelineState.select ForwardingIn.select at hno ⊢
  split at hno
  next hw => exact absurd rfl hno
  next hw =>
    rw [if_neg hw]
    split
    next hw' => exact iff_of_true rfl hw'
    next hw' => exact iff_of_false (by decide) hw'

/-! ## The latest writer -/

section
variable {j k : Nat} (h : LatestWriter imem undef dmem rs j k)
include h

theorem LatestWriter.executeTime_lt : executeTime imem undef dmem j < executeTime imem undef dmem k :=
  executeTime_strictMono imem undef dmem h.lt

/-- If a writer is `d` cycles ahead, the latest one is, unless it is closer. -/
theorem LatestWriter.ahead_iff {d : Nat} (hd : 1 ≤ d)
    (hj : executeTime imem undef dmem j + d ≤ executeTime imem undef dmem k) :
    (∃ i, executeTime imem undef dmem k = executeTime imem undef dmem i + d ∧ writesAt imem undef dmem i rs = true) ↔
      executeTime imem undef dmem k = executeTime imem undef dmem j + d := by
  have hmono := executeTime_strictMono imem undef dmem
  constructor
  · rintro ⟨i, hi, hw⟩
    have hik : i < k := hmono.lt_iff_lt.mp (by omega)
    rcases Nat.lt_trichotomy i j with hij | rfl | hij
    · have := hmono hij
      omega
    · exact hi
    · rw [h.latest i hij hik] at hw
      cases hw
  · intro hj
    exact ⟨j, hj, h.writes⟩

theorem LatestWriter.source {m : Nat} (hm : executeTime imem undef dmem k = m + 1) :
    PipelineState.sourceOf ((pipelineAt imem undef dmem (m + 1)).select rs) ((pipelineAt imem undef dmem m).bypasses rs) =
      .ofSlack (executeTime imem undef dmem k - executeTime imem undef dmem j) := by
  have hlt := h.executeTime_lt
  by_cases h1 : executeTime imem undef dmem k = executeTime imem undef dmem j + 1
  · have hsel := select_exMem_iff.mpr ⟨j, hm.symm.trans h1, h.writes⟩
    have hslack : executeTime imem undef dmem k - executeTime imem undef dmem j = 1 := by omega
    rw [hslack, PipelineState.sourceOf, if_pos hsel]
    rfl
  have hno1 : (pipelineAt imem undef dmem (m + 1)).select rs ≠ 0b10#2 := by
    rw [ne_eq, select_exMem_iff, ← hm, h.ahead_iff (Nat.le_refl 1) hlt]
    exact h1
  by_cases h2 : executeTime imem undef dmem k = executeTime imem undef dmem j + 2
  · have hsel := (select_memWb_iff hno1).mpr ⟨j, hm.symm.trans h2, h.writes⟩
    have hslack : executeTime imem undef dmem k - executeTime imem undef dmem j = 2 := by omega
    rw [hslack, PipelineState.sourceOf, if_neg hno1, if_pos hsel]
    rfl
  have hno2 : (pipelineAt imem undef dmem (m + 1)).select rs ≠ 0b01#2 := by
    rw [ne_eq, select_memWb_iff hno1, ← hm, h.ahead_iff (by omega) (by omega)]
    exact h2
  have hbypass : (pipelineAt imem undef dmem m).bypasses rs = true ↔
      executeTime imem undef dmem k = executeTime imem undef dmem j + 3 := by
    rw [bypasses_iff, ← h.ahead_iff (by omega) (by omega), hm]
    simp only [Nat.add_left_inj]
  rw [PipelineState.sourceOf, if_neg hno1, if_neg hno2]
  by_cases h3 : executeTime imem undef dmem k = executeTime imem undef dmem j + 3
  · have hslack : executeTime imem undef dmem k - executeTime imem undef dmem j = 3 := by omega
    rw [hslack, if_pos (hbypass.mpr h3)]
    rfl
  · obtain ⟨d, hd⟩ := Nat.exists_eq_add_of_le (show 4 ≤ executeTime imem undef dmem k - executeTime imem undef dmem j by omega)
    rw [if_neg (mt hbypass.mp h3), hd, Nat.add_comm]
    rfl

end

theorem source_of_no_writer {k m : Nat} (hm : executeTime imem undef dmem k = m + 1)
    (hno : ∀ i < k, writesAt imem undef dmem i rs = false) :
    PipelineState.sourceOf ((pipelineAt imem undef dmem (m + 1)).select rs) ((pipelineAt imem undef dmem m).bypasses rs) =
      .array := by
  have hahead : ∀ d, 1 ≤ d → ¬ ∃ i, m + 1 = executeTime imem undef dmem i + d ∧ writesAt imem undef dmem i rs = true := by
    rintro d hd ⟨i, hi, hw⟩
    have hik : i < k := (executeTime_strictMono imem undef dmem).lt_iff_lt.mp (by omega)
    rw [hno i hik] at hw
    cases hw
  have hno1 : (pipelineAt imem undef dmem (m + 1)).select rs ≠ 0b10#2 := mt select_exMem_iff.mp (hahead 1 (by omega))
  have hno2 : (pipelineAt imem undef dmem (m + 1)).select rs ≠ 0b01#2 :=
    mt (select_memWb_iff hno1).mp (hahead 2 (by omega))
  have hno3 : ¬ (pipelineAt imem undef dmem m).bypasses rs = true := by
    rw [bypasses_iff]
    simpa only [← Nat.add_assoc, Nat.add_left_inj] using hahead 3 (by omega)
  rw [PipelineState.sourceOf, if_neg hno1, if_neg hno2, if_neg hno3]

/-! ## The instruction and its decode cycle -/

theorem ifId_before_executeTime {k m : Nat} (hm : executeTime imem undef dmem k = m + 1) :
    (pipelineAt imem undef dmem m).ifId.instruction = (sequentialAt imem undef dmem k).instruction imem := by
  obtain ⟨hx, hk⟩ := occupancyAt_executeTime imem undef dmem k
  have h := pipelineAt_refines imem undef dmem m
  rw [hm, occupancyAt_succ] at hx hk
  generalize occupancyAt imem undef dmem m = o at h hx hk
  rcases next_cases (loadUse_not_redirects imem undef dmem) o with ⟨-, -, -, ho⟩ | ⟨-, -, -, ho⟩ | ⟨hr, -, ho⟩
  · rw [ho] at hx
    cases hx
  · rw [ho] at hx
    cases hx
  · rw [ho] at hx hk
    rw [h.ifId hx, fetchPc_eq hr, ← hk]
    rfl

theorem operandSources_executeTime {k m : Nat} (hm : executeTime imem undef dmem k = m + 1) :
    let rs1 := rs1Of ((sequentialAt imem undef dmem k).instruction imem)
    let rs2 := rs2Of ((sequentialAt imem undef dmem k).instruction imem)
    PipelineState.operandSources (pipelineAt imem undef dmem (executeTime imem undef dmem k - 1))
        (pipelineAt imem undef dmem (executeTime imem undef dmem k)) =
      (PipelineState.sourceOf ((pipelineAt imem undef dmem (m + 1)).select rs1) ((pipelineAt imem undef dmem m).bypasses rs1),
        PipelineState.sourceOf ((pipelineAt imem undef dmem (m + 1)).select rs2) ((pipelineAt imem undef dmem m).bypasses rs2)) := by
  intro rs1 rs2
  have hidEx := idEx_at_executeTime imem undef dmem k
  rw [hm] at hidEx
  have h1 : (pipelineAt imem undef dmem (m + 1)).idEx.rs1 = rs1 := by rw [hidEx]; rfl
  have h2 : (pipelineAt imem undef dmem (m + 1)).idEx.rs2 = rs2 := by rw [hidEx]; rfl
  have hA : (pipelineAt imem undef dmem (m + 1)).forwarding.forwardA = (pipelineAt imem undef dmem (m + 1)).select rs1 := by
    rw [← h1]; rfl
  have hB : (pipelineAt imem undef dmem (m + 1)).forwarding.forwardB = (pipelineAt imem undef dmem (m + 1)).select rs2 := by
    rw [← h2]; rfl
  rw [hm, Nat.add_sub_cancel, PipelineState.operandSources, PipelineState.ifIdRs1, PipelineState.ifIdRs2,
    ifId_before_executeTime hm, hA, hB]
  rfl

section
variable {j k : Nat} (h : LatestWriter imem undef dmem rs j k)
include h

theorem LatestWriter.slack_of_load (hl : (sequentialAt imem undef dmem j).isLoad imem = true)
    (hrs : rs = rs1Of ((sequentialAt imem undef dmem k).instruction imem) ∨
      rs = rs2Of ((sequentialAt imem undef dmem k).instruction imem)) :
    executeTime imem undef dmem j + 2 ≤ executeTime imem undef dmem k := by
  have hmono := executeTime_strictMono imem undef dmem
  obtain rfl | hlt : k = j + 1 ∨ j + 1 < k := by have := h.lt; omega
  · have hw := writesAt_eq_true.mp h.writes
    have hfeeds : feedsNext imem undef dmem j = true := by
      simp only [feedsNext, ArchState.feeds, Bool.and_eq_true, Bool.or_eq_true, bne_iff_ne, beq_iff_eq]
      exact ⟨⟨hl, hw.2.1⟩, hrs.imp (fun he => he.symm.trans hw.2.2.symm) fun he => he.symm.trans hw.2.2.symm⟩
    rw [executeTime_succ, if_pos hfeeds]
    omega
  · have h1 := hmono (Nat.lt_add_one j)
    have h2 := hmono hlt
    omega

theorem LatestWriter.slack_of_transfer (ht : transfersAt imem undef dmem j = true) :
    executeTime imem undef dmem j + 3 ≤ executeTime imem undef dmem k := by
  have hle : executeTime imem undef dmem (j + 1) ≤ executeTime imem undef dmem k :=
    (executeTime_strictMono imem undef dmem).monotone h.lt
  rw [executeTime_succ, if_pos ht] at hle
  omega

end

end

/-- **Where operands come from.** By the cycles `E(k) - E(j)` that instruction
`k` is behind the latest writer `j` of its source: 1 is the path from EX/MEM,
2 the one from MEM/WB, 3 the bypass of the register file, and all else the
array. A loaded value is at least 2 behind, a link value 3. -/
theorem operand_sources (imem : InstrArray) (undef : Word → Word) (dmem : MemArray) (k : Nat) :
    let time := executeTime imem undef dmem
    let sources := PipelineState.operandSources (pipelineAt imem undef dmem (time k - 1)) (pipelineAt imem undef dmem (time k))
    let rs1 := rs1Of ((sequentialAt imem undef dmem k).instruction imem)
    let rs2 := rs2Of ((sequentialAt imem undef dmem k).instruction imem)
    (∀ j, LatestWriter imem undef dmem rs1 j k → sources.1 = .ofSlack (time k - time j)) ∧
    (∀ j, LatestWriter imem undef dmem rs2 j k → sources.2 = .ofSlack (time k - time j)) ∧
    ((∀ i < k, writesAt imem undef dmem i rs1 = false) → sources.1 = .array) ∧
    ((∀ i < k, writesAt imem undef dmem i rs2 = false) → sources.2 = .array) ∧
    ∀ j rs, LatestWriter imem undef dmem rs j k → rs = rs1 ∨ rs = rs2 →
      ((sequentialAt imem undef dmem j).isLoad imem = true → 2 ≤ time k - time j) ∧
        (transfersAt imem undef dmem j = true → 3 ≤ time k - time j) := by
  intro time sources rs1 rs2
  obtain ⟨m, hm⟩ : ∃ m, executeTime imem undef dmem k = m + 1 := ⟨executeTime imem undef dmem k - 1, by
    unfold executeTime
    omega⟩
  have hsources : sources = (_, _) := operandSources_executeTime hm
  rw [hsources]
  refine ⟨fun j h => h.source hm, fun j h => h.source hm, fun hno => source_of_no_writer hm hno,
    fun hno => source_of_no_writer hm hno, fun j rs h hrs => ⟨fun hl => ?_, fun ht => ?_⟩⟩
  · have := h.slack_of_load hl hrs
    exact Nat.le_sub_of_add_le' this
  · have := h.slack_of_transfer ht
    exact Nat.le_sub_of_add_le' this

end RiscV
