import Mathlib.Tactic.IntervalCases
import RiscV.Cpu

/-!
# When a cycle of `cpu` is well defined

An instruction whose destination is one of its own ALU operands drives
`write_back_data` with itself. Whether the wires then have one solution depends
on the operation and on the other operand.
-/

namespace RiscV

open Feedback Rv32i

/-! ## The operations, fed back -/

def settlesFirst (aluCtrl : BitVec 4) (b : Word) : Prop :=
  match aluCtrl with
  -- ADD, SUB
  | 0b0000#4 | 0b0001#4 => False
  -- AND
  | 0b0010#4 => b = 0#32
  -- OR
  | 0b0011#4 => b = BitVec.allOnes 32
  -- XOR
  | 0b0100#4 => False
  -- SLL, SRL
  | 0b0101#4 | 0b0110#4 => b.extractLsb 4 0 ≠ 0#5
  -- SLT, SLTU
  | 0b0111#4 | 0b1001#4 => b ≠ 1#32
  -- SRA
  | 0b1000#4 => False
  | _ => True

def settlesSecond (aluCtrl : BitVec 4) (a : Word) : Prop :=
  match aluCtrl with
  -- ADD, SUB
  | 0b0000#4 | 0b0001#4 => False
  -- AND
  | 0b0010#4 => a = 0#32
  -- OR
  | 0b0011#4 => a = BitVec.allOnes 32
  -- XOR
  | 0b0100#4 => False
  -- SLL
  | 0b0101#4 => a.extractLsb 4 0 = 0#5
  -- SRL
  | 0b0110#4 => ∃! shamt : BitVec 5, (a >>> shamt).extractLsb 4 0 = shamt
  -- SLT, SLTU
  | 0b0111#4 | 0b1001#4 => a ≠ 0#32
  -- SRA
  | 0b1000#4 => ∃! shamt : BitVec 5, (a.sshiftRight' shamt).extractLsb 4 0 = shamt
  | _ => True

/-- When `v = op v v` has one solution: AND, OR and the shifts keep too much. -/
def settlesBoth (aluCtrl : BitVec 4) : Prop :=
  match aluCtrl with
  | 0b0010#4 | 0b0011#4 | 0b0101#4 | 0b0110#4 | 0b1000#4 => False
  | _ => True

theorem aluCtrl_cases (c : BitVec 4) :
    c = 0b0000#4 ∨ c = 0b0001#4 ∨ c = 0b0010#4 ∨ c = 0b0011#4 ∨ c = 0b0100#4 ∨ c = 0b0101#4 ∨ c = 0b0110#4 ∨
      c = 0b0111#4 ∨ c = 0b1000#4 ∨ c = 0b1001#4 ∨ c = 0b1010#4 ∨ c = 0b1011#4 ∨ c = 0b1100#4 ∨ c = 0b1101#4 ∨
      c = 0b1110#4 ∨ c = 0b1111#4 := by
  revert c
  decide

theorem shamt_ne_zero (s : BitVec 5) : s.toNat ≠ 0 ↔ s ≠ 0#5 := by
  rw [ne_eq, ne_eq, not_iff_not, ← BitVec.toNat_inj]
  rfl

theorem slt_zero_eq_one (b : Word) : (0#32).slt b = (1#32).slt b ↔ b ≠ 1#32 := by
  have h : b = 1#32 ↔ b.toInt = 1 := by rw [← BitVec.toInt_inj]; rfl
  rw [BitVec.slt_eq_decide, BitVec.slt_eq_decide, decide_eq_decide, ne_eq, h]
  simp
  omega

theorem ult_zero_eq_one (b : Word) : (0#32).ult b = (1#32).ult b ↔ b ≠ 1#32 := by
  have h : b = 1#32 ↔ b.toNat = 1 := by rw [← BitVec.toNat_inj]; rfl
  rw [BitVec.ult_eq_decide, BitVec.ult_eq_decide, decide_eq_decide, ne_eq, h]
  simp
  omega

theorem slt_eq_zero_one (a : Word) : a.slt 0#32 = a.slt 1#32 ↔ a ≠ 0#32 := by
  have h : a = 0#32 ↔ a.toInt = 0 := by rw [← BitVec.toInt_inj]; rfl
  rw [BitVec.slt_eq_decide, BitVec.slt_eq_decide, decide_eq_decide, ne_eq, h]
  simp
  omega

theorem ult_eq_zero_one (a : Word) : a.ult 0#32 = a.ult 1#32 ↔ a ≠ 0#32 := by
  have h : a = 0#32 ↔ a.toNat = 0 := by rw [← BitVec.toNat_inj]; rfl
  rw [BitVec.ult_eq_decide, BitVec.ult_eq_decide, decide_eq_decide, ne_eq, h]
  simp

theorem settles_first_iff (aluCtrl : BitVec 4) (b : Word) :
    Settles (fun v => aluResult v b aluCtrl) ↔ settlesFirst aluCtrl b := by
  obtain rfl | rfl | rfl | rfl | rfl | rfl | rfl | rfl | rfl | rfl | rfl | rfl | rfl | rfl | rfl | rfl :=
    aluCtrl_cases aluCtrl
  · exact iff_of_false (not_settles_add b) id
  · exact iff_of_false (not_settles_sub b) id
  · exact settles_and b
  · exact settles_or b
  · exact iff_of_false (not_settles_xor b) id
  · exact (settles_shiftLeft (b.extractLsb 4 0).toNat).trans (shamt_ne_zero _)
  · exact (settles_ushiftRight (b.extractLsb 4 0).toNat).trans (shamt_ne_zero _)
  · exact (settles_ite fun v => v.slt b).trans (slt_zero_eq_one b)
  · exact iff_of_false (not_settles_sshiftRight (b.extractLsb 4 0).toNat) id
  · exact (settles_ite fun v => v.ult b).trans (ult_zero_eq_one b)
  all_goals exact iff_of_true (settles_const (c := 0#32) fun _ => rfl) trivial

/-- A word shifted left by `shamt > 0` has not `shamt` in its low bits. -/
theorem settles_shiftLeft_own (a : Word) :
    Settles (fun v : Word => a <<< v.extractLsb 4 0) ↔ a.extractLsb 4 0 = 0#5 := by
  rw [settles_comp (fun v : Word => v.extractLsb 4 0) fun shamt => a <<< shamt]
  have hzero : ∀ shamt : BitVec 5, (a <<< shamt).extractLsb 4 0 = shamt → shamt = 0#5 := by
    intro shamt h
    have hnat := congrArg BitVec.toNat h
    rw [shamt_toNat, BitVec.shiftLeft_eq', BitVec.toNat_shiftLeft, Nat.shiftLeft_eq] at hnat
    have hlt := shamt.isLt
    apply BitVec.eq_of_toNat_eq
    generalize shamt.toNat = s at *
    show s = 0
    interval_cases s <;> omega
  have hfixed : (a <<< (0#5)).extractLsb 4 0 = a.extractLsb 4 0 := by
    rw [BitVec.shiftLeft_eq']
    exact congrArg (BitVec.extractLsb 4 0) (BitVec.shiftLeft_zero a)
  constructor
  · rintro ⟨shamt, h, -⟩
    have hs : shamt = 0#5 := hzero shamt h
    subst hs
    exact hfixed.symm.trans h
  · intro h
    exact ⟨0#5, hfixed.trans h, fun shamt hs => hzero shamt hs⟩

theorem settles_second_iff (aluCtrl : BitVec 4) (a : Word) :
    Settles (fun v => aluResult a v aluCtrl) ↔ settlesSecond aluCtrl a := by
  obtain rfl | rfl | rfl | rfl | rfl | rfl | rfl | rfl | rfl | rfl | rfl | rfl | rfl | rfl | rfl | rfl :=
    aluCtrl_cases aluCtrl
  · exact (settles_congr fun v => BitVec.add_comm a v).trans (iff_of_false (not_settles_add a) id)
  · exact iff_of_false (not_settles_sub_self a) id
  · exact (settles_congr fun v => BitVec.and_comm a v).trans (settles_and a)
  · exact (settles_congr fun v => BitVec.or_comm a v).trans (settles_or a)
  · exact (settles_congr fun v => BitVec.xor_comm a v).trans (iff_of_false (not_settles_xor a) id)
  · exact settles_shiftLeft_own a
  · exact settles_comp (fun v : Word => v.extractLsb 4 0) (fun shamt => a >>> shamt)
  · exact (settles_ite fun v => a.slt v).trans (slt_eq_zero_one a)
  · exact settles_comp (fun v : Word => v.extractLsb 4 0) (fun shamt => a.sshiftRight' shamt)
  · exact (settles_ite fun v => a.ult v).trans (ult_eq_zero_one a)
  all_goals exact iff_of_true (settles_const (c := 0#32) fun _ => rfl) trivial

theorem settles_both_iff (aluCtrl : BitVec 4) : Settles (fun v => aluResult v v aluCtrl) ↔ settlesBoth aluCtrl := by
  have hne : (0#32) ≠ 32#32 := by decide
  obtain rfl | rfl | rfl | rfl | rfl | rfl | rfl | rfl | rfl | rfl | rfl | rfl | rfl | rfl | rfl | rfl :=
    aluCtrl_cases aluCtrl
  · refine iff_of_true ⟨0#32, rfl, fun v hv => ?_⟩ trivial
    have hv' : v + v = v := hv
    simpa using hv'
  · exact iff_of_true (settles_const BitVec.sub_self) trivial
  · exact iff_of_false (not_settles_of_two BitVec.and_self BitVec.and_self hne) id
  · exact iff_of_false (not_settles_of_two BitVec.or_self BitVec.or_self hne) id
  · exact iff_of_true (settles_const fun _ => BitVec.xor_self) trivial
  · exact iff_of_false (not_settles_of_two (v := 0#32) (w := 32#32) rfl rfl hne) id
  · exact iff_of_false (not_settles_of_two (v := 0#32) (w := 32#32) rfl rfl hne) id
  · exact (settles_ite fun v => v.slt v).trans (iff_of_true rfl trivial)
  · exact iff_of_false (not_settles_of_two (v := 0#32) (w := 32#32) rfl rfl hne) id
  · exact (settles_ite fun v => v.ult v).trans (iff_of_true rfl trivial)
  all_goals exact iff_of_true (settles_const (c := 0#32) fun _ => rfl) trivial

/-! ## The instruction in the cycle -/

namespace ArchState

variable (imem : InstrArray) (undef : Word → Word) (σ : ArchState)

def writes (rs : RegIdx) : Bool :=
  (σ.control imem).regWrite && rdOf (σ.instruction imem) != 0#5 && rdOf (σ.instruction imem) == rs

/-- ALU operand A is the destination, and the result comes from the ALU or the
data memory. -/
def feedsA : Bool :=
  !(σ.control imem).jump && (σ.control imem).op1Sel != 0b01#2 && (σ.control imem).op1Sel != 0b10#2 &&
    σ.writes imem (rs1Of (σ.instruction imem))

def feedsB : Bool :=
  !(σ.control imem).jump && !(σ.control imem).aluSrc && σ.writes imem (rs2Of (σ.instruction imem))

def operandA : Word :=
  if (σ.control imem).op1Sel = 0b01#2 then σ.pc
  else if (σ.control imem).op1Sel = 0b10#2 then 0#32
  else readArray σ.registers (rs1Of (σ.instruction imem))

def operandB : Word :=
  if (σ.control imem).aluSrc then immediateGenerator (σ.instruction imem)
  else readArray σ.registers (rs2Of (σ.instruction imem))

/-- The instruction does not feed itself, or does so harmlessly: a load when
exactly one word is stored at the address it makes with the immediate. -/
def FeedsHarmlessly : Prop :=
  match σ.feedsA imem, σ.feedsB imem with
  | false, false => True
  | true, false =>
    if (σ.control imem).memtoReg then
      ∃! v, wordAt undef σ.memory (v + immediateGenerator (σ.instruction imem)) = v
    else settlesFirst (Cpu.aluCtrl imem σ) (σ.operandB imem)
  | false, true => settlesSecond (Cpu.aluCtrl imem σ) (σ.operandA imem)
  | true, true => settlesBoth (Cpu.aluCtrl imem σ)

end ArchState

namespace Cpu

section
variable {imem : InstrArray} {undef : Word → Word} {σ : ArchState}

theorem registerFileRead_writes (rs : RegIdx) (v : Word) :
    registerFileRead σ.registers (σ.control imem).regWrite rs (rdOf (σ.instruction imem)) v =
      if σ.writes imem rs then v else readArray σ.registers rs := by
  unfold registerFileRead ArchState.writes readArray
  by_cases h0 : rs = 0#5
  · subst h0
    have h : ¬ (rdOf (σ.instruction imem) ≠ 0#5 ∧ rdOf (σ.instruction imem) = 0#5) := fun h => h.1 h.2
    simp only [Bool.and_eq_true, bne_iff_ne, beq_iff_eq, and_assoc, h, and_false, if_false, if_true]
  · rw [if_neg h0, if_neg h0]
    simp only [Bool.and_eq_true, bne_iff_ne, beq_iff_eq]
    congr 1
    exact propext ⟨fun ⟨hw, hr, hd⟩ => ⟨⟨hw, hd⟩, hr⟩, fun ⟨⟨hw, hd⟩, hr⟩ => ⟨hw, hr, hd⟩⟩

theorem aluInputA_fed (h : σ.feedsA imem = true) (v : Word) : aluInputA imem σ v = v := by
  simp only [ArchState.feedsA, Bool.and_eq_true, Bool.not_eq_true', bne_iff_ne] at h
  obtain ⟨⟨⟨-, h1⟩, h2⟩, hw⟩ := h
  rw [aluInputA, if_neg h1, if_neg h2, readData1, registerFileRead_writes, if_pos hw]

theorem aluInputA_own (hj : (σ.control imem).jump = false) (h : σ.feedsA imem = false) (v : Word) :
    aluInputA imem σ v = σ.operandA imem := by
  unfold aluInputA ArchState.operandA
  by_cases h1 : (σ.control imem).op1Sel = 0b01#2
  · rw [if_pos h1, if_pos h1]
  by_cases h2 : (σ.control imem).op1Sel = 0b10#2
  · rw [if_neg h1, if_neg h1, if_pos h2, if_pos h2]
  have hw : σ.writes imem (rs1Of (σ.instruction imem)) = false := by
    simpa [ArchState.feedsA, hj, h1, h2] using h
  rw [if_neg h1, if_neg h1, if_neg h2, if_neg h2, readData1, registerFileRead_writes, hw]
  rfl

theorem aluInputB_fed (h : σ.feedsB imem = true) (v : Word) : aluInputB imem σ v = v := by
  simp only [ArchState.feedsB, Bool.and_eq_true, Bool.not_eq_true'] at h
  obtain ⟨⟨-, hs⟩, hw⟩ := h
  rw [aluInputB, hs, readData2, registerFileRead_writes, hw]
  rfl

theorem aluInputB_own (hj : (σ.control imem).jump = false) (h : σ.feedsB imem = false) (v : Word) :
    aluInputB imem σ v = σ.operandB imem := by
  unfold aluInputB ArchState.operandB
  cases hs : (σ.control imem).aluSrc with
  | true => rfl
  | false =>
    have hw : σ.writes imem (rs2Of (σ.instruction imem)) = false := by
      simpa [ArchState.feedsB, hj, hs] using h
    rw [readData2, registerFileRead_writes, hw]
    rfl

theorem feedback_alu (hj : (σ.control imem).jump = false) (ht : (σ.control imem).memtoReg = false) (v : Word) :
    feedback imem undef σ v = aluResult (aluInputA imem σ v) (aluInputB imem σ v) (aluCtrl imem σ) := by
  rw [feedback, hj, ht]
  rfl

theorem control_of_memtoReg (ht : (σ.control imem).memtoReg = true) : σ.control imem = controlUnit 0b0000011#7 := by
  have h : (controlUnit (opcodeOf (σ.instruction imem))).memtoReg = true := ht
  rw [controlUnit_memtoReg, controlUnit_memRead, beq_iff_eq] at h
  exact congrArg controlUnit h

theorem feedback_load (ht : (σ.control imem).memtoReg = true) (v : Word) :
    feedback imem undef σ v =
      wordAt undef σ.memory (aluInputA imem σ v + immediateGenerator (σ.instruction imem)) := by
  simp only [feedback, memoryData, aluOut, aluInputB, aluCtrl, control_of_memtoReg ht]
  rfl

theorem feedsB_of_load (ht : (σ.control imem).memtoReg = true) : σ.feedsB imem = false := by
  rw [ArchState.feedsB, control_of_memtoReg ht]
  rfl

theorem feedback_jump (hj : (σ.control imem).jump = true) (v : Word) : feedback imem undef σ v = σ.pc + 4#32 := by
  rw [feedback, hj]
  rfl

variable (imem undef σ) in
theorem settles_feedback_iff : Settles (feedback imem undef σ) ↔ σ.FeedsHarmlessly imem undef := by
  unfold ArchState.FeedsHarmlessly
  cases hj : (σ.control imem).jump with
  | true =>
    have hA : σ.feedsA imem = false := by rw [ArchState.feedsA, hj]; rfl
    have hB : σ.feedsB imem = false := by rw [ArchState.feedsB, hj]; rfl
    rw [hA, hB]
    exact iff_of_true (settles_const (feedback_jump hj)) trivial
  | false =>
    cases ht : (σ.control imem).memtoReg with
    | true =>
      rw [feedsB_of_load ht]
      cases hA : σ.feedsA imem with
      | false =>
        let address := σ.operandA imem + immediateGenerator (σ.instruction imem)
        refine iff_of_true (settles_const (c := wordAt undef σ.memory address) fun v => ?_) trivial
        rw [feedback_load ht, aluInputA_own hj hA]
      | true =>
        refine settles_congr fun v => ?_
        rw [feedback_load ht, aluInputA_fed hA]
    | false =>
      rw [settles_congr (feedback_alu hj ht)]
      cases hA : σ.feedsA imem <;> cases hB : σ.feedsB imem
      · let result := aluResult (σ.operandA imem) (σ.operandB imem) (aluCtrl imem σ)
        refine iff_of_true (settles_const (c := result) fun v => ?_) trivial
        rw [aluInputA_own hj hA, aluInputB_own hj hB]
      · simp only [aluInputA_own hj hA, aluInputB_fed hB]
        exact settles_second_iff _ _
      · simp only [aluInputA_fed hA, aluInputB_own hj hB]
        exact settles_first_iff _ _
      · simp only [aluInputA_fed hA, aluInputB_fed hB]
        exact settles_both_iff _

end

end Cpu

section
variable (imem : InstrArray) (undef : Word → Word) (σ : ArchState)

/-- **When the cycle of `cpu` is well defined.** The wire equations have one
solution exactly when the fetched instruction is not among its own ALU operands,
or its operation has one fixed point there. -/
theorem cpu_wellDefined_iff : (∃! w, CpuWires.Satisfies imem undef σ w) ↔ σ.FeedsHarmlessly imem undef :=
  (Cpu.existsUnique_satisfies_iff imem undef σ).trans (Cpu.settles_feedback_iff imem undef σ)

end

/-- `ADDI x1, x1, 1` in the state after reset: no assignment satisfies the
equations. -/
theorem cpu_addi_not_wellDefined :
    ¬ ∃ w, CpuWires.Satisfies (fun _ => encode (.imm .addi 1#5 1#5 1#12)) (fun _ => 0#32)
      (.initial fun _ => 0#32) w := by
  rintro ⟨w, hw⟩
  obtain ⟨-, hv⟩ := (Cpu.satisfies_iff w).mp hw
  rw [Cpu.feedback_alu (by decide) (by decide), Cpu.aluInputA_fed (by decide), Cpu.aluInputB_own (by decide) (by decide)] at hv
  have hstep : w.writeBackData + 1#32 = w.writeBackData := hv
  simp at hstep

end RiscV
