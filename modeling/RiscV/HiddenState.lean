import RiscV.Hazards
import RiscV.Throughput
import RiscV.WrongPath

/-!
# No hidden state

Two cycles after an instruction has entered execute, every register of the
pipeline is a function of the architectural state the instruction found. What
ran before it can no longer be told, and a program that repeats repeats in the
hardware.
-/

namespace RiscV

open InOrder

/-! ## Behind a bubble -/

theorem select_zero (i : ForwardingIn) : i.select 0#5 = 0b00#2 := by
  have hno : ∀ {we : Bool} {rd : RegIdx}, ¬ (we = true ∧ rd ≠ 0#5 ∧ rd = 0#5) := fun ⟨_, hne, he⟩ => hne he
  rw [ForwardingIn.select, if_neg hno, if_neg hno]

theorem exMemIn_of_clear {s s' : PipelineState} (h : s.idEx = .clear) (h' : s'.idEx = .clear) : s.exMemIn = s'.exMemIn := by
  have hnone : ∀ {s : PipelineState}, s.idEx = .clear →
      s.exPorts.operand1Fwd = 0#32 ∧ s.exPorts.operand2Base = 0#32 := by
    intro s h
    constructor
    · rw [operand1Fwd_none]
      · rw [PipelineState.exPorts, h]; rfl
      · show ForwardingIn.select _ s.idEx.rs1 = _
        rw [h]; exact select_zero _
    · rw [operand2Base_none]
      · rw [PipelineState.exPorts, h]; rfl
      · show ForwardingIn.select _ s.idEx.rs2 = _
        rw [h]; exact select_zero _
  obtain ⟨h1, h2⟩ := hnone h
  obtain ⟨h1', h2'⟩ := hnone h'
  have hex : s.ex = s'.ex := by
    apply exStage_congr
    · rw [h1, h1']
    · rw [h2, h2']
    all_goals rw [PipelineState.exPorts, PipelineState.exPorts, h, h']
  rw [PipelineState.exMemIn, PipelineState.exMemIn, hex, h, h']

section
variable {imem : InstrArray} {undef : Word → Word} {dmem₁ dmem₂ : MemArray} {k₁ k₂ : Nat}
  (h : sequentialAt imem undef dmem₁ k₁ = sequentialAt imem undef dmem₂ k₂)
include h

theorem sequentialAt_meet (i : Nat) : sequentialAt imem undef dmem₁ (k₁ + i) = sequentialAt imem undef dmem₂ (k₂ + i) := by
  induction i with
  | zero => exact h
  | succ i ih => rw [← Nat.add_assoc, ← Nat.add_assoc, sequentialAt_succ, sequentialAt_succ, ih]

theorem occupancyAt_meet (t : Nat) :
    ∃ i, (occupancyAt imem undef dmem₁ (executeTime imem undef dmem₁ k₁ + t)).exIndex = k₁ + i ∧
      (occupancyAt imem undef dmem₂ (executeTime imem undef dmem₂ k₂ + t)).exIndex = k₂ + i ∧
      (occupancyAt imem undef dmem₁ (executeTime imem undef dmem₁ k₁ + t)).ex =
        (occupancyAt imem undef dmem₂ (executeTime imem undef dmem₂ k₂ + t)).ex ∧
      (occupancyAt imem undef dmem₁ (executeTime imem undef dmem₁ k₁ + t)).fetched =
        (occupancyAt imem undef dmem₂ (executeTime imem undef dmem₂ k₂ + t)).fetched := by
  rw [executeTime_eq, executeTime_eq]
  refine occupancy_shift (loadUse_not_redirects imem undef dmem₁) (loadUse_not_redirects imem undef dmem₂)
    (fun i => ?_) (fun i => ?_) t
  · unfold loadUse
    rw [sequentialAt_meet h i, Nat.add_assoc, Nat.add_assoc, sequentialAt_meet h (i + 1)]
  · unfold redirectsAt
    rw [sequentialAt_meet h i]

theorem front_meet (t : Nat)
    (hregisters : (pipelineAt imem undef dmem₁ (executeTime imem undef dmem₁ k₁ + t)).registers =
      (pipelineAt imem undef dmem₂ (executeTime imem undef dmem₂ k₂ + t)).registers) :
    (pipelineAt imem undef dmem₁ (executeTime imem undef dmem₁ k₁ + t)).pc =
        (pipelineAt imem undef dmem₂ (executeTime imem undef dmem₂ k₂ + t)).pc ∧
      (pipelineAt imem undef dmem₁ (executeTime imem undef dmem₁ k₁ + t)).ifId =
        (pipelineAt imem undef dmem₂ (executeTime imem undef dmem₂ k₂ + t)).ifId ∧
      (pipelineAt imem undef dmem₁ (executeTime imem undef dmem₁ k₁ + t)).idEx =
        (pipelineAt imem undef dmem₂ (executeTime imem undef dmem₂ k₂ + t)).idEx := by
  have h₁ := pipelineAt_refines imem undef dmem₁ (executeTime imem undef dmem₁ k₁ + t)
  have h₂ := pipelineAt_refines imem undef dmem₂ (executeTime imem undef dmem₂ k₂ + t)
  obtain ⟨i, hi₁, hi₂, hx, hf⟩ := occupancyAt_meet h t
  have hfetch : fetchPc imem undef dmem₁ (occupancyAt imem undef dmem₁ (executeTime imem undef dmem₁ k₁ + t)) =
      fetchPc imem undef dmem₂ (occupancyAt imem undef dmem₂ (executeTime imem undef dmem₂ k₂ + t)) := by
    rw [fetchPc, fetchPc, hx, hi₁, hi₂, sequentialAt_meet h i]
  refine ⟨?_, ?_, ?_⟩
  · by_cases hfetched : (occupancyAt imem undef dmem₁ (executeTime imem undef dmem₁ k₁ + t)).fetched = true
    · rw [h₁.pc hfetched, h₂.pc (hf ▸ hfetched), hfetch]
    · rw [Bool.not_eq_true] at hfetched
      rw [h₁.pc_refill hfetched, h₂.pc_refill (hf ▸ hfetched), hi₁, hi₂, sequentialAt_meet h i]
  · by_cases hfetched : (occupancyAt imem undef dmem₁ (executeTime imem undef dmem₁ k₁ + t)).fetched = true
    · rw [h₁.ifId hfetched, h₂.ifId (hf ▸ hfetched), hfetch]
    · rw [Bool.not_eq_true] at hfetched
      rw [h₁.ifId_bubble hfetched, h₂.ifId_bubble (hf ▸ hfetched)]
  · by_cases hex : (occupancyAt imem undef dmem₁ (executeTime imem undef dmem₁ k₁ + t)).ex = true
    · rw [h₁.idEx hex, h₂.idEx (hx ▸ hex), ← h₁.registers, ← h₂.registers, hregisters, hi₁, hi₂, sequentialAt_meet h i]
    · rw [Bool.not_eq_true] at hex
      rw [h₁.idEx_bubble hex, h₂.idEx_bubble (hx ▸ hex)]

theorem exMem_meet :
    (pipelineAt imem undef dmem₁ (executeTime imem undef dmem₁ k₁ + 2)).exMem =
      (pipelineAt imem undef dmem₂ (executeTime imem undef dmem₂ k₂ + 2)).exMem := by
  have h₁ := pipelineAt_refines imem undef dmem₁ (executeTime imem undef dmem₁ k₁ + 1)
  have h₂ := pipelineAt_refines imem undef dmem₂ (executeTime imem undef dmem₂ k₂ + 1)
  obtain ⟨i, hi₁, hi₂, hx, -⟩ := occupancyAt_meet h 1
  rw [pipelineAt_succ imem undef dmem₁ (_ + 1), pipelineAt_succ imem undef dmem₂ (_ + 1)]
  show PipelineState.exMemIn _ = PipelineState.exMemIn _
  by_cases hex : (occupancyAt imem undef dmem₁ (executeTime imem undef dmem₁ k₁ + 1)).ex = true
  · rw [h₁.exMemIn (occupancyAt_onTime imem undef dmem₁ _) hex, h₂.exMemIn (occupancyAt_onTime imem undef dmem₂ _) (hx ▸ hex),
      hi₁, hi₂, sequentialAt_meet h i]
  · rw [Bool.not_eq_true] at hex
    exact exMemIn_of_clear (h₁.idEx_bubble hex) (h₂.idEx_bubble (hx ▸ hex))

theorem memory_meet :
    (pipelineAt imem undef dmem₁ (executeTime imem undef dmem₁ k₁ + 2)).memory =
      (pipelineAt imem undef dmem₂ (executeTime imem undef dmem₂ k₂ + 2)).memory := by
  have h₁ := pipelineAt_refines imem undef dmem₁ (executeTime imem undef dmem₁ k₁ + 1)
  have h₂ := pipelineAt_refines imem undef dmem₂ (executeTime imem undef dmem₂ k₂ + 1)
  obtain ⟨i, hi₁, hi₂, -, -⟩ := occupancyAt_meet h 1
  rw [pipelineAt_succ imem undef dmem₁ (_ + 1), pipelineAt_succ imem undef dmem₂ (_ + 1)]
  refine h₁.memory_edge.trans (Eq.trans ?_ h₂.memory_edge.symm)
  rw [hi₁, hi₂, sequentialAt_meet h i]

theorem pipelineAt_meet (n : Nat) :
    pipelineAt imem undef dmem₁ (executeTime imem undef dmem₁ k₁ + 2 + n) =
      pipelineAt imem undef dmem₂ (executeTime imem undef dmem₂ k₂ + 2 + n) := by
  induction n with
  | zero =>
    have hregisters : (pipelineAt imem undef dmem₁ (executeTime imem undef dmem₁ k₁ + 2)).registers =
        (pipelineAt imem undef dmem₂ (executeTime imem undef dmem₂ k₂ + 2)).registers := by
      rw [registers_at_executeTime, registers_at_executeTime, h]
    have hmemWb : (pipelineAt imem undef dmem₁ (executeTime imem undef dmem₁ k₁ + 2)).memWb =
        (pipelineAt imem undef dmem₂ (executeTime imem undef dmem₂ k₂ + 2)).memWb := by
      rw [memWb_at_executeTime, memWb_at_executeTime, h]
    obtain ⟨hpc, hifId, hidEx⟩ := front_meet h 2 hregisters
    exact PipelineState.ext hpc hifId hidEx (exMem_meet h) hmemWb hregisters (memory_meet h)
  | succ n ih => rw [← Nat.add_assoc, ← Nat.add_assoc, pipelineAt_succ, pipelineAt_succ, ih]

end

/-- **No hidden state.** Two runs of a program find the same architectural state
at their instructions `k₁` and `k₂` exactly when they agree on the memory one
cycle after these have entered execute, and on everything from two cycles after
it on. -/
theorem no_hidden_state (imem : InstrArray) (undef : Word → Word) (dmem₁ dmem₂ : MemArray) (k₁ k₂ : Nat) :
    sequentialAt imem undef dmem₁ k₁ = sequentialAt imem undef dmem₂ k₂ ↔
      (pipelineAt imem undef dmem₁ (executeTime imem undef dmem₁ k₁ + 1)).memory =
          (pipelineAt imem undef dmem₂ (executeTime imem undef dmem₂ k₂ + 1)).memory ∧
        ∀ n, pipelineAt imem undef dmem₁ (executeTime imem undef dmem₁ k₁ + 2 + n) =
          pipelineAt imem undef dmem₂ (executeTime imem undef dmem₂ k₂ + 2 + n) := by
  constructor
  · intro h
    refine ⟨?_, pipelineAt_meet h⟩
    rw [memory_at_executeTime, memory_at_executeTime, h]
  · rintro ⟨hmem, hall⟩
    have hat := hall 0
    -- the link value in MEM/WB gives the address away
    have hpc : ((sequentialAt imem undef dmem₁ k₁).memWb imem undef).pcPlus4 =
        ((sequentialAt imem undef dmem₂ k₂).memWb imem undef).pcPlus4 := by
      rw [← memWb_at_executeTime, ← memWb_at_executeTime]
      exact congrArg (fun s => s.memWb.pcPlus4) hat
    have hpc' : (sequentialAt imem undef dmem₁ k₁).pc + 4#32 = (sequentialAt imem undef dmem₂ k₂).pc + 4#32 := hpc
    have hregs := congrArg PipelineState.registers hat
    rw [Nat.add_zero, Nat.add_zero, registers_at_executeTime, registers_at_executeTime] at hregs
    rw [memory_at_executeTime, memory_at_executeTime] at hmem
    rw [BitVec.add_left_inj] at hpc'
    generalize sequentialAt imem undef dmem₁ k₁ = σ at hpc' hregs hmem ⊢
    generalize sequentialAt imem undef dmem₂ k₂ = τ at hpc' hregs hmem ⊢
    obtain ⟨pc, registers, memory⟩ := σ
    obtain ⟨pc', registers', memory'⟩ := τ
    subst hpc' hregs hmem
    rfl

/-! ## Parking -/

section
variable {imem : InstrArray} {undef : Word → Word} {dmem : MemArray} {k : Nat}
  (hpark : (sequentialAt imem undef dmem k).step imem undef = sequentialAt imem undef dmem k)
include hpark

/-- Only a jump or a taken branch can leave the program counter where it is. -/
theorem redirects_parked (i : Nat) : redirectsAt imem undef dmem (k + i) = true := by
  rw [redirectsAt, sequentialAt_parked hpark]
  by_contra hr
  rw [Bool.not_eq_true] at hr
  have hpc : (sequentialAt imem undef dmem (k + 1)).pc = (sequentialAt imem undef dmem k).pc + 4#32 := pc_of_not_redirects hr
  rw [sequentialAt_succ, hpark] at hpc
  have hnat := congrArg BitVec.toNat hpc
  rw [BitVec.toNat_add] at hnat
  simp only [BitVec.toNat_ofNat] at hnat
  omega

theorem loadUse_parked (i : Nat) : loadUse imem undef dmem (k + i) = false := by
  by_contra hl
  rw [Bool.not_eq_false] at hl
  have hr := loadUse_not_redirects imem undef dmem _ hl
  rw [redirects_parked hpark] at hr
  cases hr

theorem executeTime_parked (i : Nat) :
    executeTime imem undef dmem (k + i) = executeTime imem undef dmem k + 3 * i := by
  induction i with
  | zero => rfl
  | succ i ih =>
    rw [← Nat.add_assoc, executeTime_succ, feedsNext_eq_loadUse, transfersAt_eq_redirectsAt, loadUse_parked hpark,
      redirects_parked hpark, ih, if_neg Bool.false_ne_true, if_pos rfl]
    omega

theorem ex_parked (n : Nat) :
    (occupancyAt imem undef dmem (executeTime imem undef dmem k + n)).ex = decide (n % 3 = 0) := by
  have hex := ex_iff (loadUse_not_redirects imem undef dmem) (executeTime imem undef dmem k + n)
  rw [← executeTime_eq] at hex
  rw [Bool.eq_iff_iff, decide_eq_true_iff]
  refine hex.trans ⟨?_, ?_⟩
  · rintro ⟨j, hj⟩
    have hle : k ≤ j := (executeTime_strictMono imem undef dmem).le_iff_le.mp (by omega)
    obtain ⟨i, rfl⟩ := Nat.exists_eq_add_of_le hle
    rw [executeTime_parked hpark] at hj
    omega
  · intro hn
    refine ⟨k + n / 3, ?_⟩
    rw [executeTime_parked hpark]
    omega

theorem sequentialAt_retired_parked (n : Nat) :
    sequentialAt imem undef dmem (retiredAt imem undef dmem (executeTime imem undef dmem k + 2 + n)) =
      sequentialAt imem undef dmem k := by
  have hle := retiredAt_mono imem undef dmem (Nat.le_add_right (executeTime imem undef dmem k + 2) n)
  rw [retiredAt_executeTime] at hle
  obtain ⟨i, hi⟩ := Nat.exists_eq_add_of_le hle
  rw [hi, sequentialAt_parked hpark]

theorem pipelineAt_parked (n : Nat) :
    pipelineAt imem undef dmem (executeTime imem undef dmem k + 2 + n + 3) =
      pipelineAt imem undef dmem (executeTime imem undef dmem k + 2 + n) := by
  have hmeet := pipelineAt_meet (sequentialAt_parked hpark 1) n
  rw [executeTime_parked hpark] at hmeet
  rw [← hmeet]
  congr 1
  omega

theorem controls_parked (n : Nat) :
    (pipelineAt imem undef dmem (executeTime imem undef dmem k + n)).hazardStall = false ∧
      (pipelineAt imem undef dmem (executeTime imem undef dmem k + n)).pipelineFlush = decide (n % 3 = 0) := by
  have href := pipelineAt_refines imem undef dmem (executeTime imem undef dmem k + n)
  have ht := occupancyAt_onTime imem undef dmem (executeTime imem undef dmem k + n)
  obtain ⟨i, hi, -, -, -⟩ := occupancyAt_meet (rfl : sequentialAt imem undef dmem k = _) n
  constructor
  · rw [href.hazardStall ht, hi, loadUse_parked hpark, Bool.and_false]
  · rw [href.pipelineFlush ht, hi, redirects_parked hpark, Bool.and_true]
    exact ex_parked hpark n

end

/-- **Parking.** From an instruction that leaves the architectural state as it
is, the pipeline goes round in three cycles: a flush, and the two empty slots
behind it. Memory and registers stand still. -/
theorem pipeline_parks {imem : InstrArray} {undef : Word → Word} {dmem : MemArray} {k : Nat}
    (hpark : (sequentialAt imem undef dmem k).step imem undef = sequentialAt imem undef dmem k) :
    (∀ n, pipelineAt imem undef dmem (executeTime imem undef dmem k + 2 + n + 3) =
        pipelineAt imem undef dmem (executeTime imem undef dmem k + 2 + n)) ∧
      (∀ n, (pipelineAt imem undef dmem (executeTime imem undef dmem k + 1 + n)).memory =
        (sequentialAt imem undef dmem k).memory) ∧
      (∀ n, (pipelineAt imem undef dmem (executeTime imem undef dmem k + 2 + n)).registers =
        (sequentialAt imem undef dmem k).registers) ∧
      ∀ n, (pipelineAt imem undef dmem (executeTime imem undef dmem k + n)).hazardStall = false ∧
        (pipelineAt imem undef dmem (executeTime imem undef dmem k + n)).pipelineFlush = decide (n % 3 = 0) := by
  refine ⟨pipelineAt_parked hpark, fun n => ?_, fun n => ?_, controls_parked hpark⟩
  · have hn : executeTime imem undef dmem k + 1 + n + 1 = executeTime imem undef dmem k + 2 + n := by omega
    rw [pipelineAt_memory, hn, sequentialAt_retired_parked hpark]
  · rw [pipelineAt_registers, sequentialAt_retired_parked hpark]

theorem pipeline_parks_jumpToSelf :
    (pipelineAt (jumpToSelf 0x00002023#32) (fun _ => 0#32) (fun _ => 7#32)
      (executeTime (jumpToSelf 0x00002023#32) (fun _ => 0#32) (fun _ => 7#32) 0 + 1 + 9)).memory = fun _ => 7#32 := by
  have hpark : (sequentialAt (jumpToSelf 0x00002023#32) (fun _ => 0#32) (fun _ => 7#32) 0).step
      (jumpToSelf 0x00002023#32) (fun _ => 0#32) =
        sequentialAt (jumpToSelf 0x00002023#32) (fun _ => 0#32) (fun _ => 7#32) 0 :=
    ArchState.step_jal_self _ _ _ rfl
  exact (pipeline_parks hpark).2.1 9

end RiscV
