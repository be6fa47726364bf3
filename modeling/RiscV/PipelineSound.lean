import RiscV.Abstraction

/-!
# The pipeline refines the sequential machine

One clock edge preserves `Refines`, with the occupancy moving by `Occupancy.next`.
The operand lemma carries the argument: behind the forwarding muxes stands what
the sequential machine reads, because a load or a jump in memory has no
dependent instruction directly behind it.
-/

namespace RiscV

open InOrder

section
variable {imem : InstrArray} {undef : Word → Word} {dmem : MemArray} {o : Occupancy} {s : PipelineState}

/-! ## Write-back and memory -/

section
variable (h : RefinesBack imem undef dmem o s)
include h

theorem RefinesBack.wbWriteBackData (hw : o.wb = true) :
    s.wbWriteBackData = (sequentialAt imem undef dmem o.retired).writeBackData imem undef := by
  rw [PipelineState.wbWriteBackData, h.memWb hw]; rfl

theorem RefinesBack.registers_edge :
    idStageEdge s.registers false s.idPorts = (sequentialAt imem undef dmem o.memIndex).registers := by
  cases hw : o.wb with
  | false =>
    have hr : s.memWb.regWrite = false := (h.memWb_bubble hw).1
    have hi : o.memIndex = o.retired := by simp [Occupancy.memIndex, hw]
    rw [idStageEdge, PipelineState.idPorts, hr, registerFileEdge_of_not_we, h.registers, hi]
  | true =>
    have hi : o.memIndex = o.retired + 1 := by simp [Occupancy.memIndex, hw]
    rw [hi, sequentialAt_succ, idStageEdge, PipelineState.idPorts, h.wbWriteBackData hw, h.memWb hw, h.registers]
    rfl

theorem RefinesBack.memory_edge :
    memStageEdge s.memory s.exMem.memWrite s.exMem.aluResult s.exMem.writeData =
      (sequentialAt imem undef dmem o.exIndex).memory := by
  cases hm : o.mem with
  | false =>
    have hw : s.exMem.memWrite = false := (h.exMem_bubble hm).2.2.1
    have hi : o.exIndex = o.memIndex := by simp [Occupancy.exIndex, hm]
    rw [hw, hi, ← h.memory]; rfl
  | true =>
    have hi : o.exIndex = o.memIndex + 1 := by simp [Occupancy.exIndex, hm]
    rw [hi, sequentialAt_succ, h.exMem hm, h.memory]
    rfl

theorem RefinesBack.memWbIn (hm : o.mem = true) :
    s.memWbIn undef = (sequentialAt imem undef dmem o.memIndex).memWb imem undef := by
  rw [PipelineState.memWbIn, PipelineState.memReadData, h.exMem hm, h.memory]
  rfl

theorem RefinesBack.memWbIn_bubble (hm : o.mem = false) : (s.memWbIn undef).Bubble := by
  obtain ⟨hr, -, -, ht, -, hj⟩ := h.exMem_bubble hm
  exact ⟨hr, ht, hj⟩

end

/-! ## Empty fetch slots -/

theorem idExIn_of_clear {s : PipelineState} (hid : s.ifId = .clear) : s.idExIn = .clear := by
  rw [PipelineState.idExIn, PipelineState.id, PipelineState.idPorts, hid]
  simp only [idStage, IfId.clear, rs1Of_zero, rs2Of_zero, rdOf_zero, funct3Of_zero, funct7Of_zero, controlUnit_zero,
    immediateGenerator_zero, registerFileRead_zero]
  rfl

/-! ## The operand network -/

theorem readArray_step (σ : ArchState) (rs : RegIdx) :
    readArray (σ.step imem undef).registers rs =
      if (σ.exMem imem).regWrite ∧ (σ.exMem imem).rd ≠ 0#5 ∧ (σ.exMem imem).rd = rs then σ.writeBackData imem undef
      else readArray σ.registers rs :=
  readArray_edge ..

theorem writeBackData_of_alu {σ : ArchState} (ht : (σ.exMem imem).memtoReg = false)
    (hj : (σ.exMem imem).jump = false) : σ.writeBackData imem undef = (σ.exMem imem).aluResult := by
  have ht' : (σ.control imem).memtoReg = false := ht
  have hj' : (σ.control imem).jump = false := hj
  rw [ArchState.writeBackData, wbStage, ht', hj']
  rfl

/-- What the register array will hold at `rs` when the instructions in memory
and write-back have left, selected as the forwarding unit does. -/
theorem RefinesBack.readArray_exIndex (h : RefinesBack imem undef dmem o s) (rs : RegIdx)
    (hfresh : s.exMem.regWrite = true → s.exMem.rd ≠ 0#5 → s.exMem.rd = rs →
      s.exMem.memtoReg = false ∧ s.exMem.jump = false) :
    readArray (sequentialAt imem undef dmem o.exIndex).registers rs =
      if s.exMem.regWrite ∧ s.exMem.rd ≠ 0#5 ∧ s.exMem.rd = rs then s.exMem.aluResult
      else if s.memWb.regWrite ∧ s.memWb.rd ≠ 0#5 ∧ s.memWb.rd = rs then s.wbWriteBackData
      else readArray s.registers rs := by
  have hwb : readArray (sequentialAt imem undef dmem o.memIndex).registers rs =
      if s.memWb.regWrite ∧ s.memWb.rd ≠ 0#5 ∧ s.memWb.rd = rs then s.wbWriteBackData
      else readArray s.registers rs := by
    rw [← h.registers_edge]; exact readArray_edge ..
  cases hm : o.mem with
  | false =>
    have hr : s.exMem.regWrite = false := (h.exMem_bubble hm).1
    have hi : o.exIndex = o.memIndex := by simp [Occupancy.exIndex, hm]
    rw [hi, hwb, hr]
    simp
  | true =>
    have hi : o.exIndex = o.memIndex + 1 := by simp [Occupancy.exIndex, hm]
    rw [hi, sequentialAt_succ, readArray_step, hwb]
    rw [h.exMem hm] at hfresh ⊢
    split
    · rename_i hsel
      obtain ⟨ht, hj⟩ := hfresh hsel.1 hsel.2.1 hsel.2.2
      exact writeBackData_of_alu ht hj
    · rfl

/-! ## The execute stage -/

section
variable (h : Refines imem undef dmem o s)
include h

theorem Refines.idEx_readData :
    s.idEx.readData1 = readArray s.registers s.idEx.rs1 ∧ s.idEx.readData2 = readArray s.registers s.idEx.rs2 := by
  cases hx : o.ex with
  | false =>
    rw [h.idEx_bubble hx]
    exact ⟨(readArray_zero _).symm, (readArray_zero _).symm⟩
  | true =>
    rw [h.idEx hx, h.registers]
    exact ⟨rfl, rfl⟩

variable {t : Nat} (ht : OnTime (loadUse imem undef dmem) (redirectsAt imem undef dmem) t o)
include ht

/-- An instruction in memory that a source of the instruction in execute
depends on is neither a load nor a jump. -/
theorem Refines.exMem_fresh {rs : RegIdx} (hrs : rs = s.idEx.rs1 ∨ rs = s.idEx.rs2)
    (hw : s.exMem.regWrite = true) (hd : s.exMem.rd ≠ 0#5) (he : s.exMem.rd = rs) :
    s.exMem.memRead = false ∧ s.exMem.memtoReg = false ∧ s.exMem.jump = false := by
  cases hm : o.mem with
  | false => rw [(h.exMem_bubble hm).1] at hw; cases hw
  | true =>
    cases hx : o.ex with
    | false =>
      rw [h.idEx_bubble hx] at hrs
      have hrs' : rs = 0#5 := by rcases hrs with hrs | hrs <;> exact hrs
      exact absurd (he.trans hrs') hd
    | true =>
      obtain ⟨hhold, hred⟩ := ht.spaced hm hx
      have hi : o.exIndex = o.memIndex + 1 := by simp [Occupancy.exIndex, hm]
      rw [h.exMem hm] at hd he ⊢
      rw [h.idEx hx, hi] at hrs
      have hnl : ((sequentialAt imem undef dmem o.memIndex).control imem).memRead = false := by
        by_contra hl
        rw [Bool.not_eq_false] at hl
        have : loadUse imem undef dmem o.memIndex = true :=
          hazardDetectionUnit_eq_true.mpr ⟨hl, hd, hrs.imp he.trans he.trans⟩
        rw [hhold] at this; cases this
      have hnj : ((sequentialAt imem undef dmem o.memIndex).control imem).jump = false := by
        have : (sequentialAt imem undef dmem o.memIndex).redirects imem = false := hred
        exact (Bool.or_eq_false_iff.mp this).2
      exact ⟨hnl, (controlUnit_memtoReg _).trans hnl, hnj⟩

/-- The value behind the forwarding muxes is the one the register array will
hold when the older instructions have written back. -/
theorem Refines.operands :
    s.exPorts.operand1Fwd = readArray (sequentialAt imem undef dmem o.exIndex).registers s.idEx.rs1 ∧
      s.exPorts.operand2Base = readArray (sequentialAt imem undef dmem o.exIndex).registers s.idEx.rs2 := by
  obtain ⟨hr1, hr2⟩ := h.idEx_readData
  constructor
  · rw [h.readArray_exIndex s.idEx.rs1 fun hw hd he => (h.exMem_fresh ht (.inl rfl) hw hd he).2, ← hr1]
    exact forward_value ..
  · rw [h.readArray_exIndex s.idEx.rs2 fun hw hd he => (h.exMem_fresh ht (.inr rfl) hw hd he).2, ← hr2]
    exact forward_value ..

theorem Refines.ex (hx : o.ex = true) : s.ex = (sequentialAt imem undef dmem o.exIndex).ex imem := by
  obtain ⟨h1, h2⟩ := h.operands ht
  have hid := h.idEx hx
  apply exStage_congr
  · rw [h1, operand1Fwd_none rfl, hid]; rfl
  · rw [h2, operand2Base_none rfl, hid]; rfl
  all_goals rw [PipelineState.exPorts, hid]; rfl

/-! ## Redirect and stall -/

theorem Refines.pipelineFlush : s.pipelineFlush = (o.ex && redirectsAt imem undef dmem o.exIndex) := by
  cases hx : o.ex with
  | false => rw [PipelineState.pipelineFlush, h.idEx_bubble hx]; rfl
  | true => rw [PipelineState.pipelineFlush, h.ex ht hx, h.idEx hx]; rfl

theorem Refines.hazardStall : s.hazardStall = (o.ex && loadUse imem undef dmem o.exIndex) := by
  cases hx : o.ex with
  | false => rw [PipelineState.hazardStall, h.idEx_bubble hx]; rfl
  | true =>
    rw [PipelineState.hazardStall, PipelineState.ifIdRs1, PipelineState.ifIdRs2, h.idEx hx, h.ifId (ht.ex_fetched hx)]
    cases hl : ((sequentialAt imem undef dmem o.exIndex).control imem).memRead with
    | false => simp [hazardDetectionUnit, loadUse, ArchState.idEx, hl]
    | true =>
      -- a load does not redirect, so the fetch slot holds the next instruction
      have hr : redirectsAt imem undef dmem o.exIndex = false := redirects_of_load hl
      rw [fetchPc_eq fun _ => hr, Occupancy.issued_of_ex hx]
      rfl

theorem Refines.controls_redirected (hx : o.ex = true) (hr : redirectsAt imem undef dmem o.exIndex = true)
    (hl : loadUse imem undef dmem o.exIndex = false) : s.pipelineFlush = true ∧ s.hazardStall = false := by
  rw [h.pipelineFlush ht, h.hazardStall ht, hx, hr, hl]
  exact ⟨rfl, rfl⟩

theorem Refines.controls_held (hx : o.ex = true) (hr : redirectsAt imem undef dmem o.exIndex = false)
    (hl : loadUse imem undef dmem o.exIndex = true) : s.pipelineFlush = false ∧ s.hazardStall = true := by
  rw [h.pipelineFlush ht, h.hazardStall ht, hx, hr, hl]
  exact ⟨rfl, rfl⟩

theorem Refines.controls_flowed (hr : o.ex = true → redirectsAt imem undef dmem o.exIndex = false)
    (hl : o.ex = true → loadUse imem undef dmem o.exIndex = false) :
    s.pipelineFlush = false ∧ s.hazardStall = false := by
  rw [h.pipelineFlush ht, h.hazardStall ht]
  cases hx : o.ex with
  | false => exact ⟨rfl, rfl⟩
  | true => exact ⟨hr hx, hl hx⟩

/-! ## One clock edge -/

theorem Refines.exMemIn (hx : o.ex = true) :
    s.exMemIn = (sequentialAt imem undef dmem o.exIndex).exMem imem := by
  rw [PipelineState.exMemIn, h.ex ht hx, h.idEx hx]; rfl

omit ht in
theorem Refines.exMemIn_bubble (hx : o.ex = false) : s.exMemIn.Bubble := by
  rw [PipelineState.exMemIn, h.idEx_bubble hx]; exact ⟨rfl, rfl, rfl, rfl, rfl, rfl⟩

theorem Refines.back_edge (ex fetched : Bool) :
    RefinesBack imem undef dmem (o.advance ex fetched) (s.clockEdge imem undef false) where
  registers := h.registers_edge
  memory := h.memory_edge
  memWb := h.memWbIn
  memWb_bubble := h.memWbIn_bubble
  exMem := h.exMemIn ht
  exMem_bubble := h.exMemIn_bubble

theorem Refines.redirected (hx : o.ex = true) (hr : redirectsAt imem undef dmem o.exIndex = true)
    (hl : loadUse imem undef dmem o.exIndex = false) :
    Refines imem undef dmem (o.advance false false) (s.clockEdge imem undef false) := by
  obtain ⟨hflush, hstall⟩ := h.controls_redirected ht hx hr hl
  refine ⟨h.back_edge ht false false, ?_⟩
  constructor
  · intro h'; cases h'
  · intro _
    rw [PipelineState.clockEdge, hflush]; rfl
  · intro h'; cases h'
  · intro _
    rw [PipelineState.clockEdge, hflush, ifIdRegister_flush]
  · intro h'; cases h'
  · intro _
    rw [PipelineState.clockEdge, PipelineState.pcWrite, PipelineState.nextPc, hflush, hstall, h.ex ht hx]
    rw [Occupancy.advance_exIndex, Occupancy.issued_of_ex hx, pc_of_redirects hr]
    rfl

theorem Refines.held (hx : o.ex = true) (hr : redirectsAt imem undef dmem o.exIndex = false)
    (hl : loadUse imem undef dmem o.exIndex = true) :
    Refines imem undef dmem (o.advance false true) (s.clockEdge imem undef false) := by
  obtain ⟨hflush, hstall⟩ := h.controls_held ht hx hr hl
  have hf := ht.ex_fetched hx
  have hpc := fetchPc_held hr
  refine ⟨h.back_edge ht false true, ?_⟩
  constructor
  · intro h'; cases h'
  · intro _
    rw [PipelineState.clockEdge, hflush, hstall]; rfl
  · intro _
    rw [PipelineState.clockEdge, hflush, hstall, ifIdRegister_stall, h.ifId hf, hpc]
  · intro h'; cases h'
  · intro _
    rw [PipelineState.clockEdge, PipelineState.pcWrite, hstall, hpc, ← h.pc hf]; rfl
  · intro h'; cases h'

omit ht in
/-- The instruction in the fetch slot is decoded with the operands it will have
once the instruction in write-back has left. -/
theorem Refines.idExIn (hr : o.ex = true → redirectsAt imem undef dmem o.exIndex = false)
    (hf : o.fetched = true) :
    s.idExIn = (sequentialAt imem undef dmem o.issued).idEx imem
      (sequentialAt imem undef dmem o.memIndex).registers := by
  have hifId := h.ifId hf
  rw [fetchPc_eq hr] at hifId
  have hread : ∀ rs, registerFileRead s.registers s.memWb.regWrite rs s.memWb.rd s.wbWriteBackData =
      readArray (sequentialAt imem undef dmem o.memIndex).registers rs := fun rs => by
    rw [registerFileRead_eq, ← h.registers_edge]; rfl
  rw [PipelineState.idExIn, PipelineState.id, PipelineState.idPorts, idStage]
  simp only [hread]
  rw [hifId]
  rfl

theorem Refines.fetchPc_flowed (hr : o.ex = true → redirectsAt imem undef dmem o.exIndex = false) :
    fetchPc imem undef dmem (o.advance o.fetched true) = s.pc := by
  cases hf : o.fetched with
  | false =>
    rw [h.pc_refill hf, fetchPc, Occupancy.advance_exIndex, Occupancy.issued_of_not_ex (ht.not_ex hf)]
    rfl
  | true =>
    rw [h.pc hf, fetchPc_eq hr]
    rfl

theorem Refines.flowed (hr : o.ex = true → redirectsAt imem undef dmem o.exIndex = false)
    (hl : o.ex = true → loadUse imem undef dmem o.exIndex = false) :
    Refines imem undef dmem (o.advance o.fetched true) (s.clockEdge imem undef false) := by
  obtain ⟨hflush, hstall⟩ := h.controls_flowed ht hr hl
  have hidEx : (s.clockEdge imem undef false).idEx = s.idExIn := by
    rw [PipelineState.clockEdge, hflush, hstall]; rfl
  have hifId : (s.clockEdge imem undef false).ifId = ⟨s.pc, instructionMemory imem s.pc⟩ := by
    rw [PipelineState.clockEdge, hflush, hstall]; rfl
  have hnext : (s.clockEdge imem undef false).pc = s.pc + 4#32 := by
    rw [PipelineState.clockEdge, PipelineState.pcWrite, PipelineState.nextPc, hflush, hstall]; rfl
  have hpc := h.fetchPc_flowed ht hr
  refine ⟨h.back_edge ht o.fetched true, ?_⟩
  constructor
  · intro hf
    rw [hidEx]; exact h.idExIn hr hf
  · intro hf
    rw [hidEx]; exact idExIn_of_clear (h.ifId_bubble hf)
  · intro _
    rw [hifId, hpc]
  · intro h'; cases h'
  · intro _
    rw [hnext, hpc]
  · intro h'; cases h'

/-- **One clock edge.** -/
theorem Refines.next :
    Refines imem undef dmem (o.next (loadUse imem undef dmem) (redirectsAt imem undef dmem))
      (s.clockEdge imem undef false) := by
  rcases next_cases (loadUse_not_redirects imem undef dmem) o with ⟨hx, hr, hl, ho⟩ | ⟨hx, hr, hl, ho⟩ | ⟨hr, hl, ho⟩
  · rw [ho]; exact h.redirected ht hx hr hl
  · rw [ho]; exact h.held ht hx hr hl
  · rw [ho]; exact h.flowed ht hr hl

end

end

/-! ## The run -/

section
variable (imem : InstrArray) (undef : Word → Word) (dmem : MemArray)

theorem refines_cleared : Refines imem undef dmem .empty (.cleared dmem) where
  registers := rfl
  memory := rfl
  memWb h := by cases h
  memWb_bubble _ := MemWb.bubble_clear
  exMem h := by cases h
  exMem_bubble _ := ExMem.bubble_clear
  idEx h := by cases h
  idEx_bubble _ := rfl
  ifId h := by cases h
  ifId_bubble _ := rfl
  pc h := by cases h
  pc_refill _ := rfl

/-- **Refinement.** After every number of clock edges the pipeline holds what
the timetable says of the sequential run. -/
theorem pipelineAt_refines : ∀ n, Refines imem undef dmem (occupancyAt imem undef dmem n) (pipelineAt imem undef dmem n)
  | 0 => refines_cleared imem undef dmem
  | n + 1 => by
    rw [occupancyAt_succ, pipelineAt_succ]
    exact (pipelineAt_refines n).next (occupancyAt_onTime imem undef dmem n)

end

end RiscV
