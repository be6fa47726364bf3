import RiscV.Architectural
import RiscV.Lib.WriteLog

/-!
# What the pipeline commits

The register writes, the data-memory writes and the addresses of the completed
instructions, edge by edge in `cpu_pipeline` and instruction by instruction in
the sequential machine. The pipeline's logs are those of the sequential run up
to the instruction that has just left the stage in question.
-/

namespace RiscV

open InOrder WriteLog

/-- What one step commits: the register write of `register_file` (`we` and
`rd != 0`), the write strobe of `data_memory`, the completed instruction. -/
structure Commit where
  registerWrite : List (RegIdx × Word)
  memoryWrite : List (Word × Word)
  completed : List Word

def registerWriteOf (we : Bool) (rd : RegIdx) (writeData : Word) : List (RegIdx × Word) :=
  if we ∧ rd ≠ 0#5 then [(rd, writeData)] else []

def memoryWriteOf (memWrite : Bool) (address writeData : Word) : List (Word × Word) :=
  if memWrite then [(address, writeData)] else []

theorem registerFileEdge_eq_replay (registers : RegArray) (we : Bool) (rd : RegIdx) (writeData : Word) :
    registerFileEdge registers false we rd writeData = replay (registerWriteOf we rd writeData) registers := by
  unfold registerFileEdge registerWriteOf
  by_cases h : we ∧ rd ≠ 0#5 <;> simp [h]

def ArchState.commit (imem : InstrArray) (undef : Word → Word) (σ : ArchState) : Commit where
  registerWrite :=
    registerWriteOf (σ.control imem).regWrite (rdOf (σ.instruction imem)) (σ.writeBackData imem undef)
  memoryWrite := memoryWriteOf (σ.control imem).memWrite (σ.ex imem).aluResult (σ.ex imem).storeData
  completed := [σ.pc]

/-! ## Instruction addresses beside the pipeline registers

The hardware does not carry the address of an instruction past EX, and cannot
tell a bubble from an instruction without effect. The tags do, under the same
stall and flush. -/

structure Tags where
  ifId : Option Word
  idEx : Option Word
  exMem : Option Word
  memWb : Option Word

def Tags.clear : Tags := ⟨none, none, none, none⟩

def Tags.next (t : Tags) (s : PipelineState) : Tags where
  ifId := if s.pipelineFlush then none else if !s.hazardStall then some s.pc else t.ifId
  idEx := if s.pipelineFlush || s.hazardStall then none else t.ifId
  exMem := t.idEx
  memWb := t.exMem

section
variable (imem : InstrArray) (undef : Word → Word) (dmem : MemArray)

def tagsAt : Nat → Tags
  | 0 => .clear
  | n + 1 => (tagsAt n).next (pipelineAt imem undef dmem n)

def pipelineCommit (n : Nat) : Commit where
  registerWrite :=
    registerWriteOf (pipelineAt imem undef dmem n).memWb.regWrite (pipelineAt imem undef dmem n).memWb.rd
      (pipelineAt imem undef dmem n).wbWriteBackData
  memoryWrite :=
    memoryWriteOf (pipelineAt imem undef dmem n).exMem.memWrite (pipelineAt imem undef dmem n).exMem.aluResult
      (pipelineAt imem undef dmem n).exMem.writeData
  completed := (tagsAt imem undef dmem n).memWb.toList

def sequentialCommit (k : Nat) : Commit := (sequentialAt imem undef dmem k).commit imem undef

/-! ## Tags follow the timetable -/

structure Tagged (o : Occupancy) (t : Tags) : Prop where
  ifId : t.ifId = if o.fetched then some (fetchPc imem undef dmem o) else none
  idEx : t.idEx = if o.ex then some (sequentialAt imem undef dmem o.exIndex).pc else none
  exMem : t.exMem = if o.mem then some (sequentialAt imem undef dmem o.memIndex).pc else none
  memWb : t.memWb = if o.wb then some (sequentialAt imem undef dmem o.retired).pc else none

end

section
variable {imem : InstrArray} {undef : Word → Word} {dmem : MemArray}

section
variable {o : Occupancy} {s : PipelineState} {t : Tags} {n : Nat}

theorem Tagged.advance (hg : Tagged imem undef dmem o t) {ex fetched : Bool}
    (hifId : (t.next s).ifId = if fetched then some (fetchPc imem undef dmem (o.advance ex fetched)) else none)
    (hidEx : (t.next s).idEx = if ex then some (sequentialAt imem undef dmem o.issued).pc else none) :
    Tagged imem undef dmem (o.advance ex fetched) (t.next s) :=
  ⟨hifId, hidEx, hg.idEx, hg.exMem⟩

theorem Tagged.next (hg : Tagged imem undef dmem o t) (h : Refines imem undef dmem o s)
    (ht : OnTime (loadUse imem undef dmem) (redirectsAt imem undef dmem) n o) :
    Tagged imem undef dmem (o.next (loadUse imem undef dmem) (redirectsAt imem undef dmem)) (t.next s) := by
  rcases next_cases (loadUse_not_redirects imem undef dmem) o with ⟨hx, hr, hl, ho⟩ | ⟨hx, hr, hl, ho⟩ | ⟨hr, hl, ho⟩
  · obtain ⟨hflush, -⟩ := h.controls_redirected ht hx hr hl
    rw [ho]
    exact hg.advance (by simp [Tags.next, hflush]) (by simp [Tags.next, hflush])
  · obtain ⟨hflush, hstall⟩ := h.controls_held ht hx hr hl
    rw [ho]
    refine hg.advance ?_ (by simp [Tags.next, hstall])
    rw [fetchPc_held hr]
    simp [Tags.next, hflush, hstall, hg.ifId, ht.ex_fetched hx]
  · obtain ⟨hflush, hstall⟩ := h.controls_flowed ht hr hl
    rw [ho]
    refine hg.advance ?_ ?_
    · rw [h.fetchPc_flowed ht hr]
      simp [Tags.next, hflush, hstall]
    · rw [← fetchPc_eq hr]
      simp [Tags.next, hflush, hstall, hg.ifId]

end

variable (imem undef dmem)

theorem tagsAt_tagged (n : Nat) : Tagged imem undef dmem (occupancyAt imem undef dmem n) (tagsAt imem undef dmem n) := by
  induction n with
  | zero => exact ⟨rfl, rfl, rfl, rfl⟩
  | succ n ih =>
    rw [occupancyAt_succ]
    exact ih.next (pipelineAt_refines imem undef dmem n) (occupancyAt_onTime imem undef dmem n)

/-! ## The logs -/

/-- The stage in question counts on exactly when its commit is that of the next
instruction, and commits nothing otherwise. -/
theorem pipelineCommit_registerWrite (n : Nat) :
    (retiredAt imem undef dmem (n + 1) = retiredAt imem undef dmem n ∧
        (pipelineCommit imem undef dmem n).registerWrite = []) ∨
      (retiredAt imem undef dmem (n + 1) = retiredAt imem undef dmem n + 1 ∧
        (pipelineCommit imem undef dmem n).registerWrite =
          (sequentialCommit imem undef dmem (retiredAt imem undef dmem n)).registerWrite) := by
  have h := pipelineAt_refines imem undef dmem n
  rw [retiredAt_succ]
  cases hw : (occupancyAt imem undef dmem n).wb with
  | false =>
    refine .inl ⟨by simp [Occupancy.memIndex, hw, retiredAt], ?_⟩
    simp [pipelineCommit, registerWriteOf, (h.memWb_bubble hw).1]
  | true =>
    refine .inr ⟨by simp [Occupancy.memIndex, hw, retiredAt], ?_⟩
    rw [pipelineCommit, h.wbWriteBackData hw, h.memWb hw]
    rfl

theorem pipelineCommit_completed (n : Nat) :
    (retiredAt imem undef dmem (n + 1) = retiredAt imem undef dmem n ∧
        (pipelineCommit imem undef dmem n).completed = []) ∨
      (retiredAt imem undef dmem (n + 1) = retiredAt imem undef dmem n + 1 ∧
        (pipelineCommit imem undef dmem n).completed =
          (sequentialCommit imem undef dmem (retiredAt imem undef dmem n)).completed) := by
  have hg := (tagsAt_tagged imem undef dmem n).memWb
  rw [retiredAt_succ]
  cases hw : (occupancyAt imem undef dmem n).wb with
  | false =>
    refine .inl ⟨by simp [Occupancy.memIndex, hw, retiredAt], ?_⟩
    simp [pipelineCommit, hg, hw]
  | true =>
    refine .inr ⟨by simp [Occupancy.memIndex, hw, retiredAt], ?_⟩
    simp [pipelineCommit, hg, hw, sequentialCommit, ArchState.commit, retiredAt]

/-- Stores are committed by the memory stage, one cycle before they retire. -/
theorem pipelineCommit_memoryWrite (n : Nat) :
    (retiredAt imem undef dmem (n + 2) = retiredAt imem undef dmem (n + 1) ∧
        (pipelineCommit imem undef dmem n).memoryWrite = []) ∨
      (retiredAt imem undef dmem (n + 2) = retiredAt imem undef dmem (n + 1) + 1 ∧
        (pipelineCommit imem undef dmem n).memoryWrite =
          (sequentialCommit imem undef dmem (retiredAt imem undef dmem (n + 1))).memoryWrite) := by
  have h := pipelineAt_refines imem undef dmem n
  rw [retiredAt_succ_succ, retiredAt_succ]
  cases hm : (occupancyAt imem undef dmem n).mem with
  | false =>
    refine .inl ⟨by simp [Occupancy.exIndex, hm], ?_⟩
    simp [pipelineCommit, memoryWriteOf, (h.exMem_bubble hm).2.2.1]
  | true =>
    refine .inr ⟨by simp [Occupancy.exIndex, hm], ?_⟩
    rw [pipelineCommit, h.exMem hm]
    rfl

theorem registerWrites_eq (n : Nat) :
    collect (fun i => (pipelineCommit imem undef dmem i).registerWrite) n =
      collect (fun k => (sequentialCommit imem undef dmem k).registerWrite) (retiredAt imem undef dmem n) :=
  collect_reindex rfl (pipelineCommit_registerWrite imem undef dmem) n

theorem completed_eq (n : Nat) :
    collect (fun i => (pipelineCommit imem undef dmem i).completed) n =
      collect (fun k => (sequentialCommit imem undef dmem k).completed) (retiredAt imem undef dmem n) :=
  collect_reindex rfl (pipelineCommit_completed imem undef dmem) n

theorem memoryWrites_eq (n : Nat) :
    collect (fun i => (pipelineCommit imem undef dmem i).memoryWrite) n =
      collect (fun k => (sequentialCommit imem undef dmem k).memoryWrite) (retiredAt imem undef dmem (n + 1)) :=
  collect_reindex (c := fun n => retiredAt imem undef dmem (n + 1)) rfl (pipelineCommit_memoryWrite imem undef dmem) n

theorem sequentialAt_registers_eq_replay (k : Nat) :
    (sequentialAt imem undef dmem k).registers =
      replay (collect (fun j => (sequentialCommit imem undef dmem j).registerWrite) k) fun _ => 0#32 := by
  induction k with
  | zero => rfl
  | succ k ih =>
    rw [collect_succ, replay_append, ← ih, sequentialAt_succ]
    exact registerFileEdge_eq_replay ..

end

end RiscV
