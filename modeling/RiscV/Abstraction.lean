import RiscV.Pipeline
import RiscV.StageLemmas
import RiscV.Lib.InOrder

/-!
# What the pipeline holds of the sequential run

Each pipeline register, as a function of the sequential machine's state before
the instruction it carries; and the program's timetable, the occupancy of an
in-order pipeline driven by the load-use pairs and the control transfers of the
sequential run. `Refines` ties the two to a state of `cpu_pipeline`.
-/

namespace RiscV

open InOrder

/-! ## An instruction in each pipeline register -/

namespace ArchState

variable (imem : InstrArray) (undef : Word → Word) (σ : ArchState)

def idEx (registers : RegArray) : IdEx where
  pc := σ.pc
  readData1 := readArray registers (rs1Of (σ.instruction imem))
  readData2 := readArray registers (rs2Of (σ.instruction imem))
  immediate := immediateGenerator (σ.instruction imem)
  rs1 := rs1Of (σ.instruction imem)
  rs2 := rs2Of (σ.instruction imem)
  rd := rdOf (σ.instruction imem)
  funct3 := funct3Of (σ.instruction imem)
  funct7 := funct7Of (σ.instruction imem)
  regWrite := (σ.control imem).regWrite
  aluSrc := (σ.control imem).aluSrc
  memRead := (σ.control imem).memRead
  memWrite := (σ.control imem).memWrite
  memtoReg := (σ.control imem).memtoReg
  branch := (σ.control imem).branch
  jump := (σ.control imem).jump
  jalr := (σ.control imem).jalr
  aluOp := (σ.control imem).aluOp
  op1Sel := (σ.control imem).op1Sel

def exMem : ExMem where
  aluResult := (σ.ex imem).aluResult
  writeData := (σ.ex imem).storeData
  rd := rdOf (σ.instruction imem)
  branchTarget := (σ.ex imem).branchTarget
  branchTaken := (σ.ex imem).branchTaken
  pcPlus4 := (σ.ex imem).pcPlus4
  regWrite := (σ.control imem).regWrite
  memRead := (σ.control imem).memRead
  memWrite := (σ.control imem).memWrite
  memtoReg := (σ.control imem).memtoReg
  branch := (σ.control imem).branch
  jump := (σ.control imem).jump

def memWb : MemWb where
  readData := σ.memReadData imem undef
  aluResult := (σ.ex imem).aluResult
  pcPlus4 := (σ.ex imem).pcPlus4
  rd := rdOf (σ.instruction imem)
  regWrite := (σ.control imem).regWrite
  memtoReg := (σ.control imem).memtoReg
  jump := (σ.control imem).jump

end ArchState

/-! ## Bubbles -/

def IdEx.Bubble (q : IdEx) : Prop :=
  q.regWrite = false ∧ q.memRead = false ∧ q.memWrite = false ∧ q.memtoReg = false ∧ q.branch = false ∧
    q.jump = false

def ExMem.Bubble (q : ExMem) : Prop :=
  q.regWrite = false ∧ q.memRead = false ∧ q.memWrite = false ∧ q.memtoReg = false ∧ q.branch = false ∧
    q.jump = false

def MemWb.Bubble (q : MemWb) : Prop := q.regWrite = false ∧ q.memtoReg = false ∧ q.jump = false

theorem IdEx.bubble_clear : IdEx.clear.Bubble := ⟨rfl, rfl, rfl, rfl, rfl, rfl⟩
theorem ExMem.bubble_clear : ExMem.clear.Bubble := ⟨rfl, rfl, rfl, rfl, rfl, rfl⟩
theorem MemWb.bubble_clear : MemWb.clear.Bubble := ⟨rfl, rfl, rfl⟩

/-! ## The timetable of a program -/

section
variable (imem : InstrArray) (undef : Word → Word) (dmem : MemArray)

def loadUse (k : Nat) : Bool :=
  hazardDetectionUnit ((sequentialAt imem undef dmem k).control imem).memRead
    (rdOf ((sequentialAt imem undef dmem k).instruction imem))
    (rs1Of ((sequentialAt imem undef dmem (k + 1)).instruction imem))
    (rs2Of ((sequentialAt imem undef dmem (k + 1)).instruction imem))

def redirectsAt (k : Nat) : Bool := (sequentialAt imem undef dmem k).redirects imem

def occupancyAt (n : Nat) : Occupancy := occupancy (loadUse imem undef dmem) (redirectsAt imem undef dmem) n

/-- The address in the fetch slot, when it is taken. -/
def fetchPc (o : Occupancy) : Word :=
  if o.ex then (sequentialAt imem undef dmem o.exIndex).pc + 4#32 else (sequentialAt imem undef dmem o.exIndex).pc

structure RefinesBack (o : Occupancy) (s : PipelineState) : Prop where
  registers : s.registers = (sequentialAt imem undef dmem o.retired).registers
  memory : s.memory = (sequentialAt imem undef dmem o.memIndex).memory
  memWb : o.wb = true → s.memWb = (sequentialAt imem undef dmem o.retired).memWb imem undef
  memWb_bubble : o.wb = false → s.memWb.Bubble
  exMem : o.mem = true → s.exMem = (sequentialAt imem undef dmem o.memIndex).exMem imem
  exMem_bubble : o.mem = false → s.exMem.Bubble

structure RefinesFront (o : Occupancy) (s : PipelineState) : Prop where
  idEx : o.ex = true →
    s.idEx = (sequentialAt imem undef dmem o.exIndex).idEx imem
      (sequentialAt imem undef dmem o.retired).registers
  idEx_bubble : o.ex = false → s.idEx = .clear
  ifId : o.fetched = true →
    s.ifId = ⟨fetchPc imem undef dmem o, instructionMemory imem (fetchPc imem undef dmem o)⟩
  ifId_bubble : o.fetched = false → s.ifId = .clear
  pc : o.fetched = true → s.pc = fetchPc imem undef dmem o + 4#32
  pc_refill : o.fetched = false → s.pc = (sequentialAt imem undef dmem o.exIndex).pc

/-- The state of the pipeline, read against the sequential run from `dmem`. -/
structure Refines (o : Occupancy) (s : PipelineState) : Prop extends
  RefinesBack imem undef dmem o s, RefinesFront imem undef dmem o s

end

/-! ## Load-use pairs and transfers exclude each other -/

section
variable {imem : InstrArray} {undef : Word → Word} {dmem : MemArray}

theorem hazardDetectionUnit_eq_true {memRead : Bool} {rd rs1 rs2 : RegIdx} :
    hazardDetectionUnit memRead rd rs1 rs2 = true ↔ memRead = true ∧ rd ≠ 0#5 ∧ (rd = rs1 ∨ rd = rs2) := by
  simp [hazardDetectionUnit]

theorem redirects_of_load {σ : ArchState} (h : (σ.control imem).memRead = true) : σ.redirects imem = false := by
  obtain ⟨hb, hj⟩ := controlUnit_load h
  have hb' : (σ.control imem).branch = false := hb
  have hj' : (σ.control imem).jump = false := hj
  simp [ArchState.redirects, hb', hj']

variable (imem undef dmem) in
theorem loadUse_not_redirects (k : Nat) (h : loadUse imem undef dmem k = true) :
    redirectsAt imem undef dmem k = false :=
  redirects_of_load (hazardDetectionUnit_eq_true.mp h).1

theorem occupancyAt_succ (n : Nat) :
    occupancyAt imem undef dmem (n + 1) =
      (occupancyAt imem undef dmem n).next (loadUse imem undef dmem) (redirectsAt imem undef dmem) :=
  occupancy_succ n

variable (imem undef dmem) in
theorem occupancyAt_onTime (n : Nat) :
    OnTime (loadUse imem undef dmem) (redirectsAt imem undef dmem) n (occupancyAt imem undef dmem n) :=
  occupancy_onTime (loadUse_not_redirects imem undef dmem) n

theorem pc_of_not_redirects {k : Nat} (h : redirectsAt imem undef dmem k = false) :
    (sequentialAt imem undef dmem (k + 1)).pc = (sequentialAt imem undef dmem k).pc + 4#32 := by
  rw [sequentialAt_succ]
  have h' : (sequentialAt imem undef dmem k).redirects imem = false := h
  simp [ArchState.step, h']

theorem pc_of_redirects {k : Nat} (h : redirectsAt imem undef dmem k = true) :
    (sequentialAt imem undef dmem (k + 1)).pc = ((sequentialAt imem undef dmem k).ex imem).branchTarget := by
  rw [sequentialAt_succ]
  have h' : (sequentialAt imem undef dmem k).redirects imem = true := h
  simp [ArchState.step, h']

/-- Unless the instruction in execute redirects, the fetch slot is on the path
of the sequential run. -/
theorem fetchPc_eq {o : Occupancy} (hr : o.ex = true → redirectsAt imem undef dmem o.exIndex = false) :
    fetchPc imem undef dmem o = (sequentialAt imem undef dmem o.issued).pc := by
  cases hx : o.ex with
  | false => simp [fetchPc, hx, Occupancy.issued_of_not_ex hx]
  | true => simp [fetchPc, hx, Occupancy.issued_of_ex hx, pc_of_not_redirects (hr hx)]

theorem fetchPc_held {o : Occupancy} (hr : redirectsAt imem undef dmem o.exIndex = false) :
    fetchPc imem undef dmem (o.advance false true) = fetchPc imem undef dmem o :=
  (fetchPc_eq fun _ => hr).symm

end

end RiscV
