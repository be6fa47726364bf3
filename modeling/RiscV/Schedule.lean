import RiscV.PipelineSound

/-!
# The schedule of the pipeline

In which cycle each instruction of the sequential run is in each pipeline
register, counted from the instructions themselves: one lost cycle for each
load whose destination stands in the source fields of the next instruction,
two for each jump or taken branch.
-/

namespace RiscV

open InOrder

namespace ArchState

variable (imem : InstrArray) (σ : ArchState)

def isLoad : Bool := opcodeOf (σ.instruction imem) == 0b0000011#7
def isBranch : Bool := opcodeOf (σ.instruction imem) == 0b1100011#7
def isJal : Bool := opcodeOf (σ.instruction imem) == 0b1101111#7
def isJalr : Bool := opcodeOf (σ.instruction imem) == 0b1100111#7

def conditionHolds : Bool :=
  branchComparator (readArray σ.registers (rs1Of (σ.instruction imem)))
    (readArray σ.registers (rs2Of (σ.instruction imem))) (funct3Of (σ.instruction imem))

def transfers : Bool := σ.isJal imem || σ.isJalr imem || (σ.isBranch imem && σ.conditionHolds imem)

/-- A load with `rd != 0`, in front of an instruction with that `rd` in bits
19:15 or 24:20. -/
def feeds (user : ArchState) : Bool :=
  σ.isLoad imem && rdOf (σ.instruction imem) != 0#5 &&
    (rs1Of (user.instruction imem) == rdOf (σ.instruction imem) ||
      rs2Of (user.instruction imem) == rdOf (σ.instruction imem))

theorem ex_branchTaken (h : σ.isBranch imem = true) : (σ.ex imem).branchTaken = σ.conditionHolds imem := by
  have hop : opcodeOf (σ.instruction imem) = 0b1100011#7 := by simpa [isBranch] using h
  have hsel : (σ.control imem).op1Sel = 0b00#2 := by rw [control, hop]; rfl
  rw [ex, exStage, conditionHolds, ExStageIn.operand1, exPorts, hsel]
  rfl

theorem redirects_eq_transfers : σ.redirects imem = σ.transfers imem := by
  have hb : (σ.control imem).branch = σ.isBranch imem := controlUnit_branch _
  have hj : (σ.control imem).jump = (σ.isJal imem || σ.isJalr imem) := controlUnit_jump _
  rw [redirects, transfers, hb, hj, Bool.or_comm]
  cases hbr : σ.isBranch imem with
  | false => rfl
  | true => rw [σ.ex_branchTaken imem hbr]

end ArchState

section
variable (imem : InstrArray) (undef : Word → Word) (dmem : MemArray)

/-- Instruction `j` is a load with `rd != 0`, and bits 19:15 or bits 24:20 of
instruction `j + 1` equal that `rd`. -/
def feedsNext (j : Nat) : Bool := (sequentialAt imem undef dmem j).feeds imem (sequentialAt imem undef dmem (j + 1))

def transfersAt (j : Nat) : Bool := (sequentialAt imem undef dmem j).transfers imem

def loadUseCount (k : Nat) : Nat := Nat.count (fun j => feedsNext imem undef dmem j = true) k

def transferCount (k : Nat) : Nat := Nat.count (fun j => transfersAt imem undef dmem j = true) k

/-- `E(k)`: the number of edges after which instruction `k` is in ID/EX. -/
def executeTime (k : Nat) : Nat := 2 + k + loadUseCount imem undef dmem k + 2 * transferCount imem undef dmem k

theorem feedsNext_eq_loadUse : feedsNext imem undef dmem = loadUse imem undef dmem := by
  funext j
  have hl : ((sequentialAt imem undef dmem j).control imem).memRead = (sequentialAt imem undef dmem j).isLoad imem :=
    controlUnit_memRead _
  rw [Bool.eq_iff_iff, loadUse, hazardDetectionUnit_eq_true, hl]
  simp only [feedsNext, ArchState.feeds, Bool.and_eq_true, Bool.or_eq_true, bne_iff_ne, beq_iff_eq, and_assoc, ne_eq]
  rw [eq_comm (a := rs1Of _), eq_comm (a := rs2Of _)]

theorem transfersAt_eq_redirectsAt : transfersAt imem undef dmem = redirectsAt imem undef dmem := by
  funext j
  exact ((sequentialAt imem undef dmem j).redirects_eq_transfers imem).symm

theorem executeTime_eq :
    executeTime imem undef dmem = issueTime (loadUse imem undef dmem) (redirectsAt imem undef dmem) := by
  funext k
  rw [executeTime, issueTime, loadUseCount, transferCount, feedsNext_eq_loadUse, transfersAt_eq_redirectsAt]

theorem executeTime_succ (k : Nat) :
    executeTime imem undef dmem (k + 1) =
      executeTime imem undef dmem k + 1 + (if feedsNext imem undef dmem k then 1 else 0) +
        (if transfersAt imem undef dmem k then 2 else 0) := by
  rw [executeTime_eq, feedsNext_eq_loadUse, transfersAt_eq_redirectsAt, issueTime_succ]

theorem occupancyAt_executeTime (k : Nat) :
    (occupancyAt imem undef dmem (executeTime imem undef dmem k)).ex = true ∧
      (occupancyAt imem undef dmem (executeTime imem undef dmem k)).exIndex = k := by
  have hexcl := loadUse_not_redirects imem undef dmem
  rw [executeTime_eq]
  exact ⟨(ex_iff hexcl _).mpr ⟨k, rfl⟩, exIndex_issueTime hexcl k⟩

theorem executeTime_strictMono : StrictMono (executeTime imem undef dmem) := by
  rw [executeTime_eq]
  exact issueTime_strictMono

/-! ## Each pipeline register in time -/

theorem idEx_at_executeTime (k : Nat) :
    (pipelineAt imem undef dmem (executeTime imem undef dmem k)).idEx =
      (sequentialAt imem undef dmem k).idEx imem
        (pipelineAt imem undef dmem (executeTime imem undef dmem k)).registers := by
  have h := pipelineAt_refines imem undef dmem (executeTime imem undef dmem k)
  have hx := (ex_iff (loadUse_not_redirects imem undef dmem) (executeTime imem undef dmem k)).mpr ⟨k, by rw [executeTime_eq]⟩
  have hi := exIndex_issueTime (loadUse_not_redirects imem undef dmem) k
  rw [← executeTime_eq] at hi
  rw [h.idEx hx, h.registers, occupancyAt, hi]

theorem exMem_at_executeTime (k : Nat) :
    (pipelineAt imem undef dmem (executeTime imem undef dmem k + 1)).exMem =
      (sequentialAt imem undef dmem k).exMem imem := by
  have h := pipelineAt_refines imem undef dmem (executeTime imem undef dmem k + 1)
  have hm := (mem_iff (loadUse_not_redirects imem undef dmem) (executeTime imem undef dmem k + 1)).mpr ⟨k, by rw [executeTime_eq]⟩
  have hi := memIndex_issueTime (loadUse_not_redirects imem undef dmem) k
  rw [← executeTime_eq] at hi
  rw [h.exMem hm, occupancyAt, hi]

theorem memWb_at_executeTime (k : Nat) :
    (pipelineAt imem undef dmem (executeTime imem undef dmem k + 2)).memWb =
      (sequentialAt imem undef dmem k).memWb imem undef := by
  have h := pipelineAt_refines imem undef dmem (executeTime imem undef dmem k + 2)
  have hw := (wb_iff (loadUse_not_redirects imem undef dmem) (executeTime imem undef dmem k + 2)).mpr ⟨k, by rw [executeTime_eq]⟩
  have hi := retired_issueTime (loadUse_not_redirects imem undef dmem) k
  rw [← executeTime_eq] at hi
  rw [h.memWb hw, occupancyAt, hi]

theorem idEx_bubble_of_ne {n : Nat} (hn : ∀ k, n ≠ executeTime imem undef dmem k) :
    (pipelineAt imem undef dmem n).idEx.Bubble := by
  have hx : (occupancyAt imem undef dmem n).ex = false := by
    rw [← Bool.not_eq_true, occupancyAt, ex_iff (loadUse_not_redirects imem undef dmem), ← executeTime_eq]
    exact fun ⟨k, hk⟩ => hn k hk
  rw [(pipelineAt_refines imem undef dmem n).idEx_bubble hx]
  exact IdEx.bubble_clear

theorem exMem_bubble_of_ne {n : Nat} (hn : ∀ k, n ≠ executeTime imem undef dmem k + 1) :
    (pipelineAt imem undef dmem n).exMem.Bubble := by
  have hm : (occupancyAt imem undef dmem n).mem = false := by
    rw [← Bool.not_eq_true, occupancyAt, mem_iff (loadUse_not_redirects imem undef dmem), ← executeTime_eq]
    exact fun ⟨k, hk⟩ => hn k hk
  exact (pipelineAt_refines imem undef dmem n).exMem_bubble hm

theorem memWb_bubble_of_ne {n : Nat} (hn : ∀ k, n ≠ executeTime imem undef dmem k + 2) :
    (pipelineAt imem undef dmem n).memWb.Bubble := by
  have hw : (occupancyAt imem undef dmem n).wb = false := by
    rw [← Bool.not_eq_true, occupancyAt, wb_iff (loadUse_not_redirects imem undef dmem), ← executeTime_eq]
    exact fun ⟨k, hk⟩ => hn k hk
  exact (pipelineAt_refines imem undef dmem n).memWb_bubble hw

/-- **The schedule.** Instruction `k` is in ID/EX, EX/MEM and MEM/WB after
`E(k)`, `E(k) + 1` and `E(k) + 2` edges, and at all other times the register
holds a bubble. Consecutive instructions are one cycle apart, plus one for a
load-use pair and two for a transfer. -/
theorem pipeline_schedule :
    (∀ k,
      (pipelineAt imem undef dmem (executeTime imem undef dmem k)).idEx =
          (sequentialAt imem undef dmem k).idEx imem
            (pipelineAt imem undef dmem (executeTime imem undef dmem k)).registers ∧
        (pipelineAt imem undef dmem (executeTime imem undef dmem k + 1)).exMem =
          (sequentialAt imem undef dmem k).exMem imem ∧
        (pipelineAt imem undef dmem (executeTime imem undef dmem k + 2)).memWb =
          (sequentialAt imem undef dmem k).memWb imem undef) ∧
    (∀ n,
      ((∀ k, n ≠ executeTime imem undef dmem k) → (pipelineAt imem undef dmem n).idEx.Bubble) ∧
        ((∀ k, n ≠ executeTime imem undef dmem k + 1) → (pipelineAt imem undef dmem n).exMem.Bubble) ∧
        ((∀ k, n ≠ executeTime imem undef dmem k + 2) → (pipelineAt imem undef dmem n).memWb.Bubble)) ∧
    executeTime imem undef dmem 0 = 2 ∧
    (∀ k, executeTime imem undef dmem (k + 1) =
      executeTime imem undef dmem k + 1 + (if feedsNext imem undef dmem k then 1 else 0) +
        (if transfersAt imem undef dmem k then 2 else 0)) := by
  refine ⟨fun k => ⟨idEx_at_executeTime imem undef dmem k, exMem_at_executeTime imem undef dmem k,
      memWb_at_executeTime imem undef dmem k⟩,
    fun n => ⟨idEx_bubble_of_ne imem undef dmem, exMem_bubble_of_ne imem undef dmem,
      memWb_bubble_of_ne imem undef dmem⟩, ?_, fun k => ?_⟩
  · rw [executeTime_eq, issueTime_zero]
  · rw [executeTime_eq, feedsNext_eq_loadUse, transfersAt_eq_redirectsAt, issueTime_succ]

end

end RiscV
