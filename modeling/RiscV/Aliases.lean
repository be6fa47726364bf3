import RiscV.CycleCount
import RiscV.Programs

/-!
# Aliases

Many words stand for one instruction. A program in which every word is replaced
by the encoding of what it is executed as runs the same way. It may be faster:
a word executed as nothing still has register fields, and a load before it that
hits one of them stalls.
-/

namespace RiscV

open Rv32i

def canonical (imem : InstrArray) : InstrArray := fun i => encode (disassemble (imem i))

namespace ArchState

variable {imem : InstrArray} {undef : Word → Word} {σ : ArchState}

theorem instruction_canonical : σ.instruction (canonical imem) = encode (disassemble (σ.instruction imem)) := rfl

theorem step_canonical : σ.step (canonical imem) undef = σ.step imem undef := by
  rw [step_executedAs, step_executedAs, instruction_canonical, executedAs_encode, disassemble]
  cases executedAs (σ.instruction imem) with
  | none =>
    rw [Option.elim_some, Option.elim_none, Option.getD_none, apply, exec, Effect.next, wrap_next]
    rfl
  | some i => rfl

theorem transfers_executedAs :
    σ.transfers imem = (executedAs (σ.instruction imem)).elim false fun i =>
      transfersOn (readArray σ.registers i.rs1) (readArray σ.registers i.rs2) i := by
  unfold transfers isJal isJalr isBranch conditionHolds
  generalize σ.instruction imem = w
  unfold executedAs
  split
  next h => rw [h]; rfl
  next h =>
    rw [h]
    split
    · rfl
    · split <;> rfl
  next h => rw [h]; rfl
  next h => rw [h]; rfl
  next h =>
    rw [h]
    cases hop : branchOpOf (funct3Of w) with
    | none => rw [branchComparator_none hop]; rfl
    | some op => rw [← branchOpOf_funct3 hop, branchComparator_eq]; rfl
  next h => rw [h]; rfl
  next h => rw [h]; rfl
  next h => rw [h]; rfl
  next h => rw [h]; rfl
  next h =>
    rw [h]
    split <;> rfl
  next => simp_all

theorem transfers_canonical : σ.transfers (canonical imem) = σ.transfers imem := by
  rw [transfers_executedAs, transfers_executedAs, instruction_canonical, executedAs_encode, disassemble]
  cases executedAs (σ.instruction imem) <;> rfl

theorem isLoad_none (h : executedAs (σ.instruction imem) = none) : σ.isLoad imem = false := by
  have hop : opcodeOf (σ.instruction imem) ∉ looseOpcodes := fun hop => executedAs_isSome hop h
  rw [isLoad, beq_eq_false_iff_ne]
  intro hload
  exact hop (by rw [hload]; decide)

theorem feeds_canonical {user : ArchState} :
    σ.feeds (canonical imem) user = (σ.feeds imem user && (executedAs (user.instruction imem)).isSome) := by
  cases hi : executedAs (σ.instruction imem) with
  | none =>
    have hload := isLoad_none hi
    have hload' : σ.isLoad (canonical imem) = false := by
      rw [isLoad, instruction_canonical, disassemble, hi]
      rfl
    rw [feeds, feeds, hload, hload']
    rfl
  | some i =>
    obtain ⟨hop, hrd, -, -⟩ := executedAs_fields hi
    have hself : disassemble (σ.instruction imem) = i := by rw [disassemble, hi, Option.getD_some]
    unfold feeds isLoad
    rw [instruction_canonical, instruction_canonical, hself, hop, hrd]
    cases hj : executedAs (user.instruction imem) with
    | some j =>
      obtain ⟨-, -, h1, h2⟩ := executedAs_fields hj
      rw [disassemble, hj, Option.getD_some, h1, h2, Option.isSome_some, Bool.and_true]
    | none =>
      -- nothing is read from `x0`
      rw [disassemble, hj, Option.getD_none, Option.isSome_none, Bool.and_false]
      have h1 : rs1Of (encode (.fence 0#12 0#5 0#5)) = 0#5 := by decide
      have h2 : rs2Of (encode (.fence 0#12 0#5 0#5)) = 0#5 := by decide
      rw [h1, h2]
      cases hz : rdOf (σ.instruction imem) != 0#5 with
      | false => rw [Bool.and_false, Bool.false_and]
      | true =>
        have hne : (0#5 == rdOf (σ.instruction imem)) = false := by
          rw [beq_eq_false_iff_ne]
          exact (bne_iff_ne.mp hz).symm
        rw [hne, Bool.or_self, Bool.and_false]

end ArchState

section
variable (imem : InstrArray) (undef : Word → Word) (dmem : MemArray)

theorem sequentialAt_canonical (k : Nat) : sequentialAt (canonical imem) undef dmem k = sequentialAt imem undef dmem k := by
  induction k with
  | zero => rfl
  | succ k ih => rw [sequentialAt_succ, sequentialAt_succ, ih, ArchState.step_canonical]

theorem feedsNext_canonical (j : Nat) :
    feedsNext (canonical imem) undef dmem j =
      (feedsNext imem undef dmem j && (executedAs ((sequentialAt imem undef dmem (j + 1)).instruction imem)).isSome) := by
  rw [feedsNext, feedsNext, sequentialAt_canonical, sequentialAt_canonical, ArchState.feeds_canonical]

theorem transfersAt_canonical : transfersAt (canonical imem) undef dmem = transfersAt imem undef dmem := by
  funext j
  rw [transfersAt, transfersAt, sequentialAt_canonical, ArchState.transfers_canonical]

/-- **Aliases.** The pipeline carries out the canonical program as it does the
program itself, no instruction later. None is earlier either exactly when no
load stalls a word that is executed as nothing. -/
theorem canonical_program :
    (∀ k,
      (pipelineAt (canonical imem) undef dmem (executeTime (canonical imem) undef dmem k + 1)).memory =
          (pipelineAt imem undef dmem (executeTime imem undef dmem k + 1)).memory ∧
        (pipelineAt (canonical imem) undef dmem (executeTime (canonical imem) undef dmem k + 2)).registers =
          (pipelineAt imem undef dmem (executeTime imem undef dmem k + 2)).registers) ∧
      (∀ k, executeTime (canonical imem) undef dmem k ≤ executeTime imem undef dmem k) ∧
      ((∀ k, executeTime (canonical imem) undef dmem k = executeTime imem undef dmem k) ↔
        ∀ j, feedsNext imem undef dmem j = true →
          executedAs ((sequentialAt imem undef dmem (j + 1)).instruction imem) ≠ none) := by
  refine ⟨fun k => ?_, fun k => ?_, ?_, ?_⟩
  · have h := executes_at_executeTime imem undef dmem k
    have h' := executes_at_executeTime (canonical imem) undef dmem k
    rw [h.memory, h'.memory, h.registers, h'.registers, sequentialAt_canonical]
    exact ⟨rfl, rfl⟩
  · unfold executeTime loadUseCount transferCount
    rw [transfersAt_canonical]
    have hcount : Nat.count (fun j => feedsNext (canonical imem) undef dmem j = true) k ≤
        Nat.count (fun j => feedsNext imem undef dmem j = true) k := by
      refine Nat.count_mono_left fun j _ hj => ?_
      rw [feedsNext_canonical, Bool.and_eq_true] at hj
      exact hj.1
    omega
  · intro htime j hj hnone
    have hnext := htime (j + 1)
    rw [executeTime_succ, executeTime_succ, htime, feedsNext_canonical, hj, hnone, transfersAt_canonical,
      Option.isSome_none, Bool.and_false, if_pos rfl, if_neg Bool.false_ne_true] at hnext
    omega
  · intro hstray
    have hsame : feedsNext (canonical imem) undef dmem = feedsNext imem undef dmem := by
      funext j
      rw [feedsNext_canonical]
      cases hj : feedsNext imem undef dmem j with
      | false => rfl
      | true => rw [Option.isSome_iff_ne_none.mpr (hstray j hj)]; rfl
    intro k
    unfold executeTime loadUseCount transferCount
    rw [hsame, transfersAt_canonical]

end

end RiscV
