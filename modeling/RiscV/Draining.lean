import RiscV.Rv32iSound
import RiscV.Throughput

/-!
# Draining

Stop issuing, and within three cycles the instructions in flight have left. What
is in the two arrays then, and the address from which to go on, is a state
between two instructions of the sequential run: a function of the hardware state
alone that takes every cycle to an architectural state. A zero word at address 0
looks like an empty fetch slot there, and is passed over.
-/

namespace RiscV

open InOrder

namespace PipelineState

variable (imem : InstrArray) (undef : Word → Word) (s : PipelineState)

/-- A clock edge on which nothing is fetched or issued. -/
def drainEdge : PipelineState := { s.clockEdge imem undef false with ifId := .clear, idEx := .clear }

/-- What an empty fetch slot looks like. -/
def slotClear : Bool := s.ifId.pc == 0#32 && s.ifId.instruction == 0#32

/-- The address behind the instruction in execute: where it sends the fetch, or
the address in the fetch slot. -/
def resumePc : Word :=
  if s.pipelineFlush then s.ex.branchTarget
  else if s.slotClear then s.pc
  else s.ifId.pc

def drained : ArchState :=
  let last := ((s.drainEdge imem undef).drainEdge imem undef).drainEdge imem undef
  ⟨s.resumePc, last.registers, last.memory⟩

/-- In a fetch slot that is taken stands the zero word at address 0, and it is not
flushed. -/
def zeroWordNext (taken : Bool) : Bool := taken && s.slotClear && !s.pipelineFlush

end PipelineState

section
variable {imem : InstrArray} {undef : Word → Word} {dmem : MemArray} {o : Occupancy} {s : PipelineState}

/-! ## The instructions in flight -/

theorem Refines.drainEdge (h : Refines imem undef dmem o s) {t : Nat}
    (ht : OnTime (loadUse imem undef dmem) (redirectsAt imem undef dmem) t o) :
    RefinesBack imem undef dmem (o.advance false false) (s.drainEdge imem undef) :=
  have hback := h.back_edge ht false false
  ⟨hback.registers, hback.memory, hback.memWb, hback.memWb_bubble, hback.exMem, hback.exMem_bubble⟩

theorem RefinesBack.drainEdge (h : RefinesBack imem undef dmem o s) (hx : s.idEx = .clear) (hox : o.ex = false) :
    RefinesBack imem undef dmem (o.advance false false) (s.drainEdge imem undef) where
  registers := h.registers_edge
  memory := h.memory_edge
  memWb := h.memWbIn
  memWb_bubble := h.memWbIn_bubble
  exMem hm := by
    rw [Occupancy.advance_mem, hox] at hm
    cases hm
  exMem_bubble _ := by
    show s.exMemIn.Bubble
    rw [PipelineState.exMemIn, hx]
    exact ⟨rfl, rfl, rfl, rfl, rfl, rfl⟩

theorem Refines.drained (h : Refines imem undef dmem o s) {t : Nat}
    (ht : OnTime (loadUse imem undef dmem) (redirectsAt imem undef dmem) t o) :
    s.drained imem undef =
      ⟨s.resumePc, (sequentialAt imem undef dmem o.issued).registers,
        (sequentialAt imem undef dmem o.issued).memory⟩ := by
  have h₁ := h.drainEdge ht
  have h₂ := h₁.drainEdge rfl rfl
  have h₃ := h₂.drainEdge rfl rfl
  exact (ArchState.mk.injEq ..).mpr ⟨rfl, h₃.registers, h₃.memory⟩

/-! ## Where to go on -/

/-- A zero word does nothing but go on to the next address. -/
theorem step_zero_word {σ : ArchState} (hpc : σ.pc = 0#32) (hi : σ.instruction imem = 0#32) :
    σ.step imem undef = { σ with pc := 4#32 } := by
  have hnone : executedAs 0#32 = none := by decide
  rw [ArchState.step_executedAs, hi, hnone, Option.elim_none, hpc]
  rfl

section
variable (h : Refines imem undef dmem o s) {t : Nat}
  (ht : OnTime (loadUse imem undef dmem) (redirectsAt imem undef dmem) t o)
include h ht

theorem Refines.fetchPc_of_not_flush (hflush : s.pipelineFlush = false) :
    fetchPc imem undef dmem o = (sequentialAt imem undef dmem o.issued).pc := by
  refine fetchPc_eq fun hx => ?_
  rw [h.pipelineFlush ht, hx, Bool.true_and] at hflush
  exact hflush

theorem Refines.resumePc (hslot : s.zeroWordNext o.fetched = false) :
    s.resumePc = (sequentialAt imem undef dmem o.issued).pc := by
  unfold PipelineState.resumePc
  by_cases hflush : s.pipelineFlush = true
  · have hcontrol := h.pipelineFlush ht
    rw [hflush] at hcontrol
    obtain ⟨hx, hr⟩ := Bool.and_eq_true_iff.mp hcontrol.symm
    rw [if_pos hflush, h.ex ht hx, Occupancy.issued_of_ex hx, pc_of_redirects hr]
  · rw [Bool.not_eq_true] at hflush
    rw [hflush, if_neg Bool.false_ne_true]
    by_cases hf : o.fetched = true
    · have hclear : s.slotClear = false := by simpa [PipelineState.zeroWordNext, hf, hflush] using hslot
      rw [hclear, if_neg Bool.false_ne_true, h.ifId hf]
      exact h.fetchPc_of_not_flush ht hflush
    · rw [Bool.not_eq_true] at hf
      have hclear : s.slotClear = true := by rw [PipelineState.slotClear, h.ifId_bubble hf]; rfl
      rw [if_pos hclear, h.pc_refill hf, Occupancy.issued_of_not_ex (ht.not_ex hf)]

/-- The drained state is behind the zero word in the slot. -/
theorem Refines.resumePc_zero_word (hslot : s.zeroWordNext o.fetched = true) :
    sequentialAt imem undef dmem (o.issued + 1) =
      ⟨s.resumePc, (sequentialAt imem undef dmem o.issued).registers,
        (sequentialAt imem undef dmem o.issued).memory⟩ := by
  simp only [PipelineState.zeroWordNext, Bool.and_eq_true, Bool.not_eq_true'] at hslot
  obtain ⟨⟨hf, hclear⟩, hflush⟩ := hslot
  have hfetch := h.fetchPc_of_not_flush ht hflush
  have hresume : s.resumePc = s.pc := by simp [PipelineState.resumePc, hflush, hclear]
  have hifId := h.ifId hf
  rw [hfetch] at hifId
  rw [PipelineState.slotClear, hifId, Bool.and_eq_true, beq_iff_eq, beq_iff_eq] at hclear
  have hpc : (sequentialAt imem undef dmem o.issued).pc = 0#32 := hclear.1
  rw [sequentialAt_succ, step_zero_word hpc hclear.2, hresume, h.pc hf, hfetch, hpc]
  rfl

theorem Refines.drained_eq :
    s.drained imem undef =
      sequentialAt imem undef dmem (if s.zeroWordNext o.fetched then o.issued + 1 else o.issued) := by
  rw [h.drained ht]
  by_cases hslot : s.zeroWordNext o.fetched = true
  · rw [if_pos hslot, h.resumePc_zero_word ht hslot]
  · rw [if_neg hslot, h.resumePc ht (Bool.eq_false_iff.mpr hslot)]

end

end

section
variable (imem : InstrArray) (undef : Word → Word) (dmem : MemArray)

/-- An edge leaves a word in the fetch slot unless it flushes it. -/
def slotTaken : Nat → Bool
  | 0 => false
  | n + 1 => !(pipelineAt imem undef dmem n).pipelineFlush

theorem slotTaken_eq (n : Nat) : slotTaken imem undef dmem n = (occupancyAt imem undef dmem n).fetched := by
  cases n with
  | zero => rfl
  | succ n =>
    have h := pipelineAt_refines imem undef dmem n
    rw [slotTaken, h.pipelineFlush (occupancyAt_onTime imem undef dmem n), occupancyAt_succ, next_fetched]

/-- **Draining.** In every cycle the drained state is the state of the sequential
run behind the `k n` instructions that have entered execute; or, when the next
one is the zero word at address 0 and stands in the fetch slot, the state behind
that word. A clock edge moves `k` by one step at most, and every step comes. -/
theorem drained_is_sequential :
    ∃ k : Nat → Nat, (∀ j n, j < k n ↔ executeTime imem undef dmem j ≤ n) ∧
      Monotone k ∧ (∀ n, k (n + 1) ≤ k n + 1) ∧ Function.Surjective k ∧
      ∀ n, (pipelineAt imem undef dmem n).drained imem undef =
        sequentialAt imem undef dmem
          (if (pipelineAt imem undef dmem n).zeroWordNext (slotTaken imem undef dmem n) then k n + 1 else k n) := by
  refine ⟨fun n => retiredAt imem undef dmem (n + 3), fun j n => ?_, fun m n h => ?_, fun n => ?_, fun j => ?_,
    fun n => ?_⟩
  · rw [lt_retiredAt_iff, Nat.add_le_add_iff_right]
  · exact retiredAt_mono imem undef dmem (Nat.add_le_add_right h 3)
  · exact retiredAt_succ_le imem undef dmem (n + 3)
  · have htime := (executeTime_bounds imem undef dmem j).1
    refine ⟨executeTime imem undef dmem j - 1, ?_⟩
    have hn : executeTime imem undef dmem j - 1 + 3 = executeTime imem undef dmem j + 2 := by omega
    show retiredAt imem undef dmem (_ + 3) = j
    rw [hn, retiredAt_executeTime]
  · have hissued : retiredAt imem undef dmem (n + 3) = (occupancyAt imem undef dmem n).issued := by
      rw [retiredAt_succ_succ, occupancyAt_succ, next_eq_advance, Occupancy.advance_exIndex]
    simp only [slotTaken_eq, hissued]
    exact (pipelineAt_refines imem undef dmem n).drained_eq (occupancyAt_onTime imem undef dmem n)

/-- Out of reset, with a zero word at address 0. -/
example : (pipelineAt (fun _ => 0#32) (fun _ => 0#32) (fun _ => 0#32) 1).zeroWordNext
    (slotTaken (fun _ => 0#32) (fun _ => 0#32) (fun _ => 0#32) 1) = true := by decide

end

end RiscV
