import RiscV.Schedule
import RiscV.WrongPath
import RiscV.Immediates

/-!
# Alignment of instruction addresses

The offsets of branches and JAL are even and JALR clears bit 0, so that the
sequential run stays on even addresses, and on multiples of four if the program
keeps to them. Every address in the pipeline is one of the sequential run, four
behind one, or the zero of a bubble.
-/

namespace RiscV

open InOrder Rv32i

/-! ## Multiples of a power of two -/

section
variable {m : Nat} (hm : m ∣ 4) {x y : Word}
include hm

theorem dvd_toNat_add (hx : m ∣ x.toNat) (hy : m ∣ y.toNat) : m ∣ (x + y).toNat := by
  have h32 : m ∣ 2 ^ 32 := hm.trans (by decide)
  rw [BitVec.toNat_add, Nat.dvd_mod_iff h32]
  exact Nat.dvd_add hx hy

theorem dvd_toNat_of_toInt (h : (m : Int) ∣ x.toInt) : m ∣ x.toNat := by
  have h32 : (m : Int) ∣ (2 ^ 32 : Nat) := Int.natCast_dvd_natCast.mpr (hm.trans (by decide))
  rw [BitVec.toInt_eq_toNat_cond] at h
  split at h
  · exact Int.natCast_dvd_natCast.mp h
  · have hsum := Int.dvd_add h h32
    rw [Int.sub_add_cancel] at hsum
    exact Int.natCast_dvd_natCast.mp hsum

end

theorem toNat_and_not_one (x : Word) : (x &&& ~~~1#32).toNat = x.toNat - x.toNat % 2 := by
  rw [and_not_one, BitVec.toNat_shiftLeft, BitVec.toNat_ushiftRight, Nat.shiftRight_eq_div_pow, Nat.shiftLeft_eq]
  omega

/-! ## The addresses of the sequential run -/

namespace ArchState

variable (imem : InstrArray) (undef : Word → Word) (σ : ArchState)

def immediate : Word := immediateGenerator (σ.instruction imem)

/-- `rs1 + imm`, before JALR clears bit 0. -/
def jalrSum : Word := readArray σ.registers (rs1Of (σ.instruction imem)) + σ.immediate imem

theorem ex_branchTarget :
    (σ.ex imem).branchTarget = if σ.isJalr imem then σ.jalrSum imem &&& ~~~1#32 else σ.pc + σ.immediate imem := by
  have hj : (σ.control imem).jalr = σ.isJalr imem := controlUnit_jalr _
  cases h : σ.isJalr imem with
  | false =>
    rw [h] at hj
    simp only [ex, exStage, exPorts, hj]
    rfl
  | true =>
    have hop : opcodeOf (σ.instruction imem) = 0b1100111#7 := by simpa [isJalr] using h
    have hc : σ.control imem = controlUnit 0b1100111#7 := by rw [control, hop]
    simp only [ex, exStage, exPorts, hc]
    rfl

theorem step_pc :
    (σ.step imem undef).pc =
      if σ.isJalr imem then σ.jalrSum imem &&& ~~~1#32
      else if σ.isJal imem || (σ.isBranch imem && σ.conditionHolds imem) then σ.pc + σ.immediate imem
      else σ.pc + 4#32 := by
  have hstep : (σ.step imem undef).pc = if σ.transfers imem then (σ.ex imem).branchTarget else σ.pc + 4#32 := by
    rw [← redirects_eq_transfers]
    rfl
  rw [hstep, ex_branchTarget, transfers]
  cases σ.isJalr imem with
  | true => simp
  | false => simp

/-- What the instruction adds to the address or jumps to keeps multiples of `m`. -/
structure Keeps (m : Nat) : Prop where
  offset : σ.isJal imem = true ∨ σ.isBranch imem = true ∧ σ.conditionHolds imem = true →
    (m : Int) ∣ (σ.immediate imem).toInt
  target : σ.isJalr imem = true → m ∣ (σ.jalrSum imem &&& ~~~1#32).toNat

variable {imem σ}

theorem Keeps.step {m : Nat} (h : σ.Keeps imem m) (hm : m ∣ 4) (hpc : m ∣ σ.pc.toNat) :
    m ∣ (σ.step imem undef).pc.toNat := by
  rw [step_pc]
  split
  next hjalr => exact h.target hjalr
  next =>
    split
    next ht =>
      rw [Bool.or_eq_true, Bool.and_eq_true] at ht
      exact dvd_toNat_add hm hpc (dvd_toNat_of_toInt hm (h.offset ht))
    next => exact dvd_toNat_add hm hpc hm

/-- Offsets are even, and so is the target of JALR. -/
theorem keeps_two : σ.Keeps imem 2 where
  offset ht := by
    rcases ht with hjal | ⟨hbranch, -⟩
    · have hf : formatOf (opcodeOf (σ.instruction imem)) = some .j := by
        rw [show opcodeOf (σ.instruction imem) = 0b1101111#7 by simpa [isJal] using hjal]; rfl
      exact Int.dvd_of_emod_eq_zero (withImmediate_immediateGenerator hf).1.2.2
    · have hf : formatOf (opcodeOf (σ.instruction imem)) = some .b := by
        rw [show opcodeOf (σ.instruction imem) = 0b1100011#7 by simpa [isBranch] using hbranch]; rfl
      exact Int.dvd_of_emod_eq_zero (withImmediate_immediateGenerator hf).1.2.2
  target _ := by
    rw [toNat_and_not_one]
    omega

end ArchState

section
variable (imem : InstrArray) (undef : Word → Word) (dmem : MemArray)

theorem sequentialAt_pc_dvd {m : Nat} (hm : m ∣ 4) (hk : ∀ k, (sequentialAt imem undef dmem k).Keeps imem m) (k : Nat) :
    m ∣ (sequentialAt imem undef dmem k).pc.toNat := by
  induction k with
  | zero => exact Nat.dvd_zero m
  | succ k ih =>
    rw [sequentialAt_succ]
    exact (hk k).step undef hm ih

end

/-! ## The addresses in the pipeline -/

/-- Every instruction address and link value in flight. -/
def PipelineState.addresses (s : PipelineState) : List Word :=
  [s.pc, s.ifPcPlus4, s.ifId.pc, s.idEx.pc, s.ex.pcPlus4, s.exMem.pcPlus4, s.memWb.pcPlus4]

section
variable {imem : InstrArray} {undef : Word → Word} {dmem : MemArray} {P : Word → Prop} (h0 : P 0#32)
  (h4 : ∀ a, P a → P (a + 4#32)) (hseq : ∀ k, P (sequentialAt imem undef dmem k).pc)
include h0 h4 hseq

theorem Refines.addresses {o : Occupancy} {s : PipelineState} (h : Refines imem undef dmem o s) :
    P s.pc ∧ P s.ifId.pc ∧ P s.idEx.pc := by
  have hfetch : P (fetchPc imem undef dmem o) := by
    unfold fetchPc
    split
    · exact h4 _ (hseq _)
    · exact hseq _
  refine ⟨?_, ?_, ?_⟩
  · cases hf : o.fetched with
    | false => rw [h.pc_refill hf]; exact hseq _
    | true => rw [h.pc hf]; exact h4 _ hfetch
  · cases hf : o.fetched with
    | false => rw [h.ifId_bubble hf]; exact h0
    | true => rw [h.ifId hf]; exact hfetch
  · cases hx : o.ex with
    | false => rw [h.idEx_bubble hx]; exact h0
    | true => rw [h.idEx hx]; exact hseq _

theorem pipelineAt_links (n : Nat) :
    P (pipelineAt imem undef dmem n).exMem.pcPlus4 ∧ P (pipelineAt imem undef dmem n).memWb.pcPlus4 := by
  induction n with
  | zero => exact ⟨h0, h0⟩
  | succ n ih =>
    rw [pipelineAt_succ]
    exact ⟨h4 _ ((pipelineAt_refines imem undef dmem n).addresses h0 h4 hseq).2.2, ih.1⟩

theorem addresses_of_sequential (n : Nat) : ∀ a ∈ (pipelineAt imem undef dmem n).addresses, P a := by
  obtain ⟨hpc, hifId, hidEx⟩ := (pipelineAt_refines imem undef dmem n).addresses h0 h4 hseq
  obtain ⟨hexMem, hmemWb⟩ := pipelineAt_links h0 h4 hseq n
  intro a ha
  simp only [PipelineState.addresses, List.mem_cons, List.not_mem_nil, or_false] at ha
  rcases ha with rfl | rfl | rfl | rfl | rfl | rfl | rfl
  · exact hpc
  · exact h4 _ hpc
  · exact hifId
  · exact hidEx
  · exact h4 _ hidEx
  · exact hexMem
  · exact hmemWb

end

/-! ## Even, and word-aligned -/

/-- The program keeps to multiples of four. -/
structure ArchState.KeepsWords (imem : InstrArray) (σ : ArchState) : Prop where
  offset : σ.isJal imem = true ∨ σ.isBranch imem = true ∧ σ.conditionHolds imem = true →
    (σ.immediate imem).toInt % 4 = 0
  target : σ.isJalr imem = true → (σ.jalrSum imem).getLsbD 1 = false

theorem ArchState.KeepsWords.keeps {imem : InstrArray} {σ : ArchState} (h : σ.KeepsWords imem) : σ.Keeps imem 4 where
  offset ht := Int.dvd_of_emod_eq_zero (h.offset ht)
  target hjalr := by
    have hbit := h.target hjalr
    rw [getLsbD_eq_decide, decide_eq_false_iff_not] at hbit
    rw [toNat_and_not_one]
    omega

theorem bit_zero_of_even {a : Word} (h : 2 ∣ a.toNat) : a.getLsbD 0 = false := by
  rw [getLsbD_eq_decide, decide_eq_false_iff_not]
  omega

/-- **Instruction addresses are aligned.** All are even; and if all taken
branches and jumps of the sequential run keep to multiples of four, all are
multiples of four, and the word fetched is the one at the address. -/
theorem addresses_aligned (imem : InstrArray) (undef : Word → Word) (dmem : MemArray) :
    (∀ n, ∀ a ∈ (pipelineAt imem undef dmem n).addresses, a.getLsbD 0 = false) ∧
      ((∀ k, (sequentialAt imem undef dmem k).KeepsWords imem) →
        ∀ n, (∀ a ∈ (pipelineAt imem undef dmem n).addresses, a.toNat % 4 = 0) ∧
          4 * ((pipelineAt imem undef dmem n).pc.extractLsb 31 2).toNat = (pipelineAt imem undef dmem n).pc.toNat) := by
  constructor
  · intro n a ha
    have hseq := sequentialAt_pc_dvd imem undef dmem (by decide : 2 ∣ 4) fun _ => ArchState.keeps_two
    exact bit_zero_of_even (addresses_of_sequential (P := fun a => 2 ∣ a.toNat) (Nat.dvd_zero 2)
      (fun a ha => dvd_toNat_add (by decide) ha (by decide)) hseq n a ha)
  · intro hk n
    have hseq := sequentialAt_pc_dvd imem undef dmem (dvd_refl 4) fun k => (hk k).keeps
    have hall : ∀ a ∈ (pipelineAt imem undef dmem n).addresses, 4 ∣ a.toNat :=
      addresses_of_sequential (Nat.dvd_zero 4) (fun a ha => dvd_toNat_add (dvd_refl 4) ha (by decide)) hseq n
    have hpc := hall _ (List.mem_cons_self ..)
    refine ⟨fun a ha => Nat.mod_eq_zero_of_dvd (hall a ha), ?_⟩
    rw [toNat_extractLsb]
    omega

/-- A jump to itself, with a jump by 2 in its shadow. -/
theorem addresses_aligned_jumpToSelf :
    ∀ a ∈ (pipelineAt (jumpToSelf 0x0020006F#32) (fun _ => 0#32) (fun _ => 0#32) 9).addresses, a.toNat % 4 = 0 := by
  have hk : ∀ k, (sequentialAt (jumpToSelf 0x0020006F#32) (fun _ => 0#32) (fun _ => 0#32) k).KeepsWords
      (jumpToSelf 0x0020006F#32) := by
    intro k
    have hpc := jumpToSelf_pc 0x0020006F#32 (fun _ => 0#32) (fun _ => 0#32) k
    generalize sequentialAt (jumpToSelf 0x0020006F#32) (fun _ => 0#32) (fun _ => 0#32) k = σ at hpc
    have hi := jumpToSelf_instruction 0x0020006F#32 hpc
    constructor
    · intro _
      rw [ArchState.immediate, hi]; decide
    · intro hjalr
      rw [ArchState.isJalr, hi] at hjalr
      exact absurd hjalr (by decide)
  exact ((addresses_aligned _ _ _).2 hk 9).1

end RiscV
