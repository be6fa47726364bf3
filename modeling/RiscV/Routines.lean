import Mathlib.Tactic.IntervalCases
import RiscV.CycleCount
import RiscV.DataMemory

/-!
# Loops and calls

What the instructions of a routine do to registers and memory, each with its
cycles, and the rules for a counted loop and for a call and its return. A copy
routine puts them together.
-/

namespace RiscV

open Rv32i Timed Timed.Machine

def Assertion : Type := RegArray → MemArray → Prop

def At (p : Word) (P : Assertion) (σ : ArchState) : Prop := σ.pc = p ∧ P σ.registers σ.memory

def Assertion.Ignores (P : Assertion) (r : RegIdx) : Prop :=
  ∀ registers memory v, P registers memory → P (Function.update registers r v) memory

def branchTo (p : Word) (offset : BitVec 12) : Word := wrap (p.toNat + 2 * offset.toInt)

def jumpTo (p : Word) (offset : BitVec 20) : Word := wrap (p.toNat + 2 * offset.toInt)

theorem readArray_of_ne {registers : RegArray} {r : RegIdx} (h : r ≠ 0#5) : readArray registers r = registers r := if_neg h

/-! ## Instructions -/

section
variable {imem : InstrArray} (undef : Word → Word) {σ : ArchState} {rd rs1 rs2 : RegIdx} {imm : BitVec 12}

theorem addi_takes (h : instructionMemory imem σ.pc = encode (.imm .addi rd rs1 imm)) (hrd : rd ≠ 0#5) :
    (timed imem undef).Takes σ 1
      ⟨σ.pc + 4#32, Function.update σ.registers rd (readArray σ.registers rs1 + wrap imm.toInt), σ.memory⟩ := by
  have htakes := takes_encode undef h
  rw [ArchState.apply, exec, Effect.next, writeTo, if_neg hrd, wrap_next, ImmOp.reg, wrap_eval_add] at htakes
  exact htakes

theorem lw_takes (h : instructionMemory imem σ.pc = encode (.lw rd rs1 imm)) (hrd : rd ≠ 0#5) :
    (timed imem undef).Takes σ
      (1 + if loadFeeds (instructionMemory imem (σ.pc + 4#32)) (.lw rd rs1 imm) then 1 else 0)
      ⟨σ.pc + 4#32,
        Function.update σ.registers rd (wordAt undef σ.memory (readArray σ.registers rs1 + wrap imm.toInt)), σ.memory⟩ := by
  have htakes := takes_encode undef h
  rw [ArchState.apply, exec, Effect.next, writeTo, if_neg hrd, wrap_next, wrap_add, wrap_toInt] at htakes
  exact htakes

theorem sw_takes (h : instructionMemory imem σ.pc = encode (.sw rs1 rs2 imm)) :
    (timed imem undef).Takes σ 1
      ⟨σ.pc + 4#32, σ.registers,
        σ.memory.set (readArray σ.registers rs1 + wrap imm.toInt) (readArray σ.registers rs2)⟩ := by
  have htakes := takes_encode undef h
  rw [ArchState.apply, exec, Effect.next, wrap_next, wrap_add, wrap_toInt] at htakes
  exact htakes

theorem branch_takes {op : BranchOp} {offset : BitVec 12}
    (h : instructionMemory imem σ.pc = encode (.branch op rs1 rs2 offset)) :
    (timed imem undef).Takes σ
      (if op.holds (readArray σ.registers rs1) (readArray σ.registers rs2) then 3 else 1)
      ⟨if op.holds (readArray σ.registers rs1) (readArray σ.registers rs2) then branchTo σ.pc offset else σ.pc + 4#32,
        σ.registers, σ.memory⟩ := by
  have htakes := takes_encode undef h
  rw [ArchState.apply, exec, Effect.next, wrap_next] at htakes
  simp only [cyclesOf, loadFeeds, transfersOn, Instr.rs1, Instr.rs2] at htakes ⊢
  split
  next hb => simpa [hb, branchTo] using htakes
  next hb => simpa [hb] using htakes

theorem jal_takes {offset : BitVec 20} (h : instructionMemory imem σ.pc = encode (.jal rd offset)) (hrd : rd ≠ 0#5) :
    (timed imem undef).Takes σ 3
      ⟨jumpTo σ.pc offset, Function.update σ.registers rd (σ.pc + 4#32), σ.memory⟩ := by
  have htakes := takes_encode undef h
  rw [ArchState.apply, exec, Effect.next, writeTo, if_neg hrd, wrap_next] at htakes
  exact htakes

theorem toInt_even {a : Word} (h : a.getLsbD 0 = false) : a.toInt % 2 = 0 := by
  rw [getLsbD_eq_decide, decide_eq_false_iff_not] at h
  rw [BitVec.toInt_eq_toNat_cond]
  split <;> omega

/-- A return: JALR through `rs1` that leaves no link. -/
theorem ret_takes (h : instructionMemory imem σ.pc = encode (.jalr 0#5 rs1 0#12))
    (heven : (readArray σ.registers rs1).getLsbD 0 = false) :
    (timed imem undef).Takes σ 3 ⟨readArray σ.registers rs1, σ.registers, σ.memory⟩ := by
  have htakes := takes_encode undef h
  have htarget : wrap ((readArray σ.registers rs1).toInt + (0#12).toInt -
      ((readArray σ.registers rs1).toInt + (0#12).toInt) % 2) = readArray σ.registers rs1 := by
    rw [show (0#12).toInt = 0 from rfl, Int.add_zero, toInt_even heven, Int.sub_zero, wrap_toInt]
  rw [ArchState.apply, exec, writeTo, if_pos rfl, Effect.next, Instr.rs1, htarget] at htakes
  exact htakes

end

section
variable {imem : InstrArray} {undef : Word → Word} {dmem : MemArray} {k : Nat}

/-- A routine on the pipeline, from the arrays it finds to those it leaves. -/
theorem pipelineAt_of_triple {p q : Word} {P Q : Assertion} {c : Nat}
    (h : (timed imem undef).Triple (At p P) c (At q Q)) (hpc : (sequentialAt imem undef dmem k).pc = p)
    (hP : P (pipelineAt imem undef dmem (executeTime imem undef dmem k + 2)).registers
      (pipelineAt imem undef dmem (executeTime imem undef dmem k + 1)).memory) :
    (pipelineAt imem undef dmem (executeTime imem undef dmem k + c)).idEx.pc = q ∧
      Q (pipelineAt imem undef dmem (executeTime imem undef dmem k + c + 2)).registers
        (pipelineAt imem undef dmem (executeTime imem undef dmem k + c + 1)).memory := by
  rw [registers_at_executeTime, memory_at_executeTime] at hP
  obtain ⟨k', -, -, ⟨hpc', hQ⟩, hexecutes⟩ := executes_of_triple h ⟨hpc, hP⟩
  refine ⟨?_, ?_⟩
  · rw [hexecutes.idEx]
    exact hpc'
  · rw [hexecutes.registers, hexecutes.memory]
    exact hQ

end

/-! ## A counted loop -/

def Assertion.holding (P : Assertion) (r : RegIdx) (v : Word) : Assertion := fun registers memory =>
  registers r = v ∧ P registers memory

/-- A loop whose body runs from `head` to `test`, where `r` is counted down to
zero. -/
structure CountedLoop (imem : InstrArray) (head test : Word) (r : RegIdx) : Prop where
  counter : r ≠ 0#5
  decrement : instructionMemory imem test = encode (.imm .addi r r (-1#12))
  branch : ∃ offset, branchTo (test + 4#32) offset = head ∧
    instructionMemory imem (test + 4#32) = encode (.branch .bne r 0#5 offset)

theorem ofNat_succ_sub_one (m : Nat) : BitVec.ofNat 32 (m + 1) + wrap (-1#12).toInt = BitVec.ofNat 32 m := by
  apply BitVec.eq_of_toNat_eq
  rw [BitVec.toNat_add, BitVec.toNat_ofNat, BitVec.toNat_ofNat, show (wrap (-1#12).toInt).toNat = 2 ^ 32 - 1 by decide]
  omega

namespace CountedLoop

section
variable {imem : InstrArray} {undef : Word → Word} {head test : Word} {r : RegIdx} (h : CountedLoop imem head test r)
include h

theorem test_takes {σ : ArchState} {m : Nat} (hpc : σ.pc = test) (hcount : σ.registers r = BitVec.ofNat 32 (m + 1))
    (hm : m < 2 ^ 32) :
    (timed imem undef).Takes σ (if m = 0 then 2 else 4)
      ⟨if m = 0 then test + 8#32 else head, Function.update σ.registers r (BitVec.ofNat 32 m), σ.memory⟩ := by
  subst hpc
  obtain ⟨offset, hhead, hbranch⟩ := h.branch
  have haddi := addi_takes undef h.decrement h.counter
  rw [readArray_of_ne h.counter, hcount, ofNat_succ_sub_one] at haddi
  have hbne := haddi.trans (branch_takes undef hbranch)
  have hholds : BranchOp.bne.holds (readArray (Function.update σ.registers r (BitVec.ofNat 32 m)) r)
      (readArray (Function.update σ.registers r (BitVec.ofNat 32 m)) 0#5) = decide (m ≠ 0) := by
    rw [readArray_of_ne h.counter, Function.update_self]
    show decide (_ ≠ _) = _
    rw [BitVec.toNat_ofNat, Nat.mod_eq_of_lt hm]
    rfl
  rw [hholds, hhead, BitVec.add_assoc] at hbne
  split
  next hz => simpa [hz] using hbne
  next hz => simpa [hz] using hbne

/-- **A counted loop** of `n + 1` rounds, the body of each taking `c` cycles. -/
theorem triple {I : Nat → Assertion} {c n : Nat} (hn : n < 2 ^ 32) (hI : ∀ m, (I m).Ignores r)
    (hbody : ∀ m ≤ n, (timed imem undef).Triple (At head ((I (m + 1)).holding r (BitVec.ofNat 32 (m + 1)))) c
      (At test ((I m).holding r (BitVec.ofNat 32 (m + 1))))) :
    (timed imem undef).Triple (At head ((I (n + 1)).holding r (BitVec.ofNat 32 (n + 1)))) (n * (c + 4) + (c + 2))
      (At (test + 8#32) ((I 0).holding r 0#32)) := by
  let J : Nat → ArchState → Prop := fun m σ => m ≤ n + 1 ∧ At head ((I m).holding r (BitVec.ofNat 32 m)) σ
  have hround : ∀ m, (timed imem undef).Triple (J (m + 2)) (c + 4) (J (m + 1)) := by
    intro m σ ⟨hm, hσ⟩
    obtain ⟨τ, hτ, hpc, hcount, hinv⟩ := hbody (m + 1) (by omega) σ hσ
    refine ⟨_, hτ.trans (h.test_takes hpc hcount (by omega)), by omega, rfl, ?_, hI _ _ _ _ hinv⟩
    exact Function.update_self ..
  have hlast : (timed imem undef).Triple (J 1) (c + 2) (At (test + 8#32) ((I 0).holding r 0#32)) := by
    intro σ ⟨_, hσ⟩
    obtain ⟨τ, hτ, hpc, hcount, hinv⟩ := hbody 0 (Nat.zero_le n) σ hσ
    refine ⟨_, hτ.trans (h.test_takes hpc hcount (by decide)), rfl, ?_, hI _ _ _ _ hinv⟩
    exact Function.update_self ..
  exact (Triple.loop hround hlast n).pre fun σ hσ => ⟨Nat.le_refl _, hσ⟩

end

end CountedLoop

section
variable {imem : InstrArray} {undef : Word → Word} {dmem : MemArray} {head : Word} {r : RegIdx} {k n : Nat}

/-- **A delay loop on the pipeline.** Two instructions that count `r` down to
zero from `n + 1` are left after `4 * (n + 1) - 2` cycles, with nothing changed
but `r`; from zero they count `2 ^ 32` rounds. -/
theorem delay_loop (h : CountedLoop imem head head r)
    (hstart : At head (fun registers _ => registers r = BitVec.ofNat 32 (n + 1)) (sequentialAt imem undef dmem k))
    (hn : n < 2 ^ 32) :
    let t := executeTime imem undef dmem k
    let t' := t + (4 * n + 2)
    (pipelineAt imem undef dmem t').idEx.pc = head + 8#32 ∧
      (pipelineAt imem undef dmem (t' + 1)).memory = (pipelineAt imem undef dmem (t + 1)).memory ∧
      (pipelineAt imem undef dmem (t' + 2)).registers =
        Function.update (pipelineAt imem undef dmem (t + 2)).registers r 0#32 := by
  intro t t'
  obtain ⟨hpc, hcount⟩ := hstart
  let I : Nat → Assertion := fun _ registers memory =>
    (∀ s ≠ r, registers s = (pipelineAt imem undef dmem (t + 2)).registers s) ∧
      memory = (pipelineAt imem undef dmem (t + 1)).memory
  have hI : ∀ m, (I m).Ignores r := fun m registers memory v ⟨hothers, hmem⟩ =>
    ⟨fun s hs => (Function.update_of_ne hs ..).trans (hothers s hs), hmem⟩
  have hskip : ∀ m ≤ n, (timed imem undef).Triple (At head ((I (m + 1)).holding r (BitVec.ofNat 32 (m + 1)))) 0
      (At head ((I m).holding r (BitVec.ofNat 32 (m + 1)))) := fun m _ => .skip fun τ hτ => hτ
  have htriple := h.triple hn hI hskip
  have htime : n * (0 + 4) + (0 + 2) = 4 * n + 2 := by omega
  have hinit : (pipelineAt imem undef dmem (t + 2)).registers r = BitVec.ofNat 32 (n + 1) := by
    rw [registers_at_executeTime, hcount]
  rw [htime] at htriple
  obtain ⟨hpc', hzero, hothers, hmem⟩ := pipelineAt_of_triple htriple hpc ⟨hinit, fun s _ => rfl, rfl⟩
  refine ⟨hpc', hmem, ?_⟩
  funext s
  by_cases hs : s = r
  · rw [hs, hzero, Function.update_self]
  · rw [hothers s hs, Function.update_of_ne hs]

def delayProgram : InstrArray := fun i =>
  if i = 0#30 then encode (.imm .addi 5#5 5#5 (-1#12)) else encode (.branch .bne 5#5 0#5 (-2#12))

/-- Out of reset `x5` is zero, and the loop is left after `2 ^ 34 - 2` cycles. -/
theorem delay_loop_reset :
    (pipelineAt delayProgram (fun _ => 0#32) (fun _ => 0#32)
      (executeTime delayProgram (fun _ => 0#32) (fun _ => 0#32) 0 + (4 * (2 ^ 32 - 1) + 2))).idEx.pc = 8#32 :=
  (delay_loop (n := 2 ^ 32 - 1) ⟨by decide, rfl, -2#12, by decide, rfl⟩ ⟨rfl, rfl⟩ (by decide)).1

end

/-! ## A call -/

/-- A JAL at `site` into a routine that starts at `entry` and ends with the
return at `exit`. -/
structure Call (imem : InstrArray) (site entry exit : Word) (ra : RegIdx) : Prop where
  link : ra ≠ 0#5
  even : site.getLsbD 0 = false
  jump : ∃ offset, jumpTo site offset = entry ∧ instructionMemory imem site = encode (.jal ra offset)
  ret : instructionMemory imem exit = encode (.jalr 0#5 ra 0#12)

theorem even_add_four {a : Word} (h : a.getLsbD 0 = false) : (a + 4#32).getLsbD 0 = false := by
  rw [getLsbD_eq_decide, decide_eq_false_iff_not] at h ⊢
  rw [BitVec.toNat_add]
  simp only [BitVec.toNat_ofNat]
  omega

/-- **A call.** The jump and the return take three cycles each. -/
theorem Call.triple {imem : InstrArray} {undef : Word → Word} {site entry exit : Word} {ra : RegIdx}
    (h : Call imem site entry exit ra) {P Q : Assertion} {c : Nat} (hP : P.Ignores ra)
    (hbody : (timed imem undef).Triple (At entry (P.holding ra (site + 4#32))) c (At exit (Q.holding ra (site + 4#32)))) :
    (timed imem undef).Triple (At site P) (c + 6) (At (site + 4#32) (Q.holding ra (site + 4#32))) := by
  rintro σ ⟨rfl, hσ⟩
  obtain ⟨offset, hentry, hjal⟩ := h.jump
  have hcall := jal_takes undef hjal h.link
  rw [hentry] at hcall
  obtain ⟨τ, hτ, rfl, hlink, hpost⟩ :=
    hbody ⟨entry, Function.update σ.registers ra (σ.pc + 4#32), σ.memory⟩ ⟨rfl, Function.update_self .., hP _ _ _ hσ⟩
  have hra : readArray τ.registers ra = σ.pc + 4#32 := by rw [readArray_of_ne h.link, hlink]
  have hret := ret_takes undef h.ret (by rw [hra]; exact even_add_four h.even)
  rw [hra] at hret
  have htakes := (hcall.trans hτ).trans hret
  rw [Nat.add_comm 3 c, Nat.add_assoc] at htakes
  exact ⟨_, htakes, rfl, hlink, hpost⟩

/-! ## Copying words -/

/-- From `x10` to `x11`, as many words as `x12` counts, if it counts one or more.
The test is behind the copy, and zero stands for `2 ^ 32` rounds. -/
def copyRoutine : List Instr :=
  [.lw 5#5 10#5 0#12, .sw 11#5 5#5 0#12, .imm .addi 10#5 10#5 4#12, .imm .addi 11#5 11#5 4#12,
    .imm .addi 12#5 12#5 (-1#12), .branch .bne 12#5 0#5 (-10#12), .jalr 0#5 1#5 0#12]

def Placed (imem : InstrArray) (entry : Word) (routine : List Instr) : Prop :=
  ∀ j i, routine[j]? = some i → instructionMemory imem (entry + BitVec.ofNat 32 (4 * j)) = encode i

def copied (undef : Word → Word) (src dst : Word) (memory : MemArray) : Nat → MemArray
  | 0 => memory
  | i + 1 =>
    (copied undef src dst memory i).set (dst + BitVec.ofNat 32 (4 * i))
      (wordAt undef (copied undef src dst memory i) (src + BitVec.ofNat 32 (4 * i)))

/-- The registers of the routine and the link. -/
def copyRegisters : List RegIdx := [1#5, 5#5, 10#5, 11#5, 12#5]

def Copying (undef : Word → Word) (src dst : Word) (σ : ArchState) (i : Nat) : Assertion := fun registers memory =>
  registers 10#5 = src + BitVec.ofNat 32 (4 * i) ∧ registers 11#5 = dst + BitVec.ofNat 32 (4 * i) ∧
    memory = copied undef src dst σ.memory i ∧ ∀ r ∉ copyRegisters, registers r = σ.registers r

section
variable {imem : InstrArray} (undef : Word → Word) {entry : Word} (h : Placed imem entry copyRoutine)

theorem ignores_copying {src dst : Word} {σ : ArchState} {i : Nat} {r : RegIdx} (hr : r = 1#5 ∨ r = 12#5) :
    (Copying undef src dst σ i).Ignores r := by
  intro registers memory v ⟨h10, h11, hmem, hothers⟩
  have h10' : 10#5 ≠ r := by rcases hr with rfl | rfl <;> decide
  have h11' : 11#5 ≠ r := by rcases hr with rfl | rfl <;> decide
  refine ⟨by rw [Function.update_of_ne h10', h10], by rw [Function.update_of_ne h11', h11], hmem, fun s hs => ?_⟩
  have hsr : s ≠ r := by
    rintro rfl
    rcases hr with rfl | rfl <;> exact hs (by decide)
  rw [Function.update_of_ne hsr, hothers s hs]

include h

theorem copyRoutine_loop : CountedLoop imem entry (entry + 16#32) 12#5 where
  counter := by decide
  decrement := h 4 _ rfl
  branch := by
    refine ⟨-10#12, ?_, ?_⟩
    · rw [branchTo, wrap_add, wrap_toNat, BitVec.add_assoc, BitVec.add_assoc]
      exact BitVec.add_zero entry
    · rw [BitVec.add_assoc]
      exact h 5 _ rfl

theorem copyRoutine_body {σ : ArchState} (hpc : σ.pc = entry) :
    (timed imem undef).Takes σ 5
      ⟨entry + 16#32,
        Function.update (Function.update
          (Function.update σ.registers 5#5 (wordAt undef σ.memory (σ.registers 10#5)))
            10#5 (σ.registers 10#5 + 4#32)) 11#5 (σ.registers 11#5 + 4#32),
        σ.memory.set (σ.registers 11#5) (wordAt undef σ.memory (σ.registers 10#5))⟩ := by
  subst hpc
  have h0 : instructionMemory imem σ.pc = encode (.lw 5#5 10#5 0#12) :=
    (congrArg (instructionMemory imem) (BitVec.add_zero σ.pc).symm).trans (h 0 _ rfl)
  have h1 : instructionMemory imem (σ.pc + 4#32) = encode (.sw 11#5 5#5 0#12) := h 1 _ rfl
  have h2 : instructionMemory imem (σ.pc + 4#32 + 4#32) = encode (.imm .addi 10#5 10#5 4#12) :=
    (congrArg (instructionMemory imem) (BitVec.add_assoc ..)).trans (h 2 _ rfl)
  have h3 : instructionMemory imem (σ.pc + 4#32 + 4#32 + 4#32) = encode (.imm .addi 11#5 11#5 4#12) := by
    rw [BitVec.add_assoc, BitVec.add_assoc]
    exact h 3 _ rfl
  have hlw := lw_takes undef h0 (by decide)
  have hfeeds : loadFeeds (encode (.sw 11#5 5#5 0#12)) (.lw 5#5 10#5 0#12) = true := by decide
  have hzero : wrap 0 = 0#32 := rfl
  have hfour : wrap 4 = 4#32 := rfl
  rw [h1, hfeeds] at hlw
  have htakes := ((hlw.trans (sw_takes undef h1)).trans (addi_takes undef h2 (by decide))).trans (addi_takes undef h3 (by decide))
  simpa [readArray, hzero, hfour, BitVec.add_assoc, Function.update_apply] using htakes

theorem copyRoutine_triple (src dst link : Word) (σ : ArchState) {n : Nat} (hn : n < 2 ^ 32) :
    (timed imem undef).Triple
      (At entry (((Copying undef src dst σ 0).holding 1#5 link).holding 12#5 (BitVec.ofNat 32 (n + 1)))) (n * 9 + 7)
      (At (entry + 24#32) (((Copying undef src dst σ (n + 1)).holding 1#5 link).holding 12#5 0#32)) := by
  let I : Nat → Assertion := fun m => (Copying undef src dst σ (n + 1 - m)).holding 1#5 link
  have hI : ∀ m, (I m).Ignores 12#5 := fun m registers memory v ⟨hlink, hcopy⟩ =>
    ⟨(Function.update_of_ne (by decide) ..).trans hlink, ignores_copying undef (.inr rfl) _ _ _ hcopy⟩
  have hbody : ∀ m ≤ n, (timed imem undef).Triple (At entry ((I (m + 1)).holding 12#5 (BitVec.ofNat 32 (m + 1)))) 5
      (At (entry + 16#32) ((I m).holding 12#5 (BitVec.ofNat 32 (m + 1)))) := by
    rintro m hm τ ⟨hpc, hcount, hlink, h10, h11, hmem, hothers⟩
    have hi : n + 1 - m = n + 1 - (m + 1) + 1 := by omega
    have hnext : ∀ a : Word, a + BitVec.ofNat 32 (4 * (n + 1 - (m + 1))) + 4#32 = a + BitVec.ofNat 32 (4 * (n + 1 - m)) := by
      intro a
      rw [hi, Nat.mul_succ, BitVec.ofNat_add, BitVec.add_assoc]
    have hbody := copyRoutine_body undef h hpc
    rw [h10, h11, hnext, hnext, hmem] at hbody
    refine ⟨_, hbody, rfl, ?_, ?_, ?_, ?_, ?_, ?_⟩
    · exact hcount
    · exact hlink
    · rfl
    · rfl
    · rw [hi]
      rfl
    · intro r hr
      have hne : r ≠ 5#5 ∧ r ≠ 10#5 ∧ r ≠ 11#5 := by
        refine ⟨?_, ?_, ?_⟩ <;> rintro rfl <;> exact hr (by decide)
      show Function.update (Function.update (Function.update τ.registers _ _) _ _) _ _ r = _
      rw [Function.update_of_ne hne.2.2, Function.update_of_ne hne.2.1, Function.update_of_ne hne.1, hothers r hr]
  have htriple := (copyRoutine_loop h).triple hn hI hbody
  have hfirst : I (n + 1) = (Copying undef src dst σ 0).holding 1#5 link := by
    show (Copying undef src dst σ (n + 1 - (n + 1))).holding 1#5 link = _
    rw [Nat.sub_self]
  rw [hfirst, BitVec.add_assoc] at htriple
  exact htriple

end

structure Apart (src dst : Word) (n : Nat) : Prop where
  source : ∀ i < n, src.toNat + 4 * i < 256
  destination : ∀ i < n, dst.toNat + 4 * i < 256
  disjoint : ∀ i < n, ∀ j < n, src.toNat + 4 * i ≠ dst.toNat + 4 * j

section
variable (undef : Word → Word) {src dst : Word} {n : Nat}

theorem toNat_add_ofNat {a : Word} {i : Nat} (h : a.toNat + 4 * i < 256) :
    (a + BitVec.ofNat 32 (4 * i)).toNat = a.toNat + 4 * i := by
  rw [BitVec.toNat_add, BitVec.toNat_ofNat]
  omega

/-- Each word copied so far, and every other word, is that of the memory before. -/
theorem copied_get? (h : Apart src dst n) (memory : MemArray) {i : Nat} (hi : i ≤ n) :
    (∀ j < i, (copied undef src dst memory i).get? (dst + BitVec.ofNat 32 (4 * j)) =
        memory.get? (src + BitVec.ofNat 32 (4 * j))) ∧
      ∀ a, (∀ j < i, a ≠ dst + BitVec.ofNat 32 (4 * j)) → (copied undef src dst memory i).get? a = memory.get? a := by
  induction i with
  | zero => exact ⟨fun j hj => absurd hj (Nat.not_lt_zero j), fun a _ => rfl⟩
  | succ i ih =>
    obtain ⟨hcopied, hothers⟩ := ih (Nat.le_of_succ_le hi)
    have hsrc := toNat_add_ofNat (h.source i hi)
    have hdst := fun {j} (hj : j < n) => toNat_add_ofNat (h.destination j hj)
    have hword : wordAt undef (copied undef src dst memory i) (src + BitVec.ofNat 32 (4 * i)) =
        wordAt undef memory (src + BitVec.ofNat 32 (4 * i)) := by
      rw [wordAt, wordAt, hothers]
      intro j hj he
      have hne := h.disjoint i hi j (by omega)
      rw [← hsrc, ← hdst (j := j) (by omega), he] at hne
      exact hne rfl
    constructor
    · intro j hj
      rw [copied, MemArray.get?_set]
      by_cases hji : j = i
      · subst hji
        rw [if_pos ⟨rfl, by rw [hdst hi]; exact h.destination j hi⟩, hword, wordAt]
        have hrange : (src + BitVec.ofNat 32 (4 * j)).toNat < 256 := by rw [hsrc]; exact h.source j hi
        rw [MemArray.get?, dif_pos hrange, Option.getD_some]
      · have hne : dst + BitVec.ofNat 32 (4 * i) ≠ dst + BitVec.ofNat 32 (4 * j) := by
          intro he
          have hnat := congrArg BitVec.toNat he
          rw [hdst hi, hdst (by omega)] at hnat
          omega
        rw [if_neg fun he => hne he.1]
        exact hcopied j (by omega)
    · intro a ha
      rw [copied, MemArray.get?_set, if_neg fun he => ha i (Nat.lt_succ_self i) he.1.symm]
      exact hothers a fun j hj => ha j (Nat.lt_succ_of_lt hj)

end

section
variable {imem : InstrArray} {undef : Word → Word} {dmem : MemArray} {site entry src dst : Word} {k n : Nat}

/-- **Copying on the pipeline.** A call of the copy routine for one word or more,
entered by the execute stage with the arguments in place, is back after nine
cycles a word and four for the call. The words are copied, and no other word and
no register but the routine's own has changed. -/
theorem copy_call (hcall : Call imem site entry (entry + 24#32) 1#5) (hplaced : Placed imem entry copyRoutine)
    (hstart : At site (fun registers _ => registers 10#5 = src ∧ registers 11#5 = dst ∧
      registers 12#5 = BitVec.ofNat 32 (n + 1)) (sequentialAt imem undef dmem k))
    (happart : Apart src dst (n + 1)) :
    let t := executeTime imem undef dmem k
    let t' := t + (9 * (n + 1) + 4)
    (pipelineAt imem undef dmem t').idEx.pc = site + 4#32 ∧
      (∀ i < n + 1, (pipelineAt imem undef dmem (t' + 1)).memory.get? (dst + BitVec.ofNat 32 (4 * i)) =
        (pipelineAt imem undef dmem (t + 1)).memory.get? (src + BitVec.ofNat 32 (4 * i))) ∧
      (∀ a, (∀ i < n + 1, a ≠ dst + BitVec.ofNat 32 (4 * i)) →
        (pipelineAt imem undef dmem (t' + 1)).memory.get? a = (pipelineAt imem undef dmem (t + 1)).memory.get? a) ∧
      ∀ r ∉ copyRegisters,
        (pipelineAt imem undef dmem (t' + 2)).registers r = (pipelineAt imem undef dmem (t + 2)).registers r := by
  intro t t'
  obtain ⟨hpc, h10, h11, h12⟩ := hstart
  let σ : ArchState := ⟨site, (pipelineAt imem undef dmem (t + 2)).registers, (pipelineAt imem undef dmem (t + 1)).memory⟩
  have hn : n < 2 ^ 32 := by
    have := happart.source n (Nat.lt_succ_self n)
    omega
  -- the arguments, in the order of the call
  have hargs : ((Copying undef src dst σ 0).holding 12#5 (BitVec.ofNat 32 (n + 1))).Ignores 1#5 :=
    fun registers memory v ⟨hcount, hcopy⟩ =>
      ⟨(Function.update_of_ne (by decide) ..).trans hcount, ignores_copying undef (.inl rfl) _ _ _ hcopy⟩
  have hroutine := copyRoutine_triple undef hplaced src dst (site + 4#32) σ hn
  have htriple := hcall.triple hargs (Q := Copying undef src dst σ (n + 1))
    ((hroutine.pre fun τ ⟨hp, hlink, hcount, hcopy⟩ => ⟨hp, hcount, hlink, hcopy⟩).post
      fun τ ⟨hp, _, hlink, hcopy⟩ => ⟨hp, hlink, hcopy⟩)
  have htime : n * 9 + 7 + 6 = 9 * (n + 1) + 4 := by omega
  rw [← registers_at_executeTime] at h10 h11 h12
  rw [htime] at htriple
  obtain ⟨hpc', -, -, -, hmem, hothers⟩ := pipelineAt_of_triple htriple hpc
    ⟨h12, h10.trans (BitVec.add_zero src).symm, h11.trans (BitVec.add_zero dst).symm, rfl, fun r _ => rfl⟩
  obtain ⟨hcopied, hrest⟩ := copied_get? undef happart σ.memory (Nat.le_refl (n + 1))
  refine ⟨hpc', fun i hi => ?_, fun a ha => ?_, hothers⟩
  · rw [hmem, hcopied i hi]
  · rw [hmem, hrest a ha]

def copyProgram : InstrArray := fun i =>
  let main : List Instr := [.imm .addi 11#5 0#5 64#12, .imm .addi 12#5 0#5 2#12, .jal 1#5 4#20, .jal 0#5 0#20]
  encode ((main ++ copyRoutine).getD i.toNat (.jal 0#5 0#20))

theorem copy_call_two :
    (pipelineAt copyProgram (fun _ => 0#32) (fun i => BitVec.ofNat 32 i)
      (executeTime copyProgram (fun _ => 0#32) (fun i => BitVec.ofNat 32 i) 2 + 22)).idEx.pc = 12#32 := by
  have hplaced : Placed copyProgram 16#32 copyRoutine := by
    intro j i hj
    have hlt : j < copyRoutine.length := (List.getElem?_eq_some_iff.mp hj).1
    have hlt' : j < 7 := hlt
    interval_cases j <;> cases hj <;> rfl
  have hcall : Call copyProgram 8#32 16#32 (16#32 + 24#32) 1#5 := ⟨by decide, by decide, ⟨4#20, by decide, rfl⟩, rfl⟩
  have hstart : At 8#32 (fun registers _ => registers 10#5 = 0#32 ∧ registers 11#5 = 64#32 ∧
      registers 12#5 = BitVec.ofNat 32 (1 + 1)) (sequentialAt copyProgram (fun _ => 0#32) (fun i => BitVec.ofNat 32 i) 2) :=
    ⟨by decide, by decide, by decide, by decide⟩
  exact (copy_call hcall hplaced hstart ⟨by decide, by decide, by decide⟩).1

end

end RiscV
