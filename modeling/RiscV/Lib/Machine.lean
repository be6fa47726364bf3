import Mathlib.Data.Set.Defs
import Mathlib.Logic.Function.Iterate
import RiscV.Lib.Rv32i

/-!
# Machines that run RV32I

The state between two instructions, over any kind of data memory that offers a
load and a store. Two memories that answer alike at the addresses a run uses
give the same run.
-/

namespace Rv32i

/-! ## Registers and memories -/

@[ext]
structure Registers where
  value : BitVec 5 → BitVec 32
  zero : value 0#5 = 0#32

namespace Registers

def initial : Registers := ⟨fun _ => 0#32, rfl⟩

def write (r : Registers) (rd : BitVec 5) (v : BitVec 32) : Registers where
  value := if rd = 0#5 then r.value else Function.update r.value rd v
  zero := by
    split
    next => exact r.zero
    next h => rw [Function.update_of_ne (Ne.symm h), r.zero]

end Registers

structure Memory (μ : Type*) where
  load : μ → BitVec 32 → BitVec 32
  store : μ → BitVec 32 → BitVec 32 → μ

/-- A hardware thread: everything an instruction can read or change. -/
@[ext]
structure Hart (μ : Type*) where
  pc : BitVec 32
  registers : Registers
  memory : μ

structure Effect.Within (S : Set (BitVec 32)) (e : Effect) : Prop where
  load : ∀ a, e.load = some a → a ∈ S
  store : ∀ a v, e.store = some (a, v) → a ∈ S

/-! ## Effects -/

section
variable {mem mem' : BitVec 32 → BitVec 32} {pc a b : BitVec 32} {i : Instr}

theorem exec_write_ne {w : BitVec 5 × BitVec 32} (h : (exec mem pc a b i).write = some w) : w.1 ≠ 0#5 := by
  have hto : ∀ {rd : BitVec 5} {v : BitVec 32}, writeTo rd v = some w → w.1 ≠ 0#5 := by
    intro rd v hw
    unfold writeTo at hw
    split at hw
    next => cases hw
    next hne => cases hw; exact hne
  cases i with
  | reg | imm | shift | lw | jal | jalr | lui | auipc => exact hto h
  | sw | branch | fence => cases h

/-- Of the memory an instruction sees the word it loads. -/
theorem exec_congr (h : ∀ address, (exec mem pc a b i).load = some address → mem address = mem' address) :
    exec mem pc a b i = exec mem' pc a b i := by
  cases i with
  | lw rd rs1 imm => rw [exec, exec, h _ rfl]
  | _ => rfl

end

/-! ## Runs -/

namespace Hart

section
variable {μ : Type*} (M : Memory μ) (fetch : BitVec 32 → Instr) (h : Hart μ)

def effect : Effect :=
  exec (M.load h.memory) h.pc (h.registers.value (fetch h.pc).rs1) (h.registers.value (fetch h.pc).rs2) (fetch h.pc)

def step : Hart μ where
  pc := (h.effect M fetch).nextPc
  registers := (h.effect M fetch).write.elim h.registers fun w => h.registers.write w.1 w.2
  memory := (h.effect M fetch).store.elim h.memory fun w => M.store h.memory w.1 w.2

def run (k : Nat) : Hart μ := (step M fetch)^[k] h

theorem run_succ (k : Nat) : h.run M fetch (k + 1) = (h.run M fetch k).step M fetch :=
  Function.iterate_succ_apply' _ k h

end

/-- Harts that differ in their memories alone, related by `R`. -/
structure Agree {μ ν : Type*} (R : μ → ν → Prop) (h : Hart μ) (h' : Hart ν) : Prop where
  pc : h.pc = h'.pc
  registers : h.registers = h'.registers
  memory : R h.memory h'.memory

end Hart

/-! ## Simulation of memories -/

/-- At the addresses `S`, memories related by `R` answer loads alike and stay
related by stores. -/
structure Memory.Simulates {μ ν : Type*} (M : Memory μ) (N : Memory ν) (S : Set (BitVec 32)) (R : μ → ν → Prop) :
    Prop where
  load : ∀ {m n a}, R m n → a ∈ S → M.load m a = N.load n a
  store : ∀ {m n a v}, R m n → a ∈ S → R (M.store m a v) (N.store n a v)

namespace Memory.Simulates

variable {μ ν : Type*} {M : Memory μ} {N : Memory ν} {S : Set (BitVec 32)} {R : μ → ν → Prop} {h : Hart μ} {h' : Hart ν}
  {fetch : BitVec 32 → Instr} (hsim : M.Simulates N S R)
include hsim

theorem effect_eq (ha : h.Agree R h') (hS : (h.effect M fetch).Within S) : h.effect M fetch = h'.effect N fetch := by
  unfold Hart.effect at hS ⊢
  rw [← ha.pc, ← ha.registers]
  exact exec_congr fun a hl => hsim.load ha.memory (hS.load a hl)

theorem step (ha : h.Agree R h') (hS : (h.effect M fetch).Within S) : (h.step M fetch).Agree R (h'.step N fetch) := by
  have he := hsim.effect_eq ha hS
  refine ⟨?_, ?_, ?_⟩
  · rw [Hart.step, Hart.step, he]
  · rw [Hart.step, Hart.step, he, ha.registers]
  · show R ((h.effect M fetch).store.elim _ _) ((h'.effect N fetch).store.elim _ _)
    rw [← he]
    cases hst : (h.effect M fetch).store with
    | none => exact ha.memory
    | some w => exact hsim.store ha.memory (hS.store w.1 w.2 hst)

theorem run (ha : h.Agree R h') (k : Nat) (hS : ∀ j < k, ((h.run M fetch j).effect M fetch).Within S) :
    (h.run M fetch k).Agree R (h'.run N fetch k) := by
  induction k with
  | zero => exact ha
  | succ k ih =>
    rw [Hart.run_succ, Hart.run_succ]
    exact hsim.step (ih fun j hj => hS j (Nat.lt_succ_of_lt hj)) (hS k (Nat.lt_succ_self k))

end Memory.Simulates

end Rv32i
