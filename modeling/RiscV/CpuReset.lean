import RiscV.CpuAgree
import RiscV.Lib.Clocked

/-!
# `cpu` in reset

The program counter and the register array are cleared by reset, the data memory
is not, and its write enable is decoded from the word at address 0 all the time.
A clock edge in reset stores what that word stores when all registers are 0.
-/

namespace RiscV

open Clocked

/-! ## Runs with resets -/

section
variable (imem : InstrArray) (undef : Word → Word) (σ : ArchState)

/-- The wires at a clock edge solve their equations. Where no solution exists,
`write_back_data` may carry anything. -/
structure CpuWires.Stands (w : CpuWires) : Prop where
  cut : w = Cpu.wires imem undef σ w.writeBackData
  settled : (∃ w', CpuWires.Satisfies imem undef σ w') → w.Satisfies imem undef σ

theorem CpuWires.exists_stands : ∃ w, CpuWires.Stands imem undef σ w := by
  by_cases h : ∃ w, CpuWires.Satisfies imem undef σ w
  · obtain ⟨w, hw⟩ := h
    exact ⟨w, Cpu.eq_wires hw, fun _ => hw⟩
  · exact ⟨Cpu.wires imem undef σ 0#32, rfl, fun h' => absurd h' h⟩

end

/-- `posedge reset` clears the program counter and the register array. -/
def cpu (imem : InstrArray) (undef : Word → Word) : Relational ArchState where
  edge reset σ σ' := ∃ w : CpuWires, w.Stands imem undef σ ∧ σ' = w.clockEdge σ reset
  clear σ := .initial σ.memory

theorem exists_cpu_edge {imem : InstrArray} {undef : Word → Word} (reset : Bool) (σ : ArchState) :
    ∃ σ', (cpu imem undef).edge reset σ σ' := by
  obtain ⟨w, hw⟩ := CpuWires.exists_stands imem undef σ
  exact ⟨_, w, hw, rfl⟩

/-! ## A clock edge in reset -/

section
variable (imem : InstrArray)

/-- The word at address 0 is a store that writes entry `i` while all registers
are 0. -/
def StoresInReset (i : Fin 256) : Prop :=
  opcodeOf (imem 0#30) = 0b0100011#7 ∧ (immediateGenerator (imem 0#30)).toNat = i

instance : DecidablePred (StoresInReset imem) := fun _ => inferInstanceAs (Decidable (_ ∧ _))

def resetStore (memory : MemArray) : MemArray := fun i => if StoresInReset imem i then 0#32 else memory i

end

section
variable {imem : InstrArray} {undef : Word → Word}

theorem resetStore_resetStore (memory : MemArray) :
    resetStore imem (resetStore imem memory) = resetStore imem memory := by
  funext i
  by_cases h : StoresInReset imem i <;> simp [resetStore, h]

theorem resetStore_eq_iff (memory : MemArray) :
    resetStore imem memory = memory ↔ ∀ i, StoresInReset imem i → memory i = 0#32 := by
  rw [funext_iff]
  refine forall_congr' fun i => ?_
  rw [resetStore]
  by_cases h : StoresInReset imem i
  · rw [if_pos h, eq_comm]
    exact ⟨fun h0 _ => h0, fun h0 => h0 h⟩
  · rw [if_neg h]
    exact ⟨fun _ h' => absurd h' h, fun _ => rfl⟩

theorem instruction_initial (memory : MemArray) : (ArchState.initial memory).instruction imem = imem 0#30 :=
  congrArg imem (by decide : (0#32).extractLsb 31 2 = 0#30)

theorem MemArray.set_apply (memory : MemArray) (address writeData : Word) (i : Fin 256) :
    memory.set address writeData i = if address.toNat = i then writeData else memory i := by
  unfold MemArray.set
  by_cases ha : address.toNat < 256
  · rw [dif_pos ha, Function.update_apply]
    exact if_congr (Fin.ext_iff.trans eq_comm) rfl rfl
  · have hne : ¬ address.toNat = i := fun h => ha (by rw [h]; exact i.isLt)
    rw [dif_neg ha, if_neg hne]

theorem step_initial_memory (memory : MemArray) :
    ((ArchState.initial memory).step imem undef).memory = resetStore imem memory := by
  have hcontrol : (ArchState.initial memory).control imem = controlUnit (opcodeOf (imem 0#30)) := by
    rw [ArchState.control, instruction_initial]
  have hstep : ((ArchState.initial memory).step imem undef).memory =
      memStageEdge memory ((ArchState.initial memory).control imem).memWrite
        ((ArchState.initial memory).ex imem).aluResult ((ArchState.initial memory).ex imem).storeData := rfl
  rw [hstep, hcontrol, controlUnit_memWrite]
  funext i
  by_cases hop : opcodeOf (imem 0#30) = 0b0100011#7
  · have hzero : ∀ rs, readArray (ArchState.initial memory).registers rs = 0#32 := fun rs => ite_self _
    have hdata : ((ArchState.initial memory).ex imem).storeData = 0#32 := hzero _
    have haddress : ((ArchState.initial memory).ex imem).aluResult = immediateGenerator (imem 0#30) := by
      rw [hop] at hcontrol
      have h : ((ArchState.initial memory).ex imem).aluResult =
          readArray (ArchState.initial memory).registers (rs1Of (imem 0#30)) + immediateGenerator (imem 0#30) := by
        rw [ArchState.ex, ArchState.exPorts, hcontrol, instruction_initial]
        rfl
      rw [h, hzero, BitVec.zero_add]
    have hset : memStageEdge memory (opcodeOf (imem 0#30) == 0b0100011#7) (immediateGenerator (imem 0#30)) 0#32 =
        memory.set (immediateGenerator (imem 0#30)) 0#32 := by rw [hop]; rfl
    rw [haddress, hdata, hset, MemArray.set_apply, resetStore]
    exact if_congr (and_iff_right hop).symm rfl rfl
  · simp [resetStore, StoresInReset, hop, memStageEdge, dataMemoryEdge]

theorem clockEdge_in_reset {memory : MemArray} {σ' : ArchState}
    (h : (cpu imem undef).edge true (.initial memory) σ') : σ' = .initial (resetStore imem memory) := by
  obtain ⟨w, ⟨hcut, -⟩, rfl⟩ := h
  generalize w.writeBackData = v at hcut
  subst hcut
  have hstore := @Cpu.memWrite_own imem (.initial memory) _ memory.set memory v
  have hfirst : ((ArchState.initial memory).step imem undef).memory = resetStore imem memory := step_initial_memory memory
  rw [← hfirst]
  exact congrArg ArchState.initial hstore

/-! ## The data memory under reset -/

theorem plays_reset {dmem : MemArray} {es : List Event} {b : Bench ArchState}
    (h : (cpu imem undef).Plays ⟨true, .initial dmem⟩ es b) (hr : b.reset = true) : b.state = .initial b.state.memory := by
  obtain ⟨M, hM⟩ := Relational.plays_high (I := fun σ => ∃ M, σ = .initial M) (fun σ => ⟨σ.memory, rfl⟩)
    (fun σ σ' ⟨M, hM⟩ he => ⟨_, clockEdge_in_reset (hM ▸ he)⟩) h (fun _ => ⟨dmem, rfl⟩) hr
  rw [hM]
  rfl

theorem memory_after_reset {dmem : MemArray} {es held : List Event} {b b' : Bench ArchState}
    (h : (cpu imem undef).Plays ⟨true, .initial dmem⟩ es b) (hheld : .release ∉ held)
    (h' : (cpu imem undef).Plays b (.assert :: held) b') :
    b'.state.memory = if .clock ∈ held then resetStore imem b.state.memory else b.state.memory := by
  cases h' with
  | @cons _ b₁ _ _ _ hassert hplays =>
    have hb₁ : b₁ = ⟨true, .initial b.state.memory⟩ := by
      cases hassert with
      | assert r σ =>
        cases r with
        | false => rfl
        | true => exact congrArg (Bench.mk true) (plays_reset h rfl)
    subst hb₁
    rw [Relational.plays_held resetStore_resetStore (fun _ _ he => clockEdge_in_reset he) hplays hheld]
    rfl

end

/-- A store to entry 0 at every address, held in reset over one clock edge,
clears the 7 found there. -/
theorem reset_stores :
    ¬ ∀ (es held : List Event) (b b' : Bench ArchState),
      (cpu (fun _ => 0x00002023#32) fun _ => 0#32).Plays ⟨true, .initial fun _ => 7#32⟩ es b → .release ∉ held →
      (cpu (fun _ => 0x00002023#32) fun _ => 0#32).Plays b (.assert :: held) b' → b'.state.memory = b.state.memory := by
  intro hall
  obtain ⟨b', hb'⟩ := Relational.exists_plays exists_cpu_edge ⟨true, .initial fun _ => 7#32⟩ [.assert, .clock]
  have hkeep := hall [] [.clock] _ b' (.nil _) (by decide) hb'
  have hstore := memory_after_reset (.nil _) (by decide) hb'
  rw [hkeep] at hstore
  exact absurd (congrFun hstore 0) (by decide)

/-- **When reset keeps the data memory of `cpu`.** Run by run, as long as no
clock edge falls into the reset, or the word at address 0 is no store into the
array, or the entry it clears is 0 already; and in all runs of a program exactly
when its word at address 0 is no store into the array. -/
theorem cpu_reset_memory_iff (imem : InstrArray) (undef : Word → Word) :
    (∀ dmem es held b b', (cpu imem undef).Plays ⟨true, .initial dmem⟩ es b → .release ∉ held →
      (cpu imem undef).Plays b (.assert :: held) b' →
      (b'.state.memory = b.state.memory ↔
        (.clock ∈ held → ∀ i, StoresInReset imem i → b.state.memory i = 0#32))) ∧
    ((∀ dmem es held b b', (cpu imem undef).Plays ⟨true, .initial dmem⟩ es b → .release ∉ held →
      (cpu imem undef).Plays b (.assert :: held) b' → b'.state.memory = b.state.memory) ↔
        ∀ i, ¬ StoresInReset imem i) := by
  refine ⟨fun dmem es held b b' h hheld h' => ?_, fun hall i hi => ?_, fun hno dmem es held b b' h hheld h' => ?_⟩
  · rw [memory_after_reset h hheld h']
    by_cases hc : .clock ∈ held
    · rw [if_pos hc, resetStore_eq_iff]
      exact ⟨fun h0 _ => h0, fun h0 => h0 hc⟩
    · rw [if_neg hc]
      exact ⟨fun _ h0 => absurd h0 hc, fun _ => rfl⟩
  · -- a memory of ones, and one clock edge
    obtain ⟨b', hb'⟩ := Relational.exists_plays exists_cpu_edge ⟨true, .initial fun _ => 1#32⟩ [.assert, .clock]
    have hkeep := hall _ [] [.clock] _ b' (.nil _) (by decide) hb'
    rw [memory_after_reset (.nil _) (by decide) hb', if_pos (List.mem_singleton.mpr rfl), resetStore_eq_iff] at hkeep
    exact absurd (hkeep i hi) (by decide : 1#32 ≠ 0#32)
  · have hkeep : resetStore imem b.state.memory = b.state.memory :=
      (resetStore_eq_iff _).mpr fun i hi => absurd hi (hno i)
    rw [memory_after_reset h hheld h', hkeep, ite_self]

end RiscV
