import RiscV.Buses
import RiscV.HiddenState
import RiscV.Undefined

/-!
# The memory a run starts with

Nothing resets the data memory. What it holds at the start shows nowhere but in
the memory itself exactly when the program stores to an address before it loads
from it.
-/

namespace RiscV

open InOrder WriteLog

/-- Every load of the program inside the array finds what the program has
stored there. -/
def StoresBeforeLoads (imem : InstrArray) (undef : Word → Word) (dmem : MemArray) : Prop :=
  ∀ k a, Access.load a ∈ programAccesses imem undef dmem k → a.toNat < 256 →
    ∃ v, Access.store a v ∈ collect (programAccesses imem undef dmem) k

theorem latest_stores_ne_none_iff {log : List Access} {a : Word} :
    latest (stores log) a ≠ none ↔ ∃ v, Access.store a v ∈ log := by
  have hmem : ∀ v, (a, v) ∈ stores log ↔ Access.store a v ∈ log := by
    intro v
    rw [stores, List.mem_filterMap]
    constructor
    · rintro ⟨x, hx, hs⟩
      cases x with
      | load b => cases hs
      | store b w =>
        cases hs
        exact hx
    · intro hv
      exact ⟨_, hv, rfl⟩
  rw [latest, Ne, Option.map_eq_none_iff, List.find?_eq_none]
  simp only [List.mem_reverse, decide_eq_true_eq, not_forall, not_not, exists_prop, Prod.exists]
  constructor
  · rintro ⟨b, v, hv, rfl⟩
    exact ⟨v, (hmem v).mp hv⟩
  · rintro ⟨v, hv⟩
    exact ⟨a, v, (hmem v).mpr hv, rfl⟩

section
variable (imem : InstrArray) (undef : Word → Word) (dmem : MemArray)

/-- A load that nothing on the bus has stored for shows the memory at the start. -/
theorem memReadData_untouched {n : Nat} {a : Word} (hr : (pipelineAt imem undef dmem n).exMem.memRead = true)
    (hresult : (pipelineAt imem undef dmem n).exMem.aluResult = a) (ha : a.toNat < 256)
    (hnone : latest (stores (busLog imem undef dmem n)) a = none) :
    (pipelineAt imem undef dmem n).memReadData undef = dmem ⟨a.toNat, ha⟩ := by
  rw [memReadData_eq imem undef dmem hr hresult, dif_pos ha, hnone, Option.getD_none]

theorem load_on_bus {n : Nat} (h : (pipelineAt imem undef dmem n).exMem.memRead = true) :
    ∃ k, busLog imem undef dmem n = collect (programAccesses imem undef dmem) k ∧
      Access.load (pipelineAt imem undef dmem n).exMem.aluResult ∈ programAccesses imem undef dmem k := by
  have href := pipelineAt_refines imem undef dmem n
  refine ⟨retiredAt imem undef dmem (n + 1), busLog_eq imem undef dmem n, ?_⟩
  rw [retiredAt_succ]
  cases hm : (occupancyAt imem undef dmem n).mem with
  | false =>
    rw [(href.exMem_bubble hm).2.1] at h
    cases h
  | true =>
    rw [href.exMem hm] at h ⊢
    exact (load_mem_programAccesses imem undef dmem _ _).mpr ⟨h, rfl⟩

end

/-! ## Two memories -/

def PipelineState.SameButMemory (s s' : PipelineState) : Prop := { s' with memory := s.memory } = s

theorem PipelineState.SameButMemory.exMem {s s' : PipelineState} (h : s.SameButMemory s') : s'.exMem = s.exMem := by
  have hs : { s' with memory := s.memory } = s := h
  rw [← hs]

theorem PipelineState.SameButMemory.memWb {s s' : PipelineState} (h : s.SameButMemory s') : s'.memWb = s.memWb := by
  have hs : { s' with memory := s.memory } = s := h
  rw [← hs]

theorem PipelineState.SameButMemory.clockEdge {imem : InstrArray} {undef : Word → Word} {s s' : PipelineState}
    (h : s.SameButMemory s') (hread : s'.memReadData undef = s.memReadData undef) :
    (s.clockEdge imem undef false).SameButMemory (s'.clockEdge imem undef false) := by
  unfold SameButMemory at h
  generalize s.memory = m at h
  subst h
  have hmemWb : s'.memWbIn undef = ({ s' with memory := m } : PipelineState).memWbIn undef := by
    unfold PipelineState.memWbIn
    rw [hread]
  exact PipelineState.ext rfl rfl rfl rfl hmemWb rfl rfl

section
variable {imem : InstrArray} {undef : Word → Word} {dmem dmem' : MemArray}

theorem busLog_succ_congr {n : Nat} (hm : (pipelineAt imem undef dmem' n).exMem = (pipelineAt imem undef dmem n).exMem)
    (hb : busLog imem undef dmem' n = busLog imem undef dmem n) :
    busLog imem undef dmem' (n + 1) = busLog imem undef dmem (n + 1) := by
  rw [busLog, busLog, collect_succ, collect_succ, ← busLog, ← busLog, hb]
  unfold PipelineState.access
  rw [hm]

theorem StoresBeforeLoads.memReadData_eq (hstores : StoresBeforeLoads imem undef dmem) {n : Nat}
    (hm : (pipelineAt imem undef dmem' n).exMem = (pipelineAt imem undef dmem n).exMem)
    (hb : busLog imem undef dmem' n = busLog imem undef dmem n) :
    (pipelineAt imem undef dmem' n).memReadData undef = (pipelineAt imem undef dmem n).memReadData undef := by
  by_cases hr : (pipelineAt imem undef dmem n).exMem.memRead = true
  · have hr' : (pipelineAt imem undef dmem' n).exMem.memRead = true := by rw [hm, hr]
    have hresult : (pipelineAt imem undef dmem' n).exMem.aluResult = (pipelineAt imem undef dmem n).exMem.aluResult := by
      rw [hm]
    rw [RiscV.memReadData_eq imem undef dmem hr rfl, RiscV.memReadData_eq imem undef dmem' hr' hresult, hb]
    obtain ⟨k, hk, hload⟩ := load_on_bus imem undef dmem hr
    split
    next ha =>
      have hstored := latest_stores_ne_none_iff.mpr (hstores k _ hload ha)
      rw [← hk] at hstored
      obtain ⟨v, hv⟩ := Option.ne_none_iff_exists'.mp hstored
      rw [hv, Option.getD_some, Option.getD_some]
    next => rfl
  · rw [Bool.not_eq_true] at hr
    unfold PipelineState.memReadData
    rw [hm, hr]
    rfl

theorem StoresBeforeLoads.same (hstores : StoresBeforeLoads imem undef dmem) (dmem' : MemArray) (n : Nat) :
    (pipelineAt imem undef dmem n).SameButMemory (pipelineAt imem undef dmem' n) ∧
      busLog imem undef dmem' n = busLog imem undef dmem n := by
  induction n with
  | zero => exact ⟨rfl, rfl⟩
  | succ n ih =>
    obtain ⟨hsame, hb⟩ := ih
    refine ⟨?_, busLog_succ_congr hsame.exMem hb⟩
    rw [pipelineAt_succ, pipelineAt_succ]
    exact hsame.clockEdge (hstores.memReadData_eq hsame.exMem hb)

end

/-- **The memory at the start.** All memories to start with give the same
pipeline, but for the memory itself, exactly when the program stores to an
address before it loads from it. -/
theorem initial_memory_iff (imem : InstrArray) (undef : Word → Word) (dmem : MemArray) :
    (∀ dmem' n, (pipelineAt imem undef dmem n).SameButMemory (pipelineAt imem undef dmem' n)) ↔
      StoresBeforeLoads imem undef dmem := by
  constructor
  · intro hsame k a hload ha
    by_contra hnone
    rw [← latest_stores_ne_none_iff, not_not] at hnone
    -- change the one word that the load finds
    let dmem' : MemArray := Function.update dmem ⟨a.toNat, ha⟩ (dmem ⟨a.toNat, ha⟩ + 1#32)
    have hb : ∀ n, busLog imem undef dmem' n = busLog imem undef dmem n := by
      intro n
      induction n with
      | zero => rfl
      | succ n ih => exact busLog_succ_congr (hsame dmem' n).exMem ih
    obtain ⟨hr, haddress⟩ := (load_mem_programAccesses imem undef dmem k a).mp hload
    have hat := exMem_at_executeTime imem undef dmem k
    have hbus := busLog_eq imem undef dmem (executeTime imem undef dmem k + 1)
    rw [retiredAt_executeTime] at hbus
    generalize executeTime imem undef dmem k + 1 = n at hat hbus
    have hread : (pipelineAt imem undef dmem n).exMem.memRead = true := by rw [hat]; exact hr
    have hresult : (pipelineAt imem undef dmem n).exMem.aluResult = a := by rw [hat]; exact haddress
    have hdata : (pipelineAt imem undef dmem' n).memReadData undef = (pipelineAt imem undef dmem n).memReadData undef := by
      have hnext := congrArg MemWb.readData (hsame dmem' (n + 1)).memWb
      rw [pipelineAt_succ, pipelineAt_succ] at hnext
      exact hnext
    have hnone' : latest (stores (busLog imem undef dmem n)) a = none := by rw [hbus, hnone]
    have hexMem := (hsame dmem' n).exMem
    rw [memReadData_untouched imem undef dmem hread hresult ha hnone',
      memReadData_untouched imem undef dmem' (hexMem ▸ hread) (hexMem ▸ hresult) ha (by rw [hb, hnone'])] at hdata
    rw [show dmem' ⟨a.toNat, ha⟩ = dmem ⟨a.toNat, ha⟩ + 1#32 from Function.update_self ..] at hdata
    have hnat := congrArg BitVec.toNat hdata
    rw [BitVec.toNat_add] at hnat
    simp only [BitVec.toNat_ofNat] at hnat
    omega
  · intro hstores dmem' n
    exact (hstores.same dmem' n).1

end RiscV
