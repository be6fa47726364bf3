import RiscV.Programs
import RiscV.Schedule
import RiscV.SynthTop

/-!
# The two buses

The accesses `cpu_pipeline` makes to its memories, cycle by cycle: loads and
stores at the ports of `data_memory`, and the addresses the instruction memory
is asked for. Neither bus carries anything but the program's own accesses in
program order, and the two words behind each jump or taken branch.
-/

namespace RiscV

open InOrder WriteLog Rv32i

/-! ## The ports of `data_memory` -/

def accessAt (memRead memWrite : Bool) (address writeData : Word) : List Access :=
  (if memWrite then [.store address writeData] else []) ++ if memRead then [.load address] else []

def PipelineState.access (s : PipelineState) : List Access :=
  accessAt s.exMem.memRead s.exMem.memWrite s.exMem.aluResult s.exMem.writeData

def accessesOf (e : Effect) : List Access :=
  e.store.toList.map (fun w => .store w.1 w.2) ++ e.load.toList.map .load

theorem memoryAfter_accessAt (dmem : MemArray) (log : List Access) (memRead memWrite : Bool) (address writeData : Word) :
    memoryAfter dmem (log ++ accessAt memRead memWrite address writeData) =
      memStageEdge (memoryAfter dmem log) memWrite address writeData := by
  unfold memoryAfter
  rw [List.foldl_append]
  cases memRead <;> cases memWrite <;> rfl

section
variable (imem : InstrArray) (undef : Word → Word) (dmem : MemArray)

def busLog (n : Nat) : List Access := collect (fun i => (pipelineAt imem undef dmem i).access) n

def programAccesses (k : Nat) : List Access :=
  accessesOf ((hartAt imem undef dmem k).effect (arrayMemory undef) (fetchInstr imem))

theorem exMem_access (k : Nat) :
    accessAt ((sequentialAt imem undef dmem k).exMem imem).memRead ((sequentialAt imem undef dmem k).exMem imem).memWrite
        ((sequentialAt imem undef dmem k).exMem imem).aluResult ((sequentialAt imem undef dmem k).exMem imem).writeData =
      programAccesses imem undef dmem k := by
  have heffect := effect_hart imem undef (hartAt imem undef dmem k)
  rw [programAccesses, ← heffect, ← archOf_hartAt]
  generalize hartAt imem undef dmem k = h
  show accessAt ((archOf h).control imem).memRead ((archOf h).control imem).memWrite ((archOf h).ex imem).aluResult
      ((archOf h).ex imem).storeData =
    accessesOf
      { write := _
        load := if ((archOf h).control imem).memRead then some ((archOf h).ex imem).aluResult else none
        store :=
          if ((archOf h).control imem).memWrite then some (((archOf h).ex imem).aluResult, ((archOf h).ex imem).storeData)
          else none
        nextPc := _ }
  unfold accessAt accessesOf
  cases ((archOf h).control imem).memRead <;> cases ((archOf h).control imem).memWrite <;> rfl

theorem access_cases (n : Nat) :
    (retiredAt imem undef dmem (n + 2) = retiredAt imem undef dmem (n + 1) ∧
        (pipelineAt imem undef dmem n).access = []) ∨
      (retiredAt imem undef dmem (n + 2) = retiredAt imem undef dmem (n + 1) + 1 ∧
        (pipelineAt imem undef dmem n).access = programAccesses imem undef dmem (retiredAt imem undef dmem (n + 1))) := by
  have h := pipelineAt_refines imem undef dmem n
  rw [retiredAt_succ_succ, retiredAt_succ]
  cases hm : (occupancyAt imem undef dmem n).mem with
  | false =>
    obtain ⟨-, hread, hwrite, -⟩ := h.exMem_bubble hm
    refine .inl ⟨by simp [Occupancy.exIndex, hm], ?_⟩
    rw [PipelineState.access, hread, hwrite]
    rfl
  | true =>
    refine .inr ⟨by simp [Occupancy.exIndex, hm], ?_⟩
    rw [PipelineState.access, h.exMem hm, exMem_access]

theorem busLog_eq (n : Nat) :
    busLog imem undef dmem n = collect (programAccesses imem undef dmem) (retiredAt imem undef dmem (n + 1)) :=
  collect_reindex (c := fun n => retiredAt imem undef dmem (n + 1)) rfl (access_cases imem undef dmem) n

theorem pipelineAt_memoryAfter (n : Nat) :
    (pipelineAt imem undef dmem n).memory = memoryAfter dmem (busLog imem undef dmem n) := by
  induction n with
  | zero => rfl
  | succ n ih =>
    rw [busLog, collect_succ, ← busLog, PipelineState.access, memoryAfter_accessAt, ← ih, pipelineAt_succ]
    rfl

/-- What a load brings from the memory, by the stores before it on the bus. -/
theorem memReadData_eq {n : Nat} {a : Word} (hr : (pipelineAt imem undef dmem n).exMem.memRead = true)
    (hresult : (pipelineAt imem undef dmem n).exMem.aluResult = a) :
    (pipelineAt imem undef dmem n).memReadData undef =
      if ha : a.toNat < 256 then (latest (stores (busLog imem undef dmem n)) a).getD (dmem ⟨a.toNat, ha⟩)
      else undef a := by
  rw [← load_readData, ← pipelineAt_memoryAfter, PipelineState.memReadData, hr, hresult]
  rfl

theorem length_access_le (n : Nat) : (pipelineAt imem undef dmem n).access.length ≤ 1 := by
  have hone : ∀ opcode, (controlUnit opcode).memRead = true → (controlUnit opcode).memWrite = false := by
    intro opcode h
    rw [controlUnit_memRead, beq_iff_eq] at h
    rw [h]
    rfl
  have h := pipelineAt_refines imem undef dmem n
  unfold PipelineState.access accessAt
  cases hm : (occupancyAt imem undef dmem n).mem with
  | false => simp [(h.exMem_bubble hm).2.1, (h.exMem_bubble hm).2.2.1]
  | true =>
    rw [h.exMem hm]
    cases hr : ((sequentialAt imem undef dmem (occupancyAt imem undef dmem n).memIndex).exMem imem).memRead with
    | false => split <;> simp
    | true =>
      have hw : ((sequentialAt imem undef dmem (occupancyAt imem undef dmem n).memIndex).exMem imem).memWrite = false :=
        hone _ hr
      simp [hw]

/-- **The data bus.** At most one access a cycle; the accesses are the loads and
stores of the program, each once and in program order, none of them from a wrong
path; and a load inside the array reads what the latest store before it on the
bus left at its address. -/
theorem data_bus :
    (∀ n, (pipelineAt imem undef dmem n).access.length ≤ 1) ∧
    (∃ k : Nat → Nat, Monotone k ∧ Function.Surjective k ∧
      ∀ n, busLog imem undef dmem n = collect (programAccesses imem undef dmem) (k n)) ∧
    ∀ n a, (pipelineAt imem undef dmem n).access = [.load a] →
      (pipelineAt imem undef dmem n).memReadData undef =
        if ha : a.toNat < 256 then (latest (stores (busLog imem undef dmem n)) a).getD (dmem ⟨a.toNat, ha⟩)
        else undef a := by
  refine ⟨length_access_le imem undef dmem, ⟨fun n => retiredAt imem undef dmem (n + 1), ?_, ?_, ?_⟩, ?_⟩
  · exact fun m n h => retiredAt_mono imem undef dmem (Nat.succ_le_succ h)
  · exact SynthTop.retiredAt_succ_surjective imem undef dmem
  · exact busLog_eq imem undef dmem
  · intro n a ha
    have hload : (pipelineAt imem undef dmem n).exMem.memRead = true ∧
        (pipelineAt imem undef dmem n).exMem.aluResult = a := by
      unfold PipelineState.access accessAt at ha
      cases hw : (pipelineAt imem undef dmem n).exMem.memWrite <;>
        cases hr : (pipelineAt imem undef dmem n).exMem.memRead <;> simp [hw, hr] at ha
      exact ⟨rfl, ha⟩
    exact memReadData_eq imem undef dmem hload.1 hload.2

end

/-! ## The addresses of the instruction memory -/

section
variable (imem : InstrArray) (undef : Word → Word) (dmem : MemArray)

/-- The address of the cycle, unless the next cycle repeats it. -/
def PipelineState.fetches (s : PipelineState) : List Word := if s.hazardStall then [] else [s.pc]

def fetchLog (n : Nat) : List Word := collect (fun i => (pipelineAt imem undef dmem i).fetches) n

/-- The address of instruction `k`, and of the two words behind it if it is a
jump or a taken branch. -/
def programFetches (k : Nat) : List Word :=
  let pc := (sequentialAt imem undef dmem k).pc
  pc :: if transfersAt imem undef dmem k then [pc + 4#32, pc + 4#32 + 4#32] else []

/-- The addresses in the pipeline front, of an instruction not yet counted. -/
def pendingFetches (o : Occupancy) : List Word :=
  let pc := (sequentialAt imem undef dmem o.exIndex).pc
  if o.fetched then pc :: if o.ex then [pc + 4#32] else [] else []

end

section
variable {imem : InstrArray} {undef : Word → Word} {dmem : MemArray} {o : Occupancy} {s : PipelineState} {t : Nat}
  (h : Refines imem undef dmem o s) (ht : OnTime (loadUse imem undef dmem) (redirectsAt imem undef dmem) t o)
include h ht

theorem Refines.fetches :
    collect (programFetches imem undef dmem) o.exIndex ++ pendingFetches imem undef dmem o ++ s.fetches =
      collect (programFetches imem undef dmem) (o.next (loadUse imem undef dmem) (redirectsAt imem undef dmem)).exIndex ++
        pendingFetches imem undef dmem (o.next (loadUse imem undef dmem) (redirectsAt imem undef dmem)) := by
  have hex : o.ex = true → s.pc = (sequentialAt imem undef dmem o.exIndex).pc + 4#32 + 4#32 := fun hx => by
    rw [h.pc (ht.ex_fetched hx), fetchPc, if_pos hx]
  rcases next_cases (loadUse_not_redirects imem undef dmem) o with ⟨hx, hr, hl, ho⟩ | ⟨hx, hr, hl, ho⟩ | ⟨hr, hl, ho⟩
  · -- the two words behind a transfer
    obtain ⟨-, hstall⟩ := h.controls_redirected ht hx hr hl
    have htr : transfersAt imem undef dmem o.exIndex = true := by rw [transfersAt_eq_redirectsAt]; exact hr
    rw [ho, Occupancy.advance_exIndex, Occupancy.issued_of_ex hx, collect_succ]
    simp [pendingFetches, programFetches, PipelineState.fetches, ht.ex_fetched hx, hx, hstall, htr, hex hx]
  · -- the fetch is repeated
    obtain ⟨-, hstall⟩ := h.controls_held ht hx hr hl
    have htr : transfersAt imem undef dmem o.exIndex = false := by rw [transfersAt_eq_redirectsAt]; exact hr
    rw [ho, Occupancy.advance_exIndex, Occupancy.issued_of_ex hx, collect_succ]
    simp [pendingFetches, programFetches, PipelineState.fetches, ht.ex_fetched hx, hx, hstall, htr,
      Occupancy.issued_of_ex hx, pc_of_not_redirects hr]
  · obtain ⟨-, hstall⟩ := h.controls_flowed ht hr hl
    rw [ho, Occupancy.advance_exIndex]
    cases hx : o.ex with
    | true =>
      have htr : transfersAt imem undef dmem o.exIndex = false := by rw [transfersAt_eq_redirectsAt]; exact hr hx
      rw [Occupancy.issued_of_ex hx, collect_succ]
      simp [pendingFetches, programFetches, PipelineState.fetches, ht.ex_fetched hx, hx, hstall, htr, hex hx,
        Occupancy.issued_of_ex hx, pc_of_not_redirects (hr hx)]
    | false =>
      rw [Occupancy.issued_of_not_ex hx]
      cases hf : o.fetched with
      | true =>
        simp [pendingFetches, PipelineState.fetches, hx, hf, hstall, Occupancy.issued_of_not_ex hx, h.pc hf, fetchPc]
      | false =>
        simp [pendingFetches, PipelineState.fetches, hf, hstall, Occupancy.issued_of_not_ex hx, h.pc_refill hf]

end

section
variable (imem : InstrArray) (undef : Word → Word) (dmem : MemArray)

theorem fetchLog_eq (n : Nat) :
    fetchLog imem undef dmem n =
      collect (programFetches imem undef dmem) (occupancyAt imem undef dmem n).exIndex ++
        pendingFetches imem undef dmem (occupancyAt imem undef dmem n) := by
  induction n with
  | zero => rfl
  | succ n ih =>
    rw [fetchLog, collect_succ, ← fetchLog, ih, occupancyAt_succ]
    exact (pipelineAt_refines imem undef dmem n).fetches (occupancyAt_onTime imem undef dmem n)

theorem fetchLog_at_executeTime (k : Nat) :
    fetchLog imem undef dmem (executeTime imem undef dmem k) =
      collect (programFetches imem undef dmem) k ++
        [(sequentialAt imem undef dmem k).pc, (sequentialAt imem undef dmem k).pc + 4#32] := by
  obtain ⟨hx, hk⟩ := occupancyAt_executeTime imem undef dmem k
  have hf := (occupancyAt_onTime imem undef dmem _).ex_fetched hx
  rw [fetchLog_eq, pendingFetches, hk, hx, hf]
  rfl

/-- **The instruction bus.** Before the cycle in which instruction `k` executes it
has been asked for the addresses of the instructions before `k` in program order
and, behind each jump or taken branch, for exactly the two words that follow it;
then for `k` and the word behind it. Nothing else is fetched on a guess. -/
theorem instruction_bus :
    (∀ k, fetchLog imem undef dmem (executeTime imem undef dmem k) =
      collect (programFetches imem undef dmem) k ++
        [(sequentialAt imem undef dmem k).pc, (sequentialAt imem undef dmem k).pc + 4#32]) ∧
    ∀ n, ∃ k, fetchLog imem undef dmem n <+: collect (programFetches imem undef dmem) k := by
  refine ⟨fetchLog_at_executeTime imem undef dmem, fun n => ⟨n + 2, ?_⟩⟩
  have hn : n ≤ executeTime imem undef dmem n := by
    unfold executeTime
    omega
  have hpre : fetchLog imem undef dmem n <+: fetchLog imem undef dmem (executeTime imem undef dmem n) :=
    collect_prefix _ hn
  refine hpre.trans ?_
  rw [fetchLog_at_executeTime, collect_succ, collect_succ, List.append_assoc, List.prefix_append_right_inj]
  cases ht : transfersAt imem undef dmem n with
  | true => simp [programFetches, ht]
  | false =>
    have hr : redirectsAt imem undef dmem n = false := by rw [← transfersAt_eq_redirectsAt]; exact ht
    simp [programFetches, ht, pc_of_not_redirects hr]

end

end RiscV
