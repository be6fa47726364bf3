import Mathlib.Data.Nat.Count
import Mathlib.Order.Monotone.Basic
import Mathlib.Tactic.ByContra
import RiscV.Lib.Clocked

/-!
# The timetable of an in-order pipeline

A fetch slot feeds three stages, execute, memory and write-back. Instructions
are numbered in program order. When instruction `k` is in the execute stage it
may redirect the fetch, which empties the fetch slot behind it, or hold its
successor in the fetch slot for a cycle. Nothing else delays an instruction.

The occupancy of the stages is a counter automaton. `issueTime` is the cycle in
which an instruction is in the execute stage, in closed form.
-/

namespace InOrder

/-- How many instructions have left the pipeline, and which stages are taken
by the ones that follow them. -/
structure Occupancy where
  retired : Nat
  wb : Bool
  mem : Bool
  ex : Bool
  fetched : Bool
  deriving DecidableEq, Repr

namespace Occupancy

def empty : Occupancy := ⟨0, false, false, false, false⟩

variable (o : Occupancy)

def memIndex : Nat := o.retired + o.wb.toNat
def exIndex : Nat := o.memIndex + o.mem.toNat
def issued : Nat := o.exIndex + o.ex.toNat

def advance (ex fetched : Bool) : Occupancy := ⟨o.memIndex, o.mem, o.ex, ex, fetched⟩

variable (ex fetched : Bool)

@[simp] theorem advance_retired : (o.advance ex fetched).retired = o.memIndex := rfl
@[simp] theorem advance_wb : (o.advance ex fetched).wb = o.mem := rfl
@[simp] theorem advance_mem : (o.advance ex fetched).mem = o.ex := rfl
@[simp] theorem advance_ex : (o.advance ex fetched).ex = ex := rfl
@[simp] theorem advance_fetched : (o.advance ex fetched).fetched = fetched := rfl
@[simp] theorem advance_memIndex : (o.advance ex fetched).memIndex = o.exIndex := rfl
@[simp] theorem advance_exIndex : (o.advance ex fetched).exIndex = o.issued := rfl
@[simp] theorem advance_issued : (o.advance ex fetched).issued = o.issued + ex.toNat := rfl

theorem issued_of_ex {o : Occupancy} (h : o.ex = true) : o.issued = o.exIndex + 1 := by simp [issued, h]

theorem issued_of_not_ex {o : Occupancy} (h : o.ex = false) : o.issued = o.exIndex := by simp [issued, h]

end Occupancy

section
variable (hold redirect : Nat → Bool)

def Occupancy.next (o : Occupancy) : Occupancy :=
  if o.ex && redirect o.exIndex then o.advance false false
  else if o.ex && hold o.exIndex then o.advance false true
  else o.advance o.fetched true

def automaton : Clocked.Circuit Occupancy where
  edge reset o := if reset then .empty else o.next hold redirect
  clear _ := .empty

def occupancy (t : Nat) : Occupancy := (automaton hold redirect).cycles t .empty

def issueTime (k : Nat) : Nat :=
  2 + k + Nat.count (fun j => hold j = true) k + 2 * Nat.count (fun j => redirect j = true) k

end

section
variable {hold redirect : Nat → Bool}

/-! ## The three moves -/

theorem next_redirect {o : Occupancy} (hx : o.ex = true) (hr : redirect o.exIndex = true) :
    o.next hold redirect = o.advance false false := by
  simp [Occupancy.next, hx, hr]

theorem next_hold {o : Occupancy} (hx : o.ex = true) (hr : redirect o.exIndex = false)
    (hh : hold o.exIndex = true) : o.next hold redirect = o.advance false true := by
  simp [Occupancy.next, hx, hr, hh]

theorem next_flow {o : Occupancy} (hr : o.ex = true → redirect o.exIndex = false)
    (hh : o.ex = true → hold o.exIndex = false) : o.next hold redirect = o.advance o.fetched true := by
  cases hx : o.ex with
  | true => simp [Occupancy.next, hx, hr hx, hh hx]
  | false => simp [Occupancy.next, hx]

/-- Every move hands the stages on; the moves differ in what enters execute. -/
theorem next_eq_advance (o : Occupancy) :
    o.next hold redirect = o.advance (o.next hold redirect).ex (o.next hold redirect).fetched := by
  unfold Occupancy.next
  split
  · rfl
  · split <;> rfl

/-- Only a redirect empties the fetch slot. -/
theorem next_fetched (o : Occupancy) : (o.next hold redirect).fetched = !(o.ex && redirect o.exIndex) := by
  unfold Occupancy.next
  by_cases hr : (o.ex && redirect o.exIndex) = true
  · simp [hr]
  · rw [if_neg hr, Bool.eq_false_iff.mpr hr]
    split <;> rfl

/-- A held instruction leaves execute empty for a cycle, a redirect for two. -/
theorem not_ex_of_hold {o : Occupancy} (hx : o.ex = true) (hr : redirect o.exIndex = false)
    (hh : hold o.exIndex = true) : (o.next hold redirect).ex = false := by
  rw [next_hold hx hr hh]; rfl

theorem not_ex_of_redirect {o : Occupancy} (hx : o.ex = true) (hr : redirect o.exIndex = true) :
    (o.next hold redirect).ex = false ∧ ((o.next hold redirect).next hold redirect).ex = false := by
  rw [next_redirect hx hr, next_flow (o := o.advance false false) (fun h => by cases h) (fun h => by cases h)]
  exact ⟨rfl, rfl⟩

theorem occupancy_zero : occupancy hold redirect 0 = .empty := rfl

theorem occupancy_succ (t : Nat) :
    occupancy hold redirect (t + 1) = (occupancy hold redirect t).next hold redirect :=
  Clocked.Circuit.cycles_succ _ t _

theorem occupancy_succ_advance (t : Nat) :
    occupancy hold redirect (t + 1) =
      (occupancy hold redirect t).advance (occupancy hold redirect (t + 1)).ex
        (occupancy hold redirect (t + 1)).fetched := by
  rw [occupancy_succ]; exact next_eq_advance _

/-! ## Issue times -/

theorem issueTime_zero : issueTime hold redirect 0 = 2 := by simp [issueTime]

theorem issueTime_succ (k : Nat) :
    issueTime hold redirect (k + 1) =
      issueTime hold redirect k + 1 + (if hold k then 1 else 0) + (if redirect k then 2 else 0) := by
  simp only [issueTime, Nat.count_succ]
  split <;> split <;> omega

theorem issueTime_strictMono : StrictMono (issueTime hold redirect) :=
  strictMono_nat_of_lt_succ fun k => by rw [issueTime_succ]; omega

/-- What the occupancy knows about the clock. -/
structure OnTime (hold redirect : Nat → Bool) (t : Nat) (o : Occupancy) : Prop where
  ex_fetched : o.ex = true → o.fetched = true
  issue_now : o.ex = true → t = issueTime hold redirect o.exIndex
  issue_next : o.ex = false → o.fetched = true → t + 1 = issueTime hold redirect o.exIndex
  issue_refill : o.fetched = false → t + 2 = issueTime hold redirect o.exIndex
  past : ∀ k < o.exIndex, issueTime hold redirect k < t
  /-- neighbours in execute and memory were not separated -/
  spaced : o.mem = true → o.ex = true → hold o.memIndex = false ∧ redirect o.memIndex = false

theorem onTime_empty : OnTime hold redirect 0 .empty where
  ex_fetched h := by simp [Occupancy.empty] at h
  issue_now h := by simp [Occupancy.empty] at h
  issue_next _ h := by simp [Occupancy.empty] at h
  issue_refill _ := by simp [Occupancy.empty, Occupancy.exIndex, Occupancy.memIndex, issueTime]
  past k h := by simp [Occupancy.empty, Occupancy.exIndex, Occupancy.memIndex] at h
  spaced h := by simp [Occupancy.empty] at h

theorem OnTime.past_issued {t : Nat} {o : Occupancy} (h : OnTime hold redirect t o) :
    ∀ k < o.issued, issueTime hold redirect k < t + 1 := by
  intro k hk
  cases hx : o.ex with
  | false =>
    rw [Occupancy.issued_of_not_ex hx] at hk
    exact Nat.lt_succ_of_lt (h.past k hk)
  | true =>
    rw [Occupancy.issued_of_ex hx] at hk
    rw [h.issue_now hx, Nat.lt_succ_iff]
    exact issueTime_strictMono.monotone (Nat.lt_succ_iff.mp hk)

section
variable {t : Nat} {o : Occupancy} (h : OnTime hold redirect t o)
include h

theorem OnTime.not_ex (hf : o.fetched = false) : o.ex = false := by
  by_contra hx
  rw [h.ex_fetched (Bool.eq_true_of_not_eq_false hx)] at hf
  cases hf

theorem OnTime.redirected (hx : o.ex = true) (hr : redirect o.exIndex = true) (hh : hold o.exIndex = false) :
    OnTime hold redirect (t + 1) (o.advance false false) where
  ex_fetched h' := by cases h'
  issue_now h' := by cases h'
  issue_next _ h' := by cases h'
  issue_refill _ := by
    rw [Occupancy.advance_exIndex, Occupancy.issued_of_ex hx, issueTime_succ, hr, hh, ← h.issue_now hx]
    rfl
  past := h.past_issued
  spaced _ h' := by cases h'

theorem OnTime.held (hx : o.ex = true) (hr : redirect o.exIndex = false) (hh : hold o.exIndex = true) :
    OnTime hold redirect (t + 1) (o.advance false true) where
  ex_fetched h' := by cases h'
  issue_now h' := by cases h'
  issue_next _ _ := by
    rw [Occupancy.advance_exIndex, Occupancy.issued_of_ex hx, issueTime_succ, hr, hh, ← h.issue_now hx]
    rfl
  issue_refill h' := by cases h'
  past := h.past_issued
  spaced _ h' := by cases h'

theorem OnTime.flowed (hr : o.ex = true → redirect o.exIndex = false)
    (hh : o.ex = true → hold o.exIndex = false) : OnTime hold redirect (t + 1) (o.advance o.fetched true) where
  ex_fetched _ := rfl
  issue_now hf := by
    rw [Occupancy.advance_exIndex]
    cases hx : o.ex with
    | false => rw [Occupancy.issued_of_not_ex hx]; exact h.issue_next hx hf
    | true =>
      rw [Occupancy.issued_of_ex hx, issueTime_succ, hr hx, hh hx, ← h.issue_now hx]
      rfl
  issue_next hf _ := by
    rw [Occupancy.advance_exIndex, Occupancy.issued_of_not_ex (h.not_ex hf)]
    exact h.issue_refill hf
  issue_refill h' := by cases h'
  past := h.past_issued
  spaced hx _ := ⟨hh hx, hr hx⟩

end

variable (hexcl : ∀ k, hold k = true → redirect k = false)
include hexcl

theorem next_cases (o : Occupancy) :
    (o.ex = true ∧ redirect o.exIndex = true ∧ hold o.exIndex = false ∧
        o.next hold redirect = o.advance false false) ∨
      (o.ex = true ∧ redirect o.exIndex = false ∧ hold o.exIndex = true ∧
        o.next hold redirect = o.advance false true) ∨
      ((o.ex = true → redirect o.exIndex = false) ∧ (o.ex = true → hold o.exIndex = false) ∧
        o.next hold redirect = o.advance o.fetched true) := by
  cases hx : o.ex with
  | false =>
    have hno : ∀ {p : Nat → Bool}, o.ex = true → p o.exIndex = false := fun h => by rw [hx] at h; cases h
    exact .inr (.inr ⟨fun h => (by cases h), fun h => (by cases h), next_flow hno hno⟩)
  | true =>
    cases hh : hold o.exIndex with
    | true => exact .inr (.inl ⟨rfl, hexcl _ hh, rfl, next_hold hx (hexcl _ hh) hh⟩)
    | false =>
      cases hr : redirect o.exIndex with
      | true => exact .inl ⟨rfl, rfl, rfl, next_redirect hx hr⟩
      | false => exact .inr (.inr ⟨fun _ => rfl, fun _ => rfl, next_flow (fun _ => hr) fun _ => hh⟩)

theorem OnTime.next {t : Nat} {o : Occupancy} (h : OnTime hold redirect t o) :
    OnTime hold redirect (t + 1) (o.next hold redirect) := by
  rcases next_cases hexcl o with ⟨hx, hr, hh, ho⟩ | ⟨hx, hr, hh, ho⟩ | ⟨hr, hh, ho⟩
  · rw [ho]; exact h.redirected hx hr hh
  · rw [ho]; exact h.held hx hr hh
  · rw [ho]; exact h.flowed hr hh

theorem occupancy_onTime : ∀ t, OnTime hold redirect t (occupancy hold redirect t) :=
  Clocked.Circuit.cycles_invariant (C := automaton hold redirect) onTime_empty fun _ _ h => h.next hexcl

/-! ## Who is where, and when -/

theorem ex_iff (t : Nat) :
    (occupancy hold redirect t).ex = true ↔ ∃ k, t = issueTime hold redirect k := by
  have h := occupancy_onTime hexcl t
  refine ⟨fun hx => ⟨_, h.issue_now hx⟩, ?_⟩
  rintro ⟨k, hk⟩
  by_contra hx
  rw [Bool.not_eq_true] at hx
  -- the next issue is still to come, so `k` is past, and its cycle was earlier
  have hlt : issueTime hold redirect k < issueTime hold redirect (occupancy hold redirect t).exIndex := by
    cases hf : (occupancy hold redirect t).fetched with
    | true => have := h.issue_next hx hf; omega
    | false => have := h.issue_refill hf; omega
  have := h.past k (issueTime_strictMono.lt_iff_lt.mp hlt)
  omega

theorem exIndex_issueTime (k : Nat) :
    (occupancy hold redirect (issueTime hold redirect k)).exIndex = k := by
  have hx := (ex_iff hexcl (issueTime hold redirect k)).mpr ⟨k, rfl⟩
  exact (issueTime_strictMono.injective ((occupancy_onTime hexcl _).issue_now hx)).symm

theorem mem_iff (t : Nat) :
    (occupancy hold redirect t).mem = true ↔ ∃ k, t = issueTime hold redirect k + 1 := by
  cases t with
  | zero => simp [occupancy_zero, Occupancy.empty]
  | succ t =>
    rw [occupancy_succ_advance, Occupancy.advance_mem, ex_iff hexcl]
    simp only [Nat.add_right_cancel_iff]

theorem memIndex_issueTime (k : Nat) :
    (occupancy hold redirect (issueTime hold redirect k + 1)).memIndex = k := by
  rw [occupancy_succ_advance, Occupancy.advance_memIndex, exIndex_issueTime hexcl]

theorem wb_iff (t : Nat) :
    (occupancy hold redirect t).wb = true ↔ ∃ k, t = issueTime hold redirect k + 2 := by
  cases t with
  | zero => simp [occupancy_zero, Occupancy.empty]
  | succ t =>
    rw [occupancy_succ_advance, Occupancy.advance_wb, mem_iff hexcl]
    simp only [Nat.add_right_cancel_iff]

theorem retired_issueTime (k : Nat) :
    (occupancy hold redirect (issueTime hold redirect k + 2)).retired = k := by
  rw [occupancy_succ_advance, Occupancy.advance_retired, memIndex_issueTime hexcl]

omit hexcl

/-! ## Retirement -/

theorem retired_succ (t : Nat) :
    (occupancy hold redirect (t + 1)).retired = (occupancy hold redirect t).memIndex := by
  rw [occupancy_succ_advance, Occupancy.advance_retired]

theorem retired_le_succ (t : Nat) :
    (occupancy hold redirect t).retired ≤ (occupancy hold redirect (t + 1)).retired := by
  rw [retired_succ]; exact Nat.le_add_right _ _

theorem retired_succ_le (t : Nat) :
    (occupancy hold redirect (t + 1)).retired ≤ (occupancy hold redirect t).retired + 1 := by
  rw [retired_succ]; exact Nat.add_le_add_left (Bool.toNat_le _) _

theorem retired_mono : Monotone fun t => (occupancy hold redirect t).retired :=
  monotone_nat_of_le_succ retired_le_succ

end

/-! ## Two runs that meet

From the cycle in which `k` issues in the one run and `k'` in the other, the
timetables go in step if the instructions behind them are held and redirect
alike. -/

section
variable {hold redirect hold' redirect' : Nat → Bool} (hexcl : ∀ j, hold j = true → redirect j = false)
  (hexcl' : ∀ j, hold' j = true → redirect' j = false) {k k' : Nat} (hhold : ∀ i, hold (k + i) = hold' (k' + i))
  (hredirect : ∀ i, redirect (k + i) = redirect' (k' + i))
include hexcl hexcl' hhold hredirect

theorem occupancy_shift (t : Nat) :
    ∃ i, (occupancy hold redirect (issueTime hold redirect k + t)).exIndex = k + i ∧
      (occupancy hold' redirect' (issueTime hold' redirect' k' + t)).exIndex = k' + i ∧
      (occupancy hold redirect (issueTime hold redirect k + t)).ex =
        (occupancy hold' redirect' (issueTime hold' redirect' k' + t)).ex ∧
      (occupancy hold redirect (issueTime hold redirect k + t)).fetched =
        (occupancy hold' redirect' (issueTime hold' redirect' k' + t)).fetched := by
  induction t with
  | zero =>
    have hx := (ex_iff hexcl _).mpr ⟨k, rfl⟩
    have hx' := (ex_iff hexcl' _).mpr ⟨k', rfl⟩
    refine ⟨0, exIndex_issueTime hexcl k, exIndex_issueTime hexcl' k', hx.trans hx'.symm, ?_⟩
    exact ((occupancy_onTime hexcl _).ex_fetched hx).trans ((occupancy_onTime hexcl' _).ex_fetched hx').symm
  | succ t ih =>
    rw [← Nat.add_assoc, ← Nat.add_assoc, occupancy_succ, occupancy_succ]
    obtain ⟨i, hi, hi', hx, hf⟩ := ih
    generalize occupancy hold redirect (issueTime hold redirect k + t) = o at hi hx hf ⊢
    generalize occupancy hold' redirect' (issueTime hold' redirect' k' + t) = o' at hi' hx hf ⊢
    have hissued : o.issued = k + (i + o.ex.toNat) := by rw [Occupancy.issued, hi, Nat.add_assoc]
    have hissued' : o'.issued = k' + (i + o.ex.toNat) := by rw [Occupancy.issued, hi', hx, Nat.add_assoc]
    refine ⟨i + o.ex.toNat, ?_, ?_, ?_, ?_⟩
    · rw [next_eq_advance, Occupancy.advance_exIndex, hissued]
    · rw [next_eq_advance, Occupancy.advance_exIndex, hissued']
    all_goals
      unfold Occupancy.next
      rw [hi, hi', hx, hf, hhold, hredirect]
      split
      · rfl
      · split <;> rfl

end

/-! ## What an observer learns

The two signals of the execute stage, cycle by cycle. They give the whole
timetable away, and nothing else about the instructions. -/

section
variable (hold redirect : Nat → Bool)

def holdSignal (t : Nat) : Bool :=
  (occupancy hold redirect t).ex && hold (occupancy hold redirect t).exIndex

def redirectSignal (t : Nat) : Bool :=
  (occupancy hold redirect t).ex && redirect (occupancy hold redirect t).exIndex

end

section
variable {hold redirect hold' redirect' : Nat → Bool}

theorem occupancy_congr (hh : ∀ t, holdSignal hold redirect t = holdSignal hold' redirect' t)
    (hr : ∀ t, redirectSignal hold redirect t = redirectSignal hold' redirect' t) (t : Nat) :
    occupancy hold redirect t = occupancy hold' redirect' t := by
  induction t with
  | zero => rfl
  | succ t ih =>
    have hht := hh t
    have hrt := hr t
    unfold holdSignal at hht
    unfold redirectSignal at hrt
    rw [occupancy_succ, occupancy_succ, Occupancy.next, Occupancy.next, hht, hrt, ih]

theorem signals_iff (hexcl : ∀ k, hold k = true → redirect k = false) :
    (∀ t, holdSignal hold redirect t = holdSignal hold' redirect' t ∧
        redirectSignal hold redirect t = redirectSignal hold' redirect' t) ↔
      hold = hold' ∧ redirect = redirect' := by
  constructor
  · intro h
    -- instruction `k` shows both of its bits while it is in execute
    have hat : ∀ k, hold k = hold' k ∧ redirect k = redirect' k := fun k => by
      obtain ⟨hh, hr⟩ := h (issueTime hold redirect k)
      have ho := occupancy_congr (fun t => (h t).1) (fun t => (h t).2) (issueTime hold redirect k)
      have hx := (ex_iff hexcl (issueTime hold redirect k)).mpr ⟨k, rfl⟩
      have hk := exIndex_issueTime hexcl k
      rw [holdSignal, holdSignal, ← ho, hx, hk] at hh
      rw [redirectSignal, redirectSignal, ← ho, hx, hk] at hr
      exact ⟨hh, hr⟩
    exact ⟨funext fun k => (hat k).1, funext fun k => (hat k).2⟩
  · rintro ⟨rfl, rfl⟩ t
    exact ⟨rfl, rfl⟩

end

end InOrder
