import Mathlib.Data.List.Induction
import Mathlib.Logic.Function.Iterate
import Mathlib.Order.Basic

/-!
# Clocked circuits with an asynchronous reset

A circuit is its reaction to a rising clock edge, at either level of the reset
input, and to the rising edge of reset. Free runs iterate the clock edge with
reset low. A bench plays clock edges and changes of reset in any order.
-/

namespace Clocked

structure Circuit (σ : Type*) where
  edge : Bool → σ → σ
  clear : σ → σ

variable {σ : Type*}

namespace Circuit

variable (C : Circuit σ)

/-! ## Free runs -/

def cycles (n : Nat) (s : σ) : σ := (C.edge false)^[n] s

@[simp] theorem cycles_zero (s : σ) : C.cycles 0 s = s := rfl

theorem cycles_succ (n : Nat) (s : σ) : C.cycles (n + 1) s = C.edge false (C.cycles n s) :=
  Function.iterate_succ_apply' _ n s

theorem cycles_add (m n : Nat) (s : σ) : C.cycles (m + n) s = C.cycles m (C.cycles n s) :=
  Function.iterate_add_apply _ m n s

variable {C}

theorem cycles_invariant {P : Nat → σ → Prop} {s : σ} (h0 : P 0 s)
    (hs : ∀ n s, P n s → P (n + 1) (C.edge false s)) : ∀ n, P n (C.cycles n s)
  | 0 => h0
  | n + 1 => by rw [cycles_succ]; exact hs n _ (cycles_invariant h0 hs n)

end Circuit

/-! ## Runs with resets -/

inductive Event where
  | clock
  | assert
  | release
  deriving DecidableEq, Repr

structure Bench (σ : Type*) where
  reset : Bool
  state : σ

namespace Circuit

variable (C : Circuit σ)

/-- Asserting a reset that is already high is no edge. -/
def event (b : Bench σ) : Event → Bench σ
  | .clock => ⟨b.reset, C.edge b.reset b.state⟩
  | .assert => ⟨true, if b.reset then b.state else C.clear b.state⟩
  | .release => ⟨false, b.state⟩

def play (b : Bench σ) (es : List Event) : Bench σ := es.foldl C.event b

@[simp] theorem play_nil (b : Bench σ) : C.play b [] = b := rfl

@[simp] theorem play_cons (b : Bench σ) (e : Event) (es : List Event) :
    C.play b (e :: es) = C.play (C.event b e) es := rfl

theorem play_append (b : Bench σ) (es es' : List Event) :
    C.play b (es ++ es') = C.play (C.play b es) es' :=
  List.foldl_append

/-- While reset is high and the state is one that reset holds, nothing changes. -/
theorem play_held {s : σ} (hs : C.edge true s = s) :
    ∀ {es : List Event}, .release ∉ es → C.play ⟨true, s⟩ es = ⟨true, s⟩
  | [], _ => rfl
  | e :: es, he => by
    have ih : C.play ⟨true, s⟩ es = ⟨true, s⟩ := play_held hs fun h => he (List.mem_cons_of_mem _ h)
    cases e with
    | clock => rw [play_cons, event, hs, ih]
    | assert => simpa [event] using ih
    | release => simp at he

theorem play_running (s : σ) :
    ∀ {es : List Event}, .assert ∉ es → C.play ⟨false, s⟩ es = ⟨false, C.cycles (es.count .clock) s⟩
  | [], _ => rfl
  | e :: es, he => by
    have he' : .assert ∉ es := fun h => he (List.mem_cons_of_mem _ h)
    cases e with
    | clock =>
      rw [play_cons, event, play_running _ he', List.count_cons_self, C.cycles_add, cycles, cycles]
      rfl
    | assert => simp at he
    | release =>
      rw [play_cons, event, play_running s he', List.count_cons_of_ne (by decide)]

/-- Every state of a bench is one of a free run from a cleared state, and while
reset is high it is the cleared state. -/
theorem play_state (hclear : ∀ s, C.edge true (C.clear s) = C.clear s) (s₀ : σ) (es : List Event) :
    ∃ s n, (C.play ⟨true, C.clear s₀⟩ es).state = C.cycles n (C.clear s) ∧
      ((C.play ⟨true, C.clear s₀⟩ es).reset = true → n = 0) := by
  induction es using List.reverseRecOn with
  | nil => exact ⟨s₀, 0, rfl, fun _ => rfl⟩
  | append_singleton es e ih =>
    rw [C.play_append]
    generalize C.play ⟨true, C.clear s₀⟩ es = b at ih
    obtain ⟨s, n, hs, hn⟩ := ih
    cases e with
    | clock =>
      cases hr : b.reset with
      | true =>
        rw [hn hr, cycles_zero] at hs
        exact ⟨s, 0, by rw [play_cons, event, hr, hs, hclear]; rfl, fun _ => rfl⟩
      | false =>
        exact ⟨s, n + 1, by rw [play_cons, event, hr, hs, cycles_succ]; rfl, fun h => by simp [event, hr] at h⟩
    | assert =>
      cases hr : b.reset with
      | true => exact ⟨s, n, by simp [event, hr, hs], fun _ => hn hr⟩
      | false => exact ⟨b.state, 0, by simp [event, hr], fun _ => rfl⟩
    | release => exact ⟨s, n, hs, fun h => by cases h⟩

theorem play_high (hclear : ∀ s, C.edge true (C.clear s) = C.clear s) (s₀ : σ) (es : List Event)
    (hr : (C.play ⟨true, C.clear s₀⟩ es).reset = true) :
    ∃ s, C.play ⟨true, C.clear s₀⟩ es = ⟨true, C.clear s⟩ := by
  obtain ⟨s, n, hs, hn⟩ := C.play_state hclear s₀ es
  rw [hn hr, cycles_zero] at hs
  exact ⟨s, (Bench.mk.injEq ..).mpr ⟨hr, hs⟩⟩

/-- A period with reset low, from a cleared state, is a free run; asserting
reset cuts it off, and the cleared state stays until reset is released. -/
theorem play_period (hclear : ∀ s, C.edge true (C.clear s) = C.clear s) {s : σ} {active held : List Event}
    (hactive : .assert ∉ active) (hheld : .release ∉ held) :
    C.play ⟨true, C.clear s⟩ (.release :: active) = ⟨false, C.cycles (active.count .clock) (C.clear s)⟩ ∧
      C.play ⟨true, C.clear s⟩ (.release :: active ++ .assert :: held) =
        ⟨true, C.clear (C.cycles (active.count .clock) (C.clear s))⟩ := by
  have hrun : C.play ⟨true, C.clear s⟩ (.release :: active) =
      ⟨false, C.cycles (active.count .clock) (C.clear s)⟩ := C.play_running _ hactive
  refine ⟨hrun, ?_⟩
  rw [C.play_append, hrun]
  exact C.play_held (hclear _) hheld

end Circuit

/-! ## Circuits with a choice of edges -/

/-- A circuit that may leave a clock edge in several states, or in none. -/
structure Relational (σ : Type*) where
  edge : Bool → σ → σ → Prop
  clear : σ → σ

namespace Relational

inductive Step (R : Relational σ) : Bench σ → Event → Bench σ → Prop where
  | clock {r : Bool} {s s' : σ} : R.edge r s s' → R.Step ⟨r, s⟩ .clock ⟨r, s'⟩
  | assert (r : Bool) (s : σ) : R.Step ⟨r, s⟩ .assert ⟨true, if r then s else R.clear s⟩
  | release (r : Bool) (s : σ) : R.Step ⟨r, s⟩ .release ⟨false, s⟩

inductive Plays (R : Relational σ) : Bench σ → List Event → Bench σ → Prop where
  | nil (b : Bench σ) : R.Plays b [] b
  | cons {b b' b'' : Bench σ} {e : Event} {es : List Event} :
    R.Step b e b' → R.Plays b' es b'' → R.Plays b (e :: es) b''

variable {R : Relational σ}

theorem exists_plays (htotal : ∀ r s, ∃ s', R.edge r s s') (b : Bench σ) (es : List Event) :
    ∃ b', R.Plays b es b' := by
  induction es generalizing b with
  | nil => exact ⟨b, .nil b⟩
  | cons e es ih =>
    obtain ⟨b', hb'⟩ : ∃ b', R.Step b e b' := by
      cases e with
      | clock =>
        obtain ⟨s', hs'⟩ := htotal b.reset b.state
        exact ⟨_, .clock hs'⟩
      | assert => exact ⟨_, .assert b.reset b.state⟩
      | release => exact ⟨_, .release b.reset b.state⟩
    obtain ⟨b'', hb''⟩ := ih b'
    exact ⟨b'', .cons hb' hb''⟩

/-- What holds after clearing and is kept by edges in reset holds whenever reset
is high. -/
theorem plays_high {I : σ → Prop} (hclear : ∀ s, I (R.clear s)) (hedge : ∀ s s', I s → R.edge true s s' → I s')
    {b b' : Bench σ} {es : List Event} (h : R.Plays b es b') (hb : b.reset = true → I b.state)
    (hr : b'.reset = true) : I b'.state := by
  induction h with
  | nil => exact hb hr
  | cons he _ ih =>
    refine ih (fun hr' => ?_) hr
    cases he with
    | clock hs => exact hedge _ _ (hb hr') (hr' ▸ hs)
    | assert r s =>
      cases r with
      | false => exact hclear s
      | true => exact hb rfl
    | release => cases hr'

/-- Edges in reset that all do the same thing, for the state `c m` of a memory `m`. -/
theorem plays_held {μ : Type*} {c : μ → σ} {store : μ → μ} (hstore : ∀ m, store (store m) = store m)
    (hedge : ∀ m s', R.edge true (c m) s' → s' = c (store m)) {m : μ} {b : Bench σ} {es : List Event}
    (h : R.Plays ⟨true, c m⟩ es b) (hes : .release ∉ es) :
    b = ⟨true, c (if .clock ∈ es then store m else m)⟩ := by
  generalize hb₀ : Bench.mk true (c m) = b₀ at h
  induction h generalizing m with
  | nil => rw [← hb₀]; simp
  | @cons _ _ _ e es he _ ih =>
    subst hb₀
    have hes' : .release ∉ es := fun h => hes (List.mem_cons_of_mem _ h)
    cases he with
    | clock hs =>
      rw [ih hes' (congrArg (Bench.mk true) (hedge _ _ hs)).symm]
      by_cases hc : .clock ∈ es <;> simp [hc, hstore]
    | assert => rw [ih hes' rfl]; simp
    | release => simp at hes

end Relational

/-! ## Periods out of reset

A memory that no reset clears, from one period out of reset to the next. -/

structure Period (μ : Type*) where
  reset : Bool
  memory : μ
  clocks : Nat
  idle : reset = true → clocks = 0

section
variable {μ : Type*}

def Period.first (m : μ) : Period μ := ⟨true, m, 0, fun _ => rfl⟩

variable (cut : μ → Nat → μ) (held : μ → μ)

/-- `cut m n` is what `n` clock edges leave of the memory `m` a period began
with, `held` what a clock edge does in reset. -/
def Period.event (p : Period μ) : Event → Period μ
  | .clock =>
    match p.reset with
    | true => .first (held p.memory)
    | false => ⟨false, p.memory, p.clocks + 1, fun h => by cases h⟩
  | .assert =>
    match p.reset with
    | true => p
    | false => .first (cut p.memory p.clocks)
  | .release => ⟨false, p.memory, p.clocks, fun h => by cases h⟩

def periodAfter (m : μ) (es : List Event) : Period μ := es.foldl (Period.event cut held) (.first m)

end

section
variable {μ : Type*} {cut : μ → Nat → μ} {held : μ → μ} {run : μ → Nat → σ}

/-- What a period looks like from outside, when `run m n` is the state after `n`
clock edges from `m`. -/
def Period.bench (run : μ → Nat → σ) (p : Period μ) : Bench σ := ⟨p.reset, run p.memory p.clocks⟩

namespace Relational

variable {R : Relational σ} (hclear : ∀ m n, R.clear (run m n) = run (cut m n) 0)
  (hheld : ∀ m s', R.edge true (run m 0) s' → s' = run (held m) 0)
  (hedge : ∀ m n s', R.edge false (run m n) s' → s' = run m (n + 1))
include hclear hheld hedge

theorem step_period {p : Period μ} {e : Event} {b : Bench σ} (h : R.Step (p.bench run) e b) :
    b = (p.event cut held e).bench run := by
  obtain ⟨r, m, n, hidle⟩ := p
  cases h with
  | clock hs =>
    cases r with
    | true =>
      obtain rfl : n = 0 := hidle rfl
      exact congrArg (Bench.mk true) (hheld m _ hs)
    | false => exact congrArg (Bench.mk false) (hedge m n _ hs)
  | assert =>
    cases r with
    | true => rfl
    | false => exact congrArg (Bench.mk true) (hclear m n)
  | release => rfl

/-- **Runs with resets are sequences of periods.** -/
theorem plays_periods {m : μ} {es : List Event} {b : Bench σ} (h : R.Plays ⟨true, run m 0⟩ es b) :
    b = (periodAfter cut held m es).bench run := by
  unfold periodAfter
  generalize hp : Period.first m = p
  have hb : Bench.mk true (run m 0) = p.bench run := by rw [← hp]; rfl
  rw [hb] at h
  clear hp hb
  generalize hb₀ : p.bench run = b₀ at h
  induction h generalizing p with
  | nil => exact hb₀.symm
  | cons he _ ih =>
    subst hb₀
    exact ih _ (step_period hclear hheld hedge he).symm

end Relational

namespace Circuit

variable (C : Circuit σ)

def toRelational : Relational σ where
  edge r s s' := s' = C.edge r s
  clear := C.clear

theorem toRelational_plays (b : Bench σ) (es : List Event) : C.toRelational.Plays b es (C.play b es) := by
  induction es generalizing b with
  | nil => exact .nil b
  | cons e es ih =>
    refine .cons ?_ (ih _)
    cases e with
    | clock => exact .clock rfl
    | assert => exact .assert b.reset b.state
    | release => exact .release b.reset b.state

theorem play_periods (hclear : ∀ m n, C.clear (run m n) = run (cut m n) 0)
    (hheld : ∀ m, C.edge true (run m 0) = run (held m) 0) (hedge : ∀ m n, C.edge false (run m n) = run m (n + 1))
    (m : μ) (es : List Event) : C.play ⟨true, run m 0⟩ es = (periodAfter cut held m es).bench run :=
  Relational.plays_periods (R := C.toRelational) hclear (fun m _ h => h.trans (hheld m)) (fun m n _ h => h.trans (hedge m n))
    (C.toRelational_plays _ es)

end Circuit

end

end Clocked
