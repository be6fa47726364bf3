import Mathlib.Tactic.Common

/-!
# Triples with an exact time

A deterministic machine in which every step takes its own time. A triple says
that from each state of `P` the machine comes to a state of `Q`, and how long
it takes, neither more nor less.
-/

namespace Timed

structure Machine (S : Type*) where
  step : S → S
  time : S → Nat

namespace Machine

section
variable {S : Type*} (M : Machine S)

inductive Takes : S → Nat → S → Prop where
  | refl (s : S) : Takes s 0 s
  | step {s s' : S} {c : Nat} (h : Takes (M.step s) c s') : Takes s (M.time s + c) s'

def Triple (P : S → Prop) (c : Nat) (Q : S → Prop) : Prop := ∀ s, P s → ∃ s', M.Takes s c s' ∧ Q s'

end

section
variable {S : Type*} {M : Machine S}

theorem Takes.one {s s' : S} {c : Nat} (hs : M.step s = s') (hc : M.time s = c) : M.Takes s c s' := by
  subst hs hc
  exact .step (.refl _)

theorem Takes.trans {s t u : S} {c d : Nat} (h : M.Takes s c t) (h' : M.Takes t d u) : M.Takes s (c + d) u := by
  induction h with
  | refl s => rw [Nat.zero_add]; exact h'
  | step _ ih => rw [Nat.add_assoc]; exact .step (ih h')

/-- On a run with a clock, what takes `c` comes about `c` later. -/
theorem Takes.on_run {run : Nat → S} {clock : Nat → Nat} (hrun : ∀ k, run (k + 1) = M.step (run k))
    (hclock : ∀ k, clock (k + 1) = clock k + M.time (run k)) {s s' : S} {c : Nat} (h : M.Takes s c s') :
    ∀ k, run k = s → ∃ k', k ≤ k' ∧ run k' = s' ∧ clock k' = clock k + c := by
  induction h with
  | refl s => intro k hk; exact ⟨k, Nat.le_refl k, hk, rfl⟩
  | step _ ih =>
    intro k hk
    obtain ⟨k', hle, hs', htime⟩ := ih (k + 1) (by rw [hrun, hk])
    refine ⟨k', Nat.le_of_succ_le hle, hs', ?_⟩
    rw [htime, hclock, hk, Nat.add_assoc]

/-! ## The rules -/

section
variable {P Q R : S → Prop} {c d : Nat}

theorem Triple.skip (h : ∀ s, P s → Q s) : M.Triple P 0 Q := fun s hs => ⟨s, .refl s, h s hs⟩

theorem Triple.seq (h : M.Triple P c Q) (h' : M.Triple Q d R) : M.Triple P (c + d) R := by
  intro s hs
  obtain ⟨t, ht, hQ⟩ := h s hs
  obtain ⟨u, hu, hR⟩ := h' t hQ
  exact ⟨u, ht.trans hu, hR⟩

theorem Triple.pre {P' : S → Prop} (h : M.Triple P c Q) (hP : ∀ s, P' s → P s) : M.Triple P' c Q :=
  fun s hs => h s (hP s hs)

theorem Triple.post {Q' : S → Prop} (h : M.Triple P c Q) (hQ : ∀ s, Q s → Q' s) : M.Triple P c Q' := by
  intro s hs
  obtain ⟨t, ht, hq⟩ := h s hs
  exact ⟨t, ht, hQ t hq⟩

/-- A loop with the test at the end: `I m` holds at its head with `m` rounds to
go, and the last round may take another time than the others. -/
theorem Triple.loop {I : Nat → S → Prop} (hround : ∀ m, M.Triple (I (m + 2)) c (I (m + 1))) (hlast : M.Triple (I 1) d Q)
    (n : Nat) : M.Triple (I (n + 1)) (n * c + d) Q := by
  induction n with
  | zero => simpa using hlast
  | succ n ih =>
    have h := (hround n).seq ih
    rw [← Nat.add_assoc, Nat.add_comm c, ← Nat.succ_mul] at h
    exact h

end

end

end Machine

end Timed
