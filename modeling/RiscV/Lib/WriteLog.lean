import Mathlib.Data.List.Induction
import Mathlib.Logic.Function.Basic

/-!
# Logs of writes to an array

A log lists the writes made to an array, oldest first. Replaying it updates the
array; an entry then holds the latest value the log has for it.
-/

namespace WriteLog

variable {ι α : Type*} [DecidableEq ι]

def replay (log : List (ι × α)) (f : ι → α) : ι → α := log.foldl (fun g w => Function.update g w.1 w.2) f

def latest (log : List (ι × α)) (i : ι) : Option α := (log.reverse.find? fun w => w.1 = i).map Prod.snd

@[simp] theorem replay_nil (f : ι → α) : replay [] f = f := rfl

theorem replay_append (l l' : List (ι × α)) (f : ι → α) : replay (l ++ l') f = replay l' (replay l f) :=
  List.foldl_append

@[simp] theorem replay_singleton (w : ι × α) (f : ι → α) : replay [w] f = Function.update f w.1 w.2 := rfl

@[simp] theorem latest_nil (i : ι) : latest ([] : List (ι × α)) i = none := rfl

theorem latest_concat (l : List (ι × α)) (w : ι × α) (i : ι) :
    latest (l ++ [w]) i = if w.1 = i then some w.2 else latest l i := by
  unfold latest
  rw [List.reverse_concat, List.find?_cons]
  by_cases h : w.1 = i <;> simp [h]

theorem latest_map_value (l : List (ι × α)) (g : ι → α) (i : ι) :
    latest (l.map fun w => (w.1, g w.1)) i = (latest l i).map fun _ => g i := by
  induction l using List.reverseRecOn with
  | nil => rfl
  | append_singleton l w ih =>
    rw [List.map_append, List.map_singleton, latest_concat, latest_concat, ih]
    by_cases h : w.1 = i <;> simp [h]

/-! ## Coarser arrays

Under `f` several indices may share one entry of a second array. -/

section
variable {ι α κ : Type*} [DecidableEq κ] (f : ι → κ)

/-- The latest write to an index that `f` takes to entry `k`. -/
def latestVia (log : List (ι × α)) (k : κ) : Option (ι × α) := log.reverse.find? fun w => f w.1 = k

theorem latestVia_concat (l : List (ι × α)) (w : ι × α) (k : κ) :
    latestVia f (l ++ [w]) k = if f w.1 = k then some w else latestVia f l k := by
  unfold latestVia
  rw [List.reverse_concat, List.find?_cons]
  by_cases h : f w.1 = k <;> simp [h]

theorem latest_of_latestVia [DecidableEq ι] {l : List (ι × α)} {i : ι} {v : α} (h : latestVia f l (f i) = some (i, v)) :
    latest l i = some v := by
  induction l using List.reverseRecOn with
  | nil => cases h
  | append_singleton l w ih =>
    rw [latestVia_concat] at h
    rw [latest_concat]
    by_cases hw : f w.1 = f i
    · rw [if_pos hw] at h
      cases h
      exact if_pos rfl
    · rw [if_neg hw] at h
      rw [if_neg fun hi => hw (congrArg f hi), ih h]

theorem latest_of_latestVia_none [DecidableEq ι] {l : List (ι × α)} {i : ι} (h : latestVia f l (f i) = none) :
    latest l i = none := by
  unfold latestVia at h
  unfold latest
  rw [List.find?_eq_none] at h
  rw [List.find?_eq_none.mpr, Option.map_none]
  intro w hw
  have hf := h w hw
  simp only [decide_eq_true_eq] at hf ⊢
  exact fun hi => hf (congrArg f hi)

theorem latestVia_map_value (l : List (ι × α)) (g : ι → α) (k : κ) :
    latestVia f (l.map fun w => (w.1, g w.1)) k = (latestVia f l k).map fun w => (w.1, g w.1) := by
  unfold latestVia
  rw [← List.map_reverse, List.find?_map]
  rfl

theorem latestVia_map_fst (l : List (ι × α)) (k : κ) :
    (latestVia f l k).map Prod.fst = (l.map Prod.fst).reverse.find? fun i => f i = k := by
  unfold latestVia
  rw [← List.map_reverse, List.find?_map]
  rfl

end

end WriteLog

/-! ## Streams of logs -/

namespace WriteLog

variable {β : Type*}

/-- The log of the first `n` steps, when step `j` appends `w j`. -/
def collect (w : Nat → List β) (n : Nat) : List β := (List.range n).flatMap w

@[simp] theorem collect_zero (w : Nat → List β) : collect w 0 = [] := rfl

theorem collect_succ (w : Nat → List β) (n : Nat) : collect w (n + 1) = collect w n ++ w n := by
  simp [collect, List.range_succ]

theorem collect_prefix (w : Nat → List β) {m n : Nat} (h : m ≤ n) : collect w m <+: collect w n := by
  induction h with
  | refl => exact List.prefix_refl _
  | step _ ih => exact ih.trans (collect_succ w _ ▸ List.prefix_append _ _)

theorem collect_singleton (f : Nat → β) (n : Nat) : collect (fun i => [f i]) n = (List.range n).map f :=
  List.map_eq_flatMap.symm

/-- Steps that append nothing do not count: if step `i` appends entry `c i` of
the stream `v` exactly when the counter `c` moves on, the logs agree. -/
theorem collect_reindex {w v : Nat → List β} {c : Nat → Nat} (h0 : c 0 = 0)
    (hs : ∀ i, (c (i + 1) = c i ∧ w i = []) ∨ (c (i + 1) = c i + 1 ∧ w i = v (c i))) (n : Nat) :
    collect w n = collect v (c n) := by
  induction n with
  | zero => rw [h0]; rfl
  | succ n ih =>
    rw [collect_succ, ih]
    rcases hs n with ⟨hc, hw⟩ | ⟨hc, hw⟩
    · rw [hc, hw, List.append_nil]
    · rw [hc, hw, collect_succ]

end WriteLog
