import Mathlib.Logic.ExistsUnique
import Mathlib.Data.BitVec
import Mathlib.Tactic.LinearCombination

/-!
# Wires fed back to themselves

A wire driven by a function of its own value settles when that function has
exactly one fixed point. A system of wire equations settles when all wires
follow from one of them and that one does.
-/

namespace Feedback

variable {α β : Type*}

def Settles (f : α → α) : Prop := ∃! v, f v = v

theorem settles_const {f : α → α} {c : α} (h : ∀ v, f v = c) : Settles f :=
  ⟨c, h c, fun v hv => hv.symm.trans (h v)⟩

theorem not_settles_of_two {f : α → α} {v w : α} (hv : f v = v) (hw : f w = w) (hne : v ≠ w) : ¬ Settles f :=
  fun h => hne (h.unique hv hw)

theorem not_settles_of_ne {f : α → α} (h : ∀ v, f v ≠ v) : ¬ Settles f :=
  fun ⟨v, hv, _⟩ => h v hv

theorem settles_congr {f g : α → α} (h : ∀ v, f v = g v) : Settles f ↔ Settles g := by
  rw [funext h]

/-- The cycle may be cut anywhere. -/
theorem settles_comp (f : α → β) (g : β → α) : Settles (fun v => g (f v)) ↔ Settles (fun w => f (g w)) := by
  constructor
  · rintro ⟨v, hv, huniq⟩
    refine ⟨f v, congrArg f hv, fun w hw => ?_⟩
    rw [← huniq (g w) (congrArg g hw)]
    exact hw.symm
  · rintro ⟨w, hw, huniq⟩
    refine ⟨g w, congrArg g hw, fun v hv => ?_⟩
    rw [← huniq (f v) (congrArg f hv)]
    exact hv.symm

/-- A system of equations `S` whose solutions are built from the value of one
wire, `key`, which drives itself through `f`. -/
theorem existsUnique_iff_settles {S : β → Prop} {key : β → α} {build : α → β} {f : α → α}
    (hkey : ∀ v, key (build v) = v) (hS : ∀ w, S w ↔ w = build (key w) ∧ f (key w) = key w) :
    (∃! w, S w) ↔ Settles f := by
  have hbuild : ∀ v, S (build v) ↔ f v = v := fun v => by rw [hS, hkey]; exact and_iff_right rfl
  constructor
  · rintro ⟨w, hw, huniq⟩
    refine ⟨key w, ((hS w).mp hw).2, fun v hv => ?_⟩
    rw [← huniq (build v) ((hbuild v).mpr hv), hkey]
  · rintro ⟨v, hv, huniq⟩
    refine ⟨build v, (hbuild v).mpr hv, fun w hw => ?_⟩
    obtain ⟨hb, hf⟩ := (hS w).mp hw
    rw [hb, huniq (key w) hf]

/-! ## Operations on words -/

section
variable {n : Nat}

theorem settles_and (b : BitVec n) : Settles (fun v => v &&& b) ↔ b = 0#n := by
  constructor
  · intro h
    exact h.unique BitVec.and_self BitVec.zero_and
  · rintro rfl
    exact settles_const fun v => BitVec.and_zero

theorem settles_or (b : BitVec n) : Settles (fun v => v ||| b) ↔ b = BitVec.allOnes n := by
  constructor
  · intro h
    exact h.unique BitVec.or_self BitVec.allOnes_or
  · rintro rfl
    exact settles_const fun v => BitVec.or_allOnes

theorem not_settles_id : ¬ Settles (fun v : BitVec (n + 1) => v) :=
  not_settles_of_two (v := 0#(n + 1)) (w := 1#(n + 1)) rfl rfl (by simp)

theorem not_settles_add (b : BitVec (n + 1)) : ¬ Settles (fun v => v + b) := by
  rintro ⟨v, hv, huniq⟩
  have hb : b = 0#(n + 1) := by simpa using hv
  subst hb
  exact not_settles_id ⟨v, rfl, fun w _ => huniq w (BitVec.add_zero w)⟩

theorem not_settles_sub (b : BitVec (n + 1)) : ¬ Settles (fun v => v - b) := by
  simp only [BitVec.sub_eq_add_neg]
  exact not_settles_add (-b)

theorem not_settles_xor (b : BitVec (n + 1)) : ¬ Settles (fun v => v ^^^ b) := by
  rintro ⟨v, hv, huniq⟩
  have hb : b = 0#(n + 1) := by
    have h : v ^^^ (v ^^^ b) = v ^^^ v := congrArg (v ^^^ ·) hv
    rwa [← BitVec.xor_assoc, BitVec.xor_self, BitVec.zero_xor] at h
  subst hb
  exact not_settles_id ⟨v, rfl, fun w _ => huniq w BitVec.xor_zero⟩

/-- With `v` also `v + 2 ^ n` is half of `a`. -/
theorem not_settles_sub_self (a : BitVec (n + 1)) : ¬ Settles (fun v => a - v) := by
  rintro ⟨v, hv, huniq⟩
  have hv' : a - v = v := hv
  have hnat : (BitVec.twoPow (n + 1) n).toNat = 2 ^ n := BitVec.toNat_twoPow_of_lt (Nat.lt_succ_self n)
  have hhalf : BitVec.twoPow (n + 1) n + BitVec.twoPow (n + 1) n = 0 := by
    apply BitVec.eq_of_toNat_eq
    rw [BitVec.toNat_add, hnat, ← Nat.two_mul, ← Nat.pow_succ', Nat.mod_self]
    rfl
  have hw : a - (v + BitVec.twoPow (n + 1) n) = v + BitVec.twoPow (n + 1) n := by
    linear_combination hv' - hhalf
  have hzero : BitVec.twoPow (n + 1) n = 0#(n + 1) := by simpa using huniq _ hw
  rw [hzero] at hnat
  exact absurd hnat.symm (Nat.two_pow_pos n).ne'

theorem settles_shiftLeft (s : Nat) : Settles (fun v : BitVec (n + 1) => v <<< s) ↔ s ≠ 0 := by
  constructor
  · rintro h rfl
    exact not_settles_id (by simpa only [BitVec.shiftLeft_zero] using h)
  · intro hs
    refine ⟨0#(n + 1), BitVec.zero_shiftLeft s, fun v hv => ?_⟩
    -- every bit of a fixed point is a lower one, or zero
    have hbit : ∀ i, v.getLsbD i = false := by
      intro i
      induction i using Nat.strongRecOn with
      | ind i ih =>
        have hv' : v <<< s = v := hv
        rw [← hv', BitVec.getLsbD_shiftLeft]
        by_cases his : i < s
        · simp [his]
        · rw [ih (i - s) (by omega)]
          simp
    exact BitVec.eq_of_getLsbD_eq fun i _ => by simp [hbit i]

theorem settles_ushiftRight (s : Nat) : Settles (fun v : BitVec (n + 1) => v >>> s) ↔ s ≠ 0 := by
  constructor
  · rintro h rfl
    exact not_settles_id (by simpa only [BitVec.ushiftRight_zero] using h)
  · intro hs
    refine ⟨0#(n + 1), BitVec.zero_ushiftRight, fun v hv => ?_⟩
    have hnat : v.toNat / 2 ^ s = v.toNat := by
      rw [← Nat.shiftRight_eq_div_pow, ← BitVec.toNat_ushiftRight]
      exact congrArg BitVec.toNat hv
    apply BitVec.eq_of_toNat_eq
    by_contra hne
    exact absurd hnat (Nat.div_lt_self (Nat.pos_of_ne_zero hne) (Nat.one_lt_two_pow hs)).ne

theorem not_settles_sshiftRight (s : Nat) : ¬ Settles (fun v : BitVec (n + 1) => v.sshiftRight s) := by
  refine not_settles_of_two (v := 0#(n + 1)) (w := BitVec.allOnes (n + 1)) BitVec.zero_sshiftRight ?_ ?_
  · ext i hi
    rw [BitVec.getElem_sshiftRight]
    simp [BitVec.msb_allOnes (Nat.succ_pos n)]
  · intro h
    have hbit := congrArg (fun x : BitVec (n + 1) => x.getLsbD 0) h
    simp at hbit

/-- A comparison fed back settles when it does not depend on its own outcome. -/
theorem settles_ite (p : BitVec (n + 1) → Bool) :
    Settles (fun v => if p v then 1#(n + 1) else 0#(n + 1)) ↔ p 0#(n + 1) = p 1#(n + 1) := by
  have hne : (0#(n + 1)) ≠ 1#(n + 1) := by simp
  have hfixed : ∀ v, (if p v then 1#(n + 1) else 0#(n + 1)) = v →
      (v = 0#(n + 1) ∧ p 0#(n + 1) = false) ∨ (v = 1#(n + 1) ∧ p 1#(n + 1) = true) := by
    intro v hv
    cases hp : p v <;> rw [hp] at hv <;> subst hv
    · exact .inl ⟨rfl, hp⟩
    · exact .inr ⟨rfl, hp⟩
  cases h0 : p 0#(n + 1) <;> cases h1 : p 1#(n + 1)
  · refine iff_of_true ⟨0#(n + 1), by simp [h0], fun v hv => ?_⟩ rfl
    rcases hfixed v hv with ⟨rfl, -⟩ | ⟨-, h⟩
    · rfl
    · rw [h1] at h; cases h
  · refine iff_of_false (not_settles_of_two (v := 0#(n + 1)) (w := 1#(n + 1)) ?_ ?_ hne) Bool.false_ne_true
    · simp [h0]
    · simp [h1]
  · refine iff_of_false (not_settles_of_ne fun v hv => ?_) Bool.false_ne_true.symm
    rcases hfixed v hv with ⟨-, h⟩ | ⟨-, h⟩
    · rw [h0] at h; cases h
    · rw [h1] at h; cases h
  · refine iff_of_true ⟨1#(n + 1), by simp [h1], fun v hv => ?_⟩ rfl
    rcases hfixed v hv with ⟨-, h⟩ | ⟨rfl, -⟩
    · rw [h0] at h; cases h
    · rfl

end

end Feedback
