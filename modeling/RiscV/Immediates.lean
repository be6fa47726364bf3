import RiscV.Rv32iFields

/-!
# The immediate generator inverts the encoding

For every format, on every word whose opcode the decoders take to be of it: the
immediate that was encoded comes out, and what comes out encodes back to the
word.
-/

namespace RiscV

open Rv32i

/-- The format of an opcode that reads operands; the decoders know no others.
FENCE has fields, but no immediate and no source register. -/
def formatOf (opcode : BitVec 7) : Option Format :=
  match opcode with
  | 0b0110011#7 => some .r
  | 0b0010011#7 | 0b0000011#7 | 0b1100111#7 => some .i
  | 0b0100011#7 => some .s
  | 0b1100011#7 => some .b
  | 0b0110111#7 | 0b0010111#7 => some .u
  | 0b1101111#7 => some .j
  | _ => none

theorem formatOf_r {opcode : BitVec 7} (h : formatOf opcode = some .r) : opcode = 0b0110011#7 := by
  unfold formatOf at h
  split at h <;> simp_all

theorem formatOf_i {opcode : BitVec 7} (h : formatOf opcode = some .i) :
    opcode = 0b0010011#7 ∨ opcode = 0b0000011#7 ∨ opcode = 0b1100111#7 := by
  unfold formatOf at h
  split at h <;> simp_all

theorem formatOf_s {opcode : BitVec 7} (h : formatOf opcode = some .s) : opcode = 0b0100011#7 := by
  unfold formatOf at h
  split at h <;> simp_all

theorem formatOf_b {opcode : BitVec 7} (h : formatOf opcode = some .b) : opcode = 0b1100011#7 := by
  unfold formatOf at h
  split at h <;> simp_all

theorem formatOf_u {opcode : BitVec 7} (h : formatOf opcode = some .u) :
    opcode = 0b0110111#7 ∨ opcode = 0b0010111#7 := by
  unfold formatOf at h
  split at h <;> simp_all

theorem formatOf_j {opcode : BitVec 7} (h : formatOf opcode = some .j) : opcode = 0b1101111#7 := by
  unfold formatOf at h
  split at h <;> simp_all

/-! ## Encoding and decoding -/

theorem toInt_wrap {v : Int} (h₁ : -2147483648 ≤ v) (h₂ : v ≤ 2147483647) : (wrap v).toInt = v :=
  BitVec.toInt_ofInt_eq_self (by decide) (by omega) (by omega)

theorem opcodeOf_withImmediate (f : Format) (v : Int) (w : Word) : opcodeOf (f.withImmediate v w) = opcodeOf w := by
  cases f with
  | r => rfl
  | i => exact opcodeOf_word ..
  | s => exact opcodeOf_word ..
  | b => exact opcodeOf_word ..
  | u => exact opcodeOf_word ..
  | j => exact opcodeOf_word ..

theorem immediateGenerator_withImmediate {f : Format} {w : Word} (hf : formatOf (opcodeOf w) = some f) {v : Int}
    (hv : f.Range v) : immediateGenerator (f.withImmediate v w) = wrap v := by
  have hop := opcodeOf_withImmediate f v w
  cases f with
  | r =>
    rw [Format.Range] at hv
    rw [immediateGenerator_r (hop.trans (formatOf_r hf)), hv]
    rfl
  | i =>
    rw [Format.Range] at hv
    have himm : (Format.i.withImmediate v w).extractLsb 31 20 = BitVec.ofInt 12 v := iType_imm ..
    have hi : (BitVec.ofInt 12 v).toInt = v := BitVec.toInt_ofInt_eq_self (by decide) (by omega) (by omega)
    rw [immediateGenerator_i (hop ▸ formatOf_i hf), himm, hi]
  | s =>
    rw [Format.Range] at hv
    have himm : funct7Of (Format.s.withImmediate v w) ++ rdOf (Format.s.withImmediate v w) = BitVec.ofInt 12 v :=
      sType_imm ..
    have hi : (BitVec.ofInt 12 v).toInt = v := BitVec.toInt_ofInt_eq_self (by decide) (by omega) (by omega)
    rw [immediateGenerator_s (hop.trans (formatOf_s hf)), himm, hi]
  | b =>
    rw [Format.Range] at hv
    have himm : branchOffset (Format.b.withImmediate v w) = BitVec.ofInt 12 (v / 2) := bType_offset ..
    have hi : (BitVec.ofInt 12 (v / 2)).toInt = v / 2 :=
      BitVec.toInt_ofInt_eq_self (by decide) (by omega) (by omega)
    rw [immediateGenerator_b (hop.trans (formatOf_b hf)), himm, hi,
      Int.mul_ediv_cancel' (Int.dvd_of_emod_eq_zero hv.2.2)]
  | u =>
    rw [Format.Range] at hv
    have himm : (Format.u.withImmediate v w).extractLsb 31 12 = BitVec.ofInt 20 (v / 2 ^ 12) := uType_upper ..
    rw [immediateGenerator_u (hop ▸ formatOf_u hf), himm]
    apply BitVec.eq_of_toNat_eq
    rw [wrap, wrap, BitVec.toNat_ofInt, BitVec.toNat_ofInt, BitVec.toNat_ofInt]
    omega
  | j =>
    rw [Format.Range] at hv
    have himm : jumpOffset (Format.j.withImmediate v w) = BitVec.ofInt 20 (v / 2) := jType_offset ..
    have hi : (BitVec.ofInt 20 (v / 2)).toInt = v / 2 :=
      BitVec.toInt_ofInt_eq_self (by decide) (by omega) (by omega)
    rw [immediateGenerator_j (hop.trans (formatOf_j hf)), himm, hi,
      Int.mul_ediv_cancel' (Int.dvd_of_emod_eq_zero hv.2.2)]

theorem toInt_wrap_field (x : BitVec 12) :
    (wrap x.toInt).toInt = x.toInt ∧ -2048 ≤ x.toInt ∧ x.toInt ≤ 2047 := by
  have h₁ := x.le_toInt
  have h₂ := x.toInt_lt
  exact ⟨toInt_wrap (by omega) (by omega), by omega, by omega⟩

theorem withImmediate_immediateGenerator {f : Format} {w : Word} (hf : formatOf (opcodeOf w) = some f) :
    f.Range (immediateGenerator w).toInt ∧ f.withImmediate (immediateGenerator w).toInt w = w := by
  cases f with
  | r =>
    rw [immediateGenerator_r (formatOf_r hf)]
    exact ⟨rfl, rfl⟩
  | i =>
    obtain ⟨hv, hrange⟩ := toInt_wrap_field (w.extractLsb 31 20)
    rw [immediateGenerator_i (formatOf_i hf), hv, Format.withImmediate, BitVec.ofInt_toInt]
    exact ⟨hrange, iType_self w⟩
  | s =>
    obtain ⟨hv, hrange⟩ := toInt_wrap_field (funct7Of w ++ rdOf w)
    rw [immediateGenerator_s (formatOf_s hf), hv, Format.withImmediate, BitVec.ofInt_toInt]
    exact ⟨hrange, sType_self w⟩
  | b =>
    have h₁ := (branchOffset w).le_toInt
    have h₂ := (branchOffset w).toInt_lt
    rw [immediateGenerator_b (formatOf_b hf), toInt_wrap (by omega) (by omega), Format.withImmediate,
      Int.mul_ediv_cancel_left _ (by decide), BitVec.ofInt_toInt]
    refine ⟨?_, bType_self w⟩
    rw [Format.Range]
    omega
  | u =>
    have hv : ∀ x : BitVec 20, (wrap (x.toNat * 2 ^ 12)).toInt % 4096 = 0 ∧
        BitVec.ofInt 20 ((wrap (x.toNat * 2 ^ 12)).toInt / 2 ^ 12) = x := fun x => by
      have hx : (wrap (x.toNat * 2 ^ 12)).toNat = x.toNat * 2 ^ 12 := by
        rw [wrap, BitVec.toNat_ofInt]
        omega
      have hi := BitVec.toInt_eq_toNat_cond (wrap (x.toNat * 2 ^ 12))
      rw [hx] at hi
      refine ⟨?_, ?_⟩
      · rw [hi]
        split <;> omega
      · apply BitVec.eq_of_toNat_eq
        rw [BitVec.toNat_ofInt, hi]
        split <;> omega
    obtain ⟨hrange, hfield⟩ := hv (w.extractLsb 31 12)
    rw [immediateGenerator_u (formatOf_u hf), Format.withImmediate, hfield]
    exact ⟨hrange, uType_self w⟩
  | j =>
    have h₁ := (jumpOffset w).le_toInt
    have h₂ := (jumpOffset w).toInt_lt
    rw [immediateGenerator_j (formatOf_j hf), toInt_wrap (by omega) (by omega), Format.withImmediate,
      Int.mul_ediv_cancel_left _ (by decide), BitVec.ofInt_toInt]
    refine ⟨?_, jType_self w⟩
    rw [Format.Range]
    omega

/-- **Immediate decoding inverts immediate encoding**, for every format: of the
values in range, on the words of the format, and without two words of different
immediate bits having the same immediate. -/
theorem immediateGenerator_inverts (f : Format) :
    (∀ (w : Word) (v : Int), formatOf (opcodeOf w) = some f → f.Range v →
      immediateGenerator (f.withImmediate v w) = wrap v) ∧
    (∀ w : Word, formatOf (opcodeOf w) = some f →
      f.Range (immediateGenerator w).toInt ∧ f.withImmediate (immediateGenerator w).toInt w = w) ∧
    ∀ w w' : Word, formatOf (opcodeOf w) = some f → formatOf (opcodeOf w') = some f →
      immediateGenerator w = immediateGenerator w' → w &&& f.mask = w' &&& f.mask := by
  refine ⟨fun w v hf hv => immediateGenerator_withImmediate hf hv,
    fun w hf => withImmediate_immediateGenerator hf, fun w w' hf hf' he => ?_⟩
  have hw := (withImmediate_immediateGenerator hf).2
  have hw' := (withImmediate_immediateGenerator hf').2
  rw [← hw, ← hw', he]
  exact f.withImmediate_mask _ _ _

end RiscV
