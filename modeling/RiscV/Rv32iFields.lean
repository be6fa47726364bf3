import RiscV.Datapath
import RiscV.Lib.Formats

/-!
# Fields and immediates of encoded instructions

The decoders cut the instruction word at fixed places. For every format the
pieces of an encoded word come back as the operands, and on every word the
immediate generator puts the immediate together with its sign.
-/

namespace RiscV

open Rv32i

/-! ## Fixed fields -/

section
variable (funct7 : BitVec 7) (rs2 rs1 : RegIdx) (funct3 : BitVec 3) (rd : RegIdx) (opcode : BitVec 7)

theorem opcodeOf_word : opcodeOf (word funct7 rs2 rs1 funct3 rd opcode) = opcode := by
  apply BitVec.eq_of_toNat_eq
  rw [opcodeOf, toNat_extractLsb, word_toNat]
  omega

theorem rdOf_word : rdOf (word funct7 rs2 rs1 funct3 rd opcode) = rd := by
  apply BitVec.eq_of_toNat_eq
  rw [rdOf, toNat_extractLsb, word_toNat]
  omega

theorem funct3Of_word : funct3Of (word funct7 rs2 rs1 funct3 rd opcode) = funct3 := by
  apply BitVec.eq_of_toNat_eq
  rw [funct3Of, toNat_extractLsb, word_toNat]
  omega

theorem rs1Of_word : rs1Of (word funct7 rs2 rs1 funct3 rd opcode) = rs1 := by
  apply BitVec.eq_of_toNat_eq
  rw [rs1Of, toNat_extractLsb, word_toNat]
  omega

theorem rs2Of_word : rs2Of (word funct7 rs2 rs1 funct3 rd opcode) = rs2 := by
  apply BitVec.eq_of_toNat_eq
  rw [rs2Of, toNat_extractLsb, word_toNat]
  omega

theorem funct7Of_word : funct7Of (word funct7 rs2 rs1 funct3 rd opcode) = funct7 := by
  apply BitVec.eq_of_toNat_eq
  rw [funct7Of, toNat_extractLsb, word_toNat]
  omega

theorem word_extract_31_20 : (word funct7 rs2 rs1 funct3 rd opcode).extractLsb 31 20 = funct7 ++ rs2 := by
  apply BitVec.eq_of_toNat_eq
  rw [toNat_extractLsb, word_toNat, toNat_append]
  omega

theorem word_extract_31_12 :
    (word funct7 rs2 rs1 funct3 rd opcode).extractLsb 31 12 = funct7 ++ (rs2 ++ (rs1 ++ funct3)) := by
  apply BitVec.eq_of_toNat_eq
  rw [toNat_extractLsb, word_toNat]
  simp only [toNat_append]
  omega

end

/-! ## Slices of the fields -/

section
variable (w : Word)

theorem sign_eq : w.getLsbD 31 = (funct7Of w).getLsbD 6 := by
  rw [getLsbD_eq_decide, getLsbD_eq_decide, funct7Of, toNat_extractLsb, decide_eq_decide]
  omega

theorem extract_30_25 : w.extractLsb 30 25 = (funct7Of w).extractLsb 5 0 := by
  apply BitVec.eq_of_toNat_eq
  rw [toNat_extractLsb, toNat_extractLsb, funct7Of, toNat_extractLsb]
  omega

theorem bit_7 : w.getLsbD 7 = (rdOf w).getLsbD 0 := by
  rw [getLsbD_eq_decide, getLsbD_eq_decide, rdOf, toNat_extractLsb, decide_eq_decide]
  omega

theorem extract_11_8 : w.extractLsb 11 8 = (rdOf w).extractLsb 4 1 := by
  apply BitVec.eq_of_toNat_eq
  rw [toNat_extractLsb, toNat_extractLsb, rdOf, toNat_extractLsb]
  omega

theorem sign_eq_upper : w.getLsbD 31 = (w.extractLsb 31 12).getLsbD 19 := by
  rw [getLsbD_eq_decide, getLsbD_eq_decide, toNat_extractLsb, decide_eq_decide]
  omega

theorem bit_20 : w.getLsbD 20 = (w.extractLsb 31 12).getLsbD 8 := by
  rw [getLsbD_eq_decide, getLsbD_eq_decide, toNat_extractLsb, decide_eq_decide]
  omega

theorem extract_19_12 : w.extractLsb 19 12 = (w.extractLsb 31 12).extractLsb 7 0 := by
  apply BitVec.eq_of_toNat_eq
  simp only [toNat_extractLsb]
  omega

theorem extract_30_21 : w.extractLsb 30 21 = (w.extractLsb 31 12).extractLsb 18 9 := by
  apply BitVec.eq_of_toNat_eq
  simp only [toNat_extractLsb]
  omega

end

/-! ## Scrambled immediates

The pieces of a branch and of a jump offset, as they are spread over the word. -/

theorem branch_pieces (sign bit11 : Bool) (high : BitVec 6) (low : BitVec 4) :
    (BitVec.ofBool sign ++ high).getLsbD 6 = sign ∧ (BitVec.ofBool sign ++ high).extractLsb 5 0 = high ∧
      (low ++ BitVec.ofBool bit11).getLsbD 0 = bit11 ∧ (low ++ BitVec.ofBool bit11).extractLsb 4 1 = low := by
  have hsign := BitVec.toNat_ofBool sign
  have hbit := BitVec.toNat_ofBool bit11
  refine ⟨?_, ?_, ?_, ?_⟩
  · rw [getLsbD_eq_decide, toNat_append, hsign]
    cases sign <;> simp <;> omega
  · apply BitVec.eq_of_toNat_eq
    rw [toNat_extractLsb, toNat_append]
    omega
  · rw [getLsbD_eq_decide, toNat_append, hbit]
    cases bit11 <;> simp
  · apply BitVec.eq_of_toNat_eq
    rw [toNat_extractLsb, toNat_append, hbit]
    cases bit11 <;> simp <;> omega

theorem jump_pieces (sign bit11 : Bool) (low : BitVec 10) (high : BitVec 8) :
    let p := BitVec.ofBool sign ++ (low ++ (BitVec.ofBool bit11 ++ high))
    p.getLsbD 19 = sign ∧ p.extractLsb 18 9 = low ∧ p.getLsbD 8 = bit11 ∧ p.extractLsb 7 0 = high := by
  intro p
  have hp : p.toNat = sign.toNat * 2 ^ 19 + (low.toNat * 2 ^ 9 + (bit11.toNat * 2 ^ 8 + high.toNat)) := by
    simp only [p, toNat_append, BitVec.toNat_ofBool]
  have hsign := Bool.toNat_le sign
  have hbit := Bool.toNat_le bit11
  refine ⟨?_, ?_, ?_, ?_⟩
  · rw [getLsbD_eq_decide, hp]
    cases sign <;> simp <;> omega
  · apply BitVec.eq_of_toNat_eq
    rw [toNat_extractLsb, hp]
    omega
  · rw [getLsbD_eq_decide, hp]
    cases bit11 <;> simp <;> omega
  · apply BitVec.eq_of_toNat_eq
    rw [toNat_extractLsb, hp]
    omega

theorem branch_join (offset : BitVec 12) :
    BitVec.ofBool (offset.getLsbD 11) ++
        (BitVec.ofBool (offset.getLsbD 10) ++ (offset.extractLsb 9 4 ++ offset.extractLsb 3 0)) = offset := by
  apply BitVec.eq_of_toNat_eq
  simp only [toNat_append, toNat_extractLsb, toNat_ofBool_getLsbD]
  omega

theorem jump_join (offset : BitVec 20) :
    BitVec.ofBool (offset.getLsbD 19) ++
        (offset.extractLsb 18 11 ++ (BitVec.ofBool (offset.getLsbD 10) ++ offset.extractLsb 9 0)) = offset := by
  apply BitVec.eq_of_toNat_eq
  simp only [toNat_append, toNat_extractLsb, toNat_ofBool_getLsbD]
  omega

/-! ## Immediates of encoded words -/

theorem imm_parts (imm : BitVec 12) : imm.extractLsb 11 5 ++ imm.extractLsb 4 0 = imm := by
  apply BitVec.eq_of_toNat_eq
  rw [toNat_append, toNat_extractLsb, toNat_extractLsb]
  omega

theorem iType_imm (imm : BitVec 12) (rs1 : RegIdx) (funct3 : BitVec 3) (rd : RegIdx) (opcode : BitVec 7) :
    (iType imm rs1 funct3 rd opcode).extractLsb 31 20 = imm :=
  (word_extract_31_20 ..).trans (imm_parts imm)

theorem sType_imm (imm : BitVec 12) (rs2 rs1 : RegIdx) (funct3 : BitVec 3) (opcode : BitVec 7) :
    funct7Of (sType imm rs2 rs1 funct3 opcode) ++ rdOf (sType imm rs2 rs1 funct3 opcode) = imm := by
  rw [sType, funct7Of_word, rdOf_word, imm_parts]

theorem bType_offset (offset : BitVec 12) (rs2 rs1 : RegIdx) (funct3 : BitVec 3) (opcode : BitVec 7) :
    branchOffset (bType offset rs2 rs1 funct3 opcode) = offset := by
  have hfunct7 : funct7Of (bType offset rs2 rs1 funct3 opcode) =
      BitVec.ofBool (offset.getLsbD 11) ++ offset.extractLsb 9 4 := funct7Of_word ..
  have hrd : rdOf (bType offset rs2 rs1 funct3 opcode) =
      offset.extractLsb 3 0 ++ BitVec.ofBool (offset.getLsbD 10) := rdOf_word ..
  obtain ⟨hsign, hhigh, hbit, hlow⟩ :=
    branch_pieces (offset.getLsbD 11) (offset.getLsbD 10) (offset.extractLsb 9 4) (offset.extractLsb 3 0)
  rw [branchOffset, sign_eq, bit_7, extract_30_25, extract_11_8, hfunct7, hrd, hsign, hhigh, hbit, hlow, branch_join]

theorem uType_upper (imm : BitVec 20) (rd : RegIdx) (opcode : BitVec 7) :
    (uType imm rd opcode).extractLsb 31 12 = imm := by
  refine (word_extract_31_12 ..).trans (BitVec.eq_of_toNat_eq ?_)
  simp only [toNat_append, toNat_extractLsb]
  omega

theorem jType_offset (offset : BitVec 20) (rd : RegIdx) (opcode : BitVec 7) :
    jumpOffset (jType offset rd opcode) = offset := by
  have hupper : (jType offset rd opcode).extractLsb 31 12 = BitVec.ofBool (offset.getLsbD 19) ++
      (offset.extractLsb 9 0 ++ (BitVec.ofBool (offset.getLsbD 10) ++ offset.extractLsb 18 11)) := uType_upper ..
  obtain ⟨hsign, hlow, hbit, hhigh⟩ :=
    jump_pieces (offset.getLsbD 19) (offset.getLsbD 10) (offset.extractLsb 9 0) (offset.extractLsb 18 11)
  rw [jumpOffset, sign_eq_upper, bit_20, extract_19_12, extract_30_21, hupper, hsign, hlow, hbit, hhigh, jump_join]

/-! ## Sign extension -/

theorem toInt_replicate_append {k m : Nat} (hk : 0 < k) (x : BitVec m) {s : Bool} (hs : s = x.msb) :
    (replicate k s ++ x).toInt = x.toInt := by
  subst hs
  have hk' : (k == 0) = false := beq_eq_false_iff_ne.mpr (Nat.pos_iff_ne_zero.mp hk)
  rw [BitVec.toInt_append, hk', replicate, BitVec.fill_toInt, BitVec.toInt_eq_msb_cond]
  cases x.msb <;> simp [hk]
  omega

theorem toInt_append_zero {n : Nat} (x : BitVec (n + 1)) : (x ++ 0#1).toInt = 2 * x.toInt := by
  rw [BitVec.toInt_append]
  simp

theorem msb_append_zero {n : Nat} (x : BitVec (n + 1)) : (x ++ 0#1).msb = x.msb := by
  simp [BitVec.msb_append]

/-! ## The immediate generator -/

section
variable {w : Word}

theorem immediateGenerator_r (h : opcodeOf w = 0b0110011#7) : immediateGenerator w = 0#32 := by
  simp only [immediateGenerator, h]
  rfl

theorem immediateGenerator_i
    (h : opcodeOf w = 0b0010011#7 ∨ opcodeOf w = 0b0000011#7 ∨ opcodeOf w = 0b1100111#7) :
    immediateGenerator w = wrap (w.extractLsb 31 20).toInt := by
  have hsign : w[31] = (w.extractLsb 31 20).msb := by
    rw [← BitVec.getLsbD_eq_getElem, getLsbD_eq_decide, BitVec.msb_eq_decide, toNat_extractLsb, decide_eq_decide]
    omega
  rw [← toInt_replicate_append (k := 20) (by decide) _ hsign, wrap_toInt]
  rcases h with h | h | h <;> simp only [immediateGenerator, h]

theorem immediateGenerator_s (h : opcodeOf w = 0b0100011#7) :
    immediateGenerator w = wrap (funct7Of w ++ rdOf w).toInt := by
  have hsign : w[31] = (funct7Of w ++ rdOf w).msb := by
    rw [← BitVec.getLsbD_eq_getElem, sign_eq, BitVec.msb_append]
    rfl
  rw [← toInt_replicate_append (k := 20) (by decide) _ hsign, wrap_toInt]
  simp only [immediateGenerator, h]
  rfl

theorem immediateGenerator_b (h : opcodeOf w = 0b1100011#7) :
    immediateGenerator w = wrap (2 * (branchOffset w).toInt) := by
  have hsign : w[31] = (branchOffset w ++ 0#1).msb := by
    rw [msb_append_zero, branchOffset, BitVec.msb_append]
    simp [BitVec.getLsbD_eq_getElem]
  have hjoin : BitVec.ofBool w[31] ++ (BitVec.ofBool w[7] ++ (w.extractLsb 30 25 ++ (w.extractLsb 11 8 ++ 0b0#1))) =
      branchOffset w ++ 0#1 := by
    apply BitVec.eq_of_toNat_eq
    simp only [branchOffset, toNat_append, BitVec.getLsbD_eq_getElem (by decide : 31 < 32),
      BitVec.getLsbD_eq_getElem (by decide : 7 < 32)]
    omega
  rw [← toInt_append_zero, ← toInt_replicate_append (k := 19) (by decide) _ hsign, wrap_toInt]
  simp only [immediateGenerator, h]
  exact congrArg _ hjoin

theorem immediateGenerator_u (h : opcodeOf w = 0b0110111#7 ∨ opcodeOf w = 0b0010111#7) :
    immediateGenerator w = wrap ((w.extractLsb 31 12).toNat * 2 ^ 12) := by
  have hnum : ((w.extractLsb 31 12 ++ 0#12).toNat : Int) = (w.extractLsb 31 12).toNat * 2 ^ 12 := by
    rw [toNat_append]
    simp
  rw [← hnum, wrap_toNat]
  rcases h with h | h <;> simp only [immediateGenerator, h]

theorem immediateGenerator_j (h : opcodeOf w = 0b1101111#7) :
    immediateGenerator w = wrap (2 * (jumpOffset w).toInt) := by
  have hsign : w[31] = (jumpOffset w ++ 0#1).msb := by
    rw [msb_append_zero, jumpOffset, BitVec.msb_append]
    simp [BitVec.getLsbD_eq_getElem]
  have hjoin : BitVec.ofBool w[31] ++ (w.extractLsb 19 12 ++ (BitVec.ofBool w[20] ++ (w.extractLsb 30 21 ++ 0b0#1))) =
      jumpOffset w ++ 0#1 := by
    apply BitVec.eq_of_toNat_eq
    simp only [jumpOffset, toNat_append, BitVec.getLsbD_eq_getElem (by decide : 31 < 32),
      BitVec.getLsbD_eq_getElem (by decide : 20 < 32)]
    omega
  rw [← toInt_append_zero, ← toInt_replicate_append (k := 11) (by decide) _ hsign, wrap_toInt]
  simp only [immediateGenerator, h]
  exact congrArg _ hjoin

end

end RiscV
