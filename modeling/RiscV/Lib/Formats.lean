import RiscV.Lib.Rv32i

/-!
# Instruction formats

Where each format keeps its immediate. Every word is the encoding of its own
fields, so an immediate can be replaced in a word and read back from it.
-/

namespace Rv32i

inductive Format where
  | r | i | s | b | u | j
  deriving DecidableEq, Repr

namespace Format

def hasRs1 : Format → Bool
  | r | i | s | b => true
  | u | j => false

def hasRs2 : Format → Bool
  | r | s | b => true
  | i | u | j => false

/-- The values an immediate can take. Upper immediates are meant modulo `2 ^ 32`;
R-type has no immediate. -/
def Range : Format → Int → Prop
  | r, v => v = 0
  | i, v => -2048 ≤ v ∧ v ≤ 2047
  | s, v => -2048 ≤ v ∧ v ≤ 2047
  | b, v => -4096 ≤ v ∧ v ≤ 4094 ∧ v % 2 = 0
  | u, v => v % 4096 = 0
  | j, v => -1048576 ≤ v ∧ v ≤ 1048574 ∧ v % 2 = 0

def mask : Format → BitVec 32
  | r => 0x00000000#32
  | i => 0xFFF00000#32
  | s => 0xFE000F80#32
  | b => 0xFE000F80#32
  | u => 0xFFFFF000#32
  | j => 0xFFFFF000#32

/-- The word `w` with the immediate `v` in place of its own. -/
def withImmediate (f : Format) (v : Int) (w : BitVec 32) : BitVec 32 :=
  let rs2 := w.extractLsb 24 20
  let rs1 := w.extractLsb 19 15
  let funct3 := w.extractLsb 14 12
  let rd := w.extractLsb 11 7
  let opcode := w.extractLsb 6 0
  match f with
  | r => w
  | i => iType (BitVec.ofInt 12 v) rs1 funct3 rd opcode
  | s => sType (BitVec.ofInt 12 v) rs2 rs1 funct3 opcode
  | b => bType (BitVec.ofInt 12 (v / 2)) rs2 rs1 funct3 opcode
  | u => uType (BitVec.ofInt 20 (v / 2 ^ 12)) rd opcode
  | j => jType (BitVec.ofInt 20 (v / 2)) rd opcode

end Format

/-- `addi x1, x2, 0` with the immediate -1, `beq x1, x2, 0` with the offset -4. -/
example : Format.i.withImmediate (-1) 0x00010093#32 = 0xFFF10093#32 ∧
    Format.b.withImmediate (-4) 0x00208063#32 = 0xFE208EE3#32 := by
  decide

/-! ## A word is the encoding of its fields -/

theorem append_slices (high : BitVec 7) (low : BitVec 5) :
    (high ++ low).extractLsb 11 5 = high ∧ (high ++ low).extractLsb 4 0 = low := by
  constructor
  · apply BitVec.eq_of_toNat_eq
    rw [toNat_extractLsb, toNat_append]
    omega
  · apply BitVec.eq_of_toNat_eq
    rw [toNat_extractLsb, toNat_append]
    omega

theorem upper_slices (w : BitVec 32) :
    (w.extractLsb 31 20).extractLsb 11 5 = w.extractLsb 31 25 ∧
      (w.extractLsb 31 20).extractLsb 4 0 = w.extractLsb 24 20 := by
  constructor
  · apply BitVec.eq_of_toNat_eq
    simp only [toNat_extractLsb]
    omega
  · apply BitVec.eq_of_toNat_eq
    simp only [toNat_extractLsb]
    omega

theorem branch_slices (sign bit11 : Bool) (high : BitVec 6) (low : BitVec 4) :
    let p := BitVec.ofBool sign ++ (BitVec.ofBool bit11 ++ (high ++ low))
    p.getLsbD 11 = sign ∧ p.getLsbD 10 = bit11 ∧ p.extractLsb 9 4 = high ∧ p.extractLsb 3 0 = low := by
  intro p
  have hp : p.toNat = sign.toNat * 2 ^ 11 + (bit11.toNat * 2 ^ 10 + (high.toNat * 2 ^ 4 + low.toNat)) := by
    simp only [p, toNat_append, BitVec.toNat_ofBool]
  have hsign := Bool.toNat_le sign
  have hbit := Bool.toNat_le bit11
  refine ⟨?_, ?_, ?_, ?_⟩
  · rw [getLsbD_eq_decide, hp]
    cases sign <;> simp <;> omega
  · rw [getLsbD_eq_decide, hp]
    cases bit11 <;> simp <;> omega
  · apply BitVec.eq_of_toNat_eq
    rw [toNat_extractLsb, hp]
    omega
  · apply BitVec.eq_of_toNat_eq
    rw [toNat_extractLsb, hp]
    omega

theorem jump_slices (sign bit11 : Bool) (high : BitVec 8) (low : BitVec 10) :
    let p := BitVec.ofBool sign ++ (high ++ (BitVec.ofBool bit11 ++ low))
    p.getLsbD 19 = sign ∧ p.extractLsb 18 11 = high ∧ p.getLsbD 10 = bit11 ∧ p.extractLsb 9 0 = low := by
  intro p
  have hp : p.toNat = sign.toNat * 2 ^ 19 + (high.toNat * 2 ^ 11 + (bit11.toNat * 2 ^ 10 + low.toNat)) := by
    simp only [p, toNat_append, BitVec.toNat_ofBool]
  have hsign := Bool.toNat_le sign
  have hbit := Bool.toNat_le bit11
  refine ⟨?_, ?_, ?_, ?_⟩
  · rw [getLsbD_eq_decide, hp]
    cases sign <;> simp <;> omega
  · apply BitVec.eq_of_toNat_eq
    rw [toNat_extractLsb, hp]
    omega
  · rw [getLsbD_eq_decide, hp]
    cases bit11 <;> simp <;> omega
  · apply BitVec.eq_of_toNat_eq
    rw [toNat_extractLsb, hp]
    omega

section
variable (w : BitVec 32)

/-- `imm[12|11|10:5|4:1]` of a branch. -/
def branchOffset : BitVec 12 :=
  BitVec.ofBool (w.getLsbD 31) ++ (BitVec.ofBool (w.getLsbD 7) ++ (w.extractLsb 30 25 ++ w.extractLsb 11 8))

/-- `imm[20|19:12|11|10:1]` of a jump. -/
def jumpOffset : BitVec 20 :=
  BitVec.ofBool (w.getLsbD 31) ++ (w.extractLsb 19 12 ++ (BitVec.ofBool (w.getLsbD 20) ++ w.extractLsb 30 21))

theorem word_self :
    word (w.extractLsb 31 25) (w.extractLsb 24 20) (w.extractLsb 19 15) (w.extractLsb 14 12) (w.extractLsb 11 7)
      (w.extractLsb 6 0) = w := by
  apply BitVec.eq_of_toNat_eq
  rw [word_toNat]
  simp only [toNat_extractLsb]
  omega

theorem iType_self :
    iType (w.extractLsb 31 20) (w.extractLsb 19 15) (w.extractLsb 14 12) (w.extractLsb 11 7) (w.extractLsb 6 0) = w := by
  obtain ⟨hhigh, hlow⟩ := upper_slices w
  rw [iType, hhigh, hlow, word_self]

theorem sType_self :
    sType (w.extractLsb 31 25 ++ w.extractLsb 11 7) (w.extractLsb 24 20) (w.extractLsb 19 15) (w.extractLsb 14 12)
      (w.extractLsb 6 0) = w := by
  obtain ⟨hhigh, hlow⟩ := append_slices (w.extractLsb 31 25) (w.extractLsb 11 7)
  rw [sType, hhigh, hlow, word_self]

theorem bType_self :
    bType (branchOffset w) (w.extractLsb 24 20) (w.extractLsb 19 15) (w.extractLsb 14 12) (w.extractLsb 6 0) = w := by
  obtain ⟨hsign, hbit, hhigh, hlow⟩ :=
    branch_slices (w.getLsbD 31) (w.getLsbD 7) (w.extractLsb 30 25) (w.extractLsb 11 8)
  have hfunct7 : BitVec.ofBool (w.getLsbD 31) ++ w.extractLsb 30 25 = w.extractLsb 31 25 := by
    apply BitVec.eq_of_toNat_eq
    simp only [toNat_append, toNat_extractLsb, toNat_ofBool_getLsbD]
    omega
  have hrd : w.extractLsb 11 8 ++ BitVec.ofBool (w.getLsbD 7) = w.extractLsb 11 7 := by
    apply BitVec.eq_of_toNat_eq
    simp only [toNat_append, toNat_extractLsb, toNat_ofBool_getLsbD]
    omega
  rw [bType, ← BitVec.getLsbD_eq_getElem, ← BitVec.getLsbD_eq_getElem, branchOffset, hsign, hbit, hhigh, hlow, hfunct7,
    hrd, word_self]

theorem uType_self : uType (w.extractLsb 31 12) (w.extractLsb 11 7) (w.extractLsb 6 0) = w := by
  apply BitVec.eq_of_toNat_eq
  rw [uType, word_toNat]
  simp only [toNat_extractLsb]
  omega

theorem jType_self : jType (jumpOffset w) (w.extractLsb 11 7) (w.extractLsb 6 0) = w := by
  obtain ⟨hsign, hhigh, hbit, hlow⟩ :=
    jump_slices (w.getLsbD 31) (w.getLsbD 20) (w.extractLsb 19 12) (w.extractLsb 30 21)
  have hupper : BitVec.ofBool (w.getLsbD 31) ++
      (w.extractLsb 30 21 ++ (BitVec.ofBool (w.getLsbD 20) ++ w.extractLsb 19 12)) = w.extractLsb 31 12 := by
    apply BitVec.eq_of_toNat_eq
    simp only [toNat_append, toNat_extractLsb, toNat_ofBool_getLsbD]
    omega
  rw [jType, ← BitVec.getLsbD_eq_getElem, ← BitVec.getLsbD_eq_getElem, jumpOffset, hsign, hbit, hhigh, hlow, hupper,
    uType_self]

end

/-! ## The immediate bits -/

theorem word_and (funct7 funct7' : BitVec 7) (rs2 rs2' rs1 rs1' : BitVec 5) (funct3 funct3' : BitVec 3)
    (rd rd' : BitVec 5) (opcode opcode' : BitVec 7) :
    word funct7 rs2 rs1 funct3 rd opcode &&& word funct7' rs2' rs1' funct3' rd' opcode' =
      word (funct7 &&& funct7') (rs2 &&& rs2') (rs1 &&& rs1') (funct3 &&& funct3') (rd &&& rd') (opcode &&& opcode') := by
  have h₁ : (rd ++ opcode) &&& (rd' ++ opcode') = (rd &&& rd') ++ (opcode &&& opcode') := BitVec.and_append
  have h₂ : (funct3 ++ (rd ++ opcode)) &&& (funct3' ++ (rd' ++ opcode')) =
      (funct3 &&& funct3') ++ ((rd &&& rd') ++ (opcode &&& opcode')) := by rw [BitVec.and_append, h₁]
  have h₃ : (rs1 ++ (funct3 ++ (rd ++ opcode))) &&& (rs1' ++ (funct3' ++ (rd' ++ opcode'))) =
      (rs1 &&& rs1') ++ ((funct3 &&& funct3') ++ ((rd &&& rd') ++ (opcode &&& opcode'))) := by
    rw [BitVec.and_append, h₂]
  have h₄ : (rs2 ++ (rs1 ++ (funct3 ++ (rd ++ opcode)))) &&& (rs2' ++ (rs1' ++ (funct3' ++ (rd' ++ opcode')))) =
      (rs2 &&& rs2') ++ ((rs1 &&& rs1') ++ ((funct3 &&& funct3') ++ ((rd &&& rd') ++ (opcode &&& opcode')))) := by
    rw [BitVec.and_append, h₃]
  exact BitVec.and_append.trans (congrArg _ h₄)

theorem Format.withImmediate_mask (f : Format) (v : Int) (w w' : BitVec 32) :
    f.withImmediate v w &&& f.mask = f.withImmediate v w' &&& f.mask := by
  have hi : 0xFFF00000#32 = word 0x7F#7 0x1F#5 0#5 0#3 0#5 0#7 := by decide
  have hs : 0xFE000F80#32 = word 0x7F#7 0#5 0#5 0#3 0x1F#5 0#7 := by decide
  have hu : 0xFFFFF000#32 = word 0x7F#7 0x1F#5 0x1F#5 0x7#3 0#5 0#7 := by decide
  cases f with
  | r => simp only [mask, BitVec.and_zero]
  | i => simp only [mask, withImmediate, iType, hi, word_and, BitVec.and_zero]
  | s => simp only [mask, withImmediate, sType, hs, word_and, BitVec.and_zero]
  | b => simp only [mask, withImmediate, bType, hs, word_and, BitVec.and_zero]
  | u => simp only [mask, withImmediate, uType, hu, word_and, BitVec.and_zero]
  | j => simp only [mask, withImmediate, jType, uType, hu, word_and, BitVec.and_zero]

end Rv32i
