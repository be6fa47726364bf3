import RiscV.Rv32iFields

/-!
# What a word is executed as

The decoders look at the opcode, at `funct3` where the ALU or the branch
comparator does, and at bit 30 where the ALU does. `executedAs` collects what
they make of a word: a documented instruction, or nothing. On encoded
instructions it inverts the encoding.
-/

namespace RiscV

open Rv32i

def regOpOf (funct3 : BitVec 3) (alt : Bool) : RegOp :=
  match funct3 with
  | 0b000#3 => if alt then .sub else .add
  | 0b001#3 => .sll
  | 0b010#3 => .slt
  | 0b011#3 => .sltu
  | 0b100#3 => .xor
  | 0b101#3 => if alt then .sra else .srl
  | 0b110#3 => .or
  | _ => .and

def immOpOf (funct3 : BitVec 3) : ImmOp :=
  match funct3 with
  | 0b000#3 => .addi
  | 0b010#3 => .slti
  | 0b011#3 => .sltiu
  | 0b100#3 => .xori
  | 0b110#3 => .ori
  | _ => .andi

def branchOpOf (funct3 : BitVec 3) : Option BranchOp :=
  match funct3 with
  | 0b000#3 => some .beq
  | 0b001#3 => some .bne
  | 0b100#3 => some .blt
  | 0b101#3 => some .bge
  | 0b110#3 => some .bltu
  | 0b111#3 => some .bgeu
  | _ => none

def executedAs (w : Word) : Option Instr :=
  let rd := rdOf w
  let rs1 := rs1Of w
  let rs2 := rs2Of w
  let alt := (funct7Of w).getLsbD 5
  match opcodeOf w with
  | 0b0110011#7 => some (.reg (regOpOf (funct3Of w) alt) rd rs1 rs2)
  | 0b0010011#7 =>
    -- bits 24:20 are the shift amount of an immediate shift
    if funct3Of w = 0b001#3 then some (.shift .slli rd rs1 rs2)
    else if funct3Of w = 0b101#3 then some (.shift (if alt then .srai else .srli) rd rs1 rs2)
    else some (.imm (immOpOf (funct3Of w)) rd rs1 (w.extractLsb 31 20))
  | 0b0000011#7 => some (.lw rd rs1 (w.extractLsb 31 20))
  | 0b0100011#7 => some (.sw rs1 rs2 (funct7Of w ++ rdOf w))
  | 0b1100011#7 => (branchOpOf (funct3Of w)).map fun op => .branch op rs1 rs2 (branchOffset w)
  | 0b1101111#7 => some (.jal rd (jumpOffset w))
  | 0b1100111#7 => some (.jalr rd rs1 (w.extractLsb 31 20))
  | 0b0110111#7 => some (.lui rd (w.extractLsb 31 12))
  | 0b0010111#7 => some (.auipc rd (w.extractLsb 31 12))
  | 0b0001111#7 => if funct3Of w = 0b000#3 then some (.fence (w.extractLsb 31 20) rs1 rd) else none
  | _ => none

/-- `mul x1, x2, x3` is executed as `add`, `lb x1, 0(x2)` as `lw`, a branch with
`funct3` 010 as nothing. -/
example : executedAs 0x023100B3#32 = some (.reg .add 1#5 2#5 3#5) ∧
    executedAs 0x00010083#32 = some (.lw 1#5 2#5 0#12) ∧ executedAs 0x0020A063#32 = none := by
  decide

/-! ## Encoded instructions -/

theorem executedAs_encode (i : Instr) : executedAs (encode i) = some i := by
  cases i with
  | reg op rd rs1 rs2 =>
    simp only [encode, executedAs, opcodeOf_word, funct3Of_word, funct7Of_word, rdOf_word, rs1Of_word, rs2Of_word]
    cases op <;> rfl
  | imm op rd rs1 imm =>
    simp only [encode, executedAs, iType_imm]
    simp only [iType, opcodeOf_word, funct3Of_word, rdOf_word, rs1Of_word]
    cases op <;> rfl
  | shift op rd rs1 shamt =>
    simp only [encode, executedAs, opcodeOf_word, funct3Of_word, funct7Of_word, rdOf_word, rs1Of_word, rs2Of_word]
    cases op <;> rfl
  | lw rd rs1 imm =>
    simp only [encode, executedAs, iType_imm]
    simp only [iType, opcodeOf_word, rdOf_word, rs1Of_word]
  | sw rs1 rs2 imm =>
    simp only [encode, executedAs, sType_imm]
    simp only [sType, opcodeOf_word, rs1Of_word, rs2Of_word]
  | branch op rs1 rs2 offset =>
    simp only [encode, executedAs, bType_offset]
    simp only [bType, opcodeOf_word, funct3Of_word, rs1Of_word, rs2Of_word]
    cases op <;> rfl
  | jal rd offset =>
    simp only [encode, executedAs, jType_offset]
    simp only [jType, uType, opcodeOf_word, rdOf_word]
  | jalr rd rs1 imm =>
    simp only [encode, executedAs, iType_imm]
    simp only [iType, opcodeOf_word, rdOf_word, rs1Of_word]
  | lui rd imm =>
    simp only [encode, executedAs, uType_upper]
    simp only [uType, opcodeOf_word, rdOf_word]
  | auipc rd imm =>
    simp only [encode, executedAs, uType_upper]
    simp only [uType, opcodeOf_word, rdOf_word]
  | fence fields rs1 rd =>
    simp only [encode, executedAs, iType_imm]
    simp only [iType, opcodeOf_word, funct3Of_word, rdOf_word, rs1Of_word]
    rfl

def DocumentedWord (w : Word) : Prop := ∃ i, encode i = w

theorem documented_iff {w : Word} : DocumentedWord w ↔ (executedAs w).map encode = some w := by
  constructor
  · rintro ⟨i, rfl⟩
    rw [executedAs_encode, Option.map_some]
  · intro h
    obtain ⟨i, -, hi⟩ := Option.map_eq_some_iff.mp h
    exact ⟨i, hi⟩

instance : DecidablePred DocumentedWord := fun _ => decidable_of_iff _ documented_iff.symm

/-! ## Other words

With these opcodes some of the bits that tell instructions apart are ignored. -/

def looseOpcodes : List (BitVec 7) := [0b0110011#7, 0b0010011#7, 0b0000011#7, 0b0100011#7, 0b1100111#7]

section
variable {w : Word}

theorem executedAs_isSome (h : opcodeOf w ∈ looseOpcodes) : executedAs w ≠ none := by
  simp only [looseOpcodes, List.mem_cons, List.not_mem_nil, or_false] at h
  unfold executedAs
  rcases h with h | h | h | h | h <;> simp only [h]
  · simp
  · split
    · simp
    · split <;> simp
  all_goals simp

theorem branchOpOf_funct3 {funct3 : BitVec 3} {op : BranchOp} (h : branchOpOf funct3 = some op) : op.funct3 = funct3 := by
  revert funct3 op
  decide

/-- With any other opcode, a word that is executed is the encoding of what it is
executed as. -/
theorem encode_executedAs {i : Instr} (h : executedAs w = some i) (hop : opcodeOf w ∉ looseOpcodes) : encode i = w := by
  unfold executedAs at h
  split at h
  next ho => exact absurd (by rw [ho]; decide) hop
  next ho => exact absurd (by rw [ho]; decide) hop
  next ho => exact absurd (by rw [ho]; decide) hop
  next ho => exact absurd (by rw [ho]; decide) hop
  next ho =>
    obtain ⟨op, hb, rfl⟩ := Option.map_eq_some_iff.mp h
    rw [encode, branchOpOf_funct3 hb, ← ho]
    exact bType_self w
  next ho =>
    cases h
    rw [encode, ← ho]
    exact jType_self w
  next ho => exact absurd (by rw [ho]; decide) hop
  next ho =>
    cases h
    rw [encode, ← ho]
    exact uType_self w
  next ho =>
    cases h
    rw [encode, ← ho]
    exact uType_self w
  next ho =>
    split at h
    next h3 =>
      cases h
      rw [encode, ← ho, ← h3]
      exact iType_self w
    next h3 => cases h
  next ho => cases h

theorem executedAs_fields {i : Instr} (h : executedAs w = some i) :
    opcodeOf (encode i) = opcodeOf w ∧ rdOf (encode i) = rdOf w ∧ rs1Of (encode i) = rs1Of w ∧
      rs2Of (encode i) = rs2Of w := by
  by_cases hop : opcodeOf w ∈ looseOpcodes
  · have hword : ∀ {funct7 rs2 rs1 funct3 rd opcode}, encode i = word funct7 rs2 rs1 funct3 rd opcode →
        opcodeOf w = opcode → rdOf w = rd → rs1Of w = rs1 → rs2Of w = rs2 →
        opcodeOf (encode i) = opcodeOf w ∧ rdOf (encode i) = rdOf w ∧ rs1Of (encode i) = rs1Of w ∧
          rs2Of (encode i) = rs2Of w := by
      intro funct7 rs2 rs1 funct3 rd opcode he ho hd h1 h2
      rw [he, ho, hd, h1, h2]
      exact ⟨opcodeOf_word .., rdOf_word .., rs1Of_word .., rs2Of_word ..⟩
    simp only [looseOpcodes, List.mem_cons, List.not_mem_nil, or_false] at hop
    unfold executedAs at h
    rcases hop with ho | ho | ho | ho | ho <;> simp only [ho] at h
    · cases h
      exact hword rfl ho rfl rfl rfl
    · split at h
      · cases h
        exact hword rfl ho rfl rfl rfl
      · split at h
        · cases h
          exact hword rfl ho rfl rfl rfl
        · cases h
          exact hword rfl ho rfl rfl (upper_slices w).2.symm
    · cases h
      exact hword rfl ho rfl rfl (upper_slices w).2.symm
    · cases h
      exact hword rfl ho (append_slices ..).2.symm rfl rfl
    · cases h
      exact hword rfl ho rfl rfl (upper_slices w).2.symm
  · rw [encode_executedAs h hop]
    exact ⟨rfl, rfl, rfl, rfl⟩

/-- An undocumented word is executed as nothing, unless its opcode is loose. -/
theorem executedAs_eq_none_iff (h : ¬ DocumentedWord w) : executedAs w = none ↔ opcodeOf w ∉ looseOpcodes := by
  constructor
  · intro hn hop
    exact executedAs_isSome hop hn
  · intro hop
    cases hi : executedAs w with
    | none => rfl
    | some i => exact absurd ⟨i, encode_executedAs hi hop⟩ h

end

end RiscV
