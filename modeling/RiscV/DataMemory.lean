import RiscV.Stages
import RiscV.Lib.WriteLog

/-!
# The data memory

Sequences of word accesses through `mem_stage`, one in each clock cycle, against
the memory of the documentation: 256 words, selected by `address[9:2]`. The code
selects the entry by the whole byte address instead, so a load finds the
documented word only where the two selections cannot be told apart.
-/

namespace RiscV

open WriteLog

inductive Access where
  | store (address writeData : Word)
  | load (address : Word)
  deriving DecidableEq, Repr

namespace Access

def memRead : Access → Bool
  | store .. => false
  | load _ => true

def memWrite : Access → Bool
  | store .. => true
  | load _ => false

def address : Access → Word
  | store address _ => address
  | load address => address

def writeData : Access → Word
  | store _ writeData => writeData
  | load _ => 0#32

def edge (memory : MemArray) (x : Access) : MemArray := memStageEdge memory x.memWrite x.address x.writeData

def readData (undef : Word → Word) (memory : MemArray) (x : Access) : Word :=
  memStage undef memory x.memRead x.address

def target (x : Access) : Bool × Word := (x.memWrite, x.address)

def relabel (g : Word → Word) : Access → Access
  | store address _ => store address (g address)
  | load address => load address

theorem target_relabel (g : Word → Word) (x : Access) : (x.relabel g).target = x.target := by
  cases x <;> rfl

def store? : Access → Option (Word × Word)
  | store address writeData => some (address, writeData)
  | load _ => none

end Access

def memoryAfter (dmem : MemArray) (h : List Access) : MemArray := h.foldl Access.edge dmem

def stores (h : List Access) : List (Word × Word) := h.filterMap Access.store?

/-! ## The documented memory -/

def wordIndex (address : Word) : BitVec 8 := address.extractLsb 9 2

def latestStore (h : List Access) (a : Word) : Option (Word × Word) := latestVia wordIndex (stores h) (wordIndex a)

def documentedWord (dmem : MemArray) (h : List Access) (a : Word) : Word :=
  match latestStore h a with
  | some w => w.2
  | none => dmem (wordIndex a).toFin

def Documented (undef : Word → Word) (dmem : MemArray) (h : List Access) : Prop :=
  ∀ p a s, h = p ++ .load a :: s →
    (Access.load a).readData undef (memoryAfter dmem p) = documentedWord dmem p a

/-- The word of `a` was last written at `a` itself, inside the array; or never,
and its number is `a`. -/
structure OwnEntry (p : List Access) (a : Word) : Prop where
  inRange : a.toNat < 256
  latest : ∀ b v, latestStore p a = some (b, v) → b = a
  initial : latestStore p a = none → a = 0#32

/-! ## What the array holds -/

theorem MemArray.get?_set (memory : MemArray) (a b v : Word) :
    (memory.set b v).get? a = if b = a ∧ a.toNat < 256 then some v else memory.get? a := by
  unfold MemArray.set
  by_cases hb : b.toNat < 256
  · rw [dif_pos hb]
    unfold MemArray.get?
    by_cases ha : a.toNat < 256
    · by_cases hab : b = a
      · subst hab
        simp [hb]
      · have hne : (⟨a.toNat, ha⟩ : Fin 256) ≠ ⟨b.toNat, hb⟩ := by
          intro he
          exact hab (BitVec.eq_of_toNat_eq (Fin.mk.inj he).symm)
        simp [ha, hab, Function.update_of_ne hne]
    · simp [ha]
  · rw [dif_neg hb, if_neg]
    rintro ⟨rfl, ha⟩
    exact hb ha

theorem stores_concat (h : List Access) (x : Access) : stores (h ++ [x]) = stores h ++ x.store?.toList := by
  unfold stores
  rw [List.filterMap_append]
  cases x <;> rfl

theorem memoryAfter_concat (dmem : MemArray) (h : List Access) (x : Access) :
    memoryAfter dmem (h ++ [x]) = Access.edge (memoryAfter dmem h) x :=
  List.foldl_append

theorem memoryAfter_get? (dmem : MemArray) (h : List Access) (a : Word) :
    (memoryAfter dmem h).get? a =
      if ha : a.toNat < 256 then some ((latest (stores h) a).getD (dmem ⟨a.toNat, ha⟩)) else none := by
  induction h using List.reverseRecOn with
  | nil => rfl
  | append_singleton h x ih =>
    rw [memoryAfter_concat, stores_concat]
    cases x with
    | load b =>
      rw [show (Access.load b).store?.toList = [] from rfl, List.append_nil, ← ih]
      rfl
    | store b v =>
      show ((memoryAfter dmem h).set b v).get? a = _
      rw [MemArray.get?_set, ih, show (Access.store b v).store?.toList = [(b, v)] from rfl, latest_concat]
      by_cases ha : a.toNat < 256 <;> by_cases hb : b = a <;> simp [ha, hb]

theorem load_readData (undef : Word → Word) (dmem : MemArray) (p : List Access) (a : Word) :
    (Access.load a).readData undef (memoryAfter dmem p) =
      if ha : a.toNat < 256 then (latest (stores p) a).getD (dmem ⟨a.toNat, ha⟩) else undef a := by
  show ((memoryAfter dmem p).get? a).getD (undef a) = _
  rw [memoryAfter_get?]
  by_cases ha : a.toNat < 256 <;> simp [ha]

/-! ## Accesses that differ in their data alone -/

theorem stores_map_fst (h : List Access) :
    (stores h).map Prod.fst = (h.map Access.target).filterMap fun t => if t.1 then some t.2 else none := by
  unfold stores
  rw [List.map_filterMap, List.filterMap_map]
  congr 1
  funext x
  cases x <;> rfl

theorem latestStore_target {h h' : List Access} (ht : h'.map Access.target = h.map Access.target) (a : Word) :
    (latestStore h' a).map Prod.fst = (latestStore h a).map Prod.fst := by
  unfold latestStore
  rw [latestVia_map_fst, latestVia_map_fst, stores_map_fst, stores_map_fst, ht]

theorem OwnEntry.congr {h h' : List Access} (ht : h'.map Access.target = h.map Access.target) {a : Word}
    (ho : OwnEntry h a) : OwnEntry h' a := by
  have hl := latestStore_target ht a
  refine ⟨ho.inRange, fun b v hb => ?_, fun hn => ho.initial ?_⟩
  · rw [hb] at hl
    obtain ⟨⟨b', v'⟩, hb', rfl⟩ := Option.map_eq_some_iff.mp hl.symm
    exact ho.latest _ _ hb'
  · rw [hn] at hl
    exact Option.map_eq_none_iff.mp hl.symm

theorem stores_relabel (g : Word → Word) (h : List Access) :
    stores (h.map (Access.relabel g)) = (stores h).map fun w => (w.1, g w.1) := by
  unfold stores
  rw [List.map_filterMap, List.filterMap_map]
  congr 1
  funext x
  cases x <;> rfl

theorem map_target_relabel (g : Word → Word) (h : List Access) :
    (h.map (Access.relabel g)).map Access.target = h.map Access.target := by
  rw [List.map_map]
  congr 1
  funext x
  exact x.target_relabel g

/-! ## When loads are as documented -/

theorem OwnEntry.load_documented {p : List Access} {a : Word} (ho : OwnEntry p a) (undef : Word → Word)
    (dmem : MemArray) : (Access.load a).readData undef (memoryAfter dmem p) = documentedWord dmem p a := by
  rw [load_readData, dif_pos ho.inRange, documentedWord]
  cases hl : latestStore p a with
  | some w =>
    obtain ⟨b, v⟩ := w
    have hb : b = a := ho.latest b v hl
    subst hb
    rw [latest_of_latestVia wordIndex hl]
    rfl
  | none =>
    have ha : a = 0#32 := ho.initial hl
    rw [latest_of_latestVia_none wordIndex hl]
    subst ha
    rfl

/-- All runs with the same accesses, whatever data they store and find. -/
def AlwaysDocumented (h : List Access) : Prop :=
  ∀ h' undef dmem, h'.map Access.target = h.map Access.target → Documented undef dmem h'

section
variable {h p s : List Access} {a : Word}

theorem AlwaysDocumented.inRange (hd : AlwaysDocumented h) (he : h = p ++ .load a :: s) : a.toNat < 256 := by
  by_contra ha
  let other : Word → Word := fun _ => documentedWord (fun _ => 0#32) p a + 1#32
  have hread := hd h other (fun _ => 0#32) rfl p a s he
  rw [load_readData, dif_neg ha] at hread
  simp [other] at hread

theorem AlwaysDocumented.latest (hd : AlwaysDocumented h) (he : h = p ++ .load a :: s) {b v : Word}
    (hb : latestStore p a = some (b, v)) : b = a := by
  by_contra hne
  -- store 0 at `a` and 1 everywhere else
  let g : Word → Word := fun x => if x = a then 0#32 else 1#32
  have hread := hd (h.map (Access.relabel g)) (fun _ => 0#32) (fun _ => 0#32) (map_target_relabel g h)
    (p.map (Access.relabel g)) a (s.map (Access.relabel g)) (by rw [he, List.map_append]; rfl)
  have hdoc : documentedWord (fun _ => 0#32) (p.map (Access.relabel g)) a = 1#32 := by
    have hl : latestStore (p.map (Access.relabel g)) a = some (b, g b) := by
      rw [latestStore, stores_relabel, latestVia_map_value, ← latestStore, hb]
      rfl
    rw [documentedWord, hl]
    exact if_neg hne
  rw [load_readData, dif_pos (hd.inRange he), hdoc, stores_relabel, latest_map_value] at hread
  cases hl : WriteLog.latest (stores p) a with
  | some w => simp [hl, g] at hread
  | none => simp [hl] at hread

theorem AlwaysDocumented.initial (hd : AlwaysDocumented h) (he : h = p ++ .load a :: s)
    (hn : latestStore p a = none) : a = 0#32 := by
  -- every entry holds its own number
  have hread := hd h (fun _ => 0#32) (fun i => BitVec.ofNat 32 i) rfl p a s he
  have ha := hd.inRange he
  rw [load_readData, dif_pos ha, documentedWord, hn, latest_of_latestVia_none wordIndex hn] at hread
  have hnum : a.toNat = a.toNat / 4 % 256 % 2 ^ 32 := by
    simpa [wordIndex, Nat.shiftRight_eq_div_pow] using congrArg BitVec.toNat hread
  rw [Nat.mod_eq_of_lt (by omega), Nat.mod_eq_of_lt (by omega)] at hnum
  apply BitVec.eq_of_toNat_eq
  show a.toNat = 0
  omega

end

/-- **When the data memory is the documented one.** The loads of a sequence of
accesses return the documented words, for all data stored and for all initial
and undefined contents, exactly when each finds the entry of its own address
last written or address 0 never written. -/
theorem dataMemory_documented_iff (h : List Access) :
    AlwaysDocumented h ↔ ∀ p a s, h = p ++ .load a :: s → OwnEntry p a := by
  constructor
  · intro hd p a s he
    exact ⟨hd.inRange he, fun b v hb => hd.latest he hb, hd.initial he⟩
  · intro ho h' undef dmem ht p' a s' he
    subst he
    have hs : h.map Access.target = p'.map Access.target ++ (false, a) :: s'.map Access.target := by
      rw [← ht, List.map_append]
      rfl
    obtain ⟨p, s, rfl, hp, hs⟩ := List.map_eq_append_iff.mp hs
    obtain ⟨x, s, rfl, hx, -⟩ := List.map_eq_cons_iff.mp hs
    cases x with
    | store b v => cases hx
    | load b =>
      cases hx
      exact ((ho p _ s rfl).congr hp.symm).load_documented undef dmem

/-- The word at byte address 256 is out of reach: its store is dropped. -/
theorem store_at_256_dropped :
    (∀ x ∈ [Access.store 256#32 7#32, Access.load 256#32], x.address.toNat < 1024) ∧
      ¬ Documented (fun _ => 0#32) (fun _ => 0#32) [Access.store 256#32 7#32, Access.load 256#32] := by
  refine ⟨by decide, fun hd => ?_⟩
  have hread := hd [Access.store 256#32 7#32] 256#32 [] rfl
  rw [load_readData, dif_neg (by decide)] at hread
  exact absurd hread (by decide)

end RiscV
