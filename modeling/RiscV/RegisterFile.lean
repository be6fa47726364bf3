import RiscV.Datapath
import RiscV.Lib.Clocked
import RiscV.Lib.WriteLog

/-!
# The register file against its history

`register_file` on its own, driven with arbitrary inputs and resets. The array
holds the writes of the cycles before, the bypass adds the write of the cycle
itself: a read port shows the latest write since the last reset.
-/

namespace RiscV

open Clocked WriteLog

structure RegisterFileIn where
  we : Bool
  rs1 : RegIdx
  rs2 : RegIdx
  rd : RegIdx
  writeData : Word
  deriving DecidableEq, Repr

/-- A clock cycle ends with its edge; reset changes at any time in between. -/
inductive RegisterFileEvent where
  | cycle (i : RegisterFileIn)
  | assert
  | release
  deriving DecidableEq, Repr

namespace RegisterFile

/-! ## The module in time -/

def readData1 (registers : RegArray) (i : RegisterFileIn) : Word :=
  registerFileRead registers i.we i.rs1 i.rd i.writeData

def readData2 (registers : RegArray) (i : RegisterFileIn) : Word :=
  registerFileRead registers i.we i.rs2 i.rd i.writeData

def event (b : Bench RegArray) : RegisterFileEvent → Bench RegArray
  | .cycle i => ⟨b.reset, registerFileEdge b.state b.reset i.we i.rd i.writeData⟩
  | .assert => ⟨true, if b.reset then b.state else registerFileEdge b.state true false 0#5 0#32⟩
  | .release => ⟨false, b.state⟩

def after (registers : RegArray) (es : List RegisterFileEvent) : Bench RegArray := es.foldl event ⟨false, registers⟩

/-! ## The history -/

/-- The level of reset, and the cycles since it was last high. -/
def record (h : Bool × List RegisterFileIn) : RegisterFileEvent → Bool × List RegisterFileIn
  | .cycle i => (h.1, if h.1 then [] else h.2 ++ [i])
  | .assert => (true, [])
  | .release => (false, h.2)

def sinceReset (es : List RegisterFileEvent) : List RegisterFileIn := (es.foldl record (false, [])).2

def write? (i : RegisterFileIn) : Option (RegIdx × Word) := if i.we then some (i.rd, i.writeData) else none

/-- What a port that reads `rs` shows, by the cycles up to the current one. -/
def shown (h : List RegisterFileIn) (rs : RegIdx) : Word :=
  if rs = 0#5 then 0#32 else (latest (h.filterMap write?) rs).getD 0#32

/-- The write of a cycle taken away, if it goes to x0. -/
def dropZero (i : RegisterFileIn) : RegisterFileIn := if i.rd = 0#5 then { i with we := false } else i

def dropZeroEvent : RegisterFileEvent → RegisterFileEvent
  | .cycle i => .cycle (dropZero i)
  | .assert => .assert
  | .release => .release

/-! ## The array holds the history -/

theorem latest_write (h : List RegisterFileIn) (i : RegisterFileIn) (rs : RegIdx) :
    latest ((h ++ [i]).filterMap write?) rs =
      if i.we ∧ i.rd = rs then some i.writeData else latest (h.filterMap write?) rs := by
  rw [List.filterMap_append]
  cases hw : i.we with
  | false => simp [write?, hw]
  | true =>
    rw [show [i].filterMap write? = [(i.rd, i.writeData)] by simp [write?, hw], latest_concat]
    simp

structure Holds (h : Bool × List RegisterFileIn) (b : Bench RegArray) : Prop where
  reset : b.reset = h.1
  high : h.1 = true → h.2 = []
  array : ∀ rs, rs ≠ 0#5 → b.state rs = (latest (h.2.filterMap write?) rs).getD 0#32

theorem Holds.next {h : Bool × List RegisterFileIn} {b : Bench RegArray} (hb : Holds h b) (e : RegisterFileEvent) :
    Holds (record h e) (event b e) := by
  obtain ⟨r, cs⟩ := h
  obtain ⟨r', registers⟩ := b
  obtain ⟨hr, hhigh, harray⟩ := hb
  have hr' : r' = r := hr
  subst hr'
  cases e with
  | cycle i =>
    cases r' with
    | true => exact ⟨rfl, fun _ => rfl, fun _ _ => rfl⟩
    | false =>
      refine ⟨rfl, fun h' => (by cases h'), fun rs hrs => ?_⟩
      have hold := harray rs hrs
      show registerFileEdge registers false i.we i.rd i.writeData rs = (latest ((cs ++ [i]).filterMap write?) rs).getD _
      rw [latest_write]
      by_cases hw : i.we ∧ i.rd = rs
      · obtain ⟨hwe, rfl⟩ := hw
        simp [registerFileEdge, hwe, hrs]
      · rw [if_neg hw, ← hold, registerFileEdge, if_neg Bool.false_ne_true]
        split
        next hwe => exact Function.update_of_ne (fun he => hw ⟨hwe.1, he.symm⟩) _ _
        next => rfl
  | assert =>
    cases r' with
    | true =>
      obtain rfl : cs = [] := hhigh rfl
      exact ⟨rfl, fun _ => rfl, harray⟩
    | false => exact ⟨rfl, fun _ => rfl, fun _ _ => rfl⟩
  | release => exact ⟨rfl, fun h' => (by cases h'), harray⟩

theorem holds_after (registers : RegArray) (es : List RegisterFileEvent) :
    Holds ((.assert :: es).foldl record (false, [])) (after registers (.assert :: es)) := by
  have hfirst : Holds (record (false, []) .assert) (event ⟨false, registers⟩ .assert) :=
    ⟨rfl, fun _ => rfl, fun _ _ => rfl⟩
  have hrest : ∀ (es : List RegisterFileEvent) {h : Bool × List RegisterFileIn} {b : Bench RegArray},
      Holds h b → Holds (es.foldl record h) (es.foldl event b) := by
    intro es
    induction es with
    | nil => exact fun hb => hb
    | cons e es ih => exact fun hb => ih (hb.next e)
  exact hrest es hfirst

theorem Holds.read {h : Bool × List RegisterFileIn} {b : Bench RegArray} (hb : Holds h b) (i : RegisterFileIn)
    (rs : RegIdx) : registerFileRead b.state i.we rs i.rd i.writeData = shown (h.2 ++ [i]) rs := by
  rw [registerFileRead, shown]
  by_cases hrs : rs = 0#5
  · rw [if_pos hrs, if_pos hrs]
  · rw [if_neg hrs, if_neg hrs, latest_write]
    by_cases hw : i.we ∧ i.rd = rs
    · obtain ⟨hwe, rfl⟩ := hw
      simp [hwe, hrs]
    · rw [if_neg hw, if_neg fun h' => hw ⟨h'.1, h'.2.1⟩]
      exact hb.array rs hrs

/-! ## Writes to x0 -/

theorem registerFileEdge_dropZero (registers : RegArray) (reset : Bool) (i : RegisterFileIn) :
    registerFileEdge registers reset (dropZero i).we (dropZero i).rd (dropZero i).writeData =
      registerFileEdge registers reset i.we i.rd i.writeData := by
  rw [dropZero]
  split
  next hrd => simp [registerFileEdge, hrd]
  next => rfl

theorem registerFileRead_dropZero (registers : RegArray) (i : RegisterFileIn) (rs : RegIdx) :
    registerFileRead registers (dropZero i).we rs (dropZero i).rd (dropZero i).writeData =
      registerFileRead registers i.we rs i.rd i.writeData := by
  rw [dropZero]
  split
  next hrd => simp [registerFileRead, hrd]
  next => rfl

theorem event_dropZero (b : Bench RegArray) (e : RegisterFileEvent) : event b (dropZeroEvent e) = event b e := by
  cases e with
  | cycle i => exact congrArg (Bench.mk b.reset) (registerFileEdge_dropZero b.state b.reset i)
  | assert => rfl
  | release => rfl

theorem after_dropZero (registers : RegArray) (es : List RegisterFileEvent) :
    after registers (es.map dropZeroEvent) = after registers es := by
  simp only [after, List.foldl_map, event_dropZero]

end RegisterFile

open RegisterFile in
/-- **The register file shows its history.** From the first reset on each port
shows 0 for x0 and else the latest write since reset was high, that of the
current cycle included. No port ever shows a write to x0. -/
theorem registerFile_shows_history (registers : RegArray) (es : List RegisterFileEvent) (i : RegisterFileIn) :
    (readData1 (after registers (.assert :: es)).state i = shown (sinceReset (.assert :: es) ++ [i]) i.rs1 ∧
      readData2 (after registers (.assert :: es)).state i = shown (sinceReset (.assert :: es) ++ [i]) i.rs2) ∧
    readData1 (after registers (es.map dropZeroEvent)).state (dropZero i) = readData1 (after registers es).state i ∧
      readData2 (after registers (es.map dropZeroEvent)).state (dropZero i) = readData2 (after registers es).state i := by
  have hholds := holds_after registers es
  have hports : (dropZero i).rs1 = i.rs1 ∧ (dropZero i).rs2 = i.rs2 := by
    rw [dropZero]
    split <;> exact ⟨rfl, rfl⟩
  refine ⟨⟨hholds.read i i.rs1, hholds.read i i.rs2⟩, ?_, ?_⟩
  · rw [readData1, after_dropZero, registerFileRead_dropZero, hports.1]
    rfl
  · rw [readData2, after_dropZero, registerFileRead_dropZero, hports.2]
    rfl

end RiscV
