import PimAsm.Fault

/-! Fields of instruction words. Segments are written from the most significant end; a word packs them into 64
bits, and what is shifted past the top is lost. -/

namespace PimAsm

structure Segment where
  value : Nat
  width : Nat
  deriving DecidableEq, Repr

namespace Segment

def greatest (width : Nat) : Nat := 1 <<< min width 64 - 1

def make (value width : Nat) : Outcome Segment := do
  Outcome.require (width ≤ 32 ∧ (width < 32 → value ≤ greatest width)) (.field value width)
  return ⟨value, width⟩

def fit (value width : Nat) : Outcome Nat := do
  return (← make value width).value

def widthSum : List Nat → Nat
  | [] => 0
  | w :: ws => w + widthSum ws

def totalWidth (segs : List Segment) : Nat := widthSum (segs.map width)

def pack (segs : List Segment) : Nat :=
  segs.foldl (fun word s => word <<< s.width % 18446744073709551616 ||| s.value) 0

/-- `pack`, with a trap for a segment as wide as the word. -/
def packChecked (segs : List Segment) : Outcome Nat := do
  Outcome.within (∀ s ∈ segs, s.width < 64)
  return pack segs

/-- The fields of the given widths that end at the least significant bit. -/
def unpack (word : Nat) : List Nat → List Nat
  | [] => []
  | w :: ws => word >>> widthSum ws % 1 <<< w :: unpack word ws

/-- Whether every field that is not empty lies in the 64-bit word and has at most 32 bits. -/
def readable : List Nat → Bool
  | [] => true
  | w :: ws => (w == 0 || (w ≤ 32 && w + widthSum ws ≤ 64)) && readable ws

def unpackChecked (word : Nat) (widths : List Nat) : Outcome (List Nat) := do
  Outcome.within (readable widths)
  return unpack word widths

def binary (s : Segment) : String := Numeral.binary s.width s.value

def binaryText (sep : String) (segs : List Segment) : String := String.intercalate sep (segs.map binary)

def hexText (word width : Nat) : String := "0x" ++ Numeral.hexUpper ((width + 3) / 4) word

def paddingLimit : Nat := 65536

def hexTextChecked (word width : Nat) : Outcome String := do
  Outcome.within ((width + 3) / 4 < paddingLimit)
  return hexText word width

end Segment

structure SubWord where
  opcode : Segment
  mid : Segment
  low : Segment
  deriving DecidableEq, Repr

namespace SubWord

def segments (w : SubWord) : List Segment := [w.opcode, w.mid, w.low]

def payload (w : SubWord) : Nat := Segment.pack w.segments

def make (opcode mid low : Nat) (opcodeWidth midWidth lowWidth : Nat) : Outcome SubWord := do
  let o ← Segment.make opcode opcodeWidth
  let m ← Segment.make mid midWidth
  let l ← Segment.make low lowWidth
  return ⟨o, m, l⟩

end SubWord

end PimAsm
