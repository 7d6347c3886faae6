import BankedRing.Polynomial.Basic

/-! Uniform residues from a stream of random words, by rejection. A word is taken when
the low half of its product with the range lies in a zone that is a multiple of the
range wide; the high half is then the residue. The stream repeats itself, so a range
that rejects all of its words never yields a residue. -/
namespace BankedRing

/-- A cyclic stream of words with the number of words taken so far. -/
structure RandomStream where
  words : List Word
  taken : Nat
  deriving DecidableEq

namespace RandomStream

def next (stream : RandomStream) : Checked (Word × RandomStream) := do
  let w ← Checked.element stream.words (stream.taken % stream.words.length)
  return (w, { stream with taken := stream.taken + 1 })

/-- The largest low half that is accepted. -/
def zone (range : Word) : Word := (range <<< (64 - bitLength range).toUInt64) - 1

/-- Draws until a word is accepted, at most `attempts` times. -/
def drawWithin (range : Word) : (attempts : Nat) → RandomStream → Checked (Word × RandomStream)
  | 0, _ => throw .outOfRange
  | attempts + 1, stream => do
    let (w, stream) ← stream.next
    let product ← DoubleWord.product w range
    if product.lo ≤ zone range then return (product.hi, stream)
    drawWithin range attempts stream

/-- One residue below the range. A full round without acceptance yields none. -/
def draw (range : Word) (stream : RandomStream) : Checked (Word × RandomStream) :=
  drawWithin range stream.words.length stream

def drawMany (range : Word) : (count : Nat) → RandomStream → Checked (List Word × RandomStream)
  | 0, stream => return ([], stream)
  | count + 1, stream => do
    let (value, stream) ← stream.draw range
    let (values, stream) ← drawMany range count stream
    return (value :: values, stream)

end RandomStream

namespace TowerPolynomial

def randomTowers (ringDimension : Nat) :
    List Word → RandomStream → Checked (List Tower × RandomStream)
  | [], stream => return ([], stream)
  | q :: rest, stream => do
    let (values, stream) ← stream.drawMany q ringDimension
    let (towers, stream) ← randomTowers ringDimension rest stream
    return (⟨q, values⟩ :: towers, stream)

/-- Residues are drawn in tower order. -/
def random (parameters : RingParameters) (format : Format) (stream : RandomStream) :
    Checked (TowerPolynomial × RandomStream) := do
  let (towers, stream) ← randomTowers parameters.ringDimension parameters.moduli stream
  return ({ parameters, towers, format, offload := none }, stream)

end TowerPolynomial
end BankedRing
