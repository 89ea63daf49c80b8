/-!
# The hash XXH64

The 64-bit xxHash of a sequence of bytes.  Stripes of 32 bytes are mixed into
four lanes; what remains is mixed in by words of eight bytes, one word of four
bytes and single bytes; a final step spreads the bits.  Words are read with the
least significant byte first.
-/

namespace DeltaGraph
namespace Xxh64

def prime₁ : UInt64 := 11400714785074694791

def prime₂ : UInt64 := 14029467366897019727

def prime₃ : UInt64 := 1609587929392839161

def prime₄ : UInt64 := 9650029242287828579

def prime₅ : UInt64 := 2870177450012600261

/-- The bits moved to the left, those that leave entering on the right. -/
def rotate (word count : UInt64) : UInt64 :=
  (word <<< count) ||| (word >>> (64 - count))

/-- The number whose bytes are given, the least significant first. -/
def wordOf (bytes : List UInt8) : UInt64 :=
  bytes.foldr (fun byte word => (word <<< 8) ||| byte.toUInt64) 0

/-- One step of mixing a word into a lane. -/
def mix (lane word : UInt64) : UInt64 :=
  rotate (lane + word * prime₂) 31 * prime₁

/-- Mixing a lane into the hash. -/
def mergeLane (hash lane : UInt64) : UInt64 :=
  (hash ^^^ mix 0 lane) * prime₁ + prime₄

/-- The four running lanes. -/
structure Lanes where
  first : UInt64
  second : UInt64
  third : UInt64
  fourth : UInt64

namespace Lanes

/-- The lanes before the first stripe. -/
def start (seed : UInt64) : Lanes :=
  ⟨seed + prime₁ + prime₂, seed + prime₂, seed, seed - prime₁⟩

/-- The lanes after one more stripe of 32 bytes. -/
def mixStripe (lanes : Lanes) (bytes : List UInt8) : Lanes :=
  { first := mix lanes.first (wordOf (bytes.take 8))
    second := mix lanes.second (wordOf ((bytes.drop 8).take 8))
    third := mix lanes.third (wordOf ((bytes.drop 16).take 8))
    fourth := mix lanes.fourth (wordOf ((bytes.drop 24).take 8)) }

/-- The lanes after a number of stripes. -/
def mixStripes (lanes : Lanes) : Nat → List UInt8 → Lanes
  | 0, _ => lanes
  | count + 1, bytes => (lanes.mixStripe bytes).mixStripes count (bytes.drop 32)

/-- The lanes merged into one word. -/
def merge (lanes : Lanes) : UInt64 :=
  let sum :=
    rotate lanes.first 1 + rotate lanes.second 7 + rotate lanes.third 12 +
    rotate lanes.fourth 18
  [lanes.first, lanes.second, lanes.third, lanes.fourth].foldl mergeLane sum

end Lanes

/-- Mixes in a number of words of eight bytes. -/
def mixWords (hash : UInt64) : Nat → List UInt8 → UInt64
  | 0, _ => hash
  | count + 1, bytes =>
      mixWords
        (rotate (hash ^^^ mix 0 (wordOf (bytes.take 8))) 27 * prime₁ + prime₄)
        count (bytes.drop 8)

/-- Mixes in a word of four bytes. -/
def mixHalfWord (hash : UInt64) (bytes : List UInt8) : UInt64 :=
  rotate (hash ^^^ (wordOf bytes * prime₁)) 23 * prime₂ + prime₃

/-- Mixes in single bytes. -/
def mixBytes (hash : UInt64) (bytes : List UInt8) : UInt64 :=
  bytes.foldl
    (fun hash byte => rotate (hash ^^^ (byte.toUInt64 * prime₅)) 11 * prime₁)
    hash

/-- Mixes in fewer than 32 bytes. -/
def mixRest (hash : UInt64) (bytes : List UInt8) : UInt64 :=
  let words := bytes.length / 8
  let hash := mixWords hash words bytes
  let rest := bytes.drop (8 * words)
  if 4 ≤ rest.length then
    mixBytes (mixHalfWord hash (rest.take 4)) (rest.drop 4)
  else mixBytes hash rest

/-- Spreads the bits of the hash. -/
def spread (hash : UInt64) : UInt64 :=
  let hash := (hash ^^^ (hash >>> 33)) * prime₂
  let hash := (hash ^^^ (hash >>> 29)) * prime₃
  hash ^^^ (hash >>> 32)

/-- The hash of a sequence of bytes. -/
def hash (seed : UInt64) (bytes : List UInt8) : UInt64 :=
  let stripes := bytes.length / 32
  let start :=
    if stripes = 0 then seed + prime₅
    else ((Lanes.start seed).mixStripes stripes bytes).merge
  spread
    (mixRest (start + UInt64.ofNat bytes.length) (bytes.drop (32 * stripes)))

end Xxh64

end DeltaGraph
