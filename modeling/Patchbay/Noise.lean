namespace Patchbay

structure Noise where
  state : UInt64

namespace Noise

def multiplier : UInt64 := 6364136223846793005

def increment : UInt64 := 1442695040888963407 * 2 + 1

def step (state : UInt64) : UInt64 := state * multiplier + increment

def rotateRight (x turn : UInt32) : UInt32 := (x >>> turn) ||| (x <<< (32 - turn))

def output (state : UInt64) : UInt32 :=
  rotateRight (((state >>> 18) ^^^ state) >>> 27).toUInt32 (state >>> 59).toUInt32

def next (noise : Noise) : UInt32 × Noise := (output noise.state, ⟨step noise.state⟩)

def ofSeed (seed : UInt64) : Noise := ⟨step (step 0 + seed)⟩

-- From zero up to one, in steps of 2^-24.
def fraction (noise : Noise) : Float32 × Noise :=
  let (bits, noise) := noise.next
  ((bits >>> 8).toNat.toFloat.toFloat32 * 5.9604644775390625e-8, noise)

-- From minus one up to one.
def sample (noise : Noise) : Float32 × Noise :=
  let (x, noise) := noise.fraction
  (x * 2.0 - 1.0, noise)

end Noise

end Patchbay
