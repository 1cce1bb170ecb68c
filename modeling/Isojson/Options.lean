import Isojson.Library.Bytes

/-!
# Option bits

The `OPT_*` constants of `lib.rs`, as bits of a `u32`, and the test every use of them makes.
-/

namespace Isojson

def optIndent2 : UInt32 := 1
def optNaiveUtc : UInt32 := 2
def optNonStrKeys : UInt32 := 4
def optOmitMicroseconds : UInt32 := 8
def optSerializeNumpy : UInt32 := 16
def optSortKeys : UInt32 := 32
def optStrictInteger : UInt32 := 64
def optUtcZ : UInt32 := 128
def optPassthroughSubclass : UInt32 := 256
def optPassthroughDatetime : UInt32 := 512
def optAppendNewline : UInt32 := 1024

/-- `opts & bit != 0` -/
def hasOpt (opts bit : UInt32) : Bool := opts &&& bit != 0

/-- Clearing bits with a mask leaves a bit outside the mask alone. -/
lemma hasOpt_and_of_keep {opts mask bit : UInt32} (h : mask &&& bit = bit) :
    hasOpt (opts &&& mask) bit = hasOpt opts bit := by
  rw [hasOpt, UInt32.and_assoc, h, hasOpt]

/-- Clearing bits with a mask drops a bit of the mask. -/
lemma hasOpt_and_of_drop {opts mask bit : UInt32} (h : mask &&& bit = 0) :
    hasOpt (opts &&& mask) bit = false := by
  rw [hasOpt, UInt32.and_assoc, h]
  simp

end Isojson
