/-!
# Spans

A stretch of a source text, by the byte offsets of its two ends.
-/

namespace VersionSweep

/-- The bytes from `start` up to `stop`. -/
structure Span where
  start : Nat
  stop : Nat
  deriving DecidableEq, Repr

def Span.length (span : Span) : Nat :=
  span.stop - span.start

end VersionSweep
