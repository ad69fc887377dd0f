/-!
# Spans of time

Lengths of time in nanoseconds.

## Main definitions

* `Time.Span`, with `Time.Span.ofMillis` and `Time.Span.ofSeconds`.
-/
namespace FleetWatch.Time

structure Span where
  nanos : Nat
deriving DecidableEq, Repr

namespace Span

def ofMillis (n : Nat) : Span := ⟨n * 1000000⟩

def ofSeconds (n : Nat) : Span := ⟨n * 1000000000⟩

end Span
end FleetWatch.Time
