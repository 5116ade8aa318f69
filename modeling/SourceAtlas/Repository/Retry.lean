import SourceAtlas.Repository.CloneFailure

namespace SourceAtlas

structure Span where
  nanos : Nat
  deriving DecidableEq, Repr, Inhabited

namespace Span

def nanosPerSecond : Nat := 1000000000

def longest : Span := ⟨18446744073709551615 * nanosPerSecond + 999999999⟩

def ofSeconds (n : Nat) : Span := ⟨n * nanosPerSecond⟩

def ofMillis (n : Nat) : Span := ⟨n * 1000000⟩

def seconds (s : Span) : Nat := s.nanos / nanosPerSecond

def subNanos (s : Span) : Nat := s.nanos % nanosPerSecond

def add (s t : Span) : Span := ⟨min (s.nanos + t.nanos) longest.nanos⟩

def times (s : Span) (k : Nat) : Span := ⟨min (s.nanos * k) longest.nanos⟩

end Span

namespace Repository

structure RetryPolicy where
  maxAttempts : Nat
  base : Span
  retryable : CloneFailure → Bool

namespace RetryPolicy

def ofAttempts (attempts : Nat) (base : Span) : RetryPolicy :=
  ⟨max attempts 1, base, CloneFailure.isTransient⟩

def maxDoublings : Nat := 16

def delayAfter (p : RetryPolicy) (attempt : Nat) : Span :=
  p.base.times (Nat.pow 2 (min (attempt - 1) maxDoublings))

def shouldRetry (p : RetryPolicy) (attempt : Nat) (failure : CloneFailure) : Bool :=
  attempt < p.maxAttempts && p.retryable failure

end RetryPolicy

end Repository

end SourceAtlas
