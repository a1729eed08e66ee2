
namespace ComponentDoc

structure Span where
  start : Nat
  stop : Nat
  deriving DecidableEq, Repr, Inhabited

namespace Span

def length (s : Span) : Nat := s.stop - s.start

def Within (inner outer : Span) : Prop :=
  outer.start ≤ inner.start ∧ inner.stop ≤ outer.stop

instance (inner outer : Span) : Decidable (inner.Within outer) :=
  inferInstanceAs (Decidable (_ ∧ _))

def of (s : Span) (text : List Char) : List Char :=
  (text.drop s.start).take s.length

end Span

end ComponentDoc
