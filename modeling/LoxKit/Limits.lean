/-!
# Limits

Reading, resolution and evaluation are recursive, and each may only go so deep.  How deep is
for the caller to say, as room; what lies beyond is reported as too deep a nesting, or while a
program runs as a stack overflow.

Room is counted in activations.  A node takes one while it is resolved or run, and a rule of
the grammar two while it is read; each stage says what else takes room.  Some steps need
spare room, of which nothing is kept.  Where there is less than a step takes or needs, it is
given up before it has any effect.

The number of turns of a loop is bounded as well, so that every run ends, but by a number
that no run reaches in practice.
-/
namespace LoxKit

/-- **How far each stage may go.** -/
structure Limits where
  /-- The number of activations open at a time, in any stage. -/
  room : Nat
  /-- The number of turns of a loop. -/
  turns : Nat
  deriving DecidableEq

/-- The limits that users meet: forty thousand activations, of which five are open before a
stage begins. -/
def Limits.standard : Limits := { room := 40000 - 5, turns := 1000000000000000000 }

end LoxKit
