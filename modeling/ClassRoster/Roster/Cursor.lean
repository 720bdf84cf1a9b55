import ClassRoster.Roster.Basic

/-!
A walk over the classes of a roster from both ends. A cursor is the stretch of classes that
neither end has passed, so that the two ends cannot meet twice.
-/

namespace ClassRoster

structure Cursor where
  remaining : List Descriptor
deriving DecidableEq, Repr

namespace Cursor

/-- The first class that is left, and the cursor behind it. -/
def next (c : Cursor) : Option Descriptor × Cursor := (c.remaining.head?, ⟨c.remaining.tail⟩)

/-- The last class that is left, and the cursor before it. -/
def back (c : Cursor) : Option Descriptor × Cursor :=
  (c.remaining.getLast?, ⟨c.remaining.dropLast⟩)

def size (c : Cursor) : Nat := c.remaining.length

/-- A lower and an upper bound on the number of classes left. Both are exact. -/
def bounds (c : Cursor) : Nat × Option Nat := (c.size, some c.size)

inductive Call where
  | next
  | back
  | size
  | bounds
  | rest
deriving DecidableEq, Repr

inductive Answer where
  | found (d : Option Descriptor)
  | count (n : Nat)
  | range (low : Nat) (high : Option Nat)
  | classes (ds : List Descriptor)
deriving DecidableEq, Repr

/-- Only the two ends move; a walk over the rest is made on a copy. -/
def call (c : Cursor) : Call → Answer × Cursor
  | .next => (.found c.next.1, c.next.2)
  | .back => (.found c.back.1, c.back.2)
  | .size => (.count c.size, c)
  | .bounds => (.range c.bounds.1 c.bounds.2, c)
  | .rest => (.classes c.remaining, c)

def run (c : Cursor) : List Call → List Answer
  | [] => []
  | k :: calls => (c.call k).1 :: (c.call k).2.run calls

end Cursor

def Roster.cursor (r : Roster) : Cursor := ⟨r.descriptors⟩

end ClassRoster
