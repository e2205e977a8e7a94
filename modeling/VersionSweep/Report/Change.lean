import VersionSweep.Text.Line

/-!
# Changes between blocks

Two blocks are compared line by line from the top.  Lines at the same place are the same or one has
taken the place of the other; what the longer block has beyond the shorter one was added or removed.
-/

namespace VersionSweep

/-- What became of one line. -/
inductive LineChange where
  | added (line : String)
  | removed (line : String)
  | modified (old new : String)
  | unchanged (line : String)
  deriving DecidableEq, Repr

namespace LineChange

def isChange : LineChange → Bool
  | unchanged _ => false
  | _ => true

/-- The rows that show a change: older text after a minus sign, newer text after a plus sign. -/
def marked : LineChange → List String
  | added line => ["+ " ++ line]
  | removed line => ["- " ++ line]
  | modified old new => ["- " ++ old, "+ " ++ new]
  | unchanged _ => []

def between : List String → List String → List LineChange
  | [], [] => []
  | old :: olds, [] => removed old :: between olds []
  | [], new :: news => added new :: between [] news
  | old :: olds, new :: news =>
    (if old = new then unchanged old else modified old new) :: between olds news

def ofBlocks (old new : String) : List LineChange :=
  between (Text.blockLines old) (Text.blockLines new)

end LineChange

end VersionSweep
