/-!
# Quoted texts

A string literal begins and ends with the same quote.  Inside it a backslash takes the next
character with it, whatever that is.  `scan` finds the end of a literal and `unquote` reads what it
stands for; both walk over the same pairs of characters.
-/

namespace VersionSweep.Quoted

/-- A literal from behind its opening quote: its characters up to and with the closing quote, the
text after them, and whether there was a closing quote.  A line break ends the literal unclosed. -/
structure Scan where
  body : List Char
  rest : List Char
  closed : Bool

def Scan.push (cs : List Char) (scan : Scan) : Scan :=
  { scan with body := cs ++ scan.body }

def scan (quote : Char) : List Char → Scan
  | [] => ⟨[], [], false⟩
  | ['\\'] => ⟨['\\'], [], false⟩
  | '\\' :: c :: rest => (scan quote rest).push ['\\', c]
  | c :: rest =>
    if c = '\n' ∨ c = '\r' then ⟨[], c :: rest, false⟩
    else if c = quote then ⟨[c], rest, true⟩
    else (scan quote rest).push [c]

def escaped (c : Char) : Char :=
  if c = 'n' then '\n' else if c = 't' then '\t' else if c = 'r' then '\r' else c

/-- The text of a literal from behind its opening quote, up to the closing one. -/
def unescape (quote : Char) : List Char → List Char
  | [] => []
  | ['\\'] => []
  | '\\' :: c :: rest => escaped c :: unescape quote rest
  | c :: rest => if c = quote then [] else c :: unescape quote rest

def unquote : List Char → List Char
  | [] => []
  | quote :: body => unescape quote body

theorem scan_append (quote : Char) (cs : List Char) :
    (scan quote cs).body ++ (scan quote cs).rest = cs := by
  fun_induction scan quote cs <;> simp_all [Scan.push]

end VersionSweep.Quoted
