/-!
Regular patterns of characters. A pattern is matched by taking its derivative by one character after
the other.
-/

namespace IngressControl.Text

inductive Pattern
  | nothing
  | empty
  | one (ok : Char → Bool)
  | seq (first second : Pattern)
  | either (first second : Pattern)
  | many (part : Pattern)

namespace Pattern

def nullable : Pattern → Bool
  | nothing => false
  | empty => true
  | one _ => false
  | seq p q => p.nullable && q.nullable
  | either p q => p.nullable || q.nullable
  | many _ => true

/-- One pattern after the other; nothing follows nothing. -/
def andThen : Pattern → Pattern → Pattern
  | nothing, _ => nothing
  | empty, q => q
  | p, q => seq p q

def orElse : Pattern → Pattern → Pattern
  | nothing, q => q
  | p, nothing => p
  | p, q => either p q

def derive (c : Char) : Pattern → Pattern
  | nothing => nothing
  | empty => nothing
  | one ok => if ok c then empty else nothing
  | seq p q =>
    if p.nullable then orElse (andThen (p.derive c) q) (q.derive c)
    else andThen (p.derive c) q
  | either p q => orElse (p.derive c) (q.derive c)
  | many p => andThen (p.derive c) (many p)

def accepts (p : Pattern) (cs : List Char) : Bool :=
  (cs.foldl (fun p c => p.derive c) p).nullable

def char (c : Char) : Pattern := one (· == c)

def word (s : String) : Pattern := s.toList.foldr (fun c p => andThen (char c) p) empty

def oneOf (s : String) : Pattern := one s.toList.contains

def all (ps : List Pattern) : Pattern := ps.foldr andThen empty

def any (ps : List Pattern) : Pattern := ps.foldr orElse nothing

def optional (p : Pattern) : Pattern := either empty p

def some (p : Pattern) : Pattern := seq p (many p)

end Pattern

end IngressControl.Text
