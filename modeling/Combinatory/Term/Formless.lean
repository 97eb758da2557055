import Combinatory.Fault

/-!
# A term without a form

Of a formless term only that it is a term is known.  It counts as an atom, since
nothing can be taken from it, and for the same reason normalizing gives it back; but
it has no text.

## Main definitions

* `Formless`: the type, which has one member.
-/

namespace Combinatory

/-- A term of which nothing is known. -/
structure Formless where
deriving DecidableEq

namespace Formless

/-- There is nothing to write. -/
def script (_ : Formless) : Except Fault String := .error .formless

/-- A formless term has no parts. -/
def isAtom (_ : Formless) : Bool := true

/-- Atoms are normal. -/
def normalize (t : Formless) : Formless := t

end Formless

end Combinatory
