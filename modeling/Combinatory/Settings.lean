import Combinatory.Fault

/-!
# Settings

Two settings are read once, from texts: the scope that an evaluation takes its guard
from, and the cap on its firings.  A cap that cannot be read is no cap.  The text of
the scope is kept as it is and judged when it is needed.

## Main definitions

* `Scope.ofDatum`: the scope that a caller asks for.
* `Settings`: both settings.
* `Settings.readCap`: the cap that a text asks for.
* `Settings.read`: the settings from their texts.
-/

namespace Combinatory

namespace Scope

/-- The scope that a datum names. -/
def ofDatum (d : Datum) : Except Fault Scope :=
  match d with
  | .list _ => .error (.notAKey d)
  | .record _ => .error (.notAKey d)
  | _ =>
    match d.letters?.bind ofName? with
    | some scope => .ok scope
    | none => .error (.unknownScope d)

end Scope

/-- The settings: the text of the scope, and the cap if there is one. -/
structure Settings where
  scope : String
  cap : Option Nat
deriving DecidableEq, Repr

namespace Settings

/-- The settings where nothing is set. -/
def standard : Settings := ⟨Scope.call.name, none⟩

instance : Inhabited Settings := ⟨standard⟩

/-- The cap that a text asks for: a positive number in decimal digits, with blanks
around it or not.  Anything else asks for none, but a numeral of too many digits is a
fault. -/
def readCap (raw : String) : Except Fault (Option Nat) :=
  let s := Text.strip raw
  match Text.numeral? s with
  | none => .ok none
  | some value =>
    if Text.longestNumeral < s.length then .error (.numeralTooLong s.length)
    else .ok (if value = 0 then none else some value)

/-- The settings from their texts, where those are given. -/
def read (scope cap : Option String) : Except Fault Settings := do
  return ⟨scope.getD Scope.call.name, ← readCap (cap.getD "")⟩

end Settings

end Combinatory
