import Combinatory.Datum
import Combinatory.Scope
import Combinatory.Text.DecimalDigit

/-!
# Faults

The causes for which the library refuses an offer or stops an evaluation.  A fault
holds what its message shows; the wording is in one place, `Fault.message`.

A message is made when the fault is reported, and it cannot be made if an integer in it has
more digits than are written.  Then that is what is reported instead, as an error of its own
kind; all else about the fault stays as it is.

## Main definitions

* `Side`: the two places of an application.
* `ErrorKind`: the kinds of errors by which callers tell them apart.
* `Fault`: the causes.
* `Fault.kind`, `Fault.message`: as what they are reported.
-/

namespace Combinatory

/-- The two places of an application. -/
inductive Side
  | left
  | right
deriving DecidableEq, Repr

/-- The word for a place. -/
def Side.word : Side → String
  | left => "left"
  | right => "right"

/-- The kinds of errors by which callers tell them apart. -/
inductive ErrorKind
  /-- A value is not one of those that are allowed. -/
  | value
  /-- Something is of the wrong kind. -/
  | type
  /-- There is no such operation. -/
  | operation
  /-- A number is too large. -/
  | overflow
  /-- There is no form to work with. -/
  | form
  /-- Something was looked up that is not there. -/
  | key
  /-- A budget was exceeded. -/
  | limit
  /-- Calls were nested too deeply. -/
  | nesting
deriving DecidableEq, Repr

/-- The name of a kind of errors. -/
def ErrorKind.name : ErrorKind → String
  | value => "ValueError"
  | type => "TypeError"
  | operation => "AttributeError"
  | overflow => "OverflowError"
  | form => "NotImplementedError"
  | key => "KeyError"
  | limit => "ReductionLimitExceeded"
  | nesting => "RecursionError"

/-- Causes of refusal. -/
inductive Fault
  /-- The offer is neither the tag nor the letter of a primitive. -/
  | notATag (got : Datum)
  /-- A primitive was to be made from something that is no tag and no letter. -/
  | notAPrimitive (got : Datum)
  /-- A variable's name has to be a text. -/
  | nameNotText (got : Datum)
  /-- The name of a variable has a defect. -/
  | badName (got : Datum) (defect : NameDefect)
  /-- A place of an application was to be filled with something other than a term. -/
  | notATerm (side : Side) (got : Datum)
  /-- Only applications have a signature. -/
  | noSignature (got : Datum)
  /-- The operation does not exist on what it was asked of. -/
  | noOperation (got : Datum) (operation : String)
  /-- The form of the term is not given, so it cannot be written. -/
  | formless
  /-- A spine cannot be unfolded to a negative depth. -/
  | negativeDepth (depth : Number)
  /-- A number was needed for a comparison. -/
  | notComparable (got : Datum)
  /-- A number was needed for a sum. -/
  | notSummable (total : Number) (got : Datum)
  /-- An integer beyond all doubles met a double. -/
  | beyondDoubles
  /-- A count has to be an integer. -/
  | notACount (got : Datum)
  /-- No term is bound to the placeholder of this number. -/
  | unbound (number : Nat)
  /-- No rule of the catalogue has this template. -/
  | unknownTemplate (template : String)
  /-- Only terms can be normalized. -/
  | notNormalizable (got : Datum)
  /-- The scope is not one of the two. -/
  | unknownScope (got : Datum)
  /-- The offer cannot be looked up, among scopes or owners. -/
  | notAKey (got : Datum)
  /-- A budget cannot have a negative limit. -/
  | negativeLimit (limit : Number)
  /-- More rules fired than the budget allows. -/
  | limitExceeded (total limit : Number)
  /-- A numeral has more digits than are read. -/
  | numeralTooLong (digits : Nat)
  /-- Nothing is known under this name. -/
  | unknownName (name : String)
deriving Inhabited

namespace Fault

/-- The names of the scopes, as the refusal of another one lists them. -/
def scopeNames : String := (Datum.list (Scope.all.map fun s => .text s.name)).inspect

/-- Whether the numbers that the message of a fault shows can be written. -/
def isWritable : Fault → Bool
  | notATag got | notAPrimitive got | nameNotText got | notATerm _ got | unknownScope got =>
      got.isWritable
  | negativeDepth n | negativeLimit n => n.isWritable
  | limitExceeded total limit => total.isWritable && limit.isWritable
  | _ => true

/-- The kind of error that a cause leads to. -/
def causeKind : Fault → ErrorKind
  | notATag _ | notAPrimitive _ | badName _ _ | negativeDepth _ | unknownScope _
  | negativeLimit _ | numeralTooLong _ => .value
  | nameNotText _ | notATerm _ _ | noSignature _ | notComparable _ | notSummable _ _
  | notACount _ | notNormalizable _ | notAKey _ => .type
  | noOperation _ _ => .operation
  | beyondDoubles => .overflow
  | formless => .form
  | unbound _ | unknownTemplate _ | unknownName _ => .key
  | limitExceeded _ _ => .limit

/-- The kind of error that a fault is reported as.  A number that cannot be written is an
error of value, whatever the cause was. -/
def kind (f : Fault) : ErrorKind := if f.isWritable then f.causeKind else .value

/-- The wording for an integer with too many digits, with what is said about their number. -/
def tooManyDigits (number : String) : String :=
  "Exceeds the limit (" ++ toString Text.longestNumeral
    ++ " digits) for integer string conversion" ++ number
    ++ "; use sys.set_int_max_str_digits() to increase the limit"

/-- The wording of a fault. -/
def wording : Fault → String
  | notATag got => got.inspect ++ " is not a valid PrimitiveKind"
  | notAPrimitive got => "Primitive kind must be one of S, K, I, got " ++ got.inspect
  | nameNotText got =>
      "Variable name must be a str, got " ++ got.kindName ++ ": " ++ got.inspect
  | badName _ .empty => "Variable name must not be empty"
  | badName got .reserved =>
      "Variable name " ++ got.inspect ++ " is reserved for a primitive"
  | badName got .delimited =>
      "Variable name " ++ got.inspect ++ " contains a delimiter or whitespace"
  | notATerm side got =>
      "Application " ++ side.word ++ " must be a Term, got " ++ got.kindName ++ ": "
        ++ got.inspect
  | noSignature got => "Signatures are only defined for applications, got " ++ got.kindName
  | noOperation got operation =>
      "'" ++ got.kindName ++ "' object has no attribute '" ++ operation ++ "'"
  | formless => ""
  | negativeDepth depth => "maxdepth must be non-negative, got " ++ depth.render
  | notComparable got =>
      "'<' not supported between instances of '" ++ got.kindName ++ "' and 'int'"
  | notSummable total got =>
      "unsupported operand type(s) for +=: '" ++ total.kindName ++ "' and '" ++ got.kindName
        ++ "'"
  | beyondDoubles => "int too large to convert to float"
  | notACount (.number n) =>
      "'" ++ n.kindName ++ "' object cannot be interpreted as an integer"
  | notACount (.text _) => "can only concatenate str (not \"int\") to str"
  | notACount (.list _) => "can only concatenate list (not \"int\") to list"
  | notACount got => "unsupported operand type(s) for +: '" ++ got.kindName ++ "' and 'int'"
  | unbound number => Text.quoted ("$" ++ toString number)
  | unknownTemplate template => Text.quoted template
  | notNormalizable got => "normalize expects a Term, got " ++ got.kindName
  | unknownScope got =>
      "Unknown guard scope " ++ got.inspect ++ "; expected one of " ++ scopeNames
  | notAKey got => "unhashable type: '" ++ got.kindName ++ "'"
  | negativeLimit limit => "Rewrite limit must be non-negative, got " ++ limit.render
  | limitExceeded total limit =>
      "normalize fired " ++ total.render ++ " rules with max_rewrites=" ++ limit.render
  | numeralTooLong digits => tooManyDigits (": value has " ++ toString digits ++ " digits")
  | unknownName name => Text.quoted name

/-- The message that a fault is reported with. -/
def message (f : Fault) : String := if f.isWritable then f.wording else tooManyDigits ""

/-- A budget that was exceeded is reported as such if the count and the limit can be
written. -/
theorem kind_limitExceeded (total limit : Number) : (limitExceeded total limit).kind =
    if total.isWritable && limit.isWritable then .limit else .value := rfl

/-- A count that is not below the limit is written with no fewer digits than it. -/
theorem kind_limitExceeded_natCast {limit count : Nat} (h : limit ≤ count) :
    (limitExceeded (.integer count) (.integer limit)).kind =
      if count < Text.numeralBound then .limit else .value := by
  rw [kind_limitExceeded, Number.isWritable_natCast, Number.isWritable_natCast]
  by_cases hcount : count < Text.numeralBound
  · have hlimit : limit < Text.numeralBound := Nat.lt_of_le_of_lt h hcount
    simp [hcount, hlimit]
  · simp [hcount]

/-- A negative limit is an error of value, whether it can be written or not. -/
@[simp] theorem kind_negativeLimit (limit : Number) : (negativeLimit limit).kind = .value :=
  ite_self _

end Fault

end Combinatory
