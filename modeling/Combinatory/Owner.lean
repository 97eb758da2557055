import Combinatory.Fault

/-!
# Owners

What is committed to a guard belongs to an owner: the thread that commits, or a key that
the caller chooses instead.

## Main definitions

* `Thread`: lines of execution.
* `Owner`: threads and chosen keys.
* `Owner.ofDatum`: the owner that a caller names.
-/

namespace Combinatory

/-- A line of execution: the main one, or a worker with its label. -/
inductive Thread
  | main
  | worker (label : String)
deriving DecidableEq, Repr

/-- Who commits to a guard: a thread, or a name or number chosen by the caller.  Owners
of different kinds are different even if they are written alike. -/
inductive Owner
  | thread (t : Thread)
  | name (s : String)
  | number (n : Number.Key)
deriving DecidableEq

namespace Owner

/-- The owner that a datum names, for a caller that runs on a thread: null names the
thread.  Numbers of one value name one owner, whatever their kind. -/
def ofDatum (t : Thread) (d : Datum) : Except Fault Owner :=
  match d, d.number?, d.letters? with
  | .null, _, _ => .ok (thread t)
  | _, some n, _ => .ok (number n.key)
  | _, _, some s => .ok (name s)
  | other, none, none => .error (.notAKey other)

/-- Two numbers of which one has a value name one owner exactly if that is the value of
both. -/
theorem ofDatum_number_eq_iff (t : Thread) {x y : Number} {v : Dyadic} (hx : x.value? = some v) :
    ofDatum t (.number x) = ofDatum t (.number y) ↔ y.value? = some v := by
  have hofDatum (n : Number) : ofDatum t (.number n) = .ok (number n.key) := rfl
  rw [hofDatum, hofDatum, Except.ok.injEq, number.injEq, Number.key_eq_finite_iff.2 hx, eq_comm,
    Number.key_eq_finite_iff]

end Owner

end Combinatory
