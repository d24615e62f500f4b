import Bellman.Backend.Status
import Bellman.Program.Basic

/-!
# Backends

A backend solves stage programs. Nothing is assumed of one: it may refuse to be set up, it may fail,
it may answer with any status, and what it stores may be incomplete. Its answer may depend on
everything that it was asked before, so it is a function of the list of earlier programs and the
current one.
-/

namespace Bellman

open Data

/-- A number as a backend reports it: a scalar, or a plain number that is kept in its own kind until
it is read. -/
inductive Reported (S : Type) where
  | scalar (s : S)
  | plain (n : Number)

namespace Reported

variable {S : Type}

def read [Scalar S] : Reported S → Except Fault S
  | scalar s => .ok s
  | plain n => Scalar.read (.num n)

def whole? : Reported S → Option Int
  | scalar _ => none
  | plain n => n.toInt?

/-- The sum of reported numbers, added up from the left. Whole numbers at the front are added
exactly, and their sum is read as a scalar. -/
def sum [Scalar S] [Zero S] [Add S] (reported : List (Reported S)) : Except Fault S := do
  let front := reported.takeWhile (·.whole?.isSome)
  let start ← if front.isEmpty then pure 0
    else Scalar.read (.int ((front.filterMap whole?).foldl (· + ·) 0))
  (reported.drop front.length).foldlM (fun s r => return s + (← r.read)) start

end Reported

/-- The values of columns and the duals of the state rows, as far as they are known. A column may be
reported to have no value, and a row to have no dual. -/
structure Solution (S : Type) where
  values : List (Column × Option (Reported S)) := []
  duals : List (Option (Reported S)) := []

namespace Solution

variable {S : Type}

def value? (s : Solution S) (c : Column) : Option (Reported S) :=
  (s.values.lookup c).join

/-- The dual of the row that holds coordinate `i` of the state, if there is one. -/
def dual? (s : Solution S) (i : Nat) : Option (Reported S) :=
  (s.duals[i]?).join

/-- A solution with another stored over it, whose reports win where there are some. -/
def store (old new : Solution S) : Solution S where
  values := new.values ++ old.values
  duals := new.duals ++ old.duals.drop new.duals.length

end Solution

inductive Reply (S : Type) where
  /-- The backend failed. -/
  | failed (cause : Fault)
  /-- The backend ended in some status, said so in its own words if at all, and stored what it
  found, if anything. -/
  | ended (status : SolveStatus) (termination : Option String) (stored : Option (Solution S))

/-- A solver of stage programs. -/
structure Backend (S : Type) where
  /-- Why the backend cannot be set up, if so. -/
  refusal : Option Fault := none
  /-- The answer to a program after the ones it was asked before. -/
  reply : List (StageProgram S) → StageProgram S → Reply S

namespace Backend

/-- What a scripted backend does when it is asked. -/
abbrev Script (S : Type) := List (Reply S)

/-- A backend that plays the elements of a script one after the other and repeats the last. -/
def scripted {S : Type} (script : Script S) : Backend S where
  reply asked _ :=
    match (script[min asked.length (script.length - 1)]? : Option (Reply S)) with
    | some reply => reply
    | none => .failed (.backendBroke none)

end Backend

end Bellman
