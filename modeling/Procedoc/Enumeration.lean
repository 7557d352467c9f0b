import Procedoc.Fault
import Procedoc.Text.Integer

/-! # Enumerations

An enumeration has members with values.  Where all its values are texts, or all are integers, every
value is made one; and of two members with equal values the later one is another name of the
earlier, so that both have the value of the earlier.

`Enumeration.declare` makes an enumeration, unless a value cannot be made an integer or a name is
none for a member.
-/

namespace Procedoc
set_option autoImplicit false

/-- What the values of an enumeration are. -/
inductive MemberSort where
  | free
  | text
  | integer
  deriving DecidableEq, Inhabited

/-- An enumeration with its members and their values. -/
structure Enumeration where
  name : String
  doc : Option String := none
  members : Entries Json := []
  deriving Inhabited

/-- The integer that a value is made. -/
def Json.asInteger : Json → Except MemberRefusal Int
  | int n => .ok n
  | bool b => .ok (if b then 1 else 0)
  | decimal x => .ok x.truncated
  | str s =>
    match Text.looseInteger? s with
    | some n => .ok n
    | none => .error .noInteger
  | unbounded .undefined => .error .noInteger
  | unbounded _ => .error .boundless
  | null | arr _ | obj _ => .error .wrongSort

/-- The value as one of the sort. -/
def MemberSort.convert (sort : MemberSort) (j : Json) : Except MemberRefusal Json :=
  match sort with
  | free => .ok j
  | text => .ok (.str j.inText)
  | integer => j.asInteger.map .int

namespace Enumeration

/-- The first of the values that equals one, or else that one. -/
def settle (known : List Json) (j : Json) : Json := (known.find? fun k => k.equal j).getD j

/-- Members after those that are known, each with the value of the first that equals it. -/
def settleFrom (known : List Json) : Entries Json → Entries Json
  | [] => []
  | (name, j) :: rest =>
    let value := settle known j
    (name, value) :: settleFrom (known ++ [value]) rest

/-- The names that no member may have. -/
def unfitNames : List String := ["", "mro"]

/-- The enumeration that is declared with some members. -/
def declare (name : String) (doc : Option String) (sort : MemberSort) (members : Entries Json) :
    Except Fault Enumeration :=
  let names := Entries.keys members
  if ¬names.Nodup then .error (.unfitMember .repeated)
  else if unfitNames.any names.contains then .error (.unfitMember .unfitName)
  else
    match members.mapM fun m => (sort.convert m.2).map fun j => (m.1, j) with
    | .ok converted => .ok { name, doc, members := settleFrom [] converted }
    | .error refusal => .error (.unfitMember refusal)

def values (e : Enumeration) : List Json := e.members.map Prod.snd

end Enumeration
end Procedoc
