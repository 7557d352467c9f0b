import Procedoc.Config
import Procedoc.Layout
import Procedoc.Text.Clock
import Procedoc.Text.Pattern

/-! # Sound shapes

A bound has to be one that values of its type can be held to: a length is a natural number, a bound
on integers an integer, a bound on days a day, and a pattern has the form of one.  A setting of a
model has to be one of those that it may be.  `Shape.isSound` says so of a whole shape.  What stands
under a check that takes its place is never held to anything.
-/

namespace Procedoc
set_option autoImplicit false

/-! ## Limits -/

/-- The integer that a limit is; true and false count as 1 and 0. -/
def Json.integer? : Json → Option Int
  | int n => some n
  | bool b => some (if b then 1 else 0)
  | _ => none

/-- The greatest length that a bound can name. -/
def greatestLength : Int := 18446744073709551615

/-- The least number that no fraction of limited length comes near. -/
def fractionLimit : Nat := twoTo 1024 - twoTo 970

def Json.isLength (j : Json) : Bool := j.integer?.any fun n => 0 ≤ n && n ≤ greatestLength

def Json.isIntegerLimit (kind : BoundKind) (j : Json) : Bool :=
  match j.integer? with
  | some n => kind != .multipleOf || n != 0
  | none => false

def Json.isFractionLimit : Json → Bool
  | int n => n.natAbs < fractionLimit
  | bool _ | decimal _ | unbounded _ => true
  | _ => false

/-- The integer below a number, if it is limited. -/
def Json.floor? : Json → Option Int
  | int n => some n
  | decimal x =>
    let n := x.truncated
    some (if x.negative && x.whole?.isNone then n - 1 else n)
  | _ => none

/-- Whether a limit is one for days, times of day or moments. -/
def Json.isMomentLimit (p : Plain) (j : Json) : Bool :=
  match p, j with
  | .date, .str s => Text.isDay s
  | .time, .str s => Text.isTime s
  | .time, j => j.floor?.any Text.isTimeNumber
  | .datetime, .str s => Text.isMoment s
  | .datetime, j => j.floor?.any Text.isMomentNumber
  | _, _ => false

def Json.isPattern (config : Config) (j : Json) : Bool :=
  match j, Config.patternGrammar? config with
  | .str s, some .linear => Text.isPattern s
  | .str _, some .larger => true
  | _, _ => false

/-- Whether a bound on a built-in type has a limit of the right sort. -/
def Plain.holdsTo (config : Config) (p : Plain) (b : Bound) : Bool :=
  match p.grip with
  | .text => if b.kind = .pattern then b.limit.isPattern config else b.limit.isLength
  | .octets | .items | .mapping => b.limit.isLength
  | .number =>
    if p = .int then b.limit.isIntegerLimit b.kind else b.limit.isFractionLimit
  | .moment => b.limit.isMomentLimit p
  | .free => true

/-! ## Settings -/

namespace Config

/-- Whether a setting is one of some words, if it is given. -/
def isAmong (c : Config) (key : String) (words : List String) : Bool :=
  (given? c key).all fun j => j.text?.any words.contains

/-- Whether the settings are among those that they may be. -/
def isSound (c : Config) : Bool :=
  isAmong c "extra" ["allow", "forbid", "ignore"]
    && isAmong c "ser_json_bytes" ["utf8", "base64", "hex"]
    && isAmong c "ser_json_temporal" ["iso8601", "seconds", "milliseconds"]
    && isAmong c "ser_json_timedelta" ["iso8601", "float"]
    && isAmong c "ser_json_inf_nan" ["null", "constants", "strings"]
    && isAmong c "revalidate_instances" ["always", "never", "subclass-instances"]

/-- Whether the form in which inputs give octets is one of those that it may be. -/
def readsOctets (c : Config) : Bool := isAmong c "val_json_bytes" ["utf8", "base64", "hex"]

/-- Whether the lengths that hold for every text in the model are lengths, as far as bounds leave
them in force. -/
def hasLengths (c : Config) (bounds : List Bound) : Bool :=
  let isLeft (kind : BoundKind) (key : String) : Bool :=
    bounds.any (fun b => b.kind = kind) || (given? c key).all Json.isLength
  isLeft .minLength "str_min_length" && isLeft .maxLength "str_max_length"

end Config

/-! ## Shapes -/

/-- Whether all bounds have lengths as limits. -/
def areLengths (bounds : List Bound) : Bool := bounds.all fun b => b.limit.isLength

namespace Shape

mutual
/-- Whether all bounds in a shape have limits of the right sort. -/
def isSound (config : Config) : Shape → Bool
  | plain p bounds =>
    bounds.all (p.holdsTo config) && (p != .str || Config.hasLengths config bounds)
      && (p != .bytes || Config.readsOctets config)
  | container _ item bounds => areLengths bounds && isSound config item
  | tuple items bounds => areLengths bounds && areSound config items
  | dict k v bounds => areLengths bounds && isSound config k && isSound config v
  | union members => areSound config members
  | nullable inner | guarded inner | defaulted inner _ | noted inner _ => isSound config inner
  | chained inner pattern =>
    pattern.isPattern config && Config.hasLengths config [] && isSound config inner
  | record _ ⟨_, _, own, fields⟩ => Config.isSound own && areSoundFields own fields
  | literal _ | replaced _ _ | concealed | reference _ | shared _ | enumeration _ _ => true

def areSound (config : Config) : List Shape → Bool
  | [] => true
  | s :: rest => isSound config s && areSound config rest

def areSoundFields (config : Config) : List (Field Shape) → Bool
  | [] => true
  | ⟨_, s, _, _, _⟩ :: rest => isSound config s && areSoundFields config rest
end

end Shape

def Layout.isSound (l : Layout) : Bool :=
  l.top.isSound [] && l.definitions.all fun p => p.2.isSound []

end Procedoc
