import Procedoc.Json

/-! # Pairs

Entries that are given as pairs: an object is its own entries, and a list may hold two things in a
row for each entry.  Keys that are no texts are left out, because nobody can ask for them.
-/

namespace Procedoc
set_option autoImplicit false

/-- Why something holds no entries. -/
inductive PairRefusal where
  /-- Something in the list is not two things in a row. -/
  | uneven
  /-- It is not a list, or something in it is not one, or a key cannot be one. -/
  | unreadable
  deriving DecidableEq

namespace Json

/-- Two things in a row: a list of two, a text of two characters, or the keys of two entries. -/
def pair? : Json → Except PairRefusal (Json × Json)
  | arr [a, b] => .ok (a, b)
  | arr _ => .error .uneven
  | str s =>
    match s.toList with
    | [a, b] => .ok (str (String.ofList [a]), str (String.ofList [b]))
    | _ => .error .uneven
  | obj [(a, _), (b, _)] => .ok (str a, str b)
  | obj _ => .error .uneven
  | _ => .error .unreadable

/-- The entry that a pair is, if its key is a text. -/
def pairEntry? (j : Json) : Except PairRefusal (Option (String × Json)) := do
  match ← j.pair? with
  | (str key, value) => return some (key, value)
  | (arr _, _) | (obj _, _) => .error .unreadable
  | _ => return none

/-- The entries that a value holds. -/
def pairedEntries : Json → Except PairRefusal (Entries Json)
  | obj e => .ok e
  | arr items => do return Entries.ofList ((← items.mapM pairEntry?).filterMap id)
  | str s => if s.isEmpty then .ok [] else .error .uneven
  | _ => .error .unreadable

@[simp] theorem pairedEntries_obj (e : List (String × Json)) : pairedEntries (obj e) = .ok e := rfl

/-- The items of a list, the characters of a text or the keys of an object. -/
def members? : Json → Option (List Json)
  | arr items => some items
  | str s => some (s.toList.map fun c => str (String.singleton c))
  | obj e => some (e.map fun p => str p.1)
  | _ => none

end Json
end Procedoc
