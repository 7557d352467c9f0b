import Procedoc.Fault
import Procedoc.Text.Blank
import Procedoc.Text.Word

/-! # Path templates

A path template is a path with placeholders: names in braces.

* `Template.normalize` is the one spelling of a path: a slash in front, none at the end, no blanks
  around it.
* `Template.placeholders` are the names of the placeholders in order, repetitions included.
* `Template.placeholdersIn` are the same names, each of which has to be among the given fields.
-/

namespace Procedoc.Template
set_option autoImplicit false

/-- The path without blanks and slashes around it. -/
def core (path : List Char) : List Char :=
  Text.dropEnds (· = '/') (Text.dropEnds Text.isBlank path)

/-- The one spelling of a path. -/
def normalize (path : String) : String := String.ofList ('/' :: core path.toList)

/-- The name that stands before a closing brace, after an opening one. -/
def nameAfterBrace? (cs : List Char) : Option (List Char) :=
  let name := cs.takeWhile Text.isWord
  if name.isEmpty then none
  else match cs.dropWhile Text.isWord with
    | '}' :: _ => some name
    | _ => none

/-- The names of the placeholders, in order. -/
def placeholdersOf : List Char → List (List Char)
  | [] => []
  | c :: rest =>
    (if c = '{' then (nameAfterBrace? rest).toList else []) ++ placeholdersOf rest

/-- The names of the placeholders of a template, in order. -/
def placeholders (template : String) : List String :=
  (placeholdersOf template.toList).map String.ofList

/-- The names of the placeholders, if all are among the fields; else the first that is not. -/
def placeholdersIn (fields : List String) (template : String) : Except Violation (List String) :=
  match (placeholders template).find? fun name => !fields.contains name with
  | some name => .error (.unknownPathField name template)
  | none => .ok (placeholders template)

@[simp] theorem placeholdersOf_nil : placeholdersOf [] = [] := rfl

theorem placeholdersOf_cons_of_ne {c : Char} (rest : List Char) (h : c ≠ '{') :
    placeholdersOf (c :: rest) = placeholdersOf rest := by simp [placeholdersOf, h]

example : placeholders "/a/{id}/{{b}}/{}/{x-y}/{名}{id}" = ["id", "b", "名", "id"] := by
  decide +kernel

example : normalize " //x/{id}// " = "/x/{id}" := by decide +kernel

end Procedoc.Template
