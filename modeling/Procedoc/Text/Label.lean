import Procedoc.Text.Blank
import Procedoc.Text.Case

/-! # Labels

The title that a property gets from its name: underscores become spaces, and every word begins with
a capital.
-/

namespace Procedoc.Text
set_option autoImplicit false

def label (name : String) : String :=
  strip (title (String.ofList (name.toList.map fun c => if c = '_' then ' ' else c)))

example : label "user__id" = "User  Id" ∧ label "x1y2_z" = "X1Y2 Z" := by decide +kernel

end Procedoc.Text
