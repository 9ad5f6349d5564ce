import Reshape.Filter
import Reshape.Text.Quoted

/-!
One line that shows what is known of a filter.
-/

namespace Reshape

def FilterKind.summary : FilterKind → String
  | .value => "Value"
  | .path => "Path"

def Arity.summary (arity : Arity) : String :=
  let max := match arity.max with
    | some max => s!"Some({max})"
    | .none => "None"
  s!"Arity \x7b min: {arity.min}, max: {max} \x7d"

def Filter.summary (filter : Filter) : String :=
  let name := Text.quoted filter.name
  s!"Filter \x7b name: {name}, arity: {filter.arity.summary}, kind: {filter.kind.summary}, .. \x7d"

end Reshape
