import Reshape.Chain

/-!
The library's filters as calls of a chain, by name: a registry that replaces a filter replaces the
call with it.
-/

namespace Reshape.Chain

variable (chain : Chain)

private def number (n : Int) : Arg := .value (.integer n)

def get (path : String) : Chain := chain.call "get" [.ofText path]

def getOr (path : String) (default : Value) : Chain :=
  chain.call "get" [.ofText path, .value default]

def set (value : Value) : Chain := chain.call "set" [.value value]

def put (path : String) (value : Value) : Chain := chain.call "put" [.ofText path, .value value]

def has (path : String) : Chain := chain.call "has" [.ofText path]

def identity : Chain := chain.call "identity" []

def flatten (deep : Bool) : Chain := chain.call "flatten" [.value (.bool deep)]

def unique : Chain := chain.call "unique" []

def sum : Chain := chain.call "sum" []

def child (index : Int) : Chain := chain.call "child" [number index]

def nth (index : Int) : Chain := chain.call "nth" [number index]

def compact : Chain := chain.call "compact" []

def concat (value : Value) : Chain := chain.call "concat" [.value value]

def join (separator : String) : Chain := chain.call "join" [.ofText separator]

def reverse : Chain := chain.call "reverse" []

def slice (start : Int) (stop : Option Int) : Chain :=
  chain.call "slice" (number start :: stop.toList.map number)

def length : Chain := chain.call "length" []

def find (iteratee : Arg) : Chain := chain.call "find" [iteratee]

def findWhere (iteratee : Arg) : Chain := chain.call "findWhere" [iteratee]

def map (iteratee : Arg) : Chain := chain.call "map" [iteratee]

def filter (iteratee : Arg) : Chain := chain.call "filter" [iteratee]

/-- Fold with a callback, from `initial` or else from the first element. -/
def reduce (callback : Arg) (initial : Option Value) : Chain :=
  chain.call "reduce" (callback :: initial.toList.map Arg.value)

def sort : Chain := chain.call "sort" []

def sortWith (compare : Arg) : Chain := chain.call "sort" [compare]

def toStr : Chain := chain.call "toStr" []

def toInt (radix : Nat) : Chain := chain.call "toInt" [number radix]

def toFloat : Chain := chain.call "toFloat" []

def toBool : Chain := chain.call "toBool" []

def toArray : Chain := chain.call "toArray" []

def toObject : Chain := chain.call "toObject" []

def stringify : Chain := chain.call "stringify" []

end Reshape.Chain
