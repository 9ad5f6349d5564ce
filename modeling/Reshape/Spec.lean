import Reshape.Filter

/-!
Mappings as data: filter tokens, pipelines of steps, and keyed entries.
-/

namespace Reshape

/-- A filter with textual arguments, written `name:arg1:arg2`. -/
structure Token where
  name : String
  args : List String
  deriving DecidableEq, Repr

namespace Token

/-- The pieces of a text between its colons; there is always a first one. -/
def splitColons : List Char → List Char × List (List Char)
  | [] => ([], [])
  | c :: rest =>
    let (first, more) := splitColons rest
    if c = ':' then ([], first :: more) else (c :: first, more)

def parse (text : String) : Token :=
  let (name, args) := splitColons text.toList
  ⟨String.ofList name, args.map String.ofList⟩

def text (token : Token) : String :=
  token.args.foldl (fun text arg => text ++ ":" ++ arg) token.name

def arguments (token : Token) : List Arg :=
  token.args.map Arg.ofText

end Token

/-- A mapping: a filter, steps that hand on their results, an object built entry by entry, or a
value that stands for itself. -/
inductive Spec where
  | filter (token : Token)
  | sequence (steps : List Spec)
  | fields (entries : List (String × Spec))
  | literal (value : Value)

namespace Spec

instance : Inhabited Spec := ⟨.literal .null⟩

def ofToken (text : String) : Spec :=
  .filter (Token.parse text)

/-- Entries under distinct keys; a key given again keeps its place and takes the new mapping. -/
def ofEntries (entries : List (String × Spec)) : Spec :=
  .fields (Fields.ofEntries entries)

def kind : Spec → String
  | .filter _ => "filter"
  | .sequence _ => "sequence"
  | .fields _ => "fields"
  | .literal _ => "literal"

end Spec

end Reshape
