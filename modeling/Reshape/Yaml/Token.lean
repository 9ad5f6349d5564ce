import Reshape.Yaml.Tag

/-!
The tokens of YAML text.
-/

namespace Reshape.Yaml

/-- How a scalar is written; the three quoted and folded styles make no difference. -/
inductive Style where
  | plain
  | literal
  | other
  deriving DecidableEq

inductive Token where
  | streamEnd
  | version (major minor : Nat)
  | tagDirective (handle : String) (start : Tag)
  | documentStart
  | documentEnd
  | blockSequence
  | blockMapping
  | blockEnd
  | flowSequence
  | flowSequenceEnd
  | flowMapping
  | flowMappingEnd
  | blockEntry
  | flowEntry
  | key
  | value
  | reference (name : String)
  | anchor (name : String)
  | tag (handle : String) (suffix : Tag)
  | scalar (text : String) (style : Style)
  deriving DecidableEq

end Reshape.Yaml
