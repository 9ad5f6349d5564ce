import Reshape.Json.Reader
import Reshape.Mapper
import Reshape.Spec.Data
import Reshape.Yaml.Document
import Reshape.Yaml.Printer

/-!
Mappings and configurations in documents and files.
-/

namespace Reshape

inductive DecodeError where
  | json (error : Json.Error)
  | mapping (error : MappingError)
  deriving DecidableEq, Repr

def DecodeError.message : DecodeError → String
  | json error => error.message
  | mapping error => error.message

namespace Spec

def ofYaml (text : String) : Except MappingError Spec :=
  match Yaml.read? text with
  | some value => ofValue value
  | none => .error (.document .yaml)

def ofJson (text : String) : Except MappingError Spec :=
  match Json.read text with
  | .ok value => ofValue value
  | .error error => .error (.document (.json error))

/-- The mapping that a JSON text decodes to. A value is converted as soon as it is complete, so a
fault in it counts before one in the text behind it. -/
def decode (text : String) : Except DecodeError Spec :=
  match Json.readFront text with
  | .error error => .error (.json error)
  | .ok (value, behind) =>
    match ofValue value, behind with
    | .error error, _ => .error (.mapping error)
    | .ok _, some error => .error (.json error)
    | .ok spec, none => .ok spec

/-- The last part of a file's name behind a dot that does not begin the name. -/
def fileExtension? (name : String) : Option String :=
  let base := (name.toList.reverse.takeWhile (· ≠ '/'))
  let ending := base.takeWhile (· ≠ '.')
  match base.drop ending.length with
  | '.' :: _ :: _ => some (String.ofList ending.reverse)
  | _ => none

/-- The mapping in a file of a name; without content there is no such file. Files named as JSON hold
JSON, all others YAML. -/
def ofFile (name : String) (content : Option ByteArray) : Except MappingError Spec :=
  match content with
  | none => .error (.document .missingFile)
  | some bytes =>
    match String.fromUTF8? bytes with
    | none => .error (.document .notText)
    | some text =>
      let ending := (fileExtension? name).map fun ending =>
        String.ofList (ending.toList.map Char.toLower)
      if ending = some "json" then ofJson text else ofYaml text

def toYaml (spec : Spec) : Except MappingError String :=
  spec.toValue.map Yaml.print

end Spec

def Config.ofYaml (text : String) : Except ConfigError Config :=
  let setting := do
    match ← Yaml.Document.ofText? text with
    | some document => document.word? "max_depth"
    | none => some none
  match setting with
  | none => .error .unreadable
  | some none => .ok .standard
  | some (some depth) => Config.validate ⟨depth⟩

end Reshape
