import JavaObjC.Document.Json
import JavaObjC.Document.Yaml
import JavaObjC.Failure
import JavaObjC.Target.ClassModel

/-!
# Class models and trees for inspection

The document of a class model and of a syntax tree, and the outline of a class
model as plain text.
-/

namespace JavaObjC

/-- The words among some flags that are set. -/
def flagWords (flags : List (Bool × String)) : List Text :=
  flags.filterMap fun (isSet, word) => if isSet then some (Text.ofString word) else none

namespace TargetField

/-- The flags of a field by name. -/
def modifierWords (f : TargetField) : List Text :=
  flagWords [(f.isStatic, "static"), (f.isFinal, "final"), (f.isConstant, "constant")]

/-- The document of a field. -/
def document (f : TargetField) : Document :=
  .record (Document.field "name" f.name ++ Document.field "type" f.type.render
    ++ Document.field "visibility" f.visibility.word
    ++ Document.texts "modifiers" f.modifierWords ++ Document.optional "init" f.init)

end TargetField

namespace TargetMethod

/-- The flags of a method by name. -/
def modifierWords (m : TargetMethod) : List Text :=
  flagWords
    [(m.isStatic, "static"), (m.isConstructor, "constructor"), (m.isAbstract, "abstract")]

/-- The document of a method. -/
def document (m : TargetMethod) : Document :=
  let parameters := m.parameters.map fun p =>
    Document.record (Document.field "name" p.name ++ Document.field "type" p.type.render)
  .record (Document.field "selector" m.selector ++ Document.field "returns" m.resultText
    ++ Document.items "parameters" parameters ++ Document.field "visibility" m.visibility.word
    ++ Document.texts "modifiers" m.modifierWords)

end TargetMethod

namespace ClassModel

/-- Whether the model is a class or a protocol, in words. -/
def kindWord (m : ClassModel) : Text := if m.isProtocol then "protocol" else "class"

/-- The name of the base class, which a protocol does not have. -/
def baseWord (m : ClassModel) : Text := if m.isProtocol then [] else m.base.name

/-- The document of a class model. -/
def document (m : ClassModel) : Document :=
  .record (Document.field "name" m.name ++ Document.field "kind" m.kindWord
    ++ Document.optional "base" m.baseWord
    ++ Document.texts "protocols" (m.protocols.map ClassRef.name)
    ++ Document.texts "imports" (m.imports.map ClassRef.name)
    ++ Document.items "fields" (m.fields.map TargetField.document)
    ++ Document.items "methods" (m.methods.map TargetMethod.document)
    ++ Document.field "header" m.headerFile ++ Document.field "impl" m.implementationFile)

/-- Flags in brackets, if there are any. -/
def bracketed (words : List Text) : Text :=
  if words.isEmpty then [] else " [" ++ Text.join " " words ++ "]"

/-- The line of a field in an outline. -/
def fieldLine (f : TargetField) : Text :=
  "  field " ++ f.visibility.word ++ " " ++ f.type.declare f.name ++ bracketed f.modifierWords
    ++ (if f.init.isEmpty then [] else " = " ++ f.init : Text) ++ "\n"

/-- The line of a method in an outline. -/
def methodLine (m : TargetMethod) : Text :=
  "  method " ++ m.visibility.word ++ " (" ++ m.resultText ++ ")" ++ m.selector
    ++ bracketed m.modifierWords ++ "\n"

/-- The class model as an indented outline. -/
def outline (m : ClassModel) : Text :=
  let base : Text := if m.baseWord.isEmpty then [] else " : " ++ m.baseWord
  let protocols : Text :=
    if m.protocols.isEmpty then []
    else " <" ++ Text.join ", " (m.protocols.map ClassRef.name) ++ ">"
  let imports : Text :=
    if m.imports.isEmpty then []
    else "  imports: " ++ Text.join ", " (m.imports.map ClassRef.name) ++ "\n"
  m.kindWord ++ " " ++ m.name ++ base ++ protocols ++ "\n"
    ++ "  files: " ++ m.headerFile ++ " " ++ m.implementationFile ++ "\n"
    ++ imports ++ m.fields.flatMap fieldLine ++ m.methods.flatMap methodLine

end ClassModel

/-- The formats class models are shown in. -/
inductive ModelFormat where
  | outline | json | yaml
  deriving DecidableEq, Repr

namespace ModelFormat

/-- The format of a name; no name means the outline. -/
def ofName (name : Text) : Except Failure ModelFormat :=
  if name.isEmpty || name == "text" then .ok .outline
  else if name = "json" then .ok .json
  else if name = "yaml" then .ok .yaml
  else .error (.unknownFormat name)

/-- A class model in a format. -/
def render (format : ModelFormat) (m : ClassModel) : Text :=
  match format with
  | .outline => m.outline
  | .json => m.document.toJson
  | .yaml => m.document.toYaml

end ModelFormat

namespace Problem

/-- The document of a problem. -/
def document (p : Problem) : Document :=
  .record (Document.field "message" p.message
    ++ Document.texts "expected" (p.expected.map fun k => Text.ofString k.name))

end Problem

namespace Node

mutual

/-- The document of a tree. -/
def document : Node → Document
  | ⟨kind, span, token, problem, children⟩ =>
    let place : Text := if span.start.line = 0 then [] else span.start.describe []
    let problemField := match problem with
      | some p => [("error", p.document)]
      | none => []
    .record (Document.field "kind" kind.name ++ Document.optional "at" place
      ++ Document.optional "token" ((token.map Token.literal).getD [])
      ++ problemField ++ Document.items "children" (documents children))

/-- The documents of several trees. -/
def documents : List Node → List Document
  | [] => []
  | n :: rest => document n :: documents rest

end

/-- A tree as YAML, or as JSON. -/
def render (n : Node) (asYaml : Bool) : Text :=
  if asYaml then n.document.toYaml else n.document.toJson

end Node

end JavaObjC
