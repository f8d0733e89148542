import JavaObjC.Document.Basic
import JavaObjC.Document.YamlScalar

/-!
# Documents as YAML

Block style throughout. What stands under a key is indented to the next
multiple of four; the fields of a list item are aligned after its dash.
-/

namespace JavaObjC

namespace Document

/-- The indentation of what stands under a key. -/
def yamlIndent (indent : Nat) : Nat := 4 * (indent / 4 + 1)

/-- The start of a line at an indentation. -/
def yamlLine (indent : Nat) : Text := Text.byte '\n' :: List.replicate indent 32

mutual

/-- A document after a key at an indentation. -/
def yamlValue (indent : Nat) : Document → Text
  | .text content => " " ++ Yaml.scalar (yamlIndent indent) content
  | .list items => if items.isEmpty then " []" else yamlItems (yamlIndent indent) items
  | .record fields =>
    if fields.isEmpty then " \x7b\x7d" else yamlFields (yamlIndent indent) fields

/-- A document after a dash at an indentation. -/
def yamlItem (indent : Nat) : Document → Text
  | .text content => " " ++ Yaml.scalar (indent + 2) content
  | .list items => if items.isEmpty then " []" else yamlItems (indent + 2) items
  | .record [] => " \x7b\x7d"
  | .record ((name, value) :: rest) =>
    " " ++ Text.ofString name ++ ":" ++ yamlValue (indent + 2) value
      ++ yamlFields (indent + 2) rest

/-- The items of a list, each on a new line. -/
def yamlItems (indent : Nat) : List Document → Text
  | [] => []
  | item :: rest => yamlLine indent ++ "-" ++ yamlItem indent item ++ yamlItems indent rest

/-- The fields of a record, each on a new line. -/
def yamlFields (indent : Nat) : List (String × Document) → Text
  | [] => []
  | (name, value) :: rest =>
    yamlLine indent ++ Text.ofString name ++ ":" ++ yamlValue indent value
      ++ yamlFields indent rest

end

/-- A record as a YAML file. -/
def toYaml : Document → Text
  | .record fields => (yamlFields 0 fields).drop 1 ++ "\n"
  | .list items => (yamlItems 0 items).drop 1 ++ "\n"
  | .text content => Yaml.scalar 0 content ++ "\n"

end Document

end JavaObjC
