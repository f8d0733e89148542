import JavaObjC.Text.Basic

/-!
# Documents

Models and trees are shown to users as documents: texts, lists and records
whose fields have an order. Fields that would be empty are left out when a
document is built.
-/

namespace JavaObjC

/-- A document. -/
inductive Document where
  | text (content : Text)
  | list (items : List Document)
  | record (fields : List (String × Document))

instance : Inhabited Document := ⟨.text []⟩

namespace Document

/-- A field that is always there. -/
def field (name : String) (content : Text) : List (String × Document) := [(name, .text content)]

/-- A field that is left out when it is empty. -/
def optional (name : String) (content : Text) : List (String × Document) :=
  if content.isEmpty then [] else field name content

/-- A list that is left out when it is empty. -/
def items (name : String) (list : List Document) : List (String × Document) :=
  if list.isEmpty then [] else [(name, .list list)]

/-- A list of texts that is left out when it is empty. -/
def texts (name : String) (list : List Text) : List (String × Document) :=
  items name (list.map .text)

end Document

end JavaObjC
