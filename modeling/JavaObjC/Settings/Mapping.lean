import JavaObjC.Failure
import JavaObjC.Keyed
import JavaObjC.Text.Blank

/-!
# Type mappings

Users map Java types to types of the target with entries of the form
`JavaType=ObjCType`. The first equals sign divides an entry, white space around
both sides does not count, and neither side may be empty.
-/

namespace JavaObjC

/-- The Java type and the target type of an entry. -/
def mappingOf (entry : Text) : Except Failure (Text × Text) :=
  match Text.cut? (Text.byte '=') entry with
  | some (java, target) =>
    let java := Text.trim java
    let target := Text.trim target
    if java.isEmpty || target.isEmpty then .error (.badMapping entry) else .ok (java, target)
  | none => .error (.badMapping entry)

/-- The mappings of a list of entries. Of several entries for one Java type,
the last counts. -/
def mappingsOf (entries : List Text) : Except Failure (List (Text × Text)) := do
  let pairs ← entries.mapM mappingOf
  return pairs.foldl (fun table (java, target) => setKey java target table) []

end JavaObjC
