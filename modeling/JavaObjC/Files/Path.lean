import JavaObjC.Text.Basic

/-!
# Paths

Paths are texts whose elements are separated by slashes. Cleaning a path
removes what does not change where it leads: empty elements, single points,
and each double point together with the element before it.
-/

namespace JavaObjC.Path

/-- The byte between the elements of a path. -/
def separator : UInt8 := 47

/-- The element that stands for the folder it is in. -/
def here : Text := "."

/-- The element that stands for the folder above. -/
def above : Text := ".."

/-- The elements of a path in order, empty ones included. -/
def elements (p : Text) : List Text := Text.splitOn separator p

/-- Whether a path starts at the root. -/
def isRooted (p : Text) : Bool := p.head? = some separator

/-- Adds an element to the elements before it, of which the last comes first. -/
def push (rooted : Bool) (stack : List Text) (element : Text) : List Text :=
  if element.isEmpty || element = here then stack
  else if element ≠ above then element :: stack
  else match stack with
    | top :: rest => if top = above then element :: stack else rest
    | [] => if rooted then [] else [element]

/-- The shortest path that leads to the same place. -/
def clean (p : Text) : Text :=
  let body := Text.join "/" ((elements p).foldl (push (isRooted p)) []).reverse
  if isRooted p then separator :: body else if body.isEmpty then here else body

/-- The path that leads from one path on to another, without empty parts. -/
def join (parts : List Text) : Text :=
  match parts.filter (!·.isEmpty) with
  | [] => []
  | kept => clean (Text.join "/" kept)

/-- The extension of the last element, with its point; empty if it has none. -/
def extension (p : Text) : Text :=
  let last := Text.afterLast separator p
  if 46 ∈ last then 46 :: Text.afterLast 46 last else []

/-- The path without separators at its end. -/
def withoutTrailing (p : Text) : Text := (p.reverse.dropWhile (· = separator)).reverse

/-- The path to the folder of the last element, if the path names one. -/
def parent? (p : Text) : Option Text :=
  match (p.reverse.dropWhile (· = separator)).dropWhile (· ≠ separator) with
  | _ :: b :: rest => some (b :: rest).reverse
  | _ => none

/-- The path to the folder is shorter. -/
theorem length_parent?_lt {p up : Text} (h : parent? p = some up) : up.length < p.length := by
  unfold parent? at h
  split at h
  · rename_i a b rest heq
    obtain rfl := Option.some.inj h
    have hle : (a :: b :: rest).length ≤ p.reverse.length := by
      rw [← heq]
      exact ((List.dropWhile_suffix _).trans (List.dropWhile_suffix _)).length_le
    simp only [List.length_cons, List.length_reverse] at hle ⊢
    omega
  · simp at h

end JavaObjC.Path
