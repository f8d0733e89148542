import JavaObjC.Lowering.Members

/-!
# Where locals are visible

The rules by which a name in a body finds its declaration, without running the
generator: a tree is decorated from the outside in, and each expression with the
scopes that are open where it stands. A block, a loop, a switch and a catch
clause open a scope, and so does the body of a compound statement that is no
block. A local is visible behind its initial value up to the end of its scope,
and hides the locals of the same name that were declared before it.

The type of a local that is declared without one is that of its initial value,
and a variable that is so declared in the head of a loop has the type of the
elements.
-/

namespace JavaObjC

open Lower Lowering

namespace Lower

/-- What an action gives where given scopes are open, unless it refuses. -/
def given? {α : Type} (around : Surroundings) (scopes : List Scope) (action : Lower α) :
    Option α := (action.run' around { scopes }).1.toOption

end Lower

namespace Lowering

/-- A name that stands alone where given scopes are open: the innermost local, or else a field or a
class. -/
def identifierIn (scopes : List Scope) (name : Text) : Lower Value :=
  match findLocal? name scopes with
  | some t => return .typed name t
  | none => do
    let around ← read
    match around.field? name with
    | some (f, owner) => return if f.isStatic then staticField f owner else .typed name f.type
    | none =>
      return { text := name, className := if around.isClassName name then some name else none }

/-- What a node means as an expression where given scopes are open. -/
def locatedMeaning (scopes : List Scope) (n : Node) (parts : Parts) : Meaning :=
  let usual := meaning n parts
  let value := identifierIn scopes n.literal
  if n.kind = .identifier then
    { usual with value, operands := do let v ← value; return ([v], isStringType v.type) }
  else usual

/-- An expression where given scopes are open. -/
def located (scopes : List Scope) (n : Node) : Attributed :=
  Attributed.ofNode (locatedMeaning scopes) n

/-- The type of a value where given scopes are open. -/
def typeIn (around : Surroundings) (scopes : List Scope) (value : Lower Value) : JavaType :=
  ((given? around scopes value).map Value.type).getD .unknown

/-- The local that a declarator declares. -/
def declaredLocal (around : Surroundings) (scopes : List Scope) (declared : JavaType)
    (decl : Attributed) : Text × JavaType :=
  (decl.parts.name,
    match decl.parts[1]? with
    | some start =>
      if declared.isVar then typeIn around scopes (initialValue start declared) else declared
    | none => declared)

/-- The declarators of a declaration, and the scopes behind them. -/
def locatedLocals (around : Surroundings) (declared : JavaType) (scopes : List Scope) :
    List Node → Parts × List Scope
  | [] => ([], scopes)
  | n :: rest =>
    let local' := declaredLocal around scopes declared (attributed n)
    let behind := if n.kind = .varDeclarator then declareIn local'.1 local'.2 scopes else scopes
    let (parts, last) := locatedLocals around declared behind rest
    (located scopes n :: parts, last)

/-- The variable of a loop over the elements of a collection. -/
def loopLocal (around : Surroundings) (scopes : List Scope) (parts : Parts) : Text × JavaType :=
  let written := loopType parts
  let collection := (parts.dropLast.getLast?.map Attributed.value).getD (throw .malformed)
  (parts.name, if written.isVar then elementOf (typeIn around scopes collection) else written)

/-- The parameter of a catch clause. -/
def caughtLocal (around : Surroundings) (scopes : List Scope) (parts : Parts) : Text × JavaType :=
  let written := match parts.first? .type with
    | some group =>
      match (group.parts.ofKind .type).map Attributed.type with
      | [] => caughtType group.type []
      | first :: others => caughtType first others
    | none => throw .malformed
  (parts.name, ((given? around scopes written).map Prod.fst).getD .unknown)

/-- The scopes around a body of a kind. A block opens its own scope. -/
def bodyScopes (scopes : List Scope) (kind : NodeKind) : List Scope :=
  if kind = .block then scopes else [] :: scopes

mutual

/-- A statement where given scopes are open, and the scopes behind it. -/
def resolved (around : Surroundings) (scopes : List Scope) : Node → Attributed × List Scope
  | ⟨kind, span, token, problem, children⟩ =>
    let n : Node := ⟨kind, span, token, problem, children⟩
    let whole := fun parts : Parts => (⟨n, meaning n parts, parts⟩ : Attributed)
    match kind with
    | .block => (whole (inOrder around (fun _ => true) none ([] :: scopes) children).1, scopes)
    | .localVarDecl =>
      let declared := ((children[1]?).map JavaType.ofNode).getD .unknown
      let (parts, behind) := locatedLocals around declared scopes children
      (whole parts, behind)
    | .switchCase | .forInit =>
      let (parts, behind) := inOrder around (fun _ => true) none scopes children
      (whole parts, behind)
    | .ifStmt | .whileStmt | .doStmt => (whole (bodies around scopes children), scopes)
    | .forStmt =>
      (whole (inOrder around (· = .forInit) (some []) ([] :: scopes) children).1, scopes)
    | .enhancedForStmt =>
      let variable' := loopLocal around scopes (children.map attributed)
      (whole (inOrder around (fun _ => false) (some [[variable']]) scopes children).1, scopes)
    | .switchStmt =>
      (whole (inOrder around (· = .switchCase) none ([] :: scopes) children).1, scopes)
    | .catchClause =>
      let parameter := caughtLocal around scopes (children.map attributed)
      (whole (inOrder around (· = .block) none ([parameter] :: scopes) children).1, scopes)
    | .synchronizedStmt => (whole (guarded around scopes children), scopes)
    | .tryStmt | .finallyClause =>
      (whole (inOrder around (· ∈ [.block, .catchClause, .finallyClause]) none scopes children).1,
        scopes)
    | _ => (located scopes n, scopes)

/-- Nodes one after the other, and the scopes behind them. Those of some kinds are statements, the
others expressions; the last one may be a body, with more scopes around it. -/
def inOrder (around : Surroundings) (isStatement : NodeKind → Bool) (body : Option (List Scope))
    (scopes : List Scope) : List Node → Parts × List Scope
  | [] => ([], scopes)
  | n :: rest =>
    match rest, body with
    | [], some inner => ([(resolved around (bodyScopes (inner ++ scopes) n.kind) n).1], scopes)
    | _, _ =>
      let (a, behind) :=
        if isStatement n.kind then resolved around scopes n else (located scopes n, scopes)
      let (parts, last) := inOrder around isStatement body behind rest
      (a :: parts, last)

/-- The bodies of a compound statement. -/
def bodies (around : Surroundings) (scopes : List Scope) : List Node → Parts
  | [] => []
  | n :: rest => (resolved around (bodyScopes scopes n.kind) n).1 :: bodies around scopes rest

/-- The parts of a synchronized statement: the lock, and what is a block behind it. -/
def guarded (around : Surroundings) (scopes : List Scope) : List Node → Parts
  | [] => []
  | lock :: rest => located scopes lock :: blocks around scopes rest

/-- Nodes that are taken for blocks. -/
def blocks (around : Surroundings) (scopes : List Scope) : List Node → Parts
  | [] => []
  | ⟨kind, span, token, problem, children⟩ :: rest =>
    let n : Node := ⟨kind, span, token, problem, children⟩
    let parts := (inOrder around (fun _ => true) none ([] :: scopes) children).1
    ⟨n, meaning n parts, parts⟩ :: blocks around scopes rest

end

end Lowering

end JavaObjC
