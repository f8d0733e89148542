import JavaObjC.Proofs.Arithmetic
import JavaObjC.Proofs.Formats.Kinds
import JavaObjC.Proofs.Links.Names

/-!
# Directives and their arguments

A value is printed by a directive and an argument. The main statement says that
the two fit: strings, other objects and truth values are passed as objects, and
numbers and characters, boxed or not, as what their own directive takes.

An operand stands for itself where it is not put together with anything. A
truth value gets a question mark behind it and a `float` a cast in front of it,
and neither is put in parentheses, so that there the operand has to hold
together by itself.
-/

namespace JavaObjC

open C

/-- The text of a value is one argument, and it is passed as its Java type says. -/
structure Value.Stands (given : Expr → Option Kind) (v : Value) (e : Expr) : Prop where
  read : C.read v.text = some e
  kind : e.kind? given = some (Kind.ofType v.type)
  single : 1 < e.level
  /-- A boxed type is written without its package. -/
  simple : isBoxed v.type = true → simpleName v.type.name = v.type.name
  /-- A truth value stays one operand in front of a question mark. -/
  condition : v.type.isPrimitive = true → v.type.name = Text.ofString "boolean" →
    e.isFirm choiceLevel = true
  /-- The left end of a `float` may become a `double`. -/
  castable : v.type.isPrimitive = true → v.type.name = Text.ofString "float" →
    e.isCastable given = true

/-- What a text is passed as that stands as one argument. -/
def C.argumentKind? (given : Expr → Option Kind) (t : Text) : Option Kind :=
  (read t).bind fun e => if 1 < e.level then e.kind? given else none

section Texts

variable {given : Expr → Option Kind} {e : Expr} {k : Kind} {t : Text}

/-- Nothing binds more tightly than an operand without operators. -/
theorem C.Expr.level_le (e : Expr) : e.level ≤ 14 := by
  cases e with
  | operation op l r =>
    have hlevels : ∀ p ∈ precedences.map Prod.snd, p ≤ 14 := by decide
    change (precedence? op).getD 0 ≤ 14
    cases hop : precedence? op with
    | none => exact Nat.zero_le 14
    | some p => exact hlevels p (Text.mem_of_find? hop)
  | choice c yes no => exact (by decide : choiceLevel ≤ 14)
  | word | bracketed | suffixed | group | sign | cast => exact le_rfl

theorem argumentKind?_of_read (ht : read t = some e) (hlevel : 1 < e.level) :
    argumentKind? given t = e.kind? given := by
  rw [argumentKind?, ht, Option.bind_some, if_pos hlevel]

/-- A choice between two strings is an object. -/
theorem argumentKind?_truth (ht : read t = some e) (hfirm : e.isFirm choiceLevel = true)
    (hk : e.kind? given = some k) (hnumber : k.isNumber = true) :
    argumentKind? given ("(" ++ t ++ " ? @\"true\" : @\"false\")") = some .object := by
  have htrue : read (Text.ofString "@" ++ "\"true\"") = some (.sign "@" (.word "\"true\"")) := by
    decide
  have hfalse : read (Text.ofString "@" ++ "\"false\"") = some (.sign "@" (.word "\"false\"")) := by
    decide
  have hgroup := read_group (read_choice ht hfirm htrue hfalse)
  have htext : Text.ofString "(" ++ t ++ " ? @\"true\" : @\"false\")" =
      "(" ++ (t ++ " ? " ++ (Text.ofString "@" ++ "\"true\"") ++ " : " ++
        (Text.ofString "@" ++ "\"false\"")) ++ ")" := by
    rw [List.append_assoc, List.append_assoc]
    congr 1
    simp only [List.append_assoc]
    congr 1
  rw [htext, argumentKind?_of_read hgroup (by exact (by decide : 1 < 14))]
  change Expr.kind? given (.choice e _ _) = _
  rw [Expr.kind?, hk, Option.bind_some]
  exact if_neg (by simp [hnumber])

/-- A number with a cast to `double` in front of it is a `double`. -/
theorem argumentKind?_double (ht : read t = some e) (hcast : e.isCastable given = true)
    (hk : e.kind? given = some .double) (hlevel : 1 < e.level) :
    argumentKind? given ("(double)" ++ t) = some .double := by
  have hwords : words "(double)" = some (["(", "double", ")"].map Text.ofString) := by
    decide
  have hread : read ("(double)" ++ t) = some (doubleCast.plug e) :=
    read_behind hwords rfl rfl (Pending.parts_of_free (by decide)) ht
  obtain ⟨k, hkind, -, hdouble⟩ := kind?_plug_doubleCast hcast hk
  have hsame : (doubleCast.plug e).level = e.level := level_plug_cast
  rw [argumentKind?_of_read hread (hsame ▸ hlevel), hkind, hdouble rfl]

/-- A message is passed as what its selector gives. -/
theorem argumentKind?_message {selector : Text} (ht : read t = some e)
    (hselector : IsSelector selector) : ∃ ws, read (message t selector) = some (.bracketed ws) ∧
      accessor? ws = Text.find? Kind.accessors selector := by
  obtain ⟨ws, -, hread⟩ := read_message ht hselector
  refine ⟨_, hread, ?_⟩
  rw [accessor?, ← List.cons_append, List.dropLast_concat, ← List.cons_append,
    List.getLast?_concat, Option.bind_some]

end Texts

section Fitting

variable {given : Expr → Option Kind} {e : Expr} {t : JavaType} {v : Value}

/-- A directive and an argument that fit a type. -/
def Fits (given : Expr → Option Kind) (t : JavaType) (printed : Text × Text) : Prop :=
  printed.1 = (Directive.printing t).spelling ∧
    argumentKind? given printed.2 = some (Directive.printing t).takes

/-- Only the name of a type that is no array counts. -/
theorem Directive.printing_named (h : t.isArray = false) :
    Directive.printing t = Directive.printing (.named t.name) := by
  rw [printing, if_neg (by simp [h]), printing, if_neg (by simp [JavaType.named, JavaType.isArray])]
  rfl

theorem Kind.ofType_named (h : t.isArray = false) :
    Kind.ofType t = Kind.ofType (.named t.name) := by
  have hnamed : (JavaType.named t.name).isPrimitive = t.isPrimitive := by
    rw [JavaType.isPrimitive, JavaType.isPrimitive, h]
    rfl
  rw [Kind.ofType, Kind.ofType, hnamed]
  rfl

/-- The directive and the argument for a number, a character or a truth value. -/
def printedAs (name text : Text) : Text × Text :=
  if name = Text.ofString "boolean" then
    ("%@", "(" ++ text ++ " ? @\"true\" : @\"false\")")
  else
    (((primitiveRef? name).map TypeRef.formatSpecifier).getD "%@",
      if name = Text.ofString "float" then "(double)" ++ text else text)

theorem formatArgument_of_isPrimitive (h : (numericType v.type).isPrimitive = true) :
    formatArgument v = printedAs (numericType v.type).name v.unboxed := by
  have harray := (JavaType.name_mem_of_isPrimitive h).2
  unfold formatArgument printedAs
  simp [h, harray]

/-- The directive of a primitive type takes what its values are passed as, but for truth values. -/
theorem primitive_printing : ∀ name ∈ JavaType.primitiveNames,
    if name = Text.ofString "boolean" then
      Directive.printing (.named name) = .object ∧ Kind.ofType (.named name) = .int
    else
      (primitiveRef? name).map TypeRef.formatSpecifier =
          some (Directive.printing (.named name)).spelling ∧
        Kind.ofType (.named name) = (Directive.printing (.named name)).takes ∧
        (name = Text.ofString "float" → Kind.ofType (.named name) = .double) := by
  decide

/-- What the table of the boxed types says of its entries. -/
theorem boxed_printing : ∀ entry ∈ boxedPrimitives,
    primitiveOf? entry.1 = some (Text.ofString entry.2) ∧
      Text.ofString entry.2 ∈ JavaType.primitiveNames ∧ IsSelector (unboxSelector entry.1) ∧
      Text.find? Kind.accessors (unboxSelector entry.1) = some (Kind.ofType (.named entry.2)) ∧
      Directive.printing (.named entry.1) = Directive.printing (.named entry.2) := by
  decide

/-- A primitive is passed as a number. -/
theorem Kind.ofType_isNumber (h : t.isPrimitive = true) : (Kind.ofType t).isNumber = true := by
  obtain ⟨hname, harray⟩ := JavaType.name_mem_of_isPrimitive h
  have hnames : ∀ name ∈ JavaType.primitiveNames, (Kind.ofType (.named name)).isNumber = true := by
    decide
  rw [Kind.ofType_named harray]
  exact hnames t.name hname

/-- A boxed value is read as its primitive is passed, and it is printed like its primitive. -/
theorem boxed_spec (hboxed : isBoxed t = true) (hsimple : simpleName t.name = t.name) :
    (numericType t).isPrimitive = true ∧ IsSelector (unboxSelector t.name) ∧
      Text.find? Kind.accessors (unboxSelector t.name) = some (Kind.ofType (numericType t)) ∧
      Directive.printing t = Directive.printing (numericType t) := by
  obtain ⟨hname, harray⟩ : isBoxedName t.name = true ∧ t.isArray = false := by
    simpa [isBoxed] using hboxed
  obtain ⟨primitive, hprimitive⟩ := Option.isSome_iff_exists.1 hname
  obtain ⟨found, hfound, -⟩ := Option.map_eq_some_iff.1 hprimitive
  rw [hsimple] at hfound
  obtain ⟨key, hmem, hkey⟩ := Text.exists_of_find? hfound
  obtain ⟨hof, hmember, hselector, haccessor, hprinting⟩ := boxed_printing _ hmem
  rw [hkey] at hof hselector haccessor hprinting
  have hnumeric : numericType t = .named found := by
    rw [numericType, hof]
    exact if_neg (by simp [harray])
  rw [hnumeric]
  refine ⟨?_, hselector, haccessor, (Directive.printing_named harray).trans hprinting⟩
  simpa [JavaType.isPrimitive, JavaType.named, JavaType.isArray] using hmember

/-- What is no primitive and not boxed is passed as it is. -/
theorem formatArgument_of_object (hboxed : isBoxed v.type = false)
    (hprimitive : v.type.isPrimitive = false) :
    formatArgument v = (Text.ofString "%@", v.text) := by
  have hboolean : ¬(v.type.name = Text.ofString "boolean" ∧ (!v.type.isArray) = true) := by
    rintro ⟨hname, harray⟩
    have hmem : Text.ofString "boolean" ∈ JavaType.primitiveNames := by decide
    rw [← hname] at hmem
    simp_all [JavaType.isPrimitive]
  unfold formatArgument
  rw [numericType_of_isBoxed_eq_false hboxed]
  dsimp only
  rw [if_neg hboolean, hprimitive]
  rfl

/-- What is no primitive and not boxed is printed as an object. -/
theorem printing_of_object (hboxed : isBoxed t = false) (hprimitive : t.isPrimitive = false) :
    Directive.printing t = .object := by
  have hscalars : ∀ entry ∈ Directive.scalars,
      isBoxedName entry.1 = true ∨ Text.ofString entry.1 ∈ JavaType.primitiveNames := by
    decide
  unfold Directive.printing
  split
  · rfl
  · next harray =>
    cases hfind : Text.find? Directive.scalars t.name with
    | none => rfl
    | some d =>
      obtain ⟨key, hmem, hkey⟩ := Text.exists_of_find? hfind
      have hscalar := hscalars _ hmem
      rw [hkey] at hscalar
      rcases hscalar with h | h
      · simp [isBoxed, h, harray] at hboxed
      · simp [JavaType.isPrimitive, h, harray] at hprimitive

/-- The directive and the argument of a primitive fit. -/
theorem printedAs_fits {name text : Text} (hname : name ∈ JavaType.primitiveNames)
    (hread : read text = some e) (hkind : e.kind? given = some (Kind.ofType (.named name)))
    (hlevel : 1 < e.level)
    (hcondition : name = Text.ofString "boolean" → e.isFirm choiceLevel = true)
    (hcast : name = Text.ofString "float" → e.isCastable given = true) :
    Fits given (.named name) (printedAs name text) := by
  have hprinting := primitive_printing name hname
  unfold Fits printedAs
  split at hprinting
  · next hboolean =>
    obtain ⟨hobject, hint⟩ := hprinting
    rw [if_pos hboolean, hobject]
    exact ⟨rfl,
      argumentKind?_truth hread (hcondition hboolean) (hkind.trans (congrArg some hint)) rfl⟩
  · next hboolean =>
    obtain ⟨hdirective, htakes, hdouble⟩ := hprinting
    rw [if_neg hboolean, hdirective]
    refine ⟨rfl, ?_⟩
    dsimp only
    split
    · next hfloat =>
      rw [← htakes, hdouble hfloat]
      exact argumentKind?_double hread (hcast hfloat) (hkind.trans (congrArg some (hdouble hfloat)))
        hlevel
    · rw [argumentKind?_of_read hread hlevel, hkind, htakes]

/-- A value read as a number stands for itself as its primitive does. -/
theorem Value.Stands.unboxed (h : v.Stands given e)
    (hprimitive : (numericType v.type).isPrimitive = true) :
    ∃ u, (Value.typed v.unboxed (numericType v.type)).Stands given u ∧ e.level ≤ u.level ∧
      (e.isCastable given = true → u.isCastable given = true) := by
  cases hboxed : isBoxed v.type with
  | true =>
    obtain ⟨-, hselector, haccessor, -⟩ := boxed_spec hboxed (h.simple hboxed)
    obtain ⟨ws, hread, hws⟩ := argumentKind?_message h.read hselector
    have hkind : Expr.kind? given (.bracketed ws) = some (Kind.ofType (numericType v.type)) := by
      rw [Expr.kind?, hws, haccessor]
      rfl
    have hcastable : Expr.isCastable given (.bracketed ws) = true := by
      change (Expr.kind? given (.bracketed ws)).any Kind.isNumber = true
      rw [hkind]
      exact Kind.ofType_isNumber hprimitive
    have hunboxed : v.unboxed = message v.text (unboxSelector v.type.name) := if_pos hboxed
    refine ⟨.bracketed ws, ?_, ?_, fun _ => hcastable⟩
    · have hplain : isBoxed (numericType v.type) = false := isBoxed_of_isPrimitive hprimitive
      exact {
        read := hunboxed ▸ hread
        kind := hkind
        single := (by decide : 1 < 14)
        simple := fun hbox => absurd hbox (by simp [Value.typed, hplain])
        condition := fun _ _ => rfl
        castable := fun _ _ => hcastable }
    · exact e.level_le
  | false =>
    have hnumeric := numericType_of_isBoxed_eq_false hboxed
    have hunboxed : v.unboxed = v.text := if_neg (by simp [hboxed])
    rw [hnumeric, hunboxed]
    exact ⟨e, { h with }, le_rfl, id⟩

/-- The directive and the argument of a value that stands for itself fit its type. -/
theorem Value.Stands.fits (h : v.Stands given e) : Fits given v.type (formatArgument v) := by
  cases hprimitive : (numericType v.type).isPrimitive with
  | true =>
    obtain ⟨hname, harray⟩ := JavaType.name_mem_of_isPrimitive hprimitive
    obtain ⟨u, hu, -⟩ := h.unboxed hprimitive
    have hprinting : Directive.printing v.type = Directive.printing (numericType v.type) := by
      cases hboxed : isBoxed v.type with
      | true => exact (boxed_spec hboxed (h.simple hboxed)).2.2.2
      | false => rw [numericType_of_isBoxed_eq_false hboxed]
    rw [formatArgument_of_isPrimitive hprimitive, Fits, hprinting, Directive.printing_named harray]
    exact printedAs_fits hname hu.read (hu.kind.trans (congrArg some (Kind.ofType_named harray)))
      hu.single (hu.condition hprimitive) (hu.castable hprimitive)
  | false =>
    have hboxed : isBoxed v.type = false := by
      by_contra hboxed
      have hboxed : isBoxed v.type = true := by simpa using hboxed
      rw [(boxed_spec hboxed (h.simple hboxed)).1] at hprimitive
      cases hprimitive
    rw [numericType_of_isBoxed_eq_false hboxed] at hprimitive
    rw [formatArgument_of_object hboxed hprimitive, Fits, printing_of_object hboxed hprimitive]
    refine ⟨rfl, ?_⟩
    rw [argumentKind?_of_read h.read h.single, h.kind, Kind.ofType, hprimitive]
    rfl

/-- A name stands for itself. -/
theorem Value.stands_name {name : Text} (hread : read name = some (.word name))
    (hkind : given (.word name) = some (Kind.ofType t))
    (hsimple : isBoxed t = true → simpleName t.name = t.name) :
    (Value.typed name t).Stands given (.word name) where
  read := hread
  kind := hkind
  single := (by decide : 1 < 14)
  simple := hsimple
  condition _ _ := rfl
  castable hprimitive hfloat := by
    have hname : t.name = Text.ofString "float" := hfloat
    have harray : t.isArray = false := (JavaType.name_mem_of_isPrimitive hprimitive).2
    have hdouble : (Kind.ofType (.named (Text.ofString "float"))).isNumber = true := by
      decide
    change (given (.word name)).any Kind.isNumber = true
    rw [hkind, Kind.ofType_named harray, hname]
    exact hdouble

end Fitting

end JavaObjC
