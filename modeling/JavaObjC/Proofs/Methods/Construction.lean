import JavaObjC.Proofs.Methods.Delegation

/-!
# How an instance is made

An initializer either starts with a message to the superclass and then runs the
initial values and the blocks of the instance, or it starts with a message to
another initializer of the class and leaves them to that one. So each of them runs
once in the making of an instance, by whatever initializer it is made: what one
step runs is either everything or nothing, and only the last step of a chain of
initializers runs anything. The chains are those of the constructors, since a
constructor that hands over to another one becomes an initializer that starts with
the message of the other one.
-/

namespace JavaObjC

open Generating

namespace ClassModel

variable {m : ClassModel} {f f' : TargetMethod} {code code' own : Text}

/-- What an initializer runs between its message and its own statements. -/
def Carries (m : ClassModel) (f : TargetMethod) (code : Text) : Prop :=
  m.methodBody f = indented 1 ("self = " ++ initCallOf f ++ ";") ++ indented 1 "if (self) \x7b" ++
    code ++ Stmt.lines (f.body.getD []) 2 ++ indented 1 "\x7d" ++ indented 1 "return self;"

/-- A method carries one initialization at most. -/
theorem Carries.unique (h : m.Carries f code) (h' : m.Carries f code') : code = code' := by
  have heq := h.symm.trans h'
  simp only [List.append_assoc] at heq
  exact List.append_cancel_right
    (List.append_cancel_left (List.append_cancel_left heq))

/-- What runs of a class in the making of an instance by an initializer, apart from the statements
of constructors: what the initializer carries, after what the initializer carries that it starts
with, and so on up to one that starts with the superclass. -/
inductive Construction (m : ClassModel) : TargetMethod → Text → Prop where
  | outer {f : TargetMethod} {own : Text} (hf : f ∈ m.definedMethods)
      (hcall : Text.startsWith (initCallOf f) "[super " = true) (hcarries : m.Carries f own) :
      Construction m f own
  | inner {f f' : TargetMethod} {before own : Text} (hf : f ∈ m.definedMethods)
      (hreceiver : f'.isStatic = false)
      (hcall : IsMessage "self" f'.selector (initCallOf f)) (hcarries : m.Carries f own)
      (hbefore : Construction m f' before) : Construction m f (before ++ own)

/-- A class whose initializers either carry some code or start with another initializer. -/
structure Carrying (m : ClassModel) (code : Text) : Prop where
  carries : ∀ f ∈ m.definedMethods, f.isConstructor = true →
    m.Carries f (if Text.startsWith (initCallOf f) "[self " then [] else code)
  closed : ∀ f ∈ m.definedMethods, f.isConstructor = true → ∀ f' ∈ m.definedMethods,
    f'.isStatic = false → IsMessage "self" f'.selector (initCallOf f) → f'.isConstructor = true

/-- A construction is one of the methods the class defines. -/
theorem Construction.mem (h : m.Construction f code) : f ∈ m.definedMethods := by
  cases h with
  | outer hf => exact hf
  | inner hf => exact hf

/-- No text goes both to the object itself and to its superclass. -/
theorem startsWith_self_of_super {text : Text} (h : Text.startsWith text "[super " = true) :
    Text.startsWith text "[self " = false := by
  obtain ⟨rest, rfl⟩ := List.isPrefixOf_iff_prefix.1 h
  rfl

/-- A message to the object begins with it. -/
theorem startsWith_self_of_isMessage {selector text : Text} (h : IsMessage "self" selector text) :
    Text.startsWith text "[self " = true := by
  obtain ⟨keywords, arguments, hsend, -⟩ := h
  obtain ⟨rest, rfl⟩ := Lowering.startsWith_of_send? hsend
  rfl

/-- A step towards the superclass that carries everything, or one that carries nothing. -/
theorem Carrying.step (hm : m.Carrying code) (hf : f ∈ m.definedMethods)
    (hconstructor : f.isConstructor = true) (h : m.Carries f own) :
    own = if Text.startsWith (initCallOf f) "[self " then [] else code :=
  h.unique (hm.carries f hf hconstructor)

/-- In whatever way an instance is made, the code runs once. -/
theorem Carrying.runs_once {run : Text} (hm : m.Carrying code) (h : m.Construction f run)
    (hf : f.isConstructor = true) : run = code := by
  induction h with
  | outer hmem hcall hcarries =>
    rw [hm.step hmem hf hcarries, startsWith_self_of_super hcall]
    rfl
  | @inner f f' before own hmem hreceiver hcall hcarries hbefore ih =>
    have hnothing := hm.step hmem hf hcarries
    rw [startsWith_self_of_isMessage hcall, if_pos rfl] at hnothing
    rw [hnothing, List.append_nil]
    exact ih (hm.closed f hmem hf f' hbefore.mem hreceiver hcall)

end ClassModel

/-- A class whose methods come from the members of a declaration, with constructors that differ in
their numbers of parameters, and without methods that are named like initializers. -/
structure ClassModel.Declares (m : ClassModel) (around : Surroundings) (decl : Node)
    (added : List TargetMethod) : Prop where
  commaFree : around.mapper.CommaFree
  named : around.registry.Named
  unit : around.unit = some (.ofDecl decl)
  infos : ∀ info ∈ decl.memberInfos, WellNamed info
  members : List.Forall₂ (Lowering.Translates false around)
    (decl.members.filter Node.declaresMethod) added
  methods : m.methods = firstPerKey ClassBuilder.messageKey (added.foldl addedTo [])
  arities : ((ClassSignature.ofDecl decl).constructors.map MethodSignature.arity).Nodup
  names : ∀ info ∈ (ClassSignature.ofDecl decl).methods, Text.namesInitializer info.name = false

namespace ClassModel.Declares

variable {m : ClassModel} {around : Surroundings} {decl n : Node} {added : List TargetMethod}
  {f f' : TargetMethod} {code : Text}

variable (h : m.Declares around decl added)

include h

/-- The methods added to a class reflect its members one by one. -/
theorem reflects :
    List.Forall₂ (fun info f => TargetMethod.Reflects around.mapper around.registry info.1 info.2 f)
    decl.memberInfos added :=
  Lowering.reflects_of_translates h.members

/-- The methods of a class are not named like initializers. -/
theorem method_names :
    ∀ info ∈ decl.memberInfos, info.1 = false → Text.namesInitializer info.2.name = false := by
  intro info hinfo hkind
  refine h.names info.2 ?_
  rw [ofDecl_methods_eq]
  exact List.mem_map_of_mem (List.mem_filter.2 ⟨hinfo, by simpa using hkind⟩)

/-- A method of the class comes from a member. -/
theorem mem_added (hf : f ∈ m.methods) : f ∈ added := by
  rw [h.methods, firstPerKey_eq] at hf
  exact (mem_of_mem_foldl_addedTo ((firstBy_sublist _ _).subset hf)).resolve_left
    List.not_mem_nil

/-- What answers the message of an initializer is one. -/
theorem isConstructor_of_selector (hf : f ∈ m.definedMethods) (hreceiver : f.isStatic = false)
    (hselector : Text.namesInitializer f.selector = true) : f.isConstructor = true := by
  unfold definedMethods at hf
  rcases List.mem_append.1 hf with hmade | hdeclared
  · rcases List.mem_append.1 hmade with hclass | hinit
    · have hmessage := classInitializer?_message (Option.mem_toList.1 hclass)
      rw [TargetMethod.message, hreceiver] at hmessage
      cases hmessage
    · split at hinit
      · rw [List.mem_singleton.1 hinit]
        rfl
      · cases hinit
  · obtain ⟨info, hinfo, hreflects⟩ :=
      exists_of_mem_forall₂ h.reflects (h.mem_added (List.mem_filter.1 hdeclared).1)
    exact hreflects.isConstructor_of_selector (h.method_names info hinfo) hselector

/-- The implementations in the file answer different messages. -/
theorem messages_nodup : (m.definedMethods.map TargetMethod.message).Nodup := by
  have hspelled : ∀ f ∈ added.foldl addedTo [], f.Spelled := by
    intro f hf
    obtain ⟨info, hinfo, hreflects⟩ := exists_of_mem_forall₂ h.reflects
      ((mem_of_mem_foldl_addedTo hf).resolve_left List.not_mem_nil)
    exact hreflects.spelled h.commaFree h.named (h.infos info hinfo)
  refine definedMethods_nodup (h.methods ▸ (firstPerKey_messages hspelled).1) ?_
  intro hneeds f hf hmessage
  have hmethod := isConstructor_of_needsInit hneeds hf
  obtain ⟨info, hinfo, hreflects⟩ := exists_of_mem_forall₂ h.reflects (h.mem_added hf)
  have hinit : Text.namesInitializer f.selector = true := by
    rw [(Prod.mk.inj hmessage).2]
    decide
  rw [hreflects.isConstructor_of_selector (h.method_names info hinfo) hinit] at hmethod
  cases hmethod

/-- Every constructor has an initializer in the file. -/
theorem exists_initializer (hn : n ∈ decl.members) (hkind : n.kind = .constructorDecl) :
    ∃ f ∈ m.definedMethods, Lowering.Translates false around n f ∧ f.isConstructor = true := by
  have hn' : n ∈ decl.members.filter Node.declaresMethod :=
    List.mem_filter.2 ⟨hn, by simp [Node.declaresMethod, hkind]⟩
  obtain ⟨front, back, hsplit⟩ := List.append_of_mem hn'
  obtain ⟨before, f, after, heq, -, hf⟩ := forall₂_split (hsplit ▸ h.members)
  have hconstructor : f.isConstructor = true ∧ f.isClassInitializer = false := by
    cases hf with
    | method hmethod =>
      rw [hkind] at hmethod
      cases hmethod
    | constructor => exact ⟨rfl, rfl⟩
  have harities := h.arities
  rw [ofDecl_constructors_eq] at harities
  have hkept : f ∈ m.methods := by
    rw [h.methods]
    exact constructor_kept h.commaFree h.named h.infos h.reflects harities h.method_names
      (by simp [heq]) hconstructor.1
  refine ⟨f, List.mem_append_right _ (List.mem_filter.2 ⟨hkept, ?_⟩), hf, hconstructor.1⟩
  simp [hconstructor.2]

/-- An initializer of the class is the made up one or comes from a constructor. -/
theorem eq_or_exists_constructor (hf : f ∈ m.definedMethods) (hconstructor : f.isConstructor = true)
    : f = synthesizedInit ∨ ∃ n ∈ decl.members, Lowering.Translates false around n f := by
  refine (eq_synthesizedInit_or_mem hf hconstructor).imp_right fun hmem => ?_
  obtain ⟨n, hn, htranslates⟩ := exists_of_mem_forall₂ h.members (h.mem_added hmem)
  exact ⟨n, (List.mem_filter.1 hn).1, htranslates⟩

/-- The initializers of the class carry what its fields and blocks are. -/
theorem carrying {parts : List ClassPart}
    (hparts : m.Holds parts) :
    m.Carrying ((ClassPart.fieldsFirst (ClassPart.steps false parts)).flatMap
      (ClassPart.instanceCode 2)) where
  carries f _ hconstructor := hparts.methodBody_eq hconstructor
  closed f hf hconstructor f' hf' hreceiver hcall := by
    rcases h.eq_or_exists_constructor hf hconstructor with rfl | ⟨n, hn, htranslates⟩
    · have hself := startsWith_self_of_isMessage hcall
      exact absurd hself (by decide)
    · have hdelegates := (htranslates.delegates hconstructor).2
      rw [startsWith_self_of_isMessage hcall] at hdelegates
      obtain ⟨_, -, _, _, _, -, hsend⟩ := htranslates.sent hconstructor hdelegates.symm
      obtain ⟨w, htext, hw⟩ := Lowering.sendInit_names hsend
      rw [htext] at hcall
      exact h.isConstructor_of_selector hf' hreceiver (hcall.namesInitializer hw)

end ClassModel.Declares

/-- A constructor of a class from which handing over leads to the superclass. -/
inductive Node.ReachesSuper (decl : Node) : Node → Prop where
  | last {n : Node} (hn : n ∈ decl.members) (hkind : n.kind = .constructorDecl)
      (hdelegates : n.delegates = false) : Node.ReachesSuper decl n
  | next {n target : Node} (hn : n ∈ decl.members) (hkind : n.kind = .constructorDecl)
      (hover : n.handsOverTo target = true) (hrest : Node.ReachesSuper decl target) :
      Node.ReachesSuper decl n

/-- A constructor that reaches the class above is a member. -/
theorem Node.ReachesSuper.mem {decl n : Node} (h : decl.ReachesSuper n) : n ∈ decl.members := by
  cases h with
  | last hn => exact hn
  | next hn => exact hn

/-- Every chain of constructors that reaches the superclass is one of initializers. -/
theorem ClassModel.Declares.exists_construction {m : ClassModel} {around : Surroundings}
    {decl n : Node} {added : List TargetMethod} {code : Text} (h : m.Declares around decl added)
    (hcarrying : m.Carrying code) (hn : decl.ReachesSuper n) :
    ∃ f, Lowering.Translates false around n f ∧ f.isConstructor = true ∧
      m.Construction f code := by
  induction hn with
  | last hn hkind hdelegates =>
    obtain ⟨f, hf, htranslates, hconstructor⟩ := h.exists_initializer hn hkind
    have hself := (htranslates.delegates hconstructor).2
    have hcarries := hcarrying.carries f hf hconstructor
    rw [hself, hdelegates, if_neg (by simp)] at hcarries
    exact ⟨f, htranslates, hconstructor,
      .outer hf (htranslates.startsWith_super hconstructor hdelegates) hcarries⟩
  | next hn hkind hover hrest ih =>
    obtain ⟨f', htarget, hconstructor', hbefore⟩ := ih
    obtain ⟨f, hf, htranslates, hconstructor⟩ := h.exists_initializer hn hkind
    have hself := (htranslates.delegates hconstructor).2
    have hcarries := hcarrying.carries f hf hconstructor
    rw [hself, Node.delegates_of_handsOverTo hover, if_pos rfl] at hcarries
    have hcall := htranslates.handsOver hconstructor hover h.unit h.arities hrest.mem htarget
    have hall := ClassModel.Construction.inner hf (htarget.isStatic_eq hconstructor') hcall
      hcarries hbefore
    rw [List.append_nil] at hall
    exact ⟨f, htranslates, hconstructor, hall⟩

namespace Generator

open ClassPart ClassModel

/-- What runs in the making of an instance of a class whose constructors differ in their numbers
of parameters and that has no method `init` and none whose name starts with `initWith`, if no
configured type is a list. The members of the class stand for parts in the order of the source, and
some arrangement runs of the parts that initialize instances: the fields with an initial value, of
several fields of one name the first one only, and the blocks. Every constructor has exactly one
implementation in the file, and that one carries nothing of the arrangement if the constructor
begins with `this`, and otherwise all of it before its own statements. If there is a constructor
with as many parameters as the call with `this` has arguments, what the implementation starts with
is the message that the implementation of that constructor answers. A class without constructors
has exactly one initializer made up if anything is to run, and that carries all of it. Hence every
chain of constructors that reaches the superclass is the making of an instance in which all of the
arrangement runs once, and so it does in every making of an instance. -/
theorem initializers_run_once {options : GeneratorOptions} {declared : List ClassSignature}
    {g : Generator} {path source : Text} {cu : Node} {unit : GeneratedUnit} {decl : Node}
    (hg : Session options declared g)
    (hmap : ∀ entry ∈ options.typeMap, Text.byte ',' ∉ entry.2)
    (hparsed : parseForGeneration path source = .ok cu)
    (hunit : g.generateUnit path cu = .ok unit) (hprimary : primaryType? cu = some decl)
    (hclass : (ClassSignature.ofDecl decl).isInterface = false)
    (harities : ((ClassSignature.ofDecl decl).constructors.map MethodSignature.arity).Nodup)
    (hnames : ∀ info ∈ (ClassSignature.ofDecl decl).methods,
      Text.namesInitializer info.name = false) :
    ∃ rows run, List.Forall₂ (Lowering.Contributes false (g.memberSurroundings cu decl))
        decl.members rows ∧
      run.Perm (steps false rows.flatten) ∧
      (∀ n ∈ decl.members, n.kind = .constructorDecl → ∃ f,
        Lowering.Translates false (g.memberSurroundings cu decl) n f ∧
        unit.model.definedMethods.filter (·.message = f.message) = [f] ∧
        unit.model.Carries f (if n.delegates then [] else run.flatMap (instanceCode 2)) ∧
        ∀ target ∈ decl.members, n.handsOverTo target = true →
          ∀ f', Lowering.Translates false (g.memberSurroundings cu decl) target f' →
            IsMessage "self" f'.selector (initCallOf f)) ∧
      ((∀ n ∈ decl.members, n.kind ≠ .constructorDecl) → run ≠ [] →
        unit.model.definedMethods.filter (·.message = synthesizedInit.message) =
          [synthesizedInit] ∧
        unit.model.Carries synthesizedInit (run.flatMap (instanceCode 2))) ∧
      (∀ n, decl.ReachesSuper n → ∃ f,
        Lowering.Translates false (g.memberSurroundings cu decl) n f ∧
        unit.model.Construction f (run.flatMap (instanceCode 2))) ∧
      ∀ f code, f.isConstructor = true → unit.model.Construction f code →
        code = run.flatMap (instanceCode 2) := by
  obtain ⟨htree, hclean⟩ := derives_of_parseForGeneration hparsed
  have hkind := htree.unit_kind hclean
  obtain ⟨decl', supertypes, rows, imports, hprimary', -, hdecl, hdeclares, htrace, hmodel⟩ :=
    generateUnit_parts hkind hclean hunit
  obtain rfl : decl = decl' := Option.some.inj (hprimary.symm.trans hprimary')
  have hrows := htrace.members
  rw [hclass] at hrows
  have hholds : unit.model.Holds rows.flatten := by
    rw [hmodel]
    exact ⟨htrace.fields_eq, htrace.blocks_eq.1, htrace.blocks_eq.2⟩
  have hmapper : g.mapper.CommaFree := by
    rw [hg.mapper_eq]
    exact TypeMapper.ofEntries_commaFree hmap
  have h : unit.model.Declares (g.memberSurroundings cu decl) decl
      (rows.flatten.filterMap method?) :=
    { commaFree := hmapper
      named := fun entry hentry => (hg.sound entry hentry).target_name
      unit := rfl
      infos := wellNamed_of_memberInfos (Lowering.derives_typeDecl hclean htree hdecl hdeclares)
        (hclean.child hdecl) hdeclares
      members := Lowering.translates_of_contributes hrows
      methods := by
        rw [foldl_addedTo_eq, hmodel, ← htrace.methods_eq]
        rfl
      arities := harities
      names := hnames }
  have hcarrying := h.carrying hholds
  have hperm : (fieldsFirst (steps false rows.flatten)).Perm (steps false rows.flatten) :=
    List.filter_append_perm isField _
  refine ⟨rows, fieldsFirst (steps false rows.flatten), hrows, hperm, fun n hn hconstructor => ?_,
    fun hnone hruns => ?_, fun n hn => ?_, fun f code hf hrun => hcarrying.runs_once hrun hf⟩
  · obtain ⟨f, hf, htranslates, hinitializer⟩ := h.exists_initializer hn hconstructor
    refine ⟨f, htranslates, filter_key_of_nodup h.messages_nodup hf, ?_,
      fun target htarget hover f' hf' =>
        htranslates.handsOver hinitializer hover h.unit harities htarget hf'⟩
    rw [← (htranslates.delegates hinitializer).2]
    exact hcarrying.carries f hf hinitializer
  · have hmethods : ∀ f ∈ unit.model.methods, f.isConstructor = false := by
      intro f hf
      obtain ⟨n, hn, htranslates⟩ := exists_of_mem_forall₂ h.members (h.mem_added hf)
      by_contra hinitializer
      exact hnone n (List.mem_filter.1 hn).1
        (htranslates.delegates (by simpa using hinitializer)).1
    have hsteps : steps false rows.flatten ≠ [] := fun hempty =>
      hruns (hperm.trans (.of_eq hempty)).eq_nil
    have hmade := hholds.synthesizedInit_mem hsteps hmethods
    exact ⟨filter_key_of_nodup h.messages_nodup hmade, hcarrying.carries _ hmade rfl⟩
  · obtain ⟨f, htranslates, -, hrun⟩ := h.exists_construction hcarrying hn
    exact ⟨f, htranslates, hrun⟩

/-- The numbers of parameters of the constructors of a source, and the bodies of the initializers
in the file of its class, if it is generated. -/
def initializerBodies? (options : GeneratorOptions) (source : Text) :
    Option (List Nat × List Text) := do
  let s ← Registry.unitSignature? (Entry.compilationUnit.read source).1
  let unit ← ((ofOptions options).generateSource "A.java" source).1.toOption
  return (s.constructors.map MethodSignature.arity,
    (unit.model.definedMethods.filter (·.isConstructor)).map unit.model.methodBody)

/-- The body of an initializer that gives a variable its initial value. -/
def outerBody : Text :=
  "    self = [super init];\n    if (self) \x7b\n        x = 1;\n    \x7d\n    return self;\n"

/-- The body of an initializer that starts with another one for a number. -/
def innerBody : Text :=
  "    self = [self initWith:1];\n    if (self) \x7b\n    \x7d\n    return self;\n"

/-- A constructor that begins with `this` leaves the initial values out even if there is no
constructor for its arguments; of two fields of one name the second one is left out with its
initial value; and a configured type that is a list of types lets one constructor give way to
another. -/
theorem initializers_can_be_left_out :
    initializerBodies? {} "class A\x7bint x = 1; A()\x7bthis(1);\x7d\x7d" = some ([0],
      [innerBody]) ∧
    initializerBodies? {} "class A\x7bint x = 1; int x = 2; A()\x7b\x7d\x7d" = some ([0],
      [outerBody]) ∧
    initializerBodies? { typeMap := [("X", "int,int")] }
        "class A\x7bint x = 1; A(int a, int b)\x7b\x7d A(X x)\x7b\x7d\x7d" = some ([2, 1],
      [outerBody]) := by
  decide +kernel

/-- A class with an initialized variable, a block, and a constructor that hands over to another
one. -/
def chainedSource : Text :=
  "class A\x7bint x = 1; \x7bint k = 2;\x7d A()\x7bthis(1);\x7d A(int y)\x7b\x7d\x7d"

/-- An instance of the class is made by way of both of its initializers, and all runs once. -/
theorem initializers_run_once_of_chain :
    ∃ unit decl n f rows, ∃ run : List ClassPart, (ofOptions {}).generateUnit "A.java"
        (Entry.compilationUnit.read chainedSource).1 = .ok unit ∧
      primaryType? (Entry.compilationUnit.read chainedSource).1 = some decl ∧
      (ClassSignature.ofDecl decl).isInterface = false ∧
      ((ClassSignature.ofDecl decl).constructors.map MethodSignature.arity).Nodup ∧
      (∀ info ∈ (ClassSignature.ofDecl decl).methods,
        Text.namesInitializer info.name = false) ∧
      run.Perm (steps false rows) ∧ decl.ReachesSuper n ∧ n.delegates = true ∧
      unit.model.Construction f (run.flatMap (instanceCode 2)) := by
  -- one evaluation, so that the source is read once
  obtain ⟨haccepted, hdeclared, hgenerated⟩ :
      (Parsed.ofSource .compilationUnit chainedSource).problems = [] ∧
      (primaryType? (Entry.compilationUnit.read chainedSource).1).map
        (fun decl => ((ClassSignature.ofDecl decl).isInterface,
          (ClassSignature.ofDecl decl).methods.map fun info => info.name,
          (ClassSignature.ofDecl decl).constructors.map MethodSignature.arity,
          decl.members.any fun n => n.kind = .constructorDecl && decl.members.any fun target =>
            target.kind = .constructorDecl && !target.delegates && n.handsOverTo target)) =
        some (false, [], [0, 1], true) ∧
      ((ofOptions {}).generateUnit "A.java"
        (Entry.compilationUnit.read chainedSource).1).toOption.isSome = true := by
    decide +kernel
  have hparsed := parseForGeneration_of_accepted "A.java" haccepted
  obtain ⟨decl, hprimary, hfacts⟩ := Option.map_eq_some_iff.1 hdeclared
  obtain ⟨hclass, hfacts⟩ := Prod.mk.inj hfacts
  obtain ⟨hmethods, hfacts⟩ := Prod.mk.inj hfacts
  obtain ⟨harities, hchain⟩ := Prod.mk.inj hfacts
  have hnames : ∀ info ∈ (ClassSignature.ofDecl decl).methods,
      Text.namesInitializer info.name = false := by
    rw [List.map_eq_nil_iff.1 hmethods]
    simp
  have hnodup : ((ClassSignature.ofDecl decl).constructors.map MethodSignature.arity).Nodup := by
    rw [harities]
    decide
  obtain ⟨n, hn, hover⟩ := List.any_eq_true.1 hchain
  rw [Bool.and_eq_true, decide_eq_true_eq] at hover
  obtain ⟨target, htarget, hlast⟩ := List.any_eq_true.1 hover.2
  simp only [Bool.and_eq_true, decide_eq_true_eq, Bool.not_eq_true'] at hlast
  have hreaches : decl.ReachesSuper n :=
    .next hn hover.1 hlast.2 (.last htarget hlast.1.1 hlast.1.2)
  cases hunit : (ofOptions {}).generateUnit "A.java"
      (Entry.compilationUnit.read chainedSource).1 with
  | error f =>
    rw [hunit] at hgenerated
    cases hgenerated
  | ok unit =>
    obtain ⟨rows, run, -, hperm, -, -, hchains, -⟩ := initializers_run_once
      (.fresh : Session {} [] _) (List.forall_mem_nil _) hparsed hunit hprimary hclass hnodup
      hnames
    obtain ⟨f, -, hrun⟩ := hchains n hreaches
    exact ⟨unit, decl, n, f, rows.flatten, run, rfl, hprimary, hclass, hnodup, hnames, hperm,
      hreaches, Node.delegates_of_handsOverTo hlast.2, hrun⟩

end Generator

end JavaObjC
