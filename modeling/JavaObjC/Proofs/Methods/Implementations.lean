import JavaObjC.Proofs.Headers.ImportBlock
import JavaObjC.Proofs.Links.Consistency

/-!
# Implementations of declared methods

An implementation file defines the class initializer, the initializer that is
made up for a class without constructors, and the methods of the class. They
answer different messages, unless a class without constructors that needs an
initializer has a method `init` itself. A class has a method for every member
that declares one, with the prototype and the body that the member has by
itself, as long as no earlier member answers the same message.
-/

namespace JavaObjC

section Lists

variable {α κ : Type} [DecidableEq κ] {key : α → κ}

/-- The only item of a key among items of different keys. -/
theorem filter_key_of_nodup {items : List α} {a : α} (h : (items.map key).Nodup) (ha : a ∈ items) :
    items.filter (key · = key a) = [a] := by
  induction items with
  | nil => cases ha
  | cons b rest ih =>
    rw [List.map_cons, List.nodup_cons] at h
    rcases List.mem_cons.1 ha with rfl | hrest
    · have hnone : rest.filter (key · = key a) = [] := by
        refine List.filter_eq_nil_iff.2 fun c hc => ?_
        have hne : key c ≠ key a := fun heq => h.1 (heq ▸ List.mem_map_of_mem hc)
        simpa using hne
      rw [List.filter_cons_of_pos (by simp), hnone]
    · have hne : key b ≠ key a := fun heq => h.1 (heq ▸ List.mem_map_of_mem hrest)
      rw [List.filter_cons_of_neg (by simpa using hne)]
      exact ih h.2 hrest

/-- An item of whose key no earlier one is there is kept. -/
theorem mem_firstBy_of_first {before after : List α} {a : α} (h : ∀ b ∈ before, key b ≠ key a) :
    a ∈ firstBy key (before ++ a :: after) := by
  induction hlength : before.length using Nat.strongRecOn generalizing before after with
  | _ n ih =>
    subst hlength
    cases before with
    | nil =>
      rw [List.nil_append, firstBy_cons]
      exact List.mem_cons_self
    | cons b rest =>
      rw [List.forall_mem_cons] at h
      have hshorter : (rest.filter (key · ≠ key b)).length < (b :: rest).length :=
        Nat.lt_succ_of_le (List.length_filter_le ..)
      have ha : key a ≠ key b := fun heq => h.1 heq.symm
      rw [List.cons_append, firstBy_cons, List.filter_append,
        List.filter_cons_of_pos (by simpa using ha)]
      refine List.mem_cons_of_mem b (ih _ hshorter (fun c hc => ?_) rfl)
      exact h.2 c (List.mem_filter.1 hc).1

end Lists

namespace ClassModel

variable {m : ClassModel}

/-- The made up initializers answer their own messages. -/
theorem classInitializer?_message {f : TargetMethod} (h : m.classInitializer? = some f) :
    f.message = (true, Text.ofString "initialize") := by
  unfold classInitializer? at h
  dsimp only at h
  split at h
  · cases h
  · obtain rfl := Option.some.inj h
    rfl

/-- An initializer is made up only for a class without constructors. -/
theorem isConstructor_of_needsInit {f : TargetMethod} (h : m.needsInit = true)
    (hf : f ∈ m.methods) : f.isConstructor = false := by
  rw [needsInit, Bool.and_eq_true, Bool.not_eq_true', List.any_eq_false] at h
  simpa using h.1 f hf

/-- The implementations in a file answer different messages if the methods of the class do and no
method answers the message of a made up initializer. -/
theorem definedMethods_nodup (hmethods : (m.methods.map TargetMethod.message).Nodup)
    (hinit : m.needsInit = true → ∀ f ∈ m.methods, f.message ≠ (false, Text.ofString "init")) :
    (m.definedMethods.map TargetMethod.message).Nodup := by
  have hrest : ((m.methods.filter (!·.isClassInitializer)).map TargetMethod.message).Nodup :=
    hmethods.sublist (List.filter_sublist.map _)
  have hwithInit : (((if m.needsInit then [synthesizedInit] else []) ++
      m.methods.filter (!·.isClassInitializer)).map TargetMethod.message).Nodup := by
    cases hneeds : m.needsInit with
    | false => exact hrest
    | true =>
      rw [if_pos rfl, List.singleton_append, List.map_cons, List.nodup_cons]
      refine ⟨fun hmem => ?_, hrest⟩
      obtain ⟨f, hf, hmessage⟩ := List.mem_map.1 hmem
      exact hinit hneeds f (List.mem_filter.1 hf).1 hmessage
  unfold definedMethods
  rw [List.append_assoc]
  cases hinitializer : m.classInitializer? with
  | none => exact hwithInit
  | some f =>
    rw [Option.toList_some, List.singleton_append, List.map_cons, List.nodup_cons,
      classInitializer?_message hinitializer]
    refine ⟨fun hmem => ?_, hwithInit⟩
    obtain ⟨f', hf', hmessage⟩ := List.mem_map.1 hmem
    rcases List.mem_append.1 hf' with hsynthesized | hdeclared
    · cases hneeds : m.needsInit with
      | false =>
        rw [hneeds] at hsynthesized
        cases hsynthesized
      | true =>
        rw [hneeds, if_pos rfl, List.mem_singleton] at hsynthesized
        rw [hsynthesized] at hmessage
        exact absurd (Prod.mk.inj hmessage).1 Bool.false_ne_true
    · have hother := (List.mem_filter.1 hdeclared).2
      rw [TargetMethod.isClassInitializer_of_message hmessage] at hother
      cases hother

/-- The implementations stand together at the end of the file of a class. -/
theorem implementation_eq (h : m.isProtocol = false) :
    ∃ front, m.implementation = front ++ line ("@implementation " ++ m.name) ++ "\n"
      ++ m.definedMethods.flatMap m.methodDefinition ++ line "@end" := by
  refine ⟨banner m.implementationFile ++ line ("#import \"" ++ m.headerFile ++ "\"") ++ "\n"
    ++ (m.staticStorage ++ m.classExtension), ?_⟩
  rw [implementation, if_neg (by simp [h]), classDefinition]
  simp only [List.append_assoc]

end ClassModel

section Declared

variable {mapper : TypeMapper} {r : Registry} {infos : List (Bool × MethodSignature)}
  {added : List TargetMethod}

/-- Members that callers cannot confuse: they differ in being constructors, in the name of a
method, or in the number of parameters. -/
def Differ (a b : Bool × MethodSignature) : Prop :=
  ¬(a.1 = b.1 ∧ (a.1 = false → a.2.name = b.2.name) ∧ a.2.arity = b.2.arity)

/-- Members differ if no two methods share name and number of parameters and no two constructors
share their number of parameters. -/
theorem pairwise_differ
    (hmethods : (((infos.filter (·.1 = false)).map Prod.snd).map fun info =>
      (info.name, info.arity)).Nodup)
    (hconstructors : (((infos.filter (·.1 = true)).map Prod.snd).map MethodSignature.arity).Nodup) :
    infos.Pairwise Differ := by
  induction infos with
  | nil => exact .nil
  | cons a rest ih =>
    cases hkind : a.1 with
    | false =>
      rw [List.filter_cons_of_pos (by simpa using hkind), List.map_cons, List.map_cons,
        List.nodup_cons] at hmethods
      rw [List.filter_cons_of_neg (by simp [hkind])] at hconstructors
      refine List.pairwise_cons.2 ⟨fun b hb hsame => ?_, ih hmethods.2 hconstructors⟩
      obtain ⟨hkinds, hname, harity⟩ := hsame
      have hb' : b ∈ rest.filter (·.1 = false) :=
        List.mem_filter.2 ⟨hb, by simpa using hkinds ▸ hkind⟩
      refine hmethods.1 ?_
      rw [hname hkind, harity]
      exact List.mem_map_of_mem (List.mem_map_of_mem hb')
    | true =>
      rw [List.filter_cons_of_neg (by simp [hkind])] at hmethods
      rw [List.filter_cons_of_pos (by simpa using hkind), List.map_cons, List.map_cons,
        List.nodup_cons] at hconstructors
      refine List.pairwise_cons.2 ⟨fun b hb hsame => ?_, ih hmethods hconstructors.2⟩
      obtain ⟨hkinds, -, harity⟩ := hsame
      have hb' : b ∈ rest.filter (·.1 = true) :=
        List.mem_filter.2 ⟨hb, by simpa using hkinds ▸ hkind⟩
      refine hconstructors.1 ?_
      rw [harity]
      exact List.mem_map_of_mem (List.mem_map_of_mem hb')

/-- The methods of members that differ have different signatures. -/
theorem signatures_nodup (hmapper : mapper.CommaFree) (hr : r.Named)
    (hinfos : ∀ info ∈ infos, WellNamed info) (hdiffer : infos.Pairwise Differ)
    (hadded : List.Forall₂ (fun info m => TargetMethod.Reflects mapper r info.1 info.2 m)
      infos added) : (added.map TargetMethod.signature).Nodup := by
  induction hadded with
  | nil => exact List.nodup_nil
  | @cons info m infos added hm hrest ih =>
    rw [List.forall_mem_cons] at hinfos
    rw [List.pairwise_cons] at hdiffer
    rw [List.map_cons, List.nodup_cons]
    refine ⟨fun hmem => ?_, ih hinfos.2 hdiffer.2⟩
    obtain ⟨m', hm', heq⟩ := List.mem_map.1 hmem
    obtain ⟨info', hinfo', hreflects⟩ := exists_of_mem_forall₂ hrest hm'
    have hspelled := hm.spelled hmapper hr hinfos.1
    have hspelled' := hreflects.spelled hmapper hr (hinfos.2 info' hinfo')
    obtain ⟨-, hconstructor, hname, hlength⟩ := hspelled.signature_inj hspelled' heq.symm
    rw [hm.isConstructor_eq, hreflects.isConstructor_eq] at hconstructor
    refine hdiffer.1 info' hinfo' ⟨hconstructor, fun hmethod => ?_, ?_⟩
    · have hnames := hname (hm.isConstructor_eq.trans hmethod)
      rw [hm.name_eq, hreflects.name_eq, ← hconstructor, hmethod] at hnames
      exact hnames
    · rw [MethodSignature.arity, MethodSignature.arity, hm.parameters.length_eq,
        hreflects.parameters.length_eq, hlength]

/-- The methods of a class answer different messages, and what answers a message is the first of
the added methods that does. -/
theorem firstPerKey_messages (hspelled : ∀ m ∈ added, m.Spelled) :
    ((firstPerKey ClassBuilder.messageKey added).map TargetMethod.message).Nodup ∧
      ∀ before m after, added = before ++ m :: after →
        (∀ m' ∈ before, m'.message ≠ m.message) →
        m ∈ firstPerKey ClassBuilder.messageKey added := by
  have hkeys : ∀ m ∈ added, ∀ m' ∈ added,
      ClassBuilder.messageKey m = ClassBuilder.messageKey m' ↔ m.message = m'.message :=
    fun m hm m' hm' =>
      TargetMethod.messageKey_eq_iff (hspelled m hm).unmarked (hspelled m' hm').unmarked
  rw [firstPerKey_eq, firstBy_congr hkeys]
  refine ⟨firstBy_keys_nodup _ _, fun before m after heq hfirst => ?_⟩
  rw [heq]
  exact mem_firstBy_of_first hfirst

/-- A method answers the message `init` without being a constructor only if it is declared with
that name and without parameters. -/
theorem TargetMethod.Reflects.init_of_message {info : Bool × MethodSignature} {m : TargetMethod}
    (h : m.Reflects mapper r info.1 info.2) (hmethod : info.1 = false)
    (hmessage : m.message = (false, Text.ofString "init")) :
    info.2.isStatic = false ∧ info.2.name = "init" ∧ info.2.parameters = [] := by
  obtain ⟨hstatic, hselector⟩ := Prod.mk.inj hmessage
  have hnil := nil_of_selector_eq (by decide) hselector
  have hconstructor := h.isConstructor_eq.trans hmethod
  rw [selector_of_nil hnil, if_neg (by simp [hconstructor]), h.name_eq,
    if_neg (by simp [hmethod])] at hselector
  have hlength := h.parameters.length_eq
  rw [hnil, List.length_nil, List.length_eq_zero_iff] at hlength
  exact ⟨h.isStatic_eq.symm.trans hstatic, hselector, hlength⟩

end Declared

namespace Generator

/-- Every declared method and constructor of a generated class whose message no earlier one
answers, and which is not the class initializer, has exactly one implementation of its message in
the file of the class, and that one has the prototype and the body of the member. All
implementations in the file answer different messages. -/
theorem members_have_implementations {options : GeneratorOptions}
    {declared : List ClassSignature} {g : Generator} {path source : Text} {cu : Node}
    {unit : GeneratedUnit} {decl : Node} (hg : Session options declared g)
    (hmap : ∀ entry ∈ options.typeMap, Text.byte ',' ∉ entry.2)
    (hparsed : parseForGeneration path source = .ok cu)
    (hunit : g.generateUnit path cu = .ok unit)
    (hprimary : primaryType? cu = some decl)
    (hclass : (ClassSignature.ofDecl decl).isInterface = false)
    (hmethods : ((ClassSignature.ofDecl decl).methods.map fun info =>
      (info.name, info.arity)).Nodup)
    (hconstructors : ((ClassSignature.ofDecl decl).constructors.map MethodSignature.arity).Nodup)
    (hinit : unit.model.needsInit = true → ∀ info ∈ (ClassSignature.ofDecl decl).methods,
      ¬(info.isStatic = false ∧ info.name = "init" ∧ info.parameters = [])) :
    ∃ added front,
      List.Forall₂ (Lowering.Translates false (g.memberSurroundings cu decl))
        (decl.members.filter Node.declaresMethod) added ∧
      unit.model.implementation = front ++ line ("@implementation " ++ unit.model.name) ++ "\n"
        ++ unit.model.definedMethods.flatMap unit.model.methodDefinition ++ line "@end" ∧
      (∀ before m after, added = before ++ m :: after →
        (∀ m' ∈ before, m'.message ≠ m.message) → m.isClassInitializer = false →
        unit.model.definedMethods.filter (·.message = m.message) = [m]) ∧
      (unit.model.definedMethods.map TargetMethod.message).Nodup := by
  obtain ⟨htree, hclean⟩ := derives_of_parseForGeneration hparsed
  have hkind := htree.unit_kind hclean
  obtain ⟨decl', added, hprimary', -, hdecl, hdeclares, -, hprotocol, hadded, hmodel⟩ :=
    generateUnit_methods hkind hclean hunit
  obtain rfl : decl = decl' := Option.some.inj (hprimary.symm.trans hprimary')
  rw [hclass] at hprotocol
  rw [hprotocol] at hadded
  have hmapper : g.mapper.CommaFree := by
    rw [hg.mapper_eq]
    exact TypeMapper.ofEntries_commaFree hmap
  have hnamed : g.registry.Named := fun entry hentry => (hg.sound entry hentry).target_name
  have hreflects : List.Forall₂
      (fun info m => TargetMethod.Reflects g.mapper g.registry info.1 info.2 m)
      decl.memberInfos added := Lowering.reflects_of_translates hadded
  have hinfos : ∀ info ∈ decl.memberInfos, WellNamed info :=
    wellNamed_of_memberInfos (Lowering.derives_typeDecl hclean htree hdecl hdeclares)
      (hclean.child hdecl) hdeclares
  have hspelled : ∀ m ∈ added, m.Spelled := by
    intro m hm
    obtain ⟨info, hinfo, hm'⟩ := exists_of_mem_forall₂ hreflects hm
    exact hm'.spelled hmapper hnamed (hinfos info hinfo)
  rw [ofDecl_methods_eq] at hmethods hinit
  rw [ofDecl_constructors_eq] at hconstructors
  have hsignatures := signatures_nodup hmapper hnamed hinfos
    (pairwise_differ hmethods hconstructors) hreflects
  rw [foldl_addedTo_eq, firstBy_of_nodup hsignatures] at hmodel
  obtain ⟨hmessages, hkept⟩ := firstPerKey_messages hspelled
  rw [← hmodel] at hmessages hkept
  have hnodup : (unit.model.definedMethods.map TargetMethod.message).Nodup := by
    refine ClassModel.definedMethods_nodup hmessages fun hneeds m hm hmessage => ?_
    have hmem : m ∈ added := by
      rw [hmodel, firstPerKey_eq] at hm
      exact (firstBy_sublist _ _).subset hm
    obtain ⟨info, hinfo, hm'⟩ := exists_of_mem_forall₂ hreflects hmem
    have hmethod : info.1 = false :=
      hm'.isConstructor_eq.symm.trans (ClassModel.isConstructor_of_needsInit hneeds hm)
    have hinfo' : info ∈ decl.memberInfos.filter (·.1 = false) :=
      List.mem_filter.2 ⟨hinfo, by simpa using hmethod⟩
    exact hinit hneeds info.2 (List.mem_map_of_mem hinfo') (hm'.init_of_message hmethod hmessage)
  obtain ⟨front, hfront⟩ := ClassModel.implementation_eq hprotocol
  refine ⟨added, front, hadded, hfront, fun before m after heq hfirst hother => ?_,
    hnodup⟩
  refine filter_key_of_nodup hnodup (List.mem_append_right _ (List.mem_filter.2 ⟨?_, ?_⟩))
  · exact hkept before m after heq hfirst
  · simp [hother]

/-- What a class declares and what its file implements. -/
structure Inventory where
  /-- The names and numbers of parameters of the methods. -/
  methods : List (Text × Nat) := []
  /-- The numbers of parameters of the constructors. -/
  constructors : List Nat := []
  /-- The prototypes of the implementations in the file. -/
  prototypes : List Text
  deriving DecidableEq

/-- The inventory of the class of a source, if it is generated. -/
def inventory? (options : GeneratorOptions) (source : Text) : Option Inventory := do
  let s ← Registry.unitSignature? (Entry.compilationUnit.read source).1
  let unit ← ((ofOptions options).generateSource "A.java" source).1.toOption
  return {
    methods := s.methods.map fun info => (info.name, info.arity)
    constructors := s.constructors.map MethodSignature.arity
    prototypes := unit.model.definedMethods.map TargetMethod.declaration }

/-- A method `init` gives way to a constructor, and stands next to an initializer that is made up; a
class method `initialize` has no implementation of its own; and a configured type that is a list of
types lets one method give way to another. -/
theorem implementations_can_collide :
    inventory? {} "class A\x7bA()\x7b\x7d void init()\x7b\x7d\x7d" = some
      { methods := [("init", 0)], constructors := [0], prototypes := ["- (instancetype)init"] } ∧
    inventory? {} "class A\x7bint x = 1; void init()\x7b\x7d\x7d" = some
      { methods := [("init", 0)], prototypes := ["- (instancetype)init", "- (void)init"] } ∧
    inventory? {} "class A\x7bstatic int initialize()\x7breturn 1;\x7d\x7d" = some
      { methods := [("initialize", 0)], prototypes := ["+ (void)initialize"] } ∧
    inventory? { typeMap := [("X", "int,int")] }
        "class A\x7bvoid f(int a, int b)\x7b\x7d void f(X x)\x7b\x7d\x7d" = some
      { methods := [("f", 2), ("f", 1)], prototypes := ["- (void)f:(int)a b:(int)b"] } := by
  decide +kernel

/-- A class with an initialized variable, a constructor and two methods of one name. -/
def countingSource : Text :=
  "class A\x7bint n = 1; A(int k)\x7b\x7d int f()\x7breturn 1;\x7d int f(int y)\x7breturn y;\x7d\x7d"

/-- The constructor of the class has exactly one implementation, and all implementations answer
different messages. -/
theorem members_have_implementations_of_overloads :
    ∃ unit decl m, (ofOptions {}).generateUnit "A.java"
        (Entry.compilationUnit.read countingSource).1 = .ok unit ∧
      primaryType? (Entry.compilationUnit.read countingSource).1 = some decl ∧
      (ClassSignature.ofDecl decl).isInterface = false ∧
      ((ClassSignature.ofDecl decl).methods.map fun info => (info.name, info.arity)).Nodup ∧
      ((ClassSignature.ofDecl decl).constructors.map MethodSignature.arity).Nodup ∧
      unit.model.needsInit = false ∧ m.isConstructor = true ∧
      unit.model.definedMethods.filter (·.message = m.message) = [m] ∧
      (unit.model.definedMethods.map TargetMethod.message).Nodup := by
  obtain ⟨haccepted, hneeds⟩ :
      (Parsed.ofSource .compilationUnit countingSource).problems = [] ∧
      ((ofOptions {}).generateUnit "A.java"
        (Entry.compilationUnit.read countingSource).1).toOption.map
          (fun unit => unit.model.needsInit) = some false := by decide +kernel
  have hdeclared : (primaryType? (Entry.compilationUnit.read countingSource).1).map
      (fun decl => ((ClassSignature.ofDecl decl).isInterface,
        (ClassSignature.ofDecl decl).methods.map fun info => (info.name, info.arity),
        (ClassSignature.ofDecl decl).constructors.map MethodSignature.arity,
        (decl.members.filter Node.declaresMethod).map Node.kind)) =
      some (false, [(Text.ofString "f", 0), (Text.ofString "f", 1)], [1],
        [.constructorDecl, .methodDecl, .methodDecl]) := by decide +kernel
  have hparsed := parseForGeneration_of_accepted "A.java" haccepted
  obtain ⟨decl, hprimary, hfacts⟩ := Option.map_eq_some_iff.1 hdeclared
  obtain ⟨hclass, hfacts⟩ := Prod.mk.inj hfacts
  obtain ⟨hnames, hfacts⟩ := Prod.mk.inj hfacts
  obtain ⟨harities, hkinds⟩ := Prod.mk.inj hfacts
  have hmethods : ((ClassSignature.ofDecl decl).methods.map fun info =>
      (info.name, info.arity)).Nodup := by
    rw [hnames]
    decide
  have hconstructors :
      ((ClassSignature.ofDecl decl).constructors.map MethodSignature.arity).Nodup := by
    rw [harities]
    decide
  cases hunit : (ofOptions {}).generateUnit "A.java"
      (Entry.compilationUnit.read countingSource).1 with
  | error f =>
    rw [hunit] at hneeds
    cases hneeds
  | ok unit =>
    rw [hunit] at hneeds
    have hneeds : unit.model.needsInit = false := Option.some.inj hneeds
    obtain ⟨added, front, hadded, -, hone, hnodup⟩ := members_have_implementations
      (.fresh : Session {} [] _) (List.forall_mem_nil _) hparsed hunit hprimary hclass hmethods
      hconstructors (by simp [hneeds])
    have hfirst : ∃ first rest, decl.members.filter Node.declaresMethod = first :: rest ∧
        first.kind = .constructorDecl := by
      obtain ⟨first, rest, heq, hkind, -⟩ := List.map_eq_cons_iff.1 hkinds
      exact ⟨first, rest, heq, hkind⟩
    obtain ⟨first, rest, hmembers, hkind⟩ := hfirst
    rw [hmembers] at hadded
    obtain ⟨m, later, hm, -, rfl⟩ := List.forall₂_cons_left_iff.1 hadded
    have hconstructor : m.isConstructor = true ∧ m.isClassInitializer = false := by
      cases hm with
      | method hmethod =>
        rw [hkind] at hmethod
        cases hmethod
      | constructor => exact ⟨rfl, rfl⟩
    exact ⟨unit, decl, m, rfl, hprimary, hclass, hmethods, hconstructors, hneeds, hconstructor.1,
      hone [] m later rfl (List.forall_mem_nil _) hconstructor.2, hnodup⟩

end Generator

end JavaObjC
