import JavaObjC.Proofs.Batch.Declarations
import JavaObjC.Proofs.Links.Answers

/-!
# Messages and the classes that declare them

A call in one file is generated against the signature of a class in another
one, and the class itself is generated from its declaration. The two agree: for
every method or constructor that a signature answers with, the generated class
has a method of the same receiver with the selector that callers use. Whatever
has been declared and recorded before, a caller finds signatures of declared
files only. So every message for something that was found names a selector of
the class generated from the file that declares it.

The files declare these methods with one exception: a static `initialize`
without parameters is the message that initializes a class, of which neither
the header nor the implementation file has a prototype. A call of a source
method so named is sent, but no file declares what it sends.
-/

namespace JavaObjC

open Generating

namespace TargetMethod

variable {m : TargetMethod}

/-- What tells the methods of a class apart for a caller: the receiver and the selector. -/
def message (m : TargetMethod) : Bool × Text := (m.isStatic, m.selector)

/-- The selector of a method without parameters is its name, and `init` for a constructor. -/
theorem selector_of_nil (h : m.parameters = []) :
    m.selector = if m.isConstructor then Text.ofString "init" else m.name := by
  simp [selector, keywords, parameterNames, selectorKeywords, h]

/-- Every parameter leaves a colon in the selector. -/
theorem colon_mem_selector (h : m.parameters ≠ []) : Text.byte ':' ∈ m.selector := by
  cases hparameters : m.parameters with
  | nil => exact absurd hparameters h
  | cons p rest =>
    have hcolon : Text.byte ':' ∈ Text.ofString ":" := by decide
    have hkeyword : ∃ keyword, keyword ∈ m.keywords := by
      simp [keywords, parameterNames, selectorKeywords, hparameters]
    obtain ⟨keyword, hkeyword⟩ := hkeyword
    rw [selector, hparameters, List.isEmpty_cons, if_neg (by simp)]
    exact List.mem_flatMap.2 ⟨keyword, hkeyword, List.mem_append_right _ hcolon⟩

/-- A message without a colon is answered by a method without parameters. -/
theorem nil_of_selector_eq {name : Text} (hname : Text.byte ':' ∉ name) (h : m.selector = name) :
    m.parameters = [] := by
  by_contra hne
  exact hname (h ▸ colon_mem_selector hne)

/-- Only the class initializer answers the message of the class initializer. -/
theorem isClassInitializer_of_message (h : m.message = (true, Text.ofString "initialize")) :
    m.isClassInitializer = true := by
  obtain ⟨hstatic, hselector⟩ := Prod.mk.inj h
  have hnil := nil_of_selector_eq (by decide) hselector
  rw [selector_of_nil hnil] at hselector
  cases hconstructor : m.isConstructor with
  | true =>
    rw [if_pos hconstructor] at hselector
    exact absurd hselector (by decide)
  | false =>
    rw [if_neg (by simp [hconstructor])] at hselector
    simp [isClassInitializer, hstatic, hnil, hselector]

/-- The class initializer answers its message, since constructors belong to instances. -/
theorem message_of_isClassInitializer (hm : m.isConstructor = true → m.isStatic = false)
    (h : m.isClassInitializer = true) : m.message = (true, Text.ofString "initialize") := by
  simp only [isClassInitializer, Bool.and_eq_true, beq_iff_eq, List.isEmpty_iff] at h
  obtain ⟨⟨hstatic, hname⟩, hnil⟩ := h
  have hmethod : m.isConstructor = false := by
    cases hconstructor : m.isConstructor with
    | false => rfl
    | true => exact absurd ((hm hconstructor).symm.trans hstatic) Bool.false_ne_true
  rw [message, hstatic, selector_of_nil hnil, if_neg (by simp [hmethod]), hname]

end TargetMethod

namespace ClassModel

variable {m : ClassModel} {f : TargetMethod}

/-- The methods whose prototypes stand in the files of a class or protocol. -/
def declaredMethods (m : ClassModel) : List TargetMethod :=
  if m.isProtocol then m.methods else m.publicMethods ++ m.hiddenMethods

/-- The files of a protocol declare all its methods, and those of a class all but the class
initializer. -/
theorem mem_declaredMethods : f ∈ m.declaredMethods ↔
    f ∈ m.methods ∧ (m.isProtocol = true ∨ f.isClassInitializer = false) := by
  cases hprotocol : m.isProtocol with
  | true => simp [declaredMethods, hprotocol]
  | false =>
    cases hinitializer : f.isClassInitializer with
    | true => simp [declaredMethods, publicMethods, hiddenMethods, hprotocol, hinitializer]
    | false =>
      simp only [declaredMethods, publicMethods, hiddenMethods, hprotocol, hinitializer,
        List.mem_append, List.mem_filter, if_neg Bool.false_ne_true]
      by_cases hvisible : f.visibility = .privateAccess <;> simp [hvisible]

/-- What stands in a text still does when an empty line is added. -/
theorem infix_withBlank {s t : Text} (h : s <:+: t) : s <:+: withBlank t := by
  rw [withBlank]
  split
  · exact h
  · exact List.infix_append_of_infix_left h

/-- The prototypes of a class stand in its declaration. -/
theorem infix_classDeclaration (m : ClassModel) (before : Text) :
    m.publicPrototypes <:+: m.classDeclaration before := by
  unfold classDeclaration
  dsimp only
  refine List.infix_append_of_infix_left (List.infix_append_of_infix_left ?_)
  split
  · next hempty =>
    rw [List.isEmpty_iff.1 hempty]
    exact List.nil_infix
  · exact infix_withBlank (List.infix_append_of_infix_right List.infix_rfl)

/-- The prototypes of a protocol stand in its declaration. -/
theorem infix_protocolDeclaration (m : ClassModel) :
    m.methods.flatMap prototypeLine <:+: m.protocolDeclaration := by
  unfold protocolDeclaration
  iterate 4 refine List.infix_append_of_infix_left ?_
  exact List.infix_append_of_infix_right List.infix_rfl

/-- The prototypes of the private methods of a class stand in its definition. -/
theorem infix_classDefinition (m : ClassModel) :
    m.hiddenMethods.flatMap prototypeLine <:+: m.classDefinition := by
  unfold classDefinition classExtension
  iterate 4 refine List.infix_append_of_infix_left ?_
  refine List.infix_append_of_infix_right ?_
  split
  · next hempty =>
    rw [List.isEmpty_iff.1 hempty]
    exact List.nil_infix
  · iterate 3 refine List.infix_append_of_infix_left ?_
    exact List.infix_append_of_infix_right List.infix_rfl

/-- The prototype of a declared method stands in one of the two files. -/
theorem prototype_printed (h : f ∈ m.declaredMethods) :
    prototypeLine f <:+: m.header ∨ prototypeLine f <:+: m.implementation := by
  have hline : ∀ methods : List TargetMethod, f ∈ methods →
      prototypeLine f <:+: methods.flatMap prototypeLine := by
    intro methods hf
    obtain ⟨before, after, rfl⟩ := List.append_of_mem hf
    exact ⟨before.flatMap prototypeLine, after.flatMap prototypeLine, by simp⟩
  unfold declaredMethods at h
  cases hprotocol : m.isProtocol with
  | true =>
    rw [if_pos hprotocol] at h
    rw [header, if_pos hprotocol]
    exact .inl ((hline _ h).trans
      (List.infix_append_of_infix_right m.infix_protocolDeclaration))
  | false =>
    rw [if_neg (by simp [hprotocol]), List.mem_append] at h
    rw [header, implementation, if_neg (by simp [hprotocol]), if_neg (by simp [hprotocol])]
    rcases h with hpublic | hhidden
    · exact .inl ((hline _ hpublic).trans
        (m.infix_classDeclaration _))
    · exact .inr ((hline _ hhidden).trans
        (List.infix_append_of_infix_right m.infix_classDefinition))

end ClassModel

namespace GeneratedUnit

/-- A generated class has a method of a receiver with a selector. -/
def HasMethod (unit : GeneratedUnit) (isStatic : Bool) (selector : Text) : Prop :=
  ∃ m ∈ unit.model.methods, m.isStatic = isStatic ∧ m.selector = selector

/-- The files of a generated class declare a method of a receiver with a selector: one of them holds
its prototype. -/
def Declares (unit : GeneratedUnit) (isStatic : Bool) (selector : Text) : Prop :=
  ∃ m ∈ unit.model.declaredMethods, m.isStatic = isStatic ∧ m.selector = selector ∧
    (ClassModel.prototypeLine m <:+: unit.model.header ∨
      ClassModel.prototypeLine m <:+: unit.model.implementation)

/-- A generated class meets a message to a receiver: it has a method for it, and its files declare
such a method unless the message initializes a class that is no protocol. -/
structure Meets (unit : GeneratedUnit) (isStatic : Bool) (selector : Text) : Prop where
  hasMethod : unit.HasMethod isStatic selector
  declares_iff : unit.Declares isStatic selector ↔
    ¬(unit.model.isProtocol = false ∧ isStatic = true ∧ selector = Text.ofString "initialize")

/-- A generated class meets every message that one of its methods answers, if its constructors
belong to instances. -/
theorem HasMethod.meets {unit : GeneratedUnit} {isStatic : Bool} {selector : Text}
    (hreceiver : ∀ m ∈ unit.model.methods, m.isConstructor = true → m.isStatic = false)
    (h : unit.HasMethod isStatic selector) : unit.Meets isStatic selector := by
  refine ⟨h, ?_, fun hother => ?_⟩
  · rintro ⟨m, hm, hstatic, hselector, -⟩ ⟨hclass, hstatic', hselector'⟩
    have hinitializer : m.isClassInitializer = true :=
      TargetMethod.isClassInitializer_of_message
        (Prod.ext (hstatic.trans hstatic') (hselector.trans hselector'))
    rcases (ClassModel.mem_declaredMethods.1 hm).2 with hprotocol | hplain
    · exact Bool.false_ne_true (hclass.symm.trans hprotocol)
    · exact Bool.false_ne_true (hplain.symm.trans hinitializer)
  · obtain ⟨m, hm, hstatic, hselector⟩ := h
    have hdeclared : m ∈ unit.model.declaredMethods := by
      refine ClassModel.mem_declaredMethods.2 ⟨hm, ?_⟩
      by_contra hhidden
      rw [not_or, Bool.not_eq_true, Bool.not_eq_false] at hhidden
      obtain ⟨hstatic', hselector'⟩ := Prod.mk.inj
        (TargetMethod.message_of_isClassInitializer (hreceiver m hm) hhidden.2)
      exact hother ⟨hhidden.1, hstatic.symm.trans hstatic', hselector.symm.trans hselector'⟩
    exact ⟨m, hdeclared, hstatic, hselector, ClassModel.prototype_printed hdeclared⟩

/-- A generated class has what callers find in a signature. -/
structure Honours (unit : GeneratedUnit) (s : ClassSignature) : Prop where
  name_eq : unit.model.name = s.name
  method : ∀ name arity info, s.method? name arity = some info →
    unit.Meets info.isStatic (selectorOf name false info.parameterNames)
  constructor : ∀ arity info, s.constructor? arity = some info →
    unit.Meets false (selectorOf "init" true info.parameterNames)

end GeneratedUnit

/-- A class that is generated has what callers find in the signature of its file. -/
theorem generateUnit_honours {g : Generator} {path : Text} {cu : Node} {unit : GeneratedUnit}
    (hmapper : g.mapper.CommaFree) (hr : g.registry.Named) (htree : Derives .unit cu)
    (hclean : cu.Clean) (h : g.generateUnit path cu = .ok unit) :
    ∃ s, Registry.unitSignature? cu = some s ∧ unit.Honours s := by
  have hkind := htree.unit_kind hclean
  obtain ⟨decl, added, hsignature, hdecl, hdeclares, hname, hadded, hmethods⟩ :=
    generateUnit_model hkind hclean h
  have hinfos : ∀ info ∈ decl.memberInfos, WellNamed info :=
    wellNamed_of_memberInfos (Lowering.derives_typeDecl hclean htree hdecl hdeclares)
      (hclean.child hdecl) hdeclares
  have hreceiver : ∀ m ∈ unit.model.methods, m.isConstructor = true → m.isStatic = false := by
    intro m hm hconstructor
    rw [hmethods, firstPerKey_eq, foldl_addedTo_eq] at hm
    have hadded' : m ∈ added := (firstBy_sublist _ _).subset ((firstBy_sublist _ _).subset hm)
    obtain ⟨info, hinfo, hreflects⟩ := exists_of_mem_forall₂ hadded hadded'
    exact hreflects.isStatic_eq.trans
      ((hinfos info hinfo).receiver (hreflects.isConstructor_eq.symm.trans hconstructor))
  refine ⟨.ofDecl decl, hsignature, by rw [hname, ClassSignature.ofDecl_name], ?_, ?_⟩
  · intro name arity info hinfo
    rw [method?_ofDecl] at hinfo
    obtain ⟨first, hfirst, rfl⟩ := Option.map_eq_some_iff.1 hinfo
    refine GeneratedUnit.HasMethod.meets hreceiver ?_
    rw [GeneratedUnit.HasMethod, hmethods]
    exact exists_answer_of_wanted hmapper hr hinfos hadded false name arity hfirst
  · intro arity info hinfo
    rw [constructor?_ofDecl] at hinfo
    obtain ⟨first, hfirst, rfl⟩ := Option.map_eq_some_iff.1 hinfo
    refine GeneratedUnit.HasMethod.meets hreceiver ?_
    rw [GeneratedUnit.HasMethod, hmethods]
    obtain ⟨m, hm, hstatic, hselector⟩ :=
      exists_answer_of_wanted hmapper hr hinfos hadded true [] arity hfirst
    have hwanted := List.find?_some hfirst
    have hconstructor : first.1 = true := by
      simp only [isWanted, Bool.and_eq_true, decide_eq_true_eq] at hwanted
      exact hwanted.1.1
    have hinfo := hinfos first (List.mem_of_find?_eq_some hfirst)
    exact ⟨m, hm, hstatic.trans (hinfo.receiver hconstructor), hselector⟩

section Sessions

/-- What a table holds after a key was set. -/
theorem mem_setKey {α : Type} {key : Text} {value : α} {entries : List (Text × α)}
    {entry : Text × α} (h : entry ∈ setKey key value entries) :
    entry ∈ entries ∨ entry = (key, value) := by
  induction entries with
  | nil => exact .inr (List.mem_singleton.1 h)
  | cons first rest ih =>
    rw [setKey] at h
    split at h
    · next hkey =>
      rcases List.mem_cons.1 h with heq | h
      · exact .inr (hkey ▸ heq)
      · exact .inl (List.mem_cons_of_mem first h)
    · rcases List.mem_cons.1 h with rfl | h
      · exact .inl List.mem_cons_self
      · exact (ih h).imp (List.mem_cons_of_mem first) id

/-- An entry that may stand under a name: its class has that name, and so has the signature, which
is one of those that were declared. -/
structure RegistryEntry.Suits (declared : List ClassSignature) (name : Text) (e : RegistryEntry) :
    Prop where
  target_name : e.target.name = name
  signature : ∀ s, e.signature = some s → s ∈ declared ∧ s.name = name

namespace Registry

variable {r : Registry} {declared : List ClassSignature} {name : Text} {e : RegistryEntry}

/-- A registry in which all entries may stand where they stand. -/
def Sound (declared : List ClassSignature) (r : Registry) : Prop :=
  ∀ entry ∈ r.entries, entry.2.Suits declared entry.1

/-- An entry of a sound registry suits its name. -/
theorem Sound.entry (h : r.Sound declared) (he : r.entry? name = some e) :
    e.Suits declared name := h (name, e) (mem_of_getKey? he)

/-- A sound registry stays so with an entry that suits its name. -/
theorem Sound.setEntry (h : r.Sound declared) (he : e.Suits declared name) :
    (r.setEntry name e).Sound declared := by
  intro entry hentry
  rcases mem_setKey hentry with hold | rfl
  · exact h entry hold
  · exact he

/-- Declaring a name keeps a registry sound. -/
theorem Sound.declare (h : r.Sound declared) (name : Text) (isProtocol : Bool) :
    (r.declare name isProtocol).Sound declared := by
  unfold Registry.declare
  cases hentry : r.entry? name with
  | none => exact h.setEntry ⟨rfl, nofun⟩
  | some e =>
    dsimp only
    split
    · exact h
    · exact h.setEntry ⟨rfl, (h.entry hentry).signature⟩

/-- Declaring one of the signatures keeps a registry sound. -/
theorem Sound.declareSignature (h : r.Sound declared) {s : ClassSignature} (hs : s ∈ declared) :
    (r.declareSignature s).Sound declared := by
  have hdeclared := h.declare s.name s.isInterface
  unfold Registry.declareSignature
  dsimp only
  split
  · next e he =>
    refine hdeclared.setEntry ⟨(hdeclared.entry he).target_name, ?_⟩
    rintro _ ⟨⟩
    exact ⟨hs, rfl⟩
  · exact hdeclared

/-- Defining a class keeps a registry sound. -/
theorem Sound.define (h : r.Sound declared) (target : ClassRef) :
    (r.define target).1.Sound declared := by
  unfold Registry.define
  split
  · next e he => exact h.setEntry ⟨rfl, (h.entry he).signature⟩
  · exact h.setEntry ⟨rfl, nofun⟩

/-- The signatures of a sound registry were declared. -/
theorem Sound.signature (h : r.Sound declared) {s : ClassSignature}
    (hs : r.signature? name = some s) : s ∈ declared ∧ s.name = name := by
  obtain ⟨e, he, hsignature⟩ := Option.bind_eq_some_iff.1 hs
  exact (h.entry he).signature s hsignature

end Registry

namespace Generator

/-- What becomes of a fresh generator that declares some signatures and records classes, in any
order. -/
inductive Session (options : GeneratorOptions) (declared : List ClassSignature) : Generator → Prop
  | fresh : Session options declared (ofOptions options)
  | declare {g : Generator} {s : ClassSignature} (h : Session options declared g)
      (hs : s ∈ declared) :
      Session options declared { g with registry := g.registry.declareSignature s }
  | define {g : Generator} (h : Session options declared g) (model : ClassModel) :
      Session options declared (g.define model)

variable {g : Generator} {options : GeneratorOptions} {declared : List ClassSignature}

/-- In a session the registry knows only what was declared. -/
theorem Session.sound (h : Session options declared g) : g.registry.Sound declared := by
  induction h with
  | fresh => exact nofun
  | declare _ hs ih => exact ih.declareSignature hs
  | define _ model ih => exact ih.define model.toRef

/-- In a session the type map is that of the options. -/
theorem Session.mapper_eq (h : Session options declared g) :
    g.mapper = TypeMapper.ofEntries options.typeMap := by
  induction h with
  | fresh => rfl
  | declare _ _ ih => exact ih
  | define _ _ ih => exact ih

/-- Declaring the files of a batch is such a session. -/
theorem session_declareAll (options : GeneratorOptions)
    (parsed : List (Text × Except Failure Node)) :
    Session options (signatures parsed) ((ofOptions options).declareAll parsed) := by
  have hfold : ∀ (later : List ClassSignature) (g : Generator),
      Session options (signatures parsed) g → (∀ s ∈ later, s ∈ signatures parsed) →
      Session options (signatures parsed) { g with registry := g.registry.declareAll later } := by
    intro later
    induction later with
    | nil => exact fun g hg _ => hg
    | cons s rest ih =>
      intro g hg hlater
      rw [List.forall_mem_cons] at hlater
      exact ih _ (hg.declare hlater.1) hlater.2
  rw [declareAll_eq]
  exact hfold _ _ .fresh fun _ hs => hs

end Generator

end Sessions

section Lookups

/-- Only known classes are visited. -/
theorem Surroundings.mem_of_mem_hierarchy {around : Surroundings} {name : Text}
    {s : ClassSignature} (h : s ∈ around.hierarchy name) :
    s ∈ around.knownClasses.map Prod.snd := by
  unfold Surroundings.hierarchy at h
  generalize ([] : List Text) = seen, [name] = queue at h
  fun_induction Surroundings.search around seen queue with
  | case1 seen => cases h
  | case2 seen name rest _ ih => exact ih h
  | case3 seen name rest _ _ ih => exact ih h
  | case4 seen name rest _ c hc ih =>
    rcases List.mem_cons.1 h with rfl | h
    · exact mem_knownClasses hc
    · exact ih h

/-- What a unit is generated against when its own class and all others are declared. -/
structure Surroundings.Within (declared : List ClassSignature) (around : Surroundings) : Prop where
  sound : around.registry.Sound declared
  own : ∀ s, around.unit = some s → s ∈ declared

namespace Surroundings.Within

variable {declared : List ClassSignature} {around : Surroundings} {s : ClassSignature}
  {c name : Text} {arity : Nat} {info : MethodSignature}

/-- Members that are found were declared. -/
theorem members (h : Within declared around) (hs : around.members? c = some s) : s ∈ declared := by
  unfold members? at hs
  cases hunit : around.unit with
  | none =>
    rw [hunit] at hs
    exact (h.sound.signature hs).1
  | some own =>
    rw [hunit] at hs
    dsimp only at hs
    split at hs
    · exact h.own s (hunit.trans hs)
    · exact (h.sound.signature hs).1

/-- Classes that are known were declared. -/
theorem knownClasses (h : Within declared around) :
    ∀ s ∈ around.knownClasses.map Prod.snd, s ∈ declared := by
  intro s hs
  obtain ⟨⟨_, _⟩, hknown, rfl⟩ := List.mem_map.1 hs
  rcases List.mem_append.1 hknown with hknown | hknown
  · obtain ⟨_, hown, heq⟩ := List.mem_map.1 hknown
    cases heq
    exact h.own _ (Option.mem_toList.1 hown)
  · obtain ⟨entry, hentry, heq⟩ := List.mem_filterMap.1 hknown
    obtain ⟨_, hsignature, heq⟩ := Option.map_eq_some_iff.1 heq
    cases heq
    exact ((h.sound entry hentry).signature _ hsignature).1

/-- A method is found in a declared signature. -/
theorem method (h : Within declared around) (hinfo : around.method? c name arity = some info) :
    ∃ s ∈ declared, s.method? name arity = some info := by
  obtain ⟨s, hs, hmethod⟩ := List.exists_of_findSome?_eq_some hinfo
  exact ⟨s, h.knownClasses s (mem_of_mem_hierarchy hs), hmethod⟩

end Surroundings.Within

end Lookups

section Messages

open Lowering

variable {around : Surroundings} {st st' : BodyState} {receiver name text : Text}

/-- An expression that sends a message to a receiver: the keywords spell the selector, and there is
one for each argument, or a single one without arguments. -/
def IsMessage (receiver selector text : Text) : Prop :=
  ∃ keywords arguments, send? receiver keywords arguments = some text ∧
    keywords.length = max 1 arguments.length ∧
    selector = if arguments.isEmpty then keywords.flatten else Text.endEach ":" keywords

/-- Keywords for as many arguments as there are parameters spell the selector of the method. -/
theorem isMessage_of_send {isConstructor : Bool} {parameters arguments : List Text}
    (hlength : arguments.length = parameters.length)
    (h : send? receiver (selectorKeywords name isConstructor parameters) arguments = some text) :
    IsMessage receiver (selectorOf name isConstructor parameters) text := by
  refine ⟨_, arguments, h, ?_, ?_⟩
  · rw [hlength, length_selectorKeywords]
  · have hempty : arguments.isEmpty = parameters.isEmpty := by
      rw [Bool.eq_iff_iff, List.isEmpty_iff_length_eq_zero, List.isEmpty_iff_length_eq_zero,
        hlength]
    rw [hempty]
    rfl

/-- A message that is generated is the one built from its keywords and arguments. -/
theorem send_ok {keywords arguments : List Text}
    (h : result (send receiver keywords arguments) around st = (.ok text, st')) :
    send? receiver keywords arguments = some text := by
  unfold send at h
  cases hsend : send? receiver keywords arguments with
  | none =>
    rw [hsend] at h
    exact absurd h throw_ok
  | some _ =>
    rw [hsend] at h
    rw [(pure_ok h).1]

/-- The message for a method that was found names the method's selector. -/
theorem sendMethod_isMessage {info : MethodSignature} {arguments : List Value} {v : Value}
    (harity : info.arity = arguments.length)
    (h : result (sendMethod receiver name (some info) arguments) around st = (.ok v, st')) :
    IsMessage receiver (selectorOf name false info.parameterNames) v.text := by
  obtain ⟨_, _, hsend, hrest⟩ := bind_ok h
  obtain ⟨rfl, -⟩ := pure_ok hrest
  refine isMessage_of_send ?_ (send_ok hsend)
  rw [length_coerceAll, MethodSignature.parameterNames, List.length_map, ← harity]
  rfl

/-- The message for a constructor that was found names the initializer's selector. -/
theorem sendInit_isMessage {owner : Option ClassSignature} {info : MethodSignature}
    {arguments : List Value} {types : List JavaType}
    (hinfo : (owner.bind fun s => s.constructor? arguments.length) = some info)
    (h : result (sendInit receiver owner arguments types) around st = (.ok text, st')) :
    IsMessage receiver (selectorOf "init" true info.parameterNames) text := by
  obtain ⟨s, -, hconstructor⟩ := Option.bind_eq_some_iff.1 hinfo
  have harity : info.arity = arguments.length := by
    simpa using List.find?_some hconstructor
  simp only [sendInit, hinfo] at h
  refine isMessage_of_send ?_ (send_ok h)
  rw [length_coerceAll, MethodSignature.parameterNames, List.length_map, ← harity]
  rfl

end Messages

namespace Generator

/-- Sources with their paths, parsed. -/
def parsedSources (sources : List (Text × Text)) : List (Text × Except Failure Node) :=
  sources.map fun (path, source) => (path, parseForGeneration path source)

/-- A parsed source is a clean tree of a unit. -/
theorem derives_of_parsedSources {sources : List (Text × Text)} {path : Text} {cu : Node}
    (h : (path, .ok cu) ∈ parsedSources sources) : Derives .unit cu ∧ cu.Clean := by
  obtain ⟨_, -, heq⟩ := List.mem_map.1 h
  exact derives_of_parseForGeneration (Prod.mk.inj heq).2

/-- A declared signature is that of a parsed source. -/
theorem exists_of_mem_signatures {parsed : List (Text × Except Failure Node)} {s : ClassSignature}
    (h : s ∈ signatures parsed) :
    ∃ path cu, (path, .ok cu) ∈ parsed ∧ Registry.unitSignature? cu = some s := by
  obtain ⟨⟨path, outcome⟩, hmem, hs⟩ := List.mem_filterMap.1 h
  cases outcome with
  | error f => cases hs
  | ok cu => exact ⟨path, cu, hmem, hs⟩

/-- The signature of a parsed unit is among those of the batch. -/
theorem mem_signatures {parsed : List (Text × Except Failure Node)} {s : ClassSignature}
    {path : Text} {cu : Node} (h : (path, .ok cu) ∈ parsed)
    (hs : Registry.unitSignature? cu = some s) : s ∈ signatures parsed :=
  List.mem_filterMap.2 ⟨_, h, hs⟩

variable {options : GeneratorOptions} {sources : List (Text × Text)} {g g' : Generator}

/-- A source whose signature has an answer for a caller, and from which a class is generated that
meets a message to a receiver. -/
def Answers (g : Generator) (sources : List (Text × Text))
    (lookup : ClassSignature → Option MethodSignature) (info : MethodSignature)
    (isStatic : Bool) (selector : Text) : Prop :=
  ∃ path cu s, (path, .ok cu) ∈ parsedSources sources ∧ Registry.unitSignature? cu = some s ∧
    lookup s = some info ∧
    ∀ unit, g.generateUnit path cu = .ok unit → unit.Meets isStatic selector

/-- In every session, what is generated from a declared source has what callers find in the
signature of the source. -/
theorem Session.honours (hmap : ∀ entry ∈ options.typeMap, Text.byte ',' ∉ entry.2)
    (hg : Session options (signatures (parsedSources sources)) g) {path : Text} {cu : Node}
    {unit : GeneratedUnit} (hmem : (path, .ok cu) ∈ parsedSources sources)
    (h : g.generateUnit path cu = .ok unit) :
    ∃ s, Registry.unitSignature? cu = some s ∧ unit.Honours s := by
  obtain ⟨htree, hclean⟩ := derives_of_parsedSources hmem
  have hmapper : g.mapper.CommaFree := hg.mapper_eq ▸ TypeMapper.ofEntries_commaFree hmap
  have hnamed : g.registry.Named := fun entry hentry => (hg.sound entry hentry).target_name
  exact generateUnit_honours hmapper hnamed htree hclean h

/-- What a caller finds in a declared signature is answered by the class of that signature. -/
theorem Session.answers (hmap : ∀ entry ∈ options.typeMap, Text.byte ',' ∉ entry.2)
    (hg : Session options (signatures (parsedSources sources)) g) {s : ClassSignature}
    (hs : s ∈ signatures (parsedSources sources))
    {lookup : ClassSignature → Option MethodSignature} {info : MethodSignature}
    (hinfo : lookup s = some info) {isStatic : Bool} {selector : Text}
    (hmeets : ∀ unit : GeneratedUnit, unit.Honours s → unit.Meets isStatic selector) :
    Answers g sources lookup info isStatic selector := by
  obtain ⟨path, cu, hmem, hsignature⟩ := exists_of_mem_signatures hs
  refine ⟨path, cu, s, hmem, hsignature, hinfo, fun unit hunit => ?_⟩
  obtain ⟨t, ht, hhonours⟩ := hg.honours hmap hmem hunit
  obtain rfl : t = s := Option.some.inj (ht.symm.trans hsignature)
  exact hmeets unit hhonours

/-- A class with two methods of one name and a constructor. -/
def overloadedSource : Text :=
  "class A\x7bA(int x)\x7b\x7d int f(A a)\x7breturn 1;\x7d static int f(int b)\x7breturn 2;\x7d\x7d"

/-- The class with two methods of one name, and one that extends it. -/
def linkedSources : List (Text × Text) :=
  [("A.java", overloadedSource), ("B.java", "class B extends A\x7b\x7d")]

/-- Options with a configured type. -/
def datedOptions : GeneratorOptions := { typeMap := [("Date", "NSDate *")] }

/-- A class whose method sends the message that initializes it. -/
def selfInitializingSource : Text :=
  "class A\x7bstatic void initialize()\x7b\x7d void f()\x7binitialize();\x7d\x7d"

/-- The implementation file that is generated for the class: it sends `initialize`, and neither
declares nor defines it. -/
def selfInitializingImplementation : Text := Text.endEach "\n"
  ["// A.m", "// Generated by java2objc. Do not edit.", "", "#import \"A.h\"", "",
    "@implementation A", "", "- (void)f", "\x7b", "    [A initialize];", "\x7d", "", "@end"]

end Generator

end JavaObjC
