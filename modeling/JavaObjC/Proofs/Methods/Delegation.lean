import JavaObjC.Proofs.Calls.Arguments
import JavaObjC.Proofs.Initialization
import JavaObjC.Proofs.Methods.Constructors

/-!
# Initializers that hand over

A constructor that begins with a call written with `this` becomes an initializer
that first has another initializer of the class run, and that one runs the initial
values and the blocks of the instance. All other initializers run them themselves,
after their message to the superclass and before their own statements. So in
whatever way an instance is made, they all run once, however long the chain of
initializers is that hand over to each other.
-/

namespace JavaObjC

open Generating

section Messages

variable {receiver selector keyword text w w' : Text} {more arguments : List Text}

theorem message_inj (h : message receiver w = message receiver w') : w = w' :=
  List.append_cancel_left (List.append_cancel_right h)

/-- A message begins with its first keyword, and a colon follows if there are arguments. -/
theorem send?_cons (h : send? receiver (keyword :: more) arguments = some text) :
    ∃ w, text = message receiver w ∧ (arguments = [] → w = keyword) ∧
      (arguments ≠ [] → ∃ rest, w = keyword ++ Text.byte ':' :: rest) := by
  cases arguments with
  | nil =>
    obtain rfl := Option.some.inj h
    exact ⟨keyword, rfl, fun _ => rfl, fun hne => absurd rfl hne⟩
  | cons first arguments =>
    simp only [send?] at h
    split at h
    · cases h
    · obtain rfl := Option.some.inj h
      refine ⟨_, rfl, fun hnil => absurd hnil (by simp), fun _ => ?_⟩
      rw [List.zip_cons_cons, List.map_cons, Text.ofString_colon]
      generalize (more.zip arguments).map _ = parts
      cases parts with
      | nil => exact ⟨first, by simp [Text.join]⟩
      | cons second others =>
        rw [Text.join.eq_3 _ _ _ (by simp)]
        exact ⟨_, by simp only [List.append_assoc, List.cons_append, List.nil_append]; rfl⟩

/-- What answers a message that begins like one for an initializer begins so too. -/
theorem IsMessage.namesInitializer (h : IsMessage receiver selector (message receiver w))
    (hw : Text.namesInitializer w = true) : Text.namesInitializer selector = true := by
  obtain ⟨keywords, arguments, hsend, hlength, rfl⟩ := h
  cases keywords with
  | nil => exact absurd hlength (by simp; omega)
  | cons keyword more =>
    obtain ⟨w', hmessage, hnil, hcons⟩ := send?_cons hsend
    obtain rfl := message_inj hmessage
    cases arguments with
    | nil =>
      obtain rfl : more = [] := by simpa using hlength
      simpa [hnil rfl] using hw
    | cons first arguments =>
      obtain ⟨rest, rfl⟩ := hcons (by simp)
      have hstart := Text.namesInitializer_of_append (by decide) (by decide) hw
      rw [List.isEmpty_cons, if_neg (by simp), Text.namesInitializer, Text.endEach,
        List.flatMap_cons, List.append_assoc, Text.startsWith_of_front hstart,
        Bool.or_true]

/-- The message that is sent with the keywords of an initializer begins like one. -/
theorem namesInitializer_of_send? (h : send? receiver (keyword :: more) arguments = some text)
    (hnone : arguments = [] → keyword = "init")
    (hsome : arguments ≠ [] → Text.startsWith keyword "initWith" = true) :
    ∃ w, text = message receiver w ∧ Text.namesInitializer w = true := by
  obtain ⟨w, hmessage, hnil, hcons⟩ := send?_cons h
  refine ⟨w, hmessage, ?_⟩
  by_cases hempty : arguments = []
  · rw [hnil hempty, hnone hempty]
    decide
  · obtain ⟨rest, rfl⟩ := hcons hempty
    rw [Text.namesInitializer, Text.startsWith_of_front (hsome hempty), Bool.or_true]

end Messages

/-- The message for an initializer names one. -/
theorem Lowering.sendInit_names {around : Surroundings} {s s' : BodyState} {receiver text : Text}
    {owner : Option ClassSignature} {arguments : List Value} {types : List JavaType}
    (h : result (sendInit receiver owner arguments types) around s = (.ok text, s')) :
    ∃ w, text = message receiver w ∧ Text.namesInitializer w = true := by
  have hempty : coerceAll arguments types = [] ↔ arguments.length = 0 := by
    rw [← List.length_eq_zero_iff, length_coerceAll]
  unfold sendInit at h
  dsimp only at h
  split at h
  · next info hinfo =>
    have harity : info.parameterNames.length = arguments.length := by
      rw [MethodSignature.parameterNames, List.length_map]
      exact arity_of_constructor? hinfo
    cases hnames : info.parameterNames with
    | nil =>
      rw [hnames] at h harity
      exact namesInitializer_of_send? (send_ok h) (fun _ => rfl) fun hne =>
        absurd (hempty.2 harity.symm) hne
    | cons first others =>
      rw [hnames] at h harity
      refine namesInitializer_of_send? (send_ok h) (fun hnil => ?_) fun _ =>
        Text.startsWith_append _ _
      rw [hempty.1 hnil] at harity
      cases harity
  · refine namesInitializer_of_send? (send_ok h) (fun hnil => ?_) fun hne => ?_
    · simp [hempty.1 hnil]
    · rw [if_pos rfl, if_neg fun hzero => hne (hempty.2 hzero)]
      decide

/-- How many arguments a call has. -/
def Node.argumentCount (n : Node) : Nat :=
  ((n.child? .parameters).map fun list => list.children.length).getD 0

/-- Whether a constructor hands over to a member of its class: it begins with a call that is
written with `this` and has as many arguments as the member, a constructor, has parameters. -/
def Node.handsOverTo (n target : Node) : Bool :=
  ((n.child? .block).bind fun block => block.children.head?).any fun call =>
    call.kind = .constructorCall && (call.child? .thisRef).isSome &&
      (target.kind = .constructorDecl && call.argumentCount = (Parameter.ofDecl target).length)

theorem Node.delegates_of_handsOverTo {n target : Node} (h : n.handsOverTo target = true) :
    n.delegates = true := by
  obtain ⟨call, hcall, hover⟩ := (Option.any_eq_true _ _).1 h
  rw [Bool.and_eq_true] at hover
  exact (Option.any_eq_true _ _).2 ⟨call, hcall, hover.1⟩

namespace Lowering

variable {isInterface : Bool} {around : Surroundings} {s s' : BodyState} {start : Text}
  {n target block call decl : Node} {m : TargetMethod}

/-- A call with `this` sends the message of an initializer with its arguments. -/
theorem constructorBody_self {parameters : List Parameter} {body : List Stmt}
    (hcall : call ∈ block.children.head?) (hkind : call.kind = .constructorCall)
    (hself : (call.child? .thisRef).isSome = true)
    (h : result (constructorBody parameters block) around s = (.ok (start, body), s')) :
    ∃ (arguments : List Value) (t t' : BodyState), arguments.length = call.argumentCount ∧
      result (sendInit "self" around.unit arguments []) around t = (.ok start, t') := by
  have hthis : (Parts.first? (call.children.map attributed) .thisRef).isSome = true := by
    rw [first?_map, Option.isSome_map]
    exact hself
  have hcount : ∀ {t t' : BodyState} {arguments : List Value},
      result (Parts.arguments (call.children.map attributed)) around t = (.ok arguments, t') →
        arguments.length = call.argumentCount := by
    intro t t' arguments h
    have hchild : call.argumentCount =
        ((call.children.find? (·.kind = .parameters)).map fun list => list.children.length).getD
          0 := rfl
    simp only [Parts.arguments, first?_map] at h
    rw [hchild]
    cases hlist : call.children.find? (·.kind = .parameters) with
    | none =>
      rw [hlist] at h
      obtain ⟨rfl, -⟩ := pure_ok h
      rfl
    | some list =>
      rw [hlist] at h
      have hlength := length_of_mapM_ok h
      rwa [attributed_parts, List.length_map] at hlength
  obtain ⟨rest, hchildren⟩ : ∃ rest, block.children = call :: rest := by
    cases hchildren : block.children with
    | nil =>
      rw [hchildren] at hcall
      cases hcall
    | cons first rest =>
      rw [hchildren] at hcall
      obtain rfl := Option.some.inj hcall
      exact ⟨rest, rfl⟩
  unfold constructorBody at h
  obtain ⟨_, s₁, -, h⟩ := bind_ok h
  rw [attributed_parts, hchildren] at h
  simp only [List.map_cons, attributed_kind, hkind, if_true] at h
  obtain ⟨message, s₂, hmessage, h⟩ := bind_ok h
  obtain ⟨inner, s₃, -, h⟩ := bind_ok h
  obtain ⟨heq, -⟩ := pure_ok h
  obtain ⟨rfl, -⟩ := Prod.mk.inj heq
  rw [attributed_parts, constructorCall] at hmessage
  split at hmessage
  · exact absurd hmessage throw_ok
  · obtain ⟨arguments, t, harguments, hmessage⟩ := bind_ok hmessage
    obtain ⟨_, t', hread, hmessage⟩ := bind_ok hmessage
    obtain ⟨rfl, rfl⟩ := read_ok hread
    rw [if_pos hthis] at hmessage
    exact ⟨arguments, t, s₂, hcount harguments, hmessage⟩

/-- A constructor that hands over becomes an initializer that starts with a message for an
initializer, with the arguments of the call. -/
theorem Translates.sent (h : Translates isInterface around n m) (hm : m.isConstructor = true)
    (hdelegates : n.delegates = true) :
    ∃ call ∈ (n.child? .block).bind fun block => block.children.head?,
      ∃ (arguments : List Value) (t t' : BodyState), arguments.length = call.argumentCount ∧
        result (sendInit "self" around.unit arguments []) { around with isConstructor := true } t =
          (.ok (ClassModel.initCallOf m), t') := by
  cases h with
  | method => cases hm
  | @constructor parameters block start body hkind hparameters hblock hbody =>
    obtain ⟨call, hcall, hdelegates⟩ := (Option.any_eq_true _ _).1 hdelegates
    rw [Bool.and_eq_true, decide_eq_true_eq] at hdelegates
    have hhead : call ∈ block.children.head? := by
      rw [hblock] at hcall
      exact hcall
    have hrun : result (constructorBody (Parameter.ofDecl n) block)
        { around with isConstructor := true } { scopes := [[]] } = (.ok (start, body), _) :=
      Prod.ext hbody rfl
    obtain ⟨arguments, t, t', hcount, hsend⟩ :=
      constructorBody_self hhead hdelegates.1 hdelegates.2 hrun
    obtain ⟨w, rfl, -⟩ := sendInit_names hsend
    exact ⟨call, hcall, arguments, t, t', hcount, hsend⟩

/-- A constructor that does not hand over becomes an initializer that starts with one of the
superclass. -/
theorem Translates.startsWith_super (h : Translates isInterface around n m)
    (hm : m.isConstructor = true) (hdelegates : n.delegates = false) :
    Text.startsWith (ClassModel.initCallOf m) "[super " = true := by
  have hself := (h.delegates hm).2
  rw [hdelegates] at hself
  cases h with
  | method => cases hm
  | @constructor parameters block start body hkind hparameters hblock hbody =>
    have hrun : result (constructorBody (Parameter.ofDecl n) block)
        { around with isConstructor := true } { scopes := [[]] } = (.ok (start, body), _) :=
      Prod.ext hbody rfl
    rcases constructorBody_ok hrun with ⟨rfl, -⟩ | ⟨call, rest, -, -, rfl⟩
    · rfl
    · cases hthis : (call.child? .thisRef).isSome with
      | false => rfl
      | true =>
        rw [hthis] at hself
        cases hself

/-- A constructor belongs to the instances. -/
theorem Translates.isStatic_eq (h : Translates isInterface around n m)
    (hm : m.isConstructor = true) : m.isStatic = false := by
  cases h with
  | method => cases hm
  | constructor => rfl

/-- A constructor is found by its number of parameters if there is no other one with it. -/
theorem constructor?_of_mem {c : ClassSignature} {info : MethodSignature}
    (h : (c.constructors.map MethodSignature.arity).Nodup) (hinfo : info ∈ c.constructors) :
    c.constructor? info.arity = some info := by
  cases hfound : c.constructor? info.arity with
  | none =>
    have hnone := List.find?_eq_none.1 hfound info hinfo
    exact absurd (by simp) hnone
  | some other =>
    have harity : other.arity = info.arity := by simpa using List.find?_some hfound
    rw [List.inj_on_of_nodup_map h (List.mem_of_find?_eq_some hfound) hinfo harity]

/-- A constructor that hands over to another one of its class starts with the message that the
initializer of the other one answers. -/
theorem Translates.handsOver (h : Translates isInterface around n m) (hm : m.isConstructor = true)
    (hover : n.handsOverTo target = true) (hunit : around.unit = some (.ofDecl decl))
    (harities : ((ClassSignature.ofDecl decl).constructors.map MethodSignature.arity).Nodup)
    (htarget : target ∈ decl.members) {m' : TargetMethod}
    (h' : Translates isInterface around target m') :
    IsMessage "self" m'.selector (ClassModel.initCallOf m) := by
  have hdelegates := Node.delegates_of_handsOverTo hover
  obtain ⟨call', hcall', hover⟩ := (Option.any_eq_true _ _).1 hover
  simp only [Bool.and_eq_true, decide_eq_true_eq] at hover
  obtain ⟨⟨hkind, hself⟩, hconstructor, hparameters⟩ := hover
  obtain ⟨call, hcall, arguments, t, t', hcount, hsend⟩ := h.sent hm hdelegates
  obtain rfl := Option.mem_unique hcall hcall'
  have hinfo : MethodSignature.ofConstructor (declaredName decl) target ∈
      (ClassSignature.ofDecl decl).constructors := by
    rw [ClassSignature.ofDecl_constructors]
    exact List.mem_map_of_mem (List.mem_filter.2 ⟨htarget, by simpa using hconstructor⟩)
  have hfound := constructor?_of_mem harities hinfo
  have harity : (MethodSignature.ofConstructor (declaredName decl) target).arity =
      arguments.length := hparameters.symm.trans hcount.symm
  have hmessage := sendInit_isMessage (by rw [hunit, ← harity]; exact hfound) hsend
  have hinfo' : memberInfo? (declaredName decl) target =
      some (true, .ofConstructor (declaredName decl) target) := by
    simp [memberInfo?, hconstructor]
  have hreflects := h'.reflects hinfo'
  rw [hreflects.selector_eq]
  exact hmessage

end Lowering

end JavaObjC
