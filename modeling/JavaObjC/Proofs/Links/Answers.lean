import JavaObjC.Proofs.Batch.Files
import JavaObjC.Proofs.Links.Names
import JavaObjC.Proofs.Links.Members
import JavaObjC.Proofs.Workshop.Records

/-!
# How methods are told apart and found

A class keeps one method for each signature and of those one for each message.
A signature tells the receiver, the name and the number of parameters, because
names are words and the keys of types are not empty and hold no comma. A
message tells the receiver and the selector, because no selector begins with
the mark of class methods.

Callers look for the first method of a name, or the first constructor, with a
number of parameters. The class is generated from the same members, but leaves
out methods whose signature or message an earlier one has. Since members of one
signature are wanted by the same callers, the first one that is wanted is never
left out for its signature, and what stands in for its message has the same
receiver and the same selector.
-/

namespace JavaObjC

namespace Text

/-- The place of the first byte of a kind tells the parts before and after it. -/
theorem append_cons_inj {b : UInt8} {s s' t t' : Text} (h : b ∉ s) (h' : b ∉ s')
    (heq : s ++ b :: t = s' ++ b :: t') : s = s' ∧ t = t' := by
  induction s generalizing s' with
  | nil =>
    cases s' with
    | nil => exact ⟨rfl, (List.cons.inj heq).2⟩
    | cons c rest' => exact absurd (List.cons.inj heq).1 (List.ne_of_not_mem_cons h')
  | cons c rest ih =>
    cases s' with
    | nil => exact absurd (List.cons.inj heq).1.symm (List.ne_of_not_mem_cons h)
    | cons c' rest' =>
      rw [List.mem_cons, not_or] at h h'
      obtain ⟨hfirst, hrest⟩ := List.cons.inj heq
      obtain ⟨hparts, htail⟩ := ih h.2 h'.2 hrest
      exact ⟨by rw [hfirst, hparts], htail⟩

/-- Texts that are not empty are not so together. -/
theorem join_ne_nil {separator : Text} {parts : List Text} (hne : parts ≠ [])
    (h : ∀ t ∈ parts, t ≠ []) : join separator parts ≠ [] := by
  cases parts with
  | nil => exact absurd rfl hne
  | cons t rest =>
    rw [List.forall_mem_cons] at h
    cases rest with
    | nil => exact h.1
    | cons t' rest' =>
      rw [join.eq_3 _ _ _ (by simp)]
      simp [h.1]

/-- Lists of items are equal if they are joined to the same text. -/
theorem join_inj {parts parts' : List Text} (h : ∀ t ∈ parts, t.IsItem)
    (h' : ∀ t ∈ parts', t.IsItem) (heq : join "," parts = join "," parts') : parts = parts' := by
  have hempty : ∀ {parts : List Text}, (∀ t ∈ parts, t.IsItem) → join "," parts = [] →
      parts = [] := fun hparts hjoin =>
    by_contra fun hne => join_ne_nil hne (fun t ht => (hparts t ht).1) hjoin
  by_cases hnil : parts = []
  · rw [hnil] at heq ⊢
    exact (hempty h' heq.symm).symm
  · by_cases hnil' : parts' = []
    · rw [hnil'] at heq ⊢
      exact hempty h heq
    · have hsplit := splitOn_join hnil fun t ht => (h t ht).2
      have hsplit' := splitOn_join hnil' fun t ht => (h' t ht).2
      exact hsplit.symm.trans ((congrArg (splitOn (byte ',')) heq).trans hsplit')

end Text

namespace TargetMethod

/-- A method whose name is a word and whose parameter types have keys. -/
structure Spelled (m : TargetMethod) : Prop where
  name : m.name.IsWord
  keys : ∀ p ∈ m.parameters, p.type.key.IsItem

variable {m m' : TargetMethod}

/-- What stands in front of the parameters in a signature. -/
def signatureHead (m : TargetMethod) : Text :=
  (if m.isStatic then "+" else "" : Text) ++ (if m.isConstructor then "<init>" else m.name : Text)

/-- A signature is its head and the types of its parameters in parentheses. -/
theorem signature_eq (m : TargetMethod) : m.signature = m.signatureHead ++ Text.byte '(' ::
    (Text.join "," (m.parameters.map (·.type.key)) ++ ")") := by
  have hbracket : Text.ofString "(" = [Text.byte '('] := by decide
  simp only [signature, signatureHead, hbracket, List.append_assoc, List.cons_append,
    List.nil_append]

/-- The head of a spelled signature has no parenthesis. -/
theorem Spelled.notMem_signatureHead (h : m.Spelled) : Text.byte '(' ∉ m.signatureHead := by
  rw [signatureHead, List.mem_append, not_or]
  refine ⟨by split <;> decide, ?_⟩
  split
  · decide
  · exact h.name.notMem (by decide)

/-- The head of a signature tells the receiver and the name. -/
theorem Spelled.signatureHead_inj (h : m.Spelled) (h' : m'.Spelled)
    (heq : m.signatureHead = m'.signatureHead) :
    m.isStatic = m'.isStatic ∧ m.isConstructor = m'.isConstructor ∧
      (m.isConstructor = false → m.name = m'.name) := by
  obtain ⟨b, rest, hname⟩ := List.exists_cons_of_ne_nil h.name.1
  obtain ⟨b', rest', hname'⟩ := List.exists_cons_of_ne_nil h'.name.1
  have hb : ∀ c ∈ [Text.byte '+', Text.byte '<'], b ≠ c ∧ b' ≠ c := by
    intro c hc
    have hother : Lexeme.isLetterOrDigit c = false := by
      simp only [List.mem_cons, List.not_mem_nil, or_false] at hc
      rcases hc with rfl | rfl <;> decide
    exact ⟨fun heq => h.name.notMem hother (by simp [hname, heq]),
      fun heq => h'.name.notMem hother (by simp [hname', heq])⟩
  have hplus := hb (Text.byte '+') (by simp)
  have hangle := hb (Text.byte '<') (by simp)
  have htexts : Text.ofString "+" = [Text.byte '+'] ∧ Text.ofString "" = [] ∧
      ∃ t, Text.ofString "<init>" = Text.byte '<' :: t := ⟨by decide, by decide, _, rfl⟩
  obtain ⟨hone, hnone, t, hinit⟩ := htexts
  have hdiffer : Text.byte '+' ≠ Text.byte '<' := by decide
  unfold signatureHead at heq
  rw [hone, hnone, hinit, hname, hname'] at heq
  cases hs : m.isStatic <;> cases hs' : m'.isStatic <;> cases hc : m.isConstructor <;>
    cases hc' : m'.isConstructor <;> simp_all

/-- A signature tells the receiver, the name and the number of parameters. -/
theorem Spelled.signature_inj (h : m.Spelled) (h' : m'.Spelled)
    (heq : m.signature = m'.signature) :
    m.isStatic = m'.isStatic ∧ m.isConstructor = m'.isConstructor ∧
      (m.isConstructor = false → m.name = m'.name) ∧
      m.parameters.length = m'.parameters.length := by
  rw [signature_eq, signature_eq] at heq
  obtain ⟨hhead, htail⟩ :=
    Text.append_cons_inj h.notMem_signatureHead h'.notMem_signatureHead heq
  obtain ⟨hstatic, hconstructor, hname⟩ := h.signatureHead_inj h' hhead
  have hkeys := Text.join_inj (by simpa using h.keys) (by simpa using h'.keys)
    (List.append_cancel_right htail)
  have hlength := congrArg List.length hkeys
  rw [List.length_map, List.length_map] at hlength
  exact ⟨hstatic, hconstructor, hname, hlength⟩

end TargetMethod

/-- The selector that the keywords of a method spell. -/
def selectorOf (name : Text) (isConstructor : Bool) (parameters : List Text) : Text :=
  let keywords := selectorKeywords name isConstructor parameters
  if parameters.isEmpty then keywords.flatten else Text.endEach ":" keywords

namespace TargetMethod

variable {m m' : TargetMethod}

/-- A selector is made of the name and the names of the parameters. -/
theorem selector_eq (m : TargetMethod) :
    m.selector = selectorOf m.name m.isConstructor m.parameterNames := by
  simp only [selector, selectorOf, keywords, parameterNames, List.isEmpty_map]

/-- No word starts with the mark of class methods. -/
theorem Spelled.unmarked (h : m.Spelled) : m.Unmarked := fun hmark =>
  h.name.notMem (b := Text.byte '+') (by decide) (List.mem_of_mem_head? hmark)

end TargetMethod

section Kept

variable {m : TargetMethod} {methods added : List TargetMethod}

/-- A method that is there was so before or is the one added. -/
theorem mem_addedTo {m' : TargetMethod} (h : m' ∈ addedTo methods m) : m' ∈ methods ∨ m' = m := by
  unfold addedTo at h
  split at h
  · exact .inl h
  · simpa using h

/-- Methods that are there stay there. -/
theorem mem_foldl_addedTo (h : m ∈ methods) : m ∈ added.foldl addedTo methods := by
  induction added generalizing methods with
  | nil => exact h
  | cons a rest ih =>
    refine ih ?_
    unfold addedTo
    split
    · exact h
    · exact List.mem_append_left _ h

/-- What is there was added. -/
theorem mem_of_mem_foldl_addedTo (h : m ∈ added.foldl addedTo methods) :
    m ∈ methods ∨ m ∈ added := by
  induction added generalizing methods with
  | nil => exact .inl h
  | cons a rest ih =>
    rcases ih h with h | h
    · rcases mem_addedTo h with h | rfl
      · exact .inl h
      · exact .inr List.mem_cons_self
    · exact .inr (List.mem_cons_of_mem a h)

/-- The first method of its signature is there in the end. -/
theorem mem_of_first_signature {before after : List TargetMethod}
    (h : ∀ m' ∈ before, m'.signature ≠ m.signature) :
    m ∈ (before ++ m :: after).foldl addedTo [] := by
  rw [List.foldl_append, List.foldl_cons]
  refine mem_foldl_addedTo ?_
  have hnone : (before.foldl addedTo []).any (·.signature = m.signature) = false := by
    rw [List.any_eq_false]
    intro m' hm'
    simpa using h m' ((mem_of_mem_foldl_addedTo hm').resolve_left List.not_mem_nil)
  simp [addedTo, hnone]

/-- A class has a method that answers the message of the first method of a signature. -/
theorem exists_answer {before after : List TargetMethod}
    (hspelled : ∀ m' ∈ before ++ m :: after, m'.Spelled)
    (h : ∀ m' ∈ before, m'.signature ≠ m.signature) :
    ∃ m' ∈ firstPerKey ClassBuilder.messageKey ((before ++ m :: after).foldl addedTo []),
      m'.isStatic = m.isStatic ∧ m'.selector = m.selector := by
  have hthere : m ∈ (before ++ m :: after).foldl addedTo [] := mem_of_first_signature h
  rw [firstPerKey_eq]
  obtain ⟨m', hm', hkey⟩ := (exists_mem_firstBy ClassBuilder.messageKey).2 ⟨m, hthere, rfl⟩
  have hkept := (firstBy_sublist ClassBuilder.messageKey _).subset hm'
  have hmem := (mem_of_mem_foldl_addedTo hkept).resolve_left List.not_mem_nil
  have hunmarked := (hspelled m (by simp)).unmarked
  exact ⟨m', hm', Prod.mk.inj
    ((TargetMethod.messageKey_eq_iff (hspelled m' hmem).unmarked hunmarked).1 hkey)⟩

end Kept

open Generating

section Members

variable {n decl cu : Node} {owner : Text}

/-- The methods and constructors that the members of a class are. -/
def Node.memberInfos (decl : Node) : List (Bool × MethodSignature) :=
  decl.members.filterMap (memberInfo? (declaredName decl))

/-- The methods of a signature are the members that are no constructors. -/
theorem ofDecl_methods_eq (decl : Node) : (ClassSignature.ofDecl decl).methods =
    (decl.memberInfos.filter (·.1 = false)).map Prod.snd := by
  rw [ClassSignature.ofDecl_methods, Node.memberInfos]
  induction decl.members with
  | nil => rfl
  | cons n rest ih =>
    rw [List.filter_cons, List.filterMap_cons]
    cases hkind : n.kind <;> simpa [memberInfo?, hkind] using ih

/-- The constructors of a signature are the members that are constructors. -/
theorem ofDecl_constructors_eq (decl : Node) : (ClassSignature.ofDecl decl).constructors =
    (decl.memberInfos.filter (·.1 = true)).map Prod.snd := by
  rw [ClassSignature.ofDecl_constructors, Node.memberInfos]
  induction decl.members with
  | nil => rfl
  | cons n rest ih =>
    rw [List.filter_cons, List.filterMap_cons]
    cases hkind : n.kind <;> simpa [memberInfo?, hkind] using ih

/-- A declared method or constructor as accepted trees have it: the name of a method is a word,
a constructor belongs to the objects, and the parameters and their types have names. -/
structure WellNamed (info : Bool × MethodSignature) : Prop where
  name : info.1 = false → info.2.name.IsWord
  receiver : info.1 = true → info.2.isStatic = false
  types : ∀ p ∈ info.2.parameters, p.type.name.IsTypeName
  parameters : ∀ p ∈ info.2.parameters, p.name.IsWord

/-- The members that the grammar derives are well named. -/
theorem wellNamed_of_member (h : Derives .member n) (hclean : n.Clean)
    {info : Bool × MethodSignature} (hinfo : memberInfo? owner n = some info) : WellNamed info := by
  unfold memberInfo? at hinfo
  split at hinfo
  · next hkind =>
    obtain rfl := Option.some.inj hinfo
    exact ⟨fun _ => declaredName_of_methodDecl h hclean hkind, nofun,
      parameterTypes_areTypeNames h hclean (.inl hkind),
      parameterNames_areWords h hclean (.inl hkind)⟩
  · next hkind =>
    obtain rfl := Option.some.inj hinfo
    exact ⟨nofun, fun _ => rfl, parameterTypes_areTypeNames h hclean (.inr hkind),
      parameterNames_areWords h hclean (.inr hkind)⟩
  · cases hinfo

/-- The methods and constructors of a class in an accepted tree are well named. -/
theorem wellNamed_of_memberInfos (h : Derives .typeDecl decl) (hclean : decl.Clean)
    (hkind : decl.kind = .classDecl ∨ decl.kind = .interfaceDecl) :
    ∀ info ∈ decl.memberInfos, WellNamed info := by
  obtain ⟨front, block, hchildren, -, hblock, hbody⟩ :=
    Lowering.typeDecl_children hclean h hkind
  have hblock' : block.Clean := hclean.child (by simp [hchildren])
  obtain ⟨-, hall⟩ : block.kind = .block ∧ DerivesAll .member block.children :=
    hblock.uniform hblock' (by decide)
  intro info hinfo
  obtain ⟨n, hn, hinfo⟩ := List.mem_filterMap.1 hinfo
  have hn' : n ∈ block.children := by simpa [Node.members, hbody] using hn
  exact wellNamed_of_member (hall n hn') (hblock'.child hn') hinfo

end Members

section Methods

variable {mapper : TypeMapper} {r : Registry} {info info' : Bool × MethodSignature}
  {m m' : TargetMethod} {infos : List (Bool × MethodSignature)} {added : List TargetMethod}

/-- The methods that come from well named declarations are told apart by their signatures. -/
theorem TargetMethod.Reflects.spelled (hmapper : mapper.CommaFree) (hr : r.Named)
    (hinfo : WellNamed info) (h : m.Reflects mapper r info.1 info.2) : m.Spelled := by
  refine ⟨?_, fun q hq => ?_⟩
  · rw [h.name_eq]
    cases hconstructor : info.1 with
    | true =>
      have hinit : (Text.ofString "init").IsWord := ⟨by decide, List.all_eq_true.1 (by decide)⟩
      exact hinit
    | false => exact hinfo.name hconstructor
  · obtain ⟨p, hp, hreflects⟩ := exists_of_mem_forall₂ h.parameters hq
    rcases hreflects.type_eq with htype | htype
    · rw [htype]
      exact ⟨by decide, by decide⟩
    · rw [htype]
      exact map_key hmapper hr (hinfo.types p hp)

/-- The keywords of a method are those of its declaration. -/
theorem TargetMethod.Reflects.selector_eq {isConstructor : Bool} {declared : MethodSignature}
    (h : m.Reflects mapper r isConstructor declared) : m.selector = selectorOf
      (if isConstructor then Text.ofString "init" else declared.name) isConstructor
      declared.parameterNames := by
  have hnames : m.parameterNames = declared.parameterNames := by
    unfold TargetMethod.parameterNames MethodSignature.parameterNames
    have hparameters := h.parameters
    generalize declared.parameters = ps at hparameters ⊢
    generalize m.parameters = qs at hparameters ⊢
    induction hparameters with
    | nil => rfl
    | cons hfirst _ ih => rw [List.map_cons, List.map_cons, hfirst.name_eq, ih]
  rw [TargetMethod.selector_eq, h.name_eq, h.isConstructor_eq, hnames]

/-- Whether a member is what a caller looks for: a constructor, or a method of a name, with a
number of parameters. -/
def isWanted (isConstructor : Bool) (name : Text) (arity : Nat) (info : Bool × MethodSignature) :
    Bool :=
  info.1 = isConstructor && (isConstructor || info.2.name = name) && info.2.arity = arity

/-- A method is found as the first member that is wanted. -/
theorem method?_ofDecl (decl : Node) (name : Text) (arity : Nat) :
    (ClassSignature.ofDecl decl).method? name arity =
      (decl.memberInfos.find? (isWanted false name arity)).map Prod.snd := by
  rw [ClassSignature.method?, ofDecl_methods_eq, List.find?_map, List.find?_filter]
  congr 2
  funext info
  simp [isWanted, Bool.and_assoc]

/-- A constructor is found as the first member that is wanted. -/
theorem constructor?_ofDecl (decl : Node) (arity : Nat) :
    (ClassSignature.ofDecl decl).constructor? arity =
      (decl.memberInfos.find? (isWanted true [] arity)).map Prod.snd := by
  rw [ClassSignature.constructor?, ofDecl_constructors_eq, List.find?_map, List.find?_filter]
  congr 2
  funext info
  simp [isWanted]

/-- Members whose methods have the same signature are wanted by the same callers. -/
theorem isWanted_of_signature (h : m.Reflects mapper r info.1 info.2)
    (h' : m'.Reflects mapper r info'.1 info'.2) (hm : m.Spelled) (hm' : m'.Spelled)
    (heq : m.signature = m'.signature) (isConstructor : Bool) (name : Text) (arity : Nat) :
    isWanted isConstructor name arity info = isWanted isConstructor name arity info' := by
  obtain ⟨-, hconstructor, hname, hlength⟩ := hm.signature_inj hm' heq
  rw [h.isConstructor_eq, h'.isConstructor_eq] at hconstructor
  rw [h.isConstructor_eq, h.name_eq, h'.name_eq, ← hconstructor] at hname
  have harity : info.2.arity = info'.2.arity := by
    rw [MethodSignature.arity, MethodSignature.arity, h.parameters.length_eq,
      h'.parameters.length_eq, hlength]
  unfold isWanted
  rw [← hconstructor, ← harity]
  cases hkind : info.1 with
  | true => cases isConstructor <;> simp
  | false =>
    rw [hkind] at hname
    have hname' : info.2.name = info'.2.name := by simpa using hname
    rw [hname']

/-- Two rows that correspond are split at the same place. -/
theorem forall₂_split {α β : Type} {R : α → β → Prop} {front back : List α} {a : α} {bs : List β}
    (h : List.Forall₂ R (front ++ a :: back) bs) : ∃ front' b back', bs = front' ++ b :: back' ∧
      List.Forall₂ R front front' ∧ R a b := by
  induction front generalizing bs with
  | nil =>
    cases h with
    | cons hfirst _ => exact ⟨[], _, _, rfl, .nil, hfirst⟩
  | cons c front ih =>
    cases h with
    | cons hfirst hrest =>
      obtain ⟨front', b, back', rfl, hfront, hb⟩ := ih hrest
      exact ⟨_ :: front', b, back', rfl, .cons hfirst hfront, hb⟩

/-- The first member that a caller wants is answered by a method of the class. -/
theorem exists_answer_of_wanted (hmapper : mapper.CommaFree) (hr : r.Named)
    (hinfos : ∀ info ∈ infos, WellNamed info)
    (hadded : List.Forall₂ (fun info m => TargetMethod.Reflects mapper r info.1 info.2 m)
      infos added)
    (isConstructor : Bool) (name : Text) (arity : Nat)
    (hfirst : infos.find? (isWanted isConstructor name arity) = some info) :
    ∃ m ∈ firstPerKey ClassBuilder.messageKey (added.foldl addedTo []),
      m.isStatic = info.2.isStatic ∧ m.selector = selectorOf
        (if isConstructor then Text.ofString "init" else name) isConstructor
        info.2.parameterNames := by
  obtain ⟨hwanted, front, back, rfl, hnone⟩ := List.find?_eq_some_iff_append.1 hfirst
  obtain ⟨before, m, after, rfl, hbefore, hm⟩ := forall₂_split hadded
  have hspelled : ∀ m' ∈ before ++ m :: after, m'.Spelled := by
    intro m' hm'
    obtain ⟨info', hinfo', hreflects⟩ := exists_of_mem_forall₂ hadded hm'
    exact hreflects.spelled hmapper hr (hinfos info' hinfo')
  have hdiffer : ∀ m' ∈ before, m'.signature ≠ m.signature := by
    intro m' hm' heq
    obtain ⟨info', hinfo', hreflects⟩ := exists_of_mem_forall₂ hbefore hm'
    have hsame := isWanted_of_signature hreflects hm (hspelled m' (List.mem_append_left _ hm'))
      (hspelled m (by simp)) heq isConstructor name arity
    have hother := hnone info' hinfo'
    rw [hsame, hwanted] at hother
    cases hother
  obtain ⟨m', hm', hstatic, hselector⟩ := exists_answer hspelled hdiffer
  refine ⟨m', hm', hstatic.trans hm.isStatic_eq, hselector.trans ?_⟩
  simp only [isWanted, Bool.and_eq_true, Bool.or_eq_true, decide_eq_true_eq] at hwanted
  obtain ⟨⟨hconstructor, hname⟩, -⟩ := hwanted
  rw [hm.selector_eq, hconstructor]
  cases isConstructor with
  | true => rfl
  | false =>
    obtain rfl : info.2.name = name := by simpa using hname
    rfl

end Methods

end JavaObjC
