import JavaObjC.Proofs.Effects.Values

/-!
# Calls in library expressions

The expression for a library method has the calls of its receiver and of its
arguments. Three methods are exceptions: a part of a string writes its begin
twice, the length of a builder leaves out what is appended before, and the time
leaves out its arguments; a chain on a builder writes the builder again for
every further method. A method without parameters that is not listed has no
such expression.
-/

namespace JavaObjC

open Fragments LibraryCall

variable {f : MethodName} {j k : Nat} {r v : Value} {t r' : Text} {args : List Value}
  {name : String}

/-- A generated expression has a property if there is one. -/
def IfSome (P : Value → Prop) : Option Value → Prop
  | some v => P v
  | none => True

/-- What holds of an answer and of the next one holds of the first that is there. -/
theorem IfSome.or {P : Value → Prop} {found other : Option Value} (h : IfSome P found)
    (h' : IfSome P other) : IfSome P (found.or other) := by
  cases found with
  | some v => exact h
  | none => exact h'

/-- What a chain began with has the calls of the chain where a method of a builder writes it, or
none where the method is `length`. -/
def Value.ChainShows (r : Value) (f : MethodName) (j : Nat) (name : String) : Prop :=
  ∀ b ∈ r.builder, name ∈ ["append", "toString", "length"] →
    Shows f (if name = "length" then j else 0) b

/-- The start of a part of a string, which is written twice, has no calls. -/
def StartsQuietly (f : MethodName) (name : String) (args : List Value) : Prop :=
  name = "substring" → ∀ first stop, args = [first, stop] → f.callsIn first = 0

namespace Counted

variable {first second : Value}

/-- The first of counted arguments. -/
theorem head (h : Counted f (first :: args)) : Calls f (f.callsIn first) first :=
  h first List.mem_cons_self

/-- The second of counted arguments. -/
theorem next (h : Counted f (first :: second :: args)) : Calls f (f.callsIn second) second :=
  h.tail.head

/-- Two arguments that are written the other way round. -/
theorem swap (first second : Value) :
    f.callsIn second + f.callsIn first = f.callsInAll [first, second] := by
  simp only [MethodName.callsInAll_cons, MethodName.callsInAll_nil]
  omega

end Counted

/-- A string that is searched for shows its calls once. -/
theorem Calls.needle (h : Calls f k v) : Shows f k (LibraryCall.needle v) := by
  unfold LibraryCall.needle
  split
  · have htext : Text.ofString "@\"%C\"" = stringConstant "%C" := by decide +kernel
    rw [htext]
    have hformat : Shows f 0 (stringConstant "%C") := .constant f (by decide +kernel)
    simpa using hformat.formatted (.cons h.text (.nil f))
  · exact h.text

namespace Unchained

/-- A message shows the calls of its receiver and of its selector. -/
theorem answer (hr : Shows f j r') (h : Shows f k t) (type : JavaType) :
    Unchained f (j + k) (LibraryCall.answer r' t type) := .typed (hr.message h) type

/-- A message with one keyword. -/
theorem keyed (hr : Shows f j r') (h : Shows f k t) {c : String} (hc : c ∈ openings)
    (type : JavaType) : Unchained f (j + k) (LibraryCall.answer r' (Text.ofString c ++ t) type) :=
  .answer hr (h.keyed hc) type

/-- A message without arguments. -/
theorem bare (hr : Shows f j r') {c : String} (hc : c ∈ wholes) (type : JavaType) :
    Unchained f j (LibraryCall.answer r' (Text.ofString c) type) := .answer hr (.whole f hc) type

/-- A cast to an integer shows the calls of its operand. -/
theorem asInt (h : Shows f k t) : Unchained f k (LibraryCall.asInt t) :=
  .typed (h.keyed (by simp [openings])) .int

/-- A comparison shows the calls of its operand. -/
theorem comparison (h : Shows f k t) {c : String} (hc : c ∈ endings) :
    Unchained f k (LibraryCall.comparison (t ++ Text.ofString c)) :=
  .typed (h.followed hc).grouped .boolean

/-- A size shows the calls of its receiver. -/
theorem size (h : Shows f k t) : Unchained f k (LibraryCall.size t) :=
  .asInt (h.message (.whole f (by simp [wholes])))

/-- The place that a search in a string gives. -/
theorem location (hr : Shows f j r') (h : Shows f k t) :
    Shows f (j + k) (message r' t ++ Text.ofString ".location") := by
  refine (hr.message h).append (.whole f (by simp [wholes])) (.inr (.inr (.inl ?_)))
  have hbracket : Text.ofString "]" = [93] := by decide
  rw [message, hbracket, List.getLast?_concat]
  rfl

/-- A method of a string. The begin of a part is written twice. -/
theorem onString? (hr : Unchained f j r) (hargs : Counted f args)
    (hpart : StartsQuietly f name args) :
    IfSome (Unchained f (j + f.callsInAll args)) (LibraryCall.onString? r name args) := by
  fun_cases LibraryCall.onString? r name args
  · exact .asInt (hr.text.message (.whole f (by simp [wholes])))
  · exact .keyed hr.text hargs.head.unboxed (by simp [openings]) _
  · exact .comparison (hr.text.message (.whole f (by simp [wholes]))) (by simp [endings])
  · exact .keyed hr.text hargs.head.text (by simp [openings]) _
  · next first stop =>
    have hzero := hpart rfl first stop rfl
    have hfirst := hargs.head.text
    rw [hzero] at hfirst
    have hrange := (((hfirst.keyed (c := "substringWithRange:NSMakeRange(")
      (by simp [openings])).between hargs.next.text (c := ", (") (by simp [links])).between hfirst
      (c := ") - (") (by simp [links])).followed (c := "))") (by simp [endings])
    simp only [MethodName.callsInAll_cons, MethodName.callsInAll_nil, hzero]
    exact .answer hr.text hrange _
  · exact .asInt (location hr.text (hargs.head.needle.keyed (by simp [openings])))
  · exact .keyed hr.text hargs.head.text (by simp [openings]) _
  · exact .keyed hr.text hargs.head.text (by simp [openings]) _
  · exact .keyed hr.text hargs.head.text (by simp [openings]) _
  · exact .comparison (hr.text.message (hargs.head.text.keyed (by simp [openings])))
      (by simp [endings])
  · exact .asInt (hr.text.message (hargs.head.text.keyed (by simp [openings])))
  · exact .bare hr.text (by simp [wholes]) _
  · exact .bare hr.text (by simp [wholes]) _
  · exact .bare hr.text (by simp [wholes]) _
  · exact .keyed hr.text hargs.head.text (by simp [openings]) _
  · exact .answer hr.text ((hargs.head.text.keyed (by simp [openings])).between hargs.next.text
      (by simp [links])) _
  · trivial
  · exact hr
  · trivial

/-- A method of a list. -/
theorem onList? (hr : Shows f j r') (element : JavaType) (hargs : Counted f args) :
    IfSome (Unchained f (j + f.callsInAll args)) (LibraryCall.onList? r' element name args) := by
  fun_cases LibraryCall.onList? r' element name args
  · exact .size hr
  · exact .keyed hr hargs.head.unboxed (by simp [openings]) _
  · exact .keyed hr hargs.head.box (by simp [openings]) _
  · next i v =>
    rw [← Counted.swap i v]
    exact .answer hr ((hargs.next.box.keyed (by simp [openings])).between hargs.head.unboxed
      (by simp [links])) _
  · exact .answer hr ((hargs.head.unboxed.keyed (by simp [openings])).between hargs.next.box
      (by simp [links])) _
  · exact .keyed hr hargs.head.text (by simp [openings]) _
  · exact .keyed hr hargs.head.box (by simp [openings]) _
  · exact .keyed hr hargs.head.box (by simp [openings]) _
  · exact .asInt (hr.message (hargs.head.box.keyed (by simp [openings])))
  · exact .keyed hr hargs.head.text (by simp [openings]) _
  · trivial

/-- A method of a map. -/
theorem onMap? (hr : Shows f j r') (key element : JavaType) (hargs : Counted f args) :
    IfSome (Unchained f (j + f.callsInAll args)) (LibraryCall.onMap? r' key element name args) := by
  fun_cases LibraryCall.onMap? r' key element name args
  · exact .size hr
  · next k v =>
    rw [← Counted.swap k v]
    exact .answer hr ((hargs.next.box.keyed (by simp [openings])).between hargs.head.box
      (by simp [links])) _
  · exact .keyed hr hargs.head.box (by simp [openings]) _
  · exact .comparison (hr.message (hargs.head.box.keyed (by simp [openings]))) (by simp [endings])
  · next k v =>
    have hfound := (hr.message (hargs.head.box.keyed (c := "objectForKey:") (by simp [openings])))
    have hboth := ((hfound.keyed (c := "(") (by simp [openings])).between hargs.next.box
      (c := " ?: ") (by simp [links])).followed (c := ")") (by simp [endings])
    rw [Nat.add_assoc] at hboth
    exact .typed hboth _
  · exact .keyed hr hargs.head.box (by simp [openings]) _
  · exact .bare hr (by simp [wholes]) _
  · exact .bare hr (by simp [wholes]) _
  · trivial

/-- A method of a set. -/
theorem onSet? (hr : Shows f j r') (hargs : Counted f args) :
    IfSome (Unchained f (j + f.callsInAll args)) (LibraryCall.onSet? r' name args) := by
  fun_cases LibraryCall.onSet? r' name args
  · exact .size hr
  · exact .keyed hr hargs.head.box (by simp [openings]) _
  · exact .keyed hr hargs.head.box (by simp [openings]) _
  · exact .keyed hr hargs.head.box (by simp [openings]) _
  · trivial

/-- Appending writes the builder and the value. -/
theorem appending (hr : Shows f j r') (hv : Calls f k v) :
    Shows f (j + k) (LibraryCall.appending r' v) := by
  unfold LibraryCall.appending
  split
  · exact hr.message (hv.text.keyed (by simp [openings]))
  · obtain ⟨hdirective, hargument⟩ := hv.formatArgument
    have hformat := ((Shows.constant f hdirective).keyed (c := "appendFormat:")
      (by simp [openings])).between hargument (c := ", ") (by simp [links])
    rw [Nat.zero_add] at hformat
    exact hr.message hformat

/-- A method of a builder. Where the receiver is a chain, the builder it begins with is written
again, and for the length in place of the chain. Appending gives a chain on the same builder. -/
theorem onBuilder? (hr : Calls f j r) (hargs : Counted f args)
    (hchain : r.ChainShows f j name) :
    IfSome (fun v => Calls f (j + f.callsInAll args) v ∧
      if name = "append" then
        v.builder = some (r.builder.getD r.text) ∧ v.type = r.type ∧ args.length = 1
      else v.builder = none) (LibraryCall.onBuilder? r name args) := by
  obtain ⟨text, type, content, className, isStream, builder⟩ := r
  cases builder with
  | none =>
    fun_cases LibraryCall.onBuilder? ⟨text, type, content, className, isStream, none⟩ name args
    · exact ⟨.plain (appending hr.text hargs.head) rfl rfl rfl, rfl, rfl, rfl⟩
    · contradiction
    · exact ⟨(bare hr.text (by simp [wholes]) _).toCalls, rfl⟩
    · exact ⟨(asInt (hr.text.message (.whole f (c := "length") (by simp [wholes])))).toCalls, rfl⟩
    · trivial
  | some b =>
    fun_cases LibraryCall.onBuilder? ⟨text, type, content, className, isStream, some b⟩ name args
    · have hb : Shows f 0 b := by simpa using hchain b rfl (by simp)
      have hboth := hr.text.between (appending hb hargs.head) (c := ", ") (by simp [links])
      rw [Nat.zero_add] at hboth
      exact ⟨.plain hboth rfl rfl rfl, rfl, rfl, rfl⟩
    · have hb : Shows f 0 b := by simpa using hchain b rfl (by simp)
      have hcopy := hb.message (.whole f (c := "copy") (by simp [wholes]))
      exact ⟨(typed (hr.text.between hcopy (c := ", ") (by simp [links])).grouped _).toCalls, rfl⟩
    · contradiction
    · have hb : Shows f j b := by simpa using hchain b rfl (by simp)
      exact ⟨(asInt (hb.message (.whole f (c := "length") (by simp [wholes])))).toCalls, rfl⟩
    · trivial

/-- A method that every collection has. -/
theorem onCollection? (hr : Shows f j r') (hargs : Counted f args) :
    IfSome (Unchained f (j + f.callsInAll args)) (LibraryCall.onCollection? r' name args) := by
  fun_cases LibraryCall.onCollection? r' name args
  · exact .comparison (hr.message (.whole f (by simp [wholes]))) (by simp [endings])
  · exact .bare hr (by simp [wholes]) _
  · trivial

/-- An accessor of a boxed number. -/
theorem onBoxed? (hr : Shows f j r') (accessor : Text) (args : List Value) :
    IfSome (Unchained f (j + f.callsInAll args)) (LibraryCall.onBoxed? r' accessor args) := by
  fun_cases LibraryCall.onBoxed? r' accessor args
  · trivial
  · next hempty _ _ _ =>
    obtain rfl := List.isEmpty_iff.1 (Bool.and_eq_true_iff.1 hempty).1
    exact .answer hr (.unboxSelector f _) _
  · trivial

/-- A method that every object has. -/
theorem onObject? (hr : Shows f j r') (isDeclared : Bool) (hargs : Counted f args) :
    IfSome (Unchained f (j + f.callsInAll args))
      (LibraryCall.onObject? r' isDeclared name args) := by
  fun_cases LibraryCall.onObject? r' isDeclared name args
  · exact .keyed hr hargs.head.box (by simp [openings]) _
  · exact .asInt (hr.message (.whole f (by simp [wholes])))
  · exact .bare hr (by simp [wholes]) _
  · exact .bare hr (by simp [wholes]) _
  · trivial
  · exact .asInt (hr.message (hargs.head.box.keyed (by simp [openings])))
  · trivial

/-- A call of a function of the C library. -/
theorem functionOf (hargs : Counted f args) {c : String} (hc : c ∈ wholes) (type : JavaType) :
    Unchained f (f.callsInAll args) (LibraryCall.functionOf c args type) :=
  .typed ((ShowsAll.map hargs fun v hv => (hargs v hv).unboxed).function hc) type

/-- A mathematical method. -/
theorem onMath? (hargs : Counted f args) :
    IfSome (Unchained f (f.callsInAll args)) (LibraryCall.onMath? name args) := by
  fun_cases LibraryCall.onMath? name args
  · exact .functionOf hargs (by simp [wholes]) _
  · exact .functionOf hargs (by simp [wholes]) _
  · exact .functionOf hargs (by simp [wholes]) _
  · exact .functionOf hargs (by simp [wholes]) _
  · exact .functionOf hargs (by simp [wholes]) _
  · exact .typed (.whole f (by simp [wholes])) _
  · next hknown _ _ _ _ _ =>
    have hall : ∀ name ∈ mathFunctions, name ∈ wholes := by simp [mathFunctions, wholes]
    rw [if_pos hknown]
    exact .functionOf hargs (hall name (List.contains_iff_mem.1 hknown)) _
  · next hknown _ _ _ _ _ =>
    rw [if_neg hknown]
    trivial

/-- A static method of the string class. -/
theorem onStringClass? (hargs : Counted f args) :
    IfSome (Unchained f (f.callsInAll args)) (LibraryCall.onStringClass? name args) := by
  fun_cases LibraryCall.onStringClass? name args
  · exact hargs.concatenated
  · exact .typed (Shows.formatted hargs.head.formatPattern (.map hargs.tail fun v hv =>
      (hargs.tail v hv).formatArgument.2)) _
  · trivial

/-- A static method of a class of boxed values. -/
theorem onBoxedClass? (className method : Text) (hargs : Counted f args) :
    IfSome (Unchained f (f.callsInAll args)) (LibraryCall.onBoxedClass? className method args) := by
  fun_cases LibraryCall.onBoxedClass? className method args
  · exact .answer hargs.head.text (.unboxSelector f _) _
  · exact .typed (hargs.head.read _).boxed _
  · exact .typed hargs.head.unboxed.boxed _
  · next _ directive argument hformat =>
    have hprinted := (Unchained.typed hargs.head.unboxed
      (.named ((primitiveOf? className).getD []))).formatArgument
    rw [hformat] at hprinted
    have htext := Shows.formatted (.constant f hprinted.1) (.cons hprinted.2 (.nil f))
    rw [Nat.zero_add] at htext
    exact .typed htext _
  · trivial
  · trivial

/-- A static method of the system class. The time has no use for arguments. -/
theorem onSystem? (hargs : Counted f args)
    (htime : name ∈ ["currentTimeMillis", "nanoTime"] → f.callsInAll args = 0) :
    IfSome (Unchained f (f.callsInAll args)) (LibraryCall.onSystem? name args) := by
  fun_cases LibraryCall.onSystem? name args
  · rw [htime (by simp)]
    exact .typed (((Shows.whole f (c := "1000") (by simp [wholes])).keyed
      (by simp [openings])).followed (by simp [endings])) _
  · rw [htime (by simp)]
    exact .typed (((Shows.whole f (c := "1000000000") (by simp [wholes])).keyed
      (by simp [openings])).followed (by simp [endings])) _
  · exact .functionOf hargs (by simp [wholes]) _
  · trivial

/-- A static method of the thread class. -/
theorem onThread? (hargs : Counted f args) :
    IfSome (Unchained f (f.callsInAll args)) (LibraryCall.onThread? name args) := by
  fun_cases LibraryCall.onThread? name args
  · exact .typed ((hargs.head.unboxed.keyed (by simp [openings])).followed (by simp [endings])) _
  · trivial

/-- A constant of a library class. -/
theorem constant? (f : MethodName) (className field : Text) :
    IfSome (Unchained f 0) (LibraryCall.constant? className field) := by
  unfold LibraryCall.constant?
  cases hfound : Text.find? constants (className ++ "." ++ field) with
  | none => trivial
  | some entry =>
    have hall : ∀ entry ∈ constants.map Prod.snd, entry.1 ∈ wholes := by
      simp [constants, wholes]
    exact .typed (.whole f (hall entry (Text.mem_of_find? hfound))) _

end Unchained

/-- The message for a number of elements, or the one for a collection. -/
theorem Calls.sized (hv : Calls f k v) {capacity : String} (hcapacity : capacity ∈ openings)
    (hcollection : Shows f k t) : Shows f k (newCollection?.sized v capacity t) := by
  unfold newCollection?.sized
  split
  · exact hv.unboxed.keyed hcapacity
  · exact hcollection

/-- A message to a class of the generator. -/
theorem Shows.classMessage {c : String} (hc : c ∈ wholes) (h : Shows f k t) :
    Shows f k (JavaObjC.message c t) := by
  have hmessage := (Shows.whole f hc).message h
  rwa [Nat.zero_add] at hmessage

/-- A new collection of a library class. -/
theorem Shows.newCollection? {kind : CollectionKind} (hargs : Counted f args)
    (ht : t ∈ LibraryCall.newCollection? kind args) : Shows f (f.callsInAll args) t := by
  unfold LibraryCall.newCollection? at ht
  split at ht <;> try (obtain rfl := Option.some.inj ht)
  · exact .whole f (by simp [wholes])
  · exact .whole f (by simp [wholes])
  · exact .whole f (by simp [wholes])
  · exact .whole f (by simp [wholes])
  · refine .classMessage (by simp [wholes]) (hargs.head.sized (by simp [openings]) ?_)
    split
    · exact (hargs.head.text.keyed (by simp [openings])).followed (by simp [endings])
    · exact hargs.head.text.keyed (by simp [openings])
  · exact .classMessage (by simp [wholes]) (hargs.head.sized (by simp [openings])
      (hargs.head.text.keyed (by simp [openings])))
  · refine .classMessage (by simp [wholes]) (hargs.head.sized (by simp [openings]) ?_)
    split
    · exact hargs.head.text.keyed (by simp [openings])
    · exact hargs.head.text.keyed (by simp [openings])
  · exact .classMessage (by simp [wholes]) (hargs.head.sized (by simp [openings])
      (hargs.head.text.keyed (by simp [openings])))
  · cases ht

/-- An exception with a reason. -/
theorem Unchained.raised (h : Shows f k t) {type : JavaType} (htype : type.simple.IsWord) :
    Unchained f k (newFoundation?.raised type t) := by
  have hname := (Shows.constant f (encloses_of_not_separates (separates_of_isWord htype))).keyed
    (c := "[NSException exceptionWithName:") (by simp [openings])
  have hreason := (hname.between h (c := " reason:") (by simp [links])).followed
    (c := " userInfo:nil]") (by simp [endings])
  rw [Nat.zero_add] at hreason
  exact .typed hreason _

/-- A new object of a Foundation class other than a collection. -/
theorem Unchained.newFoundation? {type : JavaType} (target : ClassRef) (hargs : Counted f args)
    (htype : type.simple.IsWord) :
    IfSome (Unchained f (f.callsInAll args)) (LibraryCall.newFoundation? target type args) := by
  fun_cases LibraryCall.newFoundation? target type args
  · exact .typed (.whole f (by simp [wholes])) _
  · exact .raised (.whole f (by simp [wholes])) htype
  · trivial
  · exact .typed ((hargs.head.text.keyed (by simp [openings])).followed (by simp [endings])) _
  · exact .typed hargs.head.unboxed.boxed _
  · exact .raised hargs.head.text htype
  · trivial
  · trivial

section Unlisted

variable (h : name ∉ libraryMethods)

include h

/-- A method without arguments that no table lists is none of a string, nor below of any other
library class. -/
theorem onString?_unlisted : LibraryCall.onString? r name [] = none := by
  unfold LibraryCall.onString?
  split <;> first | contradiction | rfl

theorem onList?_unlisted (element : JavaType) : LibraryCall.onList? t element name [] = none := by
  unfold LibraryCall.onList?
  split <;> first | contradiction | rfl

theorem onMap?_unlisted (key element : JavaType) :
    LibraryCall.onMap? t key element name [] = none := by
  unfold LibraryCall.onMap?
  split <;> first | contradiction | rfl

theorem onSet?_unlisted : LibraryCall.onSet? t name [] = none := by
  unfold LibraryCall.onSet?
  split <;> first | contradiction | rfl

theorem onBuilder?_unlisted : LibraryCall.onBuilder? r name [] = none := by
  unfold LibraryCall.onBuilder?
  split <;> first | contradiction | rfl

theorem onCollection?_unlisted : LibraryCall.onCollection? t name [] = none := by
  unfold LibraryCall.onCollection?
  split <;> first | contradiction | rfl

theorem onObject?_unlisted (isDeclared : Bool) :
    LibraryCall.onObject? t isDeclared name [] = none := by
  unfold LibraryCall.onObject?
  split <;> first | contradiction | rfl

/-- A method that no table lists is none of a collection, whichever kind it is. -/
theorem collectionCall?_unlisted (around : Surroundings) (kind : CollectionKind) :
    Lowering.collectionCall? around r kind name [] = none := by
  unfold Lowering.collectionCall?
  dsimp only
  rw [onCollection?_unlisted h, Option.or_none]
  cases kind with
  | list => exact onList?_unlisted h _
  | map => exact onMap?_unlisted h _ _
  | set => exact onSet?_unlisted h
  | builder => exact onBuilder?_unlisted h
  | array => rfl

end Unlisted

/-- A name that is not listed is that of no library method of a value. -/
theorem MethodName.libraryCall? (f : MethodName) (around : Surroundings) (r : Value) :
    Lowering.libraryCall? around r f.text [] = none := by
  obtain ⟨hlisted, hmath, hboxed⟩ := f.unlisted_iff
  have hcollection : ((CollectionKind.of? r.type).bind fun kind =>
      Lowering.collectionCall? around r kind (word f.text) []) = none := by
    cases CollectionKind.of? r.type with
    | none => rfl
    | some kind => exact collectionCall?_unlisted hlisted around kind
  have hboxed : LibraryCall.onBoxed? r.text f.text [] = none := by
    unfold LibraryCall.onBoxed?
    split
    · exact if_pos (hboxed ‹_›)
    · rfl
  unfold Lowering.libraryCall?
  dsimp only
  rw [onString?_unlisted hlisted, hcollection, hboxed, onObject?_unlisted hlisted]
  simp

end JavaObjC
