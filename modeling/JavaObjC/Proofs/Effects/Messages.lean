import JavaObjC.Proofs.Effects.Access
import JavaObjC.Proofs.Lowering.Expressions

/-!
# Calls and new objects keep the calls of their parts

A message has the calls of its receiver and of its arguments, and one more if
its first keyword is the name of the method. The same holds of a call of the
library, unless it drops an argument or writes one twice. A chain of appends
is known by the name of its last method, since no other method of that name
gives a builder.
-/

namespace JavaObjC

open Fragments Generating Lower

/-- The name of a called method: another one, or the method's own without arguments. -/
inductive MethodName.Names (f : MethodName) : Nat → Text → List Value → Prop where
  | other {w : Text} {args : List Value} (hw : w.IsWord) (h : f.Spares w) : Names f 0 w args
  | own : Names f 1 f.text []

/-- What a call of a method of a value gives: a chain on a builder, or something else that is no
builder if the method appends. -/
structure Answers (f : MethodName) (k : Nat) (r : Value) (w : Text) (args : List Value)
    (v : Value) : Prop where
  calls : Calls f k v
  chain : ∀ b ∈ v.builder, LibraryCall.word w = "append" ∧ args.length = 1 ∧
    CollectionKind.of? r.type = some .builder ∧ CollectionKind.of? v.type = some .builder ∧
      b = r.builder.getD r.text
  ended : v.builder = none → LibraryCall.word w = "append" → args.length = 1 →
    CollectionKind.of? v.type ≠ some .builder

section Messages

variable {f : MethodName} {i j k : Nat} {w receiver : Text} {args : List Value} {r : Value}
  {method : Option MethodSignature}

theorem MethodName.Names.shows (h : f.Names i w args) : Shows f i w := by
  cases h with
  | other hw h => exact .spared hw h
  | own => exact .name f

/-- The method itself is none that the generator has a counterpart for. -/
theorem MethodName.Names.eq_zero (h : f.Names i w args)
    (hlisted : LibraryCall.word w ∈ libraryMethods) : i = 0 := by
  cases h with
  | other _ _ => rfl
  | own => exact absurd hlisted f.unlisted_iff.1

/-- A name with other keywords behind it. -/
theorem MethodName.Names.keywords {more : List Text} (h : f.Names i w args)
    (hmore : ∀ t ∈ more, Shows f 0 t) : ShowsAll f i (w :: more) :=
  .cons (k := 0) h.shows (.of_forall hmore)

theorem send_returns {keywords arguments : List Text} (hreceiver : Shows f j receiver)
    (hkeywords : ShowsAll f i keywords) (h : ShowsAll f k arguments)
    (hlength : keywords.length = max 1 arguments.length) :
    Returns f (Lowering.send receiver keywords arguments) (Shows f (j + (i + k))) :=
  .require fun _ hsend => hreceiver.sent hkeywords h hlength hsend

/-- A message for a method that may be known. -/
theorem sendMethod_returns (hreceiver : Shows f j receiver) (hname : f.Names i w args)
    (hargs : Counted f args) (harity : ∀ m ∈ method, m.arity = args.length)
    (hmethod : ∀ m ∈ method, (∀ p ∈ m.parameterNames, Shows f 0 p) ∧
      (LibraryCall.word w = "append" → CollectionKind.of? m.result ≠ some .builder)) :
    Returns f (Lowering.sendMethod receiver w method args) fun v =>
      Unchained f (j + (i + f.callsInAll args)) v ∧
        (LibraryCall.word w = "append" → CollectionKind.of? v.type ≠ some .builder) := by
  cases method with
  | some m =>
    obtain ⟨hparameters, happend⟩ := hmethod m rfl
    have hkeywords : ShowsAll f i (selectorKeywords w false m.parameterNames) := by
      cases hnames : m.parameterNames with
      | nil => exact hname.keywords (by simp)
      | cons first more =>
        exact hname.keywords fun t ht => hparameters t (by simp [hnames, ht])
    refine (send_returns hreceiver hkeywords (hargs.coerced _) ?_).bind fun text htext => ?_
    · rw [Lowering.length_selectorKeywords, MethodSignature.parameterNames, List.length_map,
        Lowering.length_coerceAll, ← harity m rfl, MethodSignature.arity]
    · exact .pure ⟨.typed htext _, happend⟩
  | none =>
    have hkeywords : ShowsAll f i (genericKeywords w false args.length) := by
      refine hname.keywords fun t ht => ?_
      rw [List.eq_of_mem_replicate ht]
      exact .nil f
    refine (send_returns hreceiver hkeywords hargs.texts ?_).bind fun text htext => ?_
    · rw [Lowering.length_genericKeywords, List.length_map]
    · have hunknown : CollectionKind.of? .unknown ≠ some .builder := by decide +kernel
      exact .pure ⟨⟨.plain htext rfl rfl rfl, rfl⟩, fun _ => hunknown⟩

/-- A message to a receiver for a method that is looked for in a class. -/
theorem sendFound_returns {around : Surroundings} (haround : around.Avoids f)
    (hreceiver : Shows f j receiver) (hname : f.Names i w args) (hargs : Counted f args)
    (className : Text) :
    Returns f (Lowering.sendMethod receiver w (around.method? className w args.length) args)
      fun v => Unchained f (j + (i + f.callsInAll args)) v ∧
        (LibraryCall.word w = "append" → CollectionKind.of? v.type ≠ some .builder) :=
  sendMethod_returns hreceiver hname hargs Lowering.arity_of_method? fun _ hm =>
    haround.method? hm

/-- A call without a receiver. -/
theorem unqualifiedCall_returns (hname : f.Names i w args) (hargs : Counted f args) :
    Returns f (Lowering.unqualifiedCall w args) (Unchained f (i + f.callsInAll args)) := by
  refine Answers.read.bind fun around haround => ?_
  have hreceiver : Shows f 0
      (if ((around.method? around.ownName w args.length).map MethodSignature.isStatic).getD
        around.isStatic then around.ownName else "self" : Text) := by
    split
    · exact haround.ownName
    · exact .whole f (by simp [wholes])
  refine (sendFound_returns haround hreceiver hname hargs _).bind fun v hv => .pure ?_
  rw [Nat.zero_add] at hv
  exact ⟨⟨hv.1.text, hv.1.content, hv.1.className, hv.1.isStream⟩, hv.1.builder⟩

/-- A message, as a call of a method of any value. -/
theorem Answers.sent {v : Value} (h : Unchained f k v ∧
    (LibraryCall.word w = "append" → CollectionKind.of? v.type ≠ some .builder)) :
    Answers f k r w args v where
  calls := h.1.toCalls
  chain := by simp [h.1.builder]
  ended _ happend _ := h.2 happend

/-- A call of a method of the superclass. -/
theorem superCall_returns (hname : f.Names i w args) (hargs : Counted f args) :
    Returns f (Lowering.superCall w args) (Answers f (i + f.callsInAll args) r w args) := by
  refine Answers.read.bind fun around haround => ?_
  have hsuper : Shows f 0 (Text.ofString "super") := .whole f (by simp [wholes])
  refine (sendFound_returns haround hsuper hname hargs _).mono fun v hv => ?_
  rw [Nat.zero_add] at hv
  exact .sent hv

end Messages

section Library

variable {f : MethodName} {i j : Nat} {w className : Text} {args : List Value} {r v : Value}
  {n : Node}

/-- The name of a method that appends begins like it, unless with something else than ASCII. -/
theorem front_of_word_append {b : UInt8} {rest : Text} (hb : b < 128)
    (h : LibraryCall.word (b :: rest) = "append") : Char.ofNat b.toNat = 'a' := by
  have hrunes : Text.runes (b :: rest) = .char b.toNat [b] :: Text.runesFrom rest.length rest := by
    rw [Text.runes, List.length_cons, Text.runesFrom, Text.firstRune.eq_def, if_pos hb]
    rfl
  unfold LibraryCall.word Text.toString? at h
  dsimp only at h
  split at h
  · rw [Option.getD_some, hrunes, List.filterMap_cons] at h
    have hlist := congrArg String.toList h
    rw [String.toList_ofList] at hlist
    exact (List.cons.inj hlist).1
  · exact absurd h (by decide)

/-- No static method of a library class appends. -/
theorem staticLibrary_append (args : List Value) : LibraryCall.onMath? "append" args = none ∧
    LibraryCall.onStringClass? "append" args = none ∧
      LibraryCall.onThread? "append" args = none := by
  refine ⟨?_, ?_, ?_⟩
  · unfold LibraryCall.onMath?
    split <;> first | contradiction | exact if_neg (by decide)
  · unfold LibraryCall.onStringClass?
    split <;> first | contradiction | rfl
  · unfold LibraryCall.onThread?
    split <;> first | contradiction | rfl

theorem onBoxedClass?_append (h : LibraryCall.word w = "append") :
    LibraryCall.onBoxedClass? className w args = none := by
  have hfronts : Text.ofString "parse" = 112 :: Text.ofString "arse" ∧
      Text.ofString "valueOf" = 118 :: Text.ofString "alueOf" ∧
      Text.ofString "toString" = 116 :: Text.ofString "oString" := by
    simp [Text.ofString, String.utf8EncodeChar]
  have hparse : ¬ Text.startsWith w "parse" = true := fun hparse => by
    obtain ⟨more, rfl⟩ := List.isPrefixOf_iff_prefix.1 hparse
    rw [hfronts.1] at h
    exact absurd (front_of_word_append (by decide) h) (by decide)
  have hvalue : w ≠ Text.ofString "valueOf" := by
    rintro rfl
    rw [hfronts.2.1] at h
    exact absurd (front_of_word_append (by decide) h) (by decide)
  have hprinted : w ≠ Text.ofString "toString" := by
    rintro rfl
    rw [hfronts.2.2] at h
    exact absurd (front_of_word_append (by decide) h) (by decide)
  unfold LibraryCall.onBoxedClass?
  dsimp only
  split
  · rw [if_neg hparse, if_neg hvalue, if_neg hprinted]
  · rfl

/-- No static method of a library class has a name that is not listed, without arguments. -/
theorem MethodName.staticLibrary (f : MethodName) :
    LibraryCall.onMath? (LibraryCall.word f.text) [] = none ∧
      LibraryCall.onStringClass? (LibraryCall.word f.text) [] = none ∧
      LibraryCall.onSystem? (LibraryCall.word f.text) [] = none ∧
      LibraryCall.onThread? (LibraryCall.word f.text) [] = none := by
  obtain ⟨hlisted, hmath, -⟩ := f.unlisted_iff
  generalize LibraryCall.word f.text = name at hlisted hmath
  refine ⟨?_, ?_, ?_, ?_⟩
  · unfold LibraryCall.onMath?
    split <;> first | contradiction | exact if_neg (by simpa using hmath)
  · unfold LibraryCall.onStringClass?
    split <;> first | contradiction | rfl
  · unfold LibraryCall.onSystem?
    split <;> first | contradiction | rfl
  · unfold LibraryCall.onThread?
    split <;> first | contradiction | rfl

/-- Whatever a static method of a library class gives is no chain, and does not append. -/
theorem staticLibraryCall_returns (hname : f.Names i w args) (hargs : Counted f args)
    (htime : LibraryCall.word w ∈ ["currentTimeMillis", "nanoTime"] → f.callsInAll args = 0) :
    Returns f (Lowering.staticLibraryCall n className w args) fun found =>
      ∀ v ∈ found, Unchained f (i + f.callsInAll args) v ∧ LibraryCall.word w ≠ "append" := by
  cases hname with
  | own =>
    obtain ⟨hmath, hstring, hsystem, hthread⟩ := f.staticLibrary
    unfold Lowering.staticLibraryCall
    dsimp only
    rw [hmath, hstring, hsystem, hthread]
    refine .ite (fun _ => .refuse _ _) fun _ => .ite (fun _ => .refuse _ _) fun _ => ?_
    exact .ite (fun _ => .pure (by simp)) fun _ => .ite (fun _ => .pure (by simp)) fun _ =>
      .ite (fun _ => .pure (by simp [LibraryCall.onBoxedClass?])) fun _ => .pure (by simp)
  | other hw h =>
    have hfound : ∀ {found : Option Value}, IfSome (Unchained f (f.callsInAll args)) found →
        (LibraryCall.word w = "append" → found = none) →
        ∀ v ∈ found, Unchained f (0 + f.callsInAll args) v ∧ LibraryCall.word w ≠ "append" := by
      rintro found hsome hnone v rfl
      rw [Nat.zero_add]
      exact ⟨hsome, fun happend => absurd (hnone happend) (by simp)⟩
    obtain ⟨hmath, hstring, hthread⟩ := staticLibrary_append args
    have hmath' := hfound (Unchained.onMath? hargs) fun h => h ▸ hmath
    have hsystem' := hfound (Unchained.onSystem? hargs htime)
      fun h => by rw [h]; rfl
    unfold Lowering.staticLibraryCall
    refine .ite (fun _ => ?_) fun _ => .ite (fun _ => ?_) fun _ => .ite (fun _ => .pure ?_)
      fun _ => .ite (fun _ => .pure ?_) fun _ => .ite (fun _ => .pure ?_) fun _ => .pure (by simp)
    · revert hmath'
      cases LibraryCall.onMath? (LibraryCall.word w) args with
      | some v => exact fun h => .pure h
      | none => exact fun _ => .refuse _ _
    · revert hsystem'
      cases LibraryCall.onSystem? (LibraryCall.word w) args with
      | some v => exact fun h => .pure h
      | none => exact fun _ => .refuse _ _
    · exact hfound (Unchained.onStringClass? hargs) fun h => h ▸ hstring
    · exact hfound (Unchained.onThread? hargs) fun h => h ▸ hthread
    · exact hfound (Unchained.onBoxedClass? className w hargs) onBoxedClass?_append

/-- A call of a static method. -/
theorem staticCall_returns (hclass : className.IsWord) (hne : className ≠ f.text)
    (hname : f.Names i w args) (hargs : Counted f args)
    (htime : LibraryCall.word w ∈ ["currentTimeMillis", "nanoTime"] → f.callsInAll args = 0) :
    Returns f (Lowering.staticCall n className w args)
      (Answers f (i + f.callsInAll args) r w args) := by
  refine (staticLibraryCall_returns hname hargs htime).bind fun found hfound => ?_
  cases found with
  | some v =>
    obtain ⟨hv, hword⟩ := hfound v rfl
    exact .pure (.sent ⟨hv, fun h => absurd h hword⟩)
  | none =>
    refine Answers.read.bind fun around haround => ?_
    have hsend : ∀ receiver, Shows f 0 receiver →
        Returns f
          (Lowering.sendMethod receiver w (around.method? className w args.length) args)
          (Answers f (i + f.callsInAll args) r w args) := by
      intro receiver hreceiver
      refine (sendFound_returns haround hreceiver hname hargs _).mono fun v hv => ?_
      rw [Nat.zero_add] at hv
      exact .sent hv
    refine .ite (fun _ => (Answers.pure haround.ownName).bind hsend) fun _ => ?_
    rw [map_eq_pure_bind]
    refine Answers.bind (Answers.bind (classNamed_returns ?_) fun c hc => .pure hc) hsend
    rw [simpleName_of_isWord hclass]
    exact .of_isWord hclass hne

end Library

section Instances

variable {f : MethodName} {i j : Nat} {w : Text} {args : List Value} {r v : Value}
  {around : Surroundings}

/-- A string is no builder. -/
theorem not_builder_of_isStringType {t : JavaType} (h : isStringType t = true) :
    CollectionKind.of? t ≠ some .builder := by
  simp only [isStringType, Bool.and_eq_true, Bool.not_eq_true', Bool.or_eq_true, beq_iff_eq] at h
  have hclass : libraryClass? t.name = some .nsString := by
    have hsimple : simpleName t.name = t.simple := rfl
    unfold libraryClass?
    rw [hsimple]
    rcases h.2 with hname | hname <;> rw [hname] <;> decide +kernel
  rw [CollectionKind.of?, if_neg (by simp [h.1]), hclass]
  decide

/-- Only builders have a library method named `append` with one argument. -/
theorem libraryCall?_append (happend : LibraryCall.word w = "append") (a : Value) :
    Lowering.libraryCall? around r w [a] =
      if CollectionKind.of? r.type = some .builder then LibraryCall.onBuilder? r "append" [a]
      else none := by
  have hboxed : LibraryCall.onBoxed? r.text w [a] = none := rfl
  have hobject : ∀ isDeclared, LibraryCall.onObject? r.text isDeclared "append" [a] = none :=
    fun _ => rfl
  have hkinds : ∀ kind, kind ≠ .builder → Lowering.collectionCall? around r kind "append" [a] =
      none := by
    intro kind hkind
    cases kind with
    | builder => exact absurd rfl hkind
    | _ => rfl
  have hbuilder : Lowering.collectionCall? around r .builder "append" [a] =
      LibraryCall.onBuilder? r "append" [a] := rfl
  unfold Lowering.libraryCall?
  dsimp only
  have hstring : LibraryCall.onString? r "append" [a] = none := rfl
  rw [happend, hboxed, hobject, hstring, ite_self, ite_self, Option.none_or, Option.none_or,
    Option.or_none]
  cases hkind : CollectionKind.of? r.type with
  | none => rfl
  | some kind =>
    rw [Option.bind_some]
    by_cases hb : kind = .builder
    · rw [hb, hbuilder, if_pos rfl]
    · rw [hkinds kind hb, if_neg (by simpa using hb)]

/-- Only a builder has a chain. -/
def IsChain (r : Value) : Prop := ∀ b ∈ r.builder, CollectionKind.of? r.type = some .builder

/-- A library method of a value other than appending. -/
theorem libraryCall?_unchained (hr : Calls f j r) (hargs : Counted f args) (hbuilder : IsChain r)
    (hchain : r.ChainShows f j (LibraryCall.word w))
    (hpart : StartsQuietly f (LibraryCall.word w) args)
    (happend : ¬ (LibraryCall.word w = "append" ∧ args.length = 1)) :
    IfSome (Unchained f (j + f.callsInAll args)) (Lowering.libraryCall? around r w args) := by
  have hstring : isStringType r.type = true → IfSome (Unchained f (j + f.callsInAll args))
      (LibraryCall.onString? r (LibraryCall.word w) args) := by
    intro hstring
    have hnone : r.builder = none := by
      cases hb : r.builder with
      | none => rfl
      | some b => exact absurd (hbuilder b hb) (not_builder_of_isStringType hstring)
    exact Unchained.onString? ⟨hr, hnone⟩ hargs hpart
  have hbuild : IfSome (Unchained f (j + f.callsInAll args))
      (LibraryCall.onBuilder? r (LibraryCall.word w) args) := by
    have hanswer := Unchained.onBuilder? hr hargs hchain
    cases hfound : LibraryCall.onBuilder? r (LibraryCall.word w) args with
    | none => trivial
    | some v =>
      rw [hfound] at hanswer
      obtain ⟨hv, hchained⟩ := hanswer
      split at hchained
      · next hword => exact absurd ⟨hword, hchained.2.2⟩ happend
      · exact ⟨hv, hchained⟩
  have hkind : ∀ kind, IfSome (Unchained f (j + f.callsInAll args))
      (Lowering.collectionCall? around r kind (LibraryCall.word w) args) := by
    intro kind
    refine IfSome.or ?_ (Unchained.onCollection? hr.text hargs)
    cases kind with
    | list => exact Unchained.onList? hr.text _ hargs
    | map => exact Unchained.onMap? hr.text _ _ hargs
    | set => exact Unchained.onSet? hr.text hargs
    | builder => exact hbuild
    | array => trivial
  unfold Lowering.libraryCall?
  refine .or ?_ (.or ?_ (.or ?_ (Unchained.onObject? hr.text _ hargs)))
  · split
    · next h => exact hstring h
    · trivial
  · cases CollectionKind.of? r.type with
    | none => trivial
    | some kind => exact hkind kind
  · split
    · exact Unchained.onBoxed? hr.text w args
    · trivial

/-- A library method of a value. -/
theorem libraryCall?_answers (hr : Calls f j r) (hargs : Counted f args) (hbuilder : IsChain r)
    (hchain : r.ChainShows f j (LibraryCall.word w))
    (hpart : StartsQuietly f (LibraryCall.word w) args) :
    IfSome (Answers f (j + f.callsInAll args) r w args)
      (Lowering.libraryCall? around r w args) := by
  by_cases happend : LibraryCall.word w = "append" ∧ args.length = 1
  · obtain ⟨hword, hlength⟩ := happend
    obtain ⟨a, rfl⟩ := List.length_eq_one_iff.1 hlength
    rw [libraryCall?_append hword]
    split
    · next hkind =>
      have hanswer := Unchained.onBuilder? hr hargs hchain
      rw [hword] at hanswer
      cases hfound : LibraryCall.onBuilder? r "append" [a] with
      | none => trivial
      | some v =>
        rw [hfound] at hanswer
        obtain ⟨hv, hb, htype, -⟩ := hanswer
        refine ⟨hv, fun b hmem => ⟨hword, rfl, hkind, htype ▸ hkind, ?_⟩, fun hnone => ?_⟩
        · exact (Option.some.inj (hb.symm.trans hmem)).symm
        · rw [hb] at hnone
          cases hnone
    · trivial
  · have hunchained : IfSome (Unchained f (j + f.callsInAll args))
        (Lowering.libraryCall? around r w args) :=
      libraryCall?_unchained hr hargs hbuilder hchain hpart happend
    cases hfound : Lowering.libraryCall? around r w args with
    | none => trivial
    | some v =>
      rw [hfound] at hunchained
      obtain ⟨hv, hb⟩ : Unchained f (j + f.callsInAll args) v := hunchained
      exact ⟨hv, by simp [hb], fun _ hword hlength => absurd ⟨hword, hlength⟩ happend⟩

/-- A call of a method of a value. -/
theorem instanceCall_returns (hr : Calls f j r) (hname : f.Names i w args)
    (hargs : Counted f args) (hbuilder : IsChain r)
    (hchain : r.ChainShows f j (LibraryCall.word w))
    (hpart : StartsQuietly f (LibraryCall.word w) args) :
    Returns f (Lowering.instanceCall r w args)
      (Answers f (j + (i + f.callsInAll args)) r w args) := by
  refine Answers.read.bind fun around haround => ?_
  have hfound : IfSome (Answers f (j + (i + f.callsInAll args)) r w args)
      (Lowering.libraryCall? around r w args) := by
    cases hname with
    | own =>
      rw [f.libraryCall?]
      trivial
    | other _ _ =>
      rw [Nat.zero_add]
      exact libraryCall?_answers hr hargs hbuilder hchain hpart
  cases hcall : Lowering.libraryCall? around r w args with
  | some v =>
    rw [hcall] at hfound
    exact .pure hfound
  | none => exact (sendFound_returns haround hr.text hname hargs _).mono fun v hv => .sent hv

end Instances

section Streams

variable {f : MethodName} {i k : Nat} {w : Text} {args : List Value} {list : Parts} {n : Node}
  {a : Attributed} {v : Value}

/-- A log message. -/
theorem Unchained.logCall {format : Text} {arguments : List Text} (hformat : Shows f 0 format)
    (h : ShowsAll f k arguments) : Unchained f k (Lowering.logCall format arguments) := by
  have hcall := (h.cons hformat).function (c := "NSLog") (by simp [wholes])
  rw [Nat.zero_add] at hcall
  exact .typed hcall _

/-- Printing an argument, part by part. -/
theorem printCall_returns (h : Returns f a.meaning.operands fun p =>
      Counted f p.1 ∧ f.callsInAll p.1 = k) :
    Returns f (Lowering.printCall a) (Unchained f k) := by
  refine h.bind fun p ⟨hcounted, hcalls⟩ => .pure ?_
  obtain ⟨hformat, hprinted⟩ := hcounted.printed
  exact hcalls ▸ .logCall (.constant f hformat) hprinted

/-- A method of an output stream. Only the first argument is printed. -/
theorem streamCall_returns (hname : f.Names i w args) (hargs : Counted f args)
    (hfirst : ∀ a ∈ list.head?, Returns f a.meaning.operands fun p =>
      Counted f p.1 ∧ f.callsInAll p.1 = f.callsInAll (args.take 1))
    (hrest : LibraryCall.word w ∈ ["print", "println"] → f.callsInAll (args.drop 1) = 0) :
    Returns f (Lowering.streamCall n w list args) (Unchained f (i + f.callsInAll args)) := by
  have hlisted := hname.eq_zero
  have hprint : LibraryCall.word w ∈ ["print", "println"] →
      Returns f (list.child 0 >>= Lowering.printCall) (Unchained f (f.callsInAll args)) := by
    intro hword
    have hall : f.callsInAll args = f.callsInAll (args.take 1) + f.callsInAll (args.drop 1) := by
      rw [MethodName.callsInAll, MethodName.callsInAll, MethodName.callsInAll, ← List.sum_append,
        ← List.map_append, List.take_append_drop]
    rw [hall, hrest hword, Nat.add_zero]
    refine (Answers.require (P := fun a => a ∈ list.head?) fun a ha => ?_).bind fun a ha =>
      printCall_returns (hfirst a ha)
    rwa [List.head?_eq_getElem?]
  have hempty : Unchained f 0 (Lowering.logCall (stringConstant []) []) :=
    .logCall (.constant f rfl) (.nil f)
  have hformat : ∀ {pattern : Value} {rest : List Value}, Counted f (pattern :: rest) →
      Unchained f (f.callsInAll (pattern :: rest)) (Lowering.logCall (formatPattern pattern)
        (rest.map fun v => (formatArgument v).2)) := fun h =>
    .typed (((ShowsAll.map h.tail fun v hv => (h.tail v hv).formatArgument.2).cons
      h.head.formatPattern).function (c := "NSLog") (by simp [wholes])) _
  unfold Lowering.streamCall
  split
  · next hword =>
    obtain rfl := hlisted (by rw [hword]; decide)
    exact .pure hempty
  · next hword =>
    obtain rfl := hlisted (by rw [hword]; decide)
    exact .pure hempty
  · next hword =>
    obtain rfl := hlisted (by rw [hword]; decide)
    rw [Nat.zero_add]
    exact hprint (by rw [hword]; decide)
  · next hword =>
    obtain rfl := hlisted (by rw [hword]; decide)
    rw [Nat.zero_add]
    exact hprint (by rw [hword]; decide)
  · next hword =>
    obtain rfl := hlisted (by rw [hword]; decide)
    rw [Nat.zero_add]
    exact .pure (hformat hargs)
  · next hword =>
    obtain rfl := hlisted (by rw [hword]; decide)
    rw [Nat.zero_add]
    exact .pure (hformat hargs)
  · exact .refuse _ _

end Streams

section Objects

variable {f : MethodName} {k : Nat} {receiver : Text} {args : List Value} {t : JavaType}
  {around : Surroundings} {n : Node}

/-- The initializer message of a class. -/
theorem sendInit_returns {owner : Option ClassSignature} (hreceiver : Shows f 0 receiver)
    (howner : ∀ c ∈ owner, c.Avoids f) (hargs : Counted f args) (types : List JavaType) :
    Returns f (Lowering.sendInit receiver owner args types) (Shows f (f.callsInAll args)) := by
  have hsend : ∀ {keywords : List Text}, (∀ w ∈ keywords, Shows f 0 w) →
      keywords.length = max 1 args.length →
      Returns f (Lowering.send receiver keywords (coerceAll args types))
        (Shows f (f.callsInAll args)) := by
    intro keywords hkeywords hlength
    refine (send_returns hreceiver (.of_forall hkeywords) (hargs.coerced types) ?_).mono
      fun text htext => ?_
    · rwa [Lowering.length_coerceAll]
    · rwa [Nat.zero_add, Nat.zero_add] at htext
  unfold Lowering.sendInit
  cases hfound : owner.bind fun c => c.constructor? args.length with
  | some m =>
    obtain ⟨c, hc, hm⟩ := Option.bind_eq_some_iff.1 hfound
    have harity : m.arity = args.length := by simpa using List.find?_some hm
    refine hsend ((howner c hc).initializers m (List.mem_of_find?_eq_some hm)) ?_
    rw [Lowering.length_selectorKeywords, MethodSignature.parameterNames, List.length_map,
      ← harity, MethodSignature.arity]
  | none =>
    refine hsend (fun w hw => ?_) (Lowering.length_genericKeywords _ _ _)
    rcases List.mem_cons.1 hw with rfl | hw
    · rw [if_pos rfl]
      split
      · exact .whole f (by simp [wholes])
      · exact .whole f (by simp [wholes])
    · rw [List.eq_of_mem_replicate hw]
      exact .nil f

/-- A new object of a library class. -/
theorem Unchained.newLibraryObject? (ht : t.simple.IsWord) (hargs : Counted f args) :
    IfSome (Unchained f (f.callsInAll args)) (Lowering.newLibraryObject? around t args) := by
  unfold Lowering.newLibraryObject?
  split
  · trivial
  · refine IfSome.or ?_ (Unchained.newFoundation? _ hargs ht)
    cases CollectionKind.of? t with
    | none => trivial
    | some kind =>
      rw [Option.bind_some]
      cases hnew : LibraryCall.newCollection? kind args with
      | none => trivial
      | some text => exact .typed (.newCollection? hargs hnew) t

end Objects

end JavaObjC
