import JavaObjC.Target.Workshop
import Mathlib.Data.List.Induction
import Mathlib.Data.List.Nodup

/-!
# What a builder's calls amount to

The class of a builder in terms of the parts that were handed to it and of the
classes that were mentioned to its import set, both as plain lists in the order
of the calls. Of protocols, fields and methods the first of each key counts; of
the mentions of a class the first that says more than its name, or else the
last. Collecting parts one by one comes to the same.
-/

namespace JavaObjC

section FirstBy

variable {α κ κ' : Type} [DecidableEq κ] [DecidableEq κ'] {key : α → κ} {key' : α → κ'}

/-- The items of which no earlier one has the same key. -/
def firstBy (key : α → κ) (items : List α) : List α :=
  items.eraseDupsBy fun a b => decide (key a = key b)

theorem firstBy_nil (key : α → κ) : firstBy key [] = [] := rfl

/-- The first item is kept, and of the others those with other keys. -/
theorem firstBy_cons (key : α → κ) (a : α) (rest : List α) :
    firstBy key (a :: rest) = a :: firstBy key (rest.filter (key · ≠ key a)) := by
  simp [firstBy, List.eraseDupsBy_cons]

/-- Induction on a list that drops the items with the key of the first one. -/
theorem firstBy_induction (key : α → κ) {motive : List α → Prop} (nil : motive [])
    (cons : ∀ a rest, motive (rest.filter (key · ≠ key a)) → motive (a :: rest))
    (items : List α) : motive items := by
  induction hlength : items.length using Nat.strongRecOn generalizing items with
  | _ n ih =>
    subst hlength
    cases items with
    | nil => exact nil
    | cons a rest =>
      exact cons a rest (ih _ (Nat.lt_succ_of_le (List.length_filter_le ..)) _ rfl)

/-- The first items of each key are in order. -/
theorem firstBy_sublist (key : α → κ) (items : List α) : (firstBy key items).Sublist items := by
  induction items using firstBy_induction key with
  | nil => exact List.Sublist.refl _
  | cons a rest ih =>
    rw [firstBy_cons]
    exact (ih.trans List.filter_sublist).cons_cons a

/-- Of every key an item is kept. -/
theorem exists_mem_firstBy (key : α → κ) {l : List α} {k : κ} :
    (∃ a ∈ firstBy key l, key a = k) ↔ ∃ a ∈ l, key a = k := by
  induction l using firstBy_induction key with
  | nil => rfl
  | cons a rest ih =>
    simp only [firstBy_cons, List.mem_cons, exists_eq_or_imp]
    rw [ih]
    by_cases ha : key a = k
    · simp [ha]
    · refine or_congr_right ⟨fun ⟨b, hb, hk⟩ => ⟨b, (List.mem_filter.1 hb).1, hk⟩, ?_⟩
      rintro ⟨b, hb, rfl⟩
      exact ⟨b, List.mem_filter.2 ⟨hb, by simpa using fun h => ha h.symm⟩, rfl⟩

/-- No key is kept twice. -/
theorem firstBy_keys_nodup (key : α → κ) (items : List α) :
    ((firstBy key items).map key).Nodup := by
  induction items using firstBy_induction key with
  | nil => exact List.nodup_nil
  | cons a rest ih =>
    rw [firstBy_cons, List.map_cons, List.nodup_cons]
    refine ⟨fun hmem => ?_, ih⟩
    obtain ⟨b, hb, hkey⟩ := List.mem_map.1 hmem
    have hne := (List.mem_filter.1 ((firstBy_sublist key _).subset hb)).2
    simp [hkey] at hne

/-- A further item is kept if its key is new. -/
theorem firstBy_concat (items : List α) (a : α) :
    firstBy key (items ++ [a]) =
      if ∃ b ∈ items, key b = key a then firstBy key items else firstBy key items ++ [a] := by
  induction items using firstBy_induction key with
  | nil => simp [firstBy_cons, firstBy_nil]
  | cons b rest ih =>
    rw [List.cons_append, firstBy_cons, firstBy_cons, List.filter_append]
    by_cases hb : key a = key b
    · have hnone : [a].filter (key · ≠ key b) = [] := by simp [hb]
      rw [hnone, List.append_nil, if_pos ⟨b, List.mem_cons_self, hb.symm⟩]
    · have hkept : [a].filter (key · ≠ key b) = [a] := by simp [hb]
      have hiff : (∃ c ∈ rest.filter (key · ≠ key b), key c = key a) ↔
          ∃ c ∈ b :: rest, key c = key a := by
        simp only [List.mem_cons, exists_eq_or_imp]
        refine ⟨fun ⟨c, hc, hk⟩ => .inr ⟨c, (List.mem_filter.1 hc).1, hk⟩, ?_⟩
        rintro (hk | ⟨c, hc, hk⟩)
        · exact absurd hk.symm hb
        · exact ⟨c, List.mem_filter.2 ⟨hc, by simpa [hk] using hb⟩, hk⟩
      rw [hkept, ih, if_congr hiff rfl rfl]
      split <;> rfl

/-- Only which keys are equal matters. -/
theorem firstBy_congr {items : List α}
    (h : ∀ a ∈ items, ∀ b ∈ items, key a = key b ↔ key' a = key' b) :
    firstBy key items = firstBy key' items := by
  induction items using firstBy_induction key with
  | nil => rfl
  | cons a rest ih =>
    have hfilter : rest.filter (key · ≠ key a) = rest.filter (key' · ≠ key' a) := by
      refine List.filter_congr fun b hb => ?_
      simp [h b (List.mem_cons_of_mem a hb) a List.mem_cons_self]
    have hrest : ∀ b ∈ rest.filter (key · ≠ key a), b ∈ a :: rest :=
      fun b hb => List.mem_cons_of_mem a (List.mem_filter.1 hb).1
    rw [firstBy_cons, firstBy_cons, ← hfilter]
    exact congrArg _ (ih fun b hb c hc => h b (hrest b hb) c (hrest c hc))

/-- Keeping the first item of each key, by the keys that were seen. -/
theorem firstPerKey_eq (key : α → Text) (items : List α) :
    firstPerKey key items = firstBy key items := by
  have hgo : ∀ seen, firstPerKey.go key seen items =
      firstBy key (items.filter (key · ∉ seen)) := by
    induction items with
    | nil => exact fun _ => rfl
    | cons a rest ih =>
      intro seen
      rw [firstPerKey.go]
      by_cases ha : key a ∈ seen
      · rw [if_pos (by simpa using ha), ih, List.filter_cons_of_neg (by simpa using ha)]
      · rw [if_neg (by simpa using ha), ih, List.filter_cons_of_pos (by simpa using ha),
          firstBy_cons, List.filter_filter]
        refine congrArg (fun kept => a :: firstBy key kept) (List.filter_congr fun b _ => ?_)
        simp [not_or]
  have hall : items.filter (key · ∉ ([] : List Text)) = items :=
    List.filter_eq_self.2 fun a _ => by simp
  rw [firstPerKey, hgo, hall]

end FirstBy

namespace ClassPart

/-- The base class that a part names. -/
@[simp] def base? : ClassPart → Option ClassRef
  | .base c => some c
  | _ => none

/-- The protocol that a part adopts. -/
@[simp] def adopted? : ClassPart → Option ClassRef
  | .adopted c => some c
  | _ => none

/-- The field that a part declares. -/
@[simp] def field? : ClassPart → Option TargetField
  | .field f => some f
  | _ => none

/-- The method that a part declares. -/
@[simp] def method? : ClassPart → Option TargetMethod
  | .method m => some m
  | _ => none

/-- The initializer block that a part gives the class or its instances. -/
@[simp] def block? (isStatic : Bool) : ClassPart → Option (List Stmt)
  | .initializer body forClass => if forClass = isStatic then some body else none
  | _ => none

/-- What a part says about being a protocol. -/
@[simp] def flag? : ClassPart → Option Bool
  | .protocolFlag isProtocol => some isProtocol
  | _ => none

/-- Whether the last part that says so makes the class a protocol. -/
def isProtocol (parts : List ClassPart) : Bool := (parts.filterMap flag?).getLast?.getD false

/-- The base class: the first that was named, unless there is none or the class is a protocol. -/
def baseOf (parts : List ClassPart) : ClassRef :=
  if isProtocol parts then .nsObject else (parts.filterMap base?).head?.getD .nsObject

/-- The methods: the first of each signature, and of these the first of each receiver and
selector. -/
def methodsOf (parts : List ClassPart) : List TargetMethod :=
  firstBy (fun m => (m.isStatic, m.selector))
    (firstBy TargetMethod.signature (parts.filterMap method?))

end ClassPart

/-- What a name stands for after some mentions: the first that is no placeholder, or else the last
placeholder. -/
def settled? (mentions : List ClassRef) (name : Text) : Option ClassRef :=
  let mine := mentions.filter (·.name = name)
  (mine.find? (!·.isPlaceholder)).or mine.getLast?

/-- The imports after some mentions: each name but the own one, in order of first mention. The type
of any object does not count. -/
def importsOf (own : Text) (mentions : List ClassRef) : List ClassRef :=
  let counted := mentions.filter (!·.isId)
  (((firstBy ClassRef.name counted).map ClassRef.name).filter (· ≠ own)).filterMap
    (settled? counted)

/-- The class of a name after some parts and mentions. -/
def recordedClass (name : Text) (parts : List ClassPart) (mentions : List ClassRef) :
    ClassModel where
  name := name
  isProtocol := ClassPart.isProtocol parts
  base := ClassPart.baseOf parts
  protocols := firstBy ClassRef.name (parts.filterMap ClassPart.adopted?)
  imports := importsOf name mentions
  fields := firstBy TargetField.name (parts.filterMap ClassPart.field?)
  methods := ClassPart.methodsOf parts
  staticInit := parts.filterMap (ClassPart.block? true)
  instanceInit := parts.filterMap (ClassPart.block? false)

namespace ImportSet

/-- A class is put in its place among classes that are listed by their names. -/
theorem insert_filterMap {names : List Text} {c : ClassRef} {f f' : Text → Option ClassRef}
    (hnodup : names.Nodup) (hnamed : ∀ n ∈ names, ∃ old, f n = some old ∧ old.name = n)
    (hother : ∀ n, n ≠ c.name → f' n = f n)
    (hsame : ∀ old, f c.name = some old → f' c.name = some (if old.isPlaceholder then c else old))
    (hnew : c.name ∉ names → f' c.name = some c) :
    insert c (names.filterMap f) =
      (if c.name ∈ names then names else names ++ [c.name]).filterMap f' := by
  induction names with
  | nil => simp [insert, hnew]
  | cons n rest ih =>
    obtain ⟨old, hold, hname⟩ := hnamed n List.mem_cons_self
    obtain ⟨hn, hrest⟩ := List.nodup_cons.1 hnodup
    rw [List.filterMap_cons_some hold, insert]
    by_cases hc : n = c.name
    · subst hc
      have hkept : rest.filterMap f = rest.filterMap f' :=
        List.filterMap_congr fun n' hn' => (hother n' fun h => hn (h ▸ hn')).symm
      rw [if_pos hname, if_pos List.mem_cons_self, List.filterMap_cons_some (hsame old hold), hkept]
    · have hstep := ih hrest (fun n' hn' => hnamed n' (List.mem_cons_of_mem n hn'))
        (fun h => hnew (by simp [h, Ne.symm hc]))
      have hiff : c.name ∈ n :: rest ↔ c.name ∈ rest := by simp [Ne.symm hc]
      rw [if_neg (hname ▸ hc), hstep, if_congr hiff rfl rfl]
      split <;> rw [← List.filterMap_cons_some (by rw [hother n hc, hold])]
      rfl

/-- A mention of another name changes nothing. -/
theorem settled?_concat_of_ne {mentions : List ClassRef} {c : ClassRef} {name : Text}
    (h : name ≠ c.name) : settled? (mentions ++ [c]) name = settled? mentions name := by
  simp [settled?, Ne.symm h]

/-- A mention counts if all earlier ones of its name are placeholders. -/
theorem settled?_concat_self (mentions : List ClassRef) (c : ClassRef) :
    settled? (mentions ++ [c]) c.name =
      match settled? mentions c.name with
      | some old => some (if old.isPlaceholder then c else old)
      | none => some c := by
  have hmine : (mentions ++ [c]).filter (·.name = c.name) =
      mentions.filter (·.name = c.name) ++ [c] := by simp
  unfold settled?
  rw [hmine]
  generalize mentions.filter (·.name = c.name) = mine
  dsimp only
  rw [List.find?_append, List.getLast?_concat]
  cases hfind : mine.find? (!·.isPlaceholder) with
  | some known =>
    have hknown : known.isPlaceholder = false := by simpa using List.find?_some hfind
    simp [hknown]
  | none =>
    have hlast : (List.find? (!·.isPlaceholder) [c]).or (some c) = some c := by
      cases hc : c.isPlaceholder <;> simp [hc]
    rw [Option.none_or, Option.none_or, hlast]
    cases hold : mine.getLast? with
    | none => rfl
    | some old =>
      have hplaceholder := List.find?_eq_none.1 hfind old (List.mem_of_getLast? hold)
      simp at hplaceholder
      simp [hplaceholder]

/-- A name that was mentioned has a settled class, and that class has the name. -/
theorem settled?_of_mem {mentions : List ClassRef} {name : Text}
    (h : name ∈ mentions.map ClassRef.name) :
    ∃ c, settled? mentions name = some c ∧ c.name = name := by
  obtain ⟨c, hc, rfl⟩ := List.mem_map.1 h
  have hmine : c ∈ mentions.filter (·.name = c.name) := by simp [hc]
  have hsome : (settled? mentions c.name).isSome := by
    unfold settled?
    rw [Option.isSome_or, Bool.or_eq_true]
    exact .inr (by simpa [List.getLast?_isSome] using List.ne_nil_of_mem hmine)
  obtain ⟨c', hc'⟩ := Option.isSome_iff_exists.1 hsome
  refine ⟨c', hc', ?_⟩
  have hmem : c' ∈ mentions.filter (·.name = c.name) := by
    unfold settled? at hc'
    rcases Option.or_eq_some_iff.1 hc' with h | ⟨-, h⟩
    · exact List.mem_of_find?_eq_some h
    · exact List.mem_of_getLast? h
  simpa using (List.mem_filter.1 hmem).2

/-- The classes of an import set after some mentions. -/
theorem classes_foldl_add (mentions : List ClassRef) :
    (mentions.foldl add empty).classes =
      ((firstBy ClassRef.name (mentions.filter (!·.isId))).map ClassRef.name).filterMap
        (settled? (mentions.filter (!·.isId))) := by
  induction mentions using List.reverseRecOn with
  | nil => rfl
  | append_singleton mentions c ih =>
    rw [List.foldl_concat, List.filter_append]
    cases hid : c.isId with
    | true => simpa [add, hid] using ih
    | false =>
      have hcounted : [c].filter (!·.isId) = [c] := by simp [hid]
      have hadd : (add (mentions.foldl add empty) c).classes =
          insert c (mentions.foldl add empty).classes := by simp [add, hid]
      rw [hadd, ih, hcounted]
      generalize mentions.filter (!·.isId) = counted
      have hmem : c.name ∈ (firstBy ClassRef.name counted).map ClassRef.name ↔
          ∃ c' ∈ counted, c'.name = c.name := by rw [List.mem_map, exists_mem_firstBy ClassRef.name]
      have hnames : (firstBy ClassRef.name (counted ++ [c])).map ClassRef.name =
          if c.name ∈ (firstBy ClassRef.name counted).map ClassRef.name then
            (firstBy ClassRef.name counted).map ClassRef.name
          else (firstBy ClassRef.name counted).map ClassRef.name ++ [c.name] := by
        rw [firstBy_concat, if_congr hmem rfl rfl]
        split <;> simp
      rw [hnames]
      refine insert_filterMap (firstBy_keys_nodup _ counted) (fun n hn => settled?_of_mem ?_)
        (fun n hn => settled?_concat_of_ne hn) (fun old hold => ?_) (fun hnone => ?_)
      · exact ((firstBy_sublist _ counted).map ClassRef.name).subset hn
      · rw [settled?_concat_self, hold]
      · have hnot : settled? counted c.name = none := by
          have hmine : counted.filter (·.name = c.name) = [] := by
            refine List.filter_eq_nil_iff.2 fun c' hc' heq => hnone (hmem.2 ⟨c', hc', ?_⟩)
            simpa using heq
          simp [settled?, hmine]
        rw [settled?_concat_self, hnot]

/-- The imports of a class are those of its import set without its own name. -/
theorem importsOf_eq (own : Text) (mentions : List ClassRef) :
    (mentions.foldl add empty).classes.filter (·.name ≠ own) = importsOf own mentions := by
  rw [classes_foldl_add, importsOf]
  have hnamed : ∀ n ∈ (firstBy ClassRef.name (mentions.filter (!·.isId))).map ClassRef.name,
      ∃ c, settled? (mentions.filter (!·.isId)) n = some c ∧ c.name = n :=
    fun n hn => settled?_of_mem (((firstBy_sublist _ _).map ClassRef.name).subset hn)
  generalize (firstBy ClassRef.name (mentions.filter (!·.isId))).map ClassRef.name = names
    at hnamed ⊢
  induction names with
  | nil => rfl
  | cons n rest ih =>
    obtain ⟨c, hc, rfl⟩ := hnamed n List.mem_cons_self
    have hrest := ih fun n' hn' => hnamed n' (List.mem_cons_of_mem _ hn')
    rw [List.filterMap_cons_some hc]
    by_cases hown : c.name = own
    · rw [List.filter_cons_of_neg (by simpa using hown),
        List.filter_cons_of_neg (by simpa using hown), hrest]
    · rw [List.filter_cons_of_pos (by simpa using hown),
        List.filter_cons_of_pos (by simpa using hown), List.filterMap_cons_some hc, hrest]

end ImportSet

namespace TargetMethod

/-- A method whose name does not start with the mark of class methods. -/
def Unmarked (m : TargetMethod) : Prop := m.name.head? ≠ some (Text.byte '+')

variable {m m' : TargetMethod}

/-- No selector starts with the mark of class methods unless the name does. -/
theorem Unmarked.selector (h : m.Unmarked) : m.selector.head? ≠ some (Text.byte '+') := by
  have hcolon : Text.ofString ":" = [Text.byte ':'] := rfl
  unfold TargetMethod.selector keywords parameterNames selectorKeywords
  unfold Unmarked at h
  cases hparameters : m.parameters with
  | nil =>
    cases m.isConstructor with
    | true => simpa using by decide
    | false => simpa using h
  | cons p rest =>
    cases m.isConstructor with
    | true =>
      have hkeywords : ∀ (t : Text) (more : List Text),
          (Text.endEach ":" ((Text.ofString "initWith" ++ t) :: more)).head? =
            some (Text.byte 'i') := fun _ _ => rfl
      simp only [List.map_cons, if_true, List.isEmpty_cons, Bool.false_eq_true, if_false,
        hkeywords]
      decide
    | false =>
      cases hname : m.name with
      | nil =>
        simp [Text.endEach, hcolon]
        decide
      | cons b more => simpa [Text.endEach, hname] using h

/-- What tells messages apart is the receiver and the selector. -/
theorem messageKey_eq_iff (h : m.Unmarked) (h' : m'.Unmarked) :
    ClassBuilder.messageKey m = ClassBuilder.messageKey m' ↔
      (m.isStatic, m.selector) = (m'.isStatic, m'.selector) := by
  have hplus : ∀ t : Text, Text.ofString "+" ++ t = Text.byte '+' :: t := fun _ => rfl
  unfold ClassBuilder.messageKey
  cases hs : m.isStatic <;> cases hs' : m'.isStatic
  · simp
  · have hne : m.selector ≠ Text.byte '+' :: m'.selector := fun heq => h.selector (by rw [heq]; rfl)
    simpa [hplus] using hne
  · have hne : Text.byte '+' :: m.selector ≠ m'.selector :=
      fun heq => h'.selector (by rw [← heq]; rfl)
    simpa [hplus] using hne
  · simp [hplus]

end TargetMethod

namespace ClassBuilder

/-- A builder to which some parts were handed. -/
def gathered (name : Text) (parts : List ClassPart) : ClassBuilder where
  name := name
  bases := parts.filterMap ClassPart.base?
  protocols := firstBy ClassRef.name (parts.filterMap ClassPart.adopted?)
  fields := firstBy TargetField.name (parts.filterMap ClassPart.field?)
  methods := firstBy TargetMethod.signature (parts.filterMap ClassPart.method?)
  staticInit := parts.filterMap (ClassPart.block? true)
  instanceInit := parts.filterMap (ClassPart.block? false)
  isProtocol := ClassPart.isProtocol parts

/-- Whether a key is among those that were kept. -/
theorem any_firstBy {α : Type} {key : α → Text} {items : List α} {k : Text} :
    ((firstBy key items).any (key · = k)) = true ↔ ∃ a ∈ items, key a = k := by
  rw [List.any_eq_true, ← exists_mem_firstBy key]
  simp

/-- One more part comes last. -/
theorem filterMap_concat {β : Type} (f : ClassPart → Option β) (parts : List ClassPart)
    (part : ClassPart) :
    (parts ++ [part]).filterMap f = parts.filterMap f ++ (f part).toList := by
  rw [List.filterMap_append]
  cases h : f part <;> simp [h]

/-- What a further part adds to the lists of its kind. -/
theorem gathered_concat (name : Text) (parts : List ClassPart) (part : ClassPart) :
    gathered name (parts ++ [part]) =
      { name
        bases := parts.filterMap ClassPart.base? ++ part.base?.toList
        protocols :=
          firstBy ClassRef.name (parts.filterMap ClassPart.adopted? ++ part.adopted?.toList)
        fields := firstBy TargetField.name (parts.filterMap ClassPart.field? ++ part.field?.toList)
        methods :=
          firstBy TargetMethod.signature (parts.filterMap ClassPart.method? ++ part.method?.toList)
        staticInit := parts.filterMap (ClassPart.block? true) ++ (part.block? true).toList
        instanceInit := parts.filterMap (ClassPart.block? false) ++ (part.block? false).toList
        isProtocol :=
          (parts.filterMap ClassPart.flag? ++ part.flag?.toList).getLast?.getD false } := by
  simp only [gathered, ClassPart.isProtocol, filterMap_concat]

/-- A further part is gathered with the others. -/
theorem addPart_gathered (name : Text) (parts : List ClassPart) (part : ClassPart) :
    (gathered name parts).addPart part = gathered name (parts ++ [part]) := by
  rw [gathered_concat]
  cases part with
  | base c => simp [addPart, addBase, change, gathered, ClassPart.isProtocol]
  | adopted c =>
    simp only [addPart, addProtocol, change, gathered, any_firstBy, ClassPart.adopted?,
      Option.toList_some, firstBy_concat, Bool.false_eq_true, if_false, ClassPart.isProtocol]
    split <;> simp
  | field f =>
    simp only [addPart, addField, change, gathered, any_firstBy, ClassPart.field?,
      Option.toList_some, firstBy_concat, Bool.false_eq_true, if_false, ClassPart.isProtocol]
    split <;> simp
  | method m =>
    simp only [addPart, addMethod, hasMethod, change, gathered, any_firstBy, ClassPart.method?,
      Option.toList_some, firstBy_concat, Bool.false_eq_true, if_false, ClassPart.isProtocol]
    split <;> simp
  | initializer body isStatic =>
    cases isStatic <;> simp [addPart, addInitializer, change, gathered, ClassPart.isProtocol]
  | protocolFlag isProtocol =>
    simp [addPart, setProtocol, change, gathered]

/-- Building what was gathered gives the class that the parts and the mentions record. -/
theorem model_gathered (name : Text) {parts : List ClassPart} (mentions : List ClassRef)
    (h : ∀ m, .method m ∈ parts → m.Unmarked) :
    (gathered name parts).model (mentions.foldl ImportSet.add .empty) =
      recordedClass name parts mentions := by
  have hmethods : firstPerKey messageKey (gathered name parts).methods =
      ClassPart.methodsOf parts := by
    rw [firstPerKey_eq]
    have hunmarked : ∀ m ∈ (gathered name parts).methods, m.Unmarked := by
      intro m hm
      obtain ⟨part, hpart, hsome⟩ := List.mem_filterMap.1 ((firstBy_sublist _ _).subset hm)
      cases part with
      | method m' =>
        obtain rfl := Option.some.inj hsome
        exact h _ hpart
      | _ => cases hsome
    exact firstBy_congr fun m hm m' hm' =>
      TargetMethod.messageKey_eq_iff (hunmarked m hm) (hunmarked m' hm')
  simp only [model, hmethods, recordedClass]
  rw [← ImportSet.importsOf_eq]
  rfl

end ClassBuilder

end JavaObjC
