import JavaObjC.Proofs.Methods.Implementations
import JavaObjC.Proofs.Wording

/-!
# The initializers of constructors

The selector of an initializer has one colon for each parameter of its
constructor, because parameters are named by words and putting a letter in upper
case makes no colon of it. So constructors with different numbers of parameters
answer different messages. They answer no message of a method either, unless the
method has a name that begins like the selectors of initializers do. A class then
keeps every one of its constructors.
-/

namespace JavaObjC

namespace Text

variable {a : UInt8} {rest encoded t : Text} {code : Nat}

/-- No character but the colon has the colon in upper case. -/
theorem upperCode_ne_colon (h : code ≠ 58) : upperCode code ≠ 58 := by
  have hruns : ∀ run ∈ upperRuns, 58 < (run.1 : Int) + run.2.2.2 := by decide +kernel
  unfold upperCode
  split
  · next first last step distance hfound =>
    have hrun := hruns _ (List.mem_of_find?_eq_some hfound)
    have hfirst := List.find?_some hfound
    simp only [Bool.and_eq_true, decide_eq_true_eq] at hfirst hrun
    omega
  · exact h

/-- No character but the colon is encoded with the byte of the colon. -/
theorem colon_notMem_ofCode (h : code ≠ 58) : byte ':' ∉ ofCode code := by
  have hchar : (Char.ofNat code).val.toNat ≠ 58 := by
    by_cases hvalid : code.isValidChar
    · rw [Char.ofNat, dif_pos hvalid]
      exact h
    · rw [Char.ofNat, dif_neg hvalid]
      simp
  have hcolon : byte ':' = UInt8.ofNat 58 := rfl
  unfold ofCode String.utf8EncodeChar
  generalize (Char.ofNat code).val.toNat = v at hchar
  rw [hcolon]
  simp only
  split_ifs <;>
    simp only [List.mem_cons, List.not_mem_nil, or_false, ← UInt8.toNat_inj,
      UInt8.toNat_ofNat'] <;>
    omega

/-- A text that does not begin with a colon does not begin with a character that is one. -/
theorem firstRune_ne_colon (ha : a ≠ byte ':') (h : firstRune a rest = .char code encoded) :
    code ≠ 58 := by
  have hcolon : (byte ':').toNat = 58 := by decide
  -- a sequence of two bytes has high bits in its first one, a longer one there or in its second
  have htwo : ∀ a : UInt8, 0xC2 ≤ a ∧ a ≤ 0xDF → 2 ≤ a.toNat % 32 :=
    Lexeme.forall_byte (by decide +kernel)
  have hthree : ∀ a : UInt8, 0xE0 ≤ a ∧ a ≤ 0xEF →
      1 ≤ a.toNat % 16 ∨ secondFrom a = 0xA0 ∧ secondTo a = 0xBF :=
    Lexeme.forall_byte (by decide +kernel)
  have hfour : ∀ a : UInt8, 0xF0 ≤ a ∧ a ≤ 0xF4 →
      1 ≤ a.toNat % 8 ∨ secondFrom a = 0x90 ∧ secondTo a = 0xBF :=
    Lexeme.forall_byte (by decide +kernel)
  have hsecond : ∀ b : UInt8, b ≤ 0xBF →
      (0xA0 ≤ b → 32 ≤ payload b) ∧ (0x90 ≤ b → 16 ≤ payload b) :=
    Lexeme.forall_byte (by decide +kernel)
  unfold firstRune at h
  split_ifs at h with hone hlead hlead hlead
  · obtain ⟨rfl, -⟩ := Rune.char.inj h
    exact fun heq => ha (UInt8.toNat_inj.1 (heq.trans hcolon.symm))
  · split at h
    · split_ifs at h
      obtain ⟨rfl, -⟩ := Rune.char.inj h
      have hbits := htwo a hlead
      omega
    · cases h
  · split at h
    · next b c _ =>
      split_ifs at h with hrest
      obtain ⟨rfl, -⟩ := Rune.char.inj h
      rcases hthree a hlead with hbits | ⟨hfrom, hto⟩
      · omega
      · rw [hfrom, hto] at hrest
        have hbits := (hsecond b hrest.2.1).1 hrest.1
        omega
    · cases h
  · split at h
    · next b c d _ =>
      split_ifs at h with hrest
      obtain ⟨rfl, -⟩ := Rune.char.inj h
      rcases hfour a hlead with hbits | ⟨hfrom, hto⟩
      · omega
      · rw [hfrom, hto] at hrest
        have hbits := (hsecond b hrest.2.1).2 hrest.1
        omega
    · cases h

/-- Putting the first letter in upper case makes no colon. -/
theorem colon_notMem_capitalize (h : byte ':' ∉ t) : byte ':' ∉ capitalize t := by
  cases t with
  | nil => exact h
  | cons a rest =>
    simp only [capitalize]
    split
    · next code encoded hfirst =>
      split_ifs
      · exact h
      · rw [List.mem_append, not_or]
        refine ⟨colon_notMem_ofCode (upperCode_ne_colon (firstRune_ne_colon ?_ hfirst)), ?_⟩
        · exact fun heq => h (heq ▸ List.mem_cons_self)
        · exact fun hmem => h (List.mem_of_mem_drop hmem)
    · exact h

theorem ofString_colon : ofString ":" = [byte ':'] := by decide

/-- Texts that end in a colon each have as many colons as there are texts. -/
theorem count_colon_endEach {parts : List Text} (h : ∀ t ∈ parts, byte ':' ∉ t) :
    (endEach ":" parts).count (byte ':') = parts.length := by
  induction parts with
  | nil => rfl
  | cons t parts ih =>
    rw [List.forall_mem_cons] at h
    have hone : (ofString ":").count (byte ':') = 1 := by decide
    rw [endEach, List.flatMap_cons, List.count_append, List.count_append,
      List.count_eq_zero.2 h.1, hone]
    have hrest := ih h.2
    rw [endEach] at hrest
    rw [hrest, List.length_cons]
    omega

/-- Whether a text is the selector of an initializer, or could be one by how it begins. -/
def namesInitializer (t : Text) : Bool := t == "init" || startsWith t "initWith"

theorem startsWith_append (t rest : Text) : startsWith (t ++ rest) t = true :=
  List.isPrefixOf_iff_prefix.2 (List.prefix_append t rest)

/-- What begins a text begins it with more behind it. -/
theorem startsWith_of_front {head : Text} (h : startsWith t head = true) (rest : Text) :
    startsWith (t ++ rest) head = true :=
  List.isPrefixOf_iff_prefix.2 ((List.isPrefixOf_iff_prefix.1 h).trans (List.prefix_append t rest))

/-- What begins like an initializer up to a byte that is in none begins so before that byte. -/
theorem namesInitializer_of_append {b : UInt8} (hinit : b ∉ ofString "init")
    (hwith : b ∉ ofString "initWith") (h : namesInitializer (t ++ b :: rest) = true) :
    startsWith t "initWith" = true := by
  simp only [namesInitializer, Bool.or_eq_true, beq_iff_eq] at h
  rcases h with heq | hstart
  · exact absurd (heq ▸ List.mem_append_right t List.mem_cons_self) hinit
  · obtain ⟨tail, htail⟩ := List.isPrefixOf_iff_prefix.1 hstart
    rcases List.append_eq_append_iff.1 htail with ⟨front, rfl, -⟩ | ⟨front, heq, hrest⟩
    · exact startsWith_append _ front
    · cases front with
      | nil =>
        rw [List.append_nil] at heq
        rw [← heq, ← List.append_nil (ofString "initWith")]
        exact startsWith_append _ []
      | cons c front =>
        obtain rfl := (List.cons.inj hrest).1
        exact absurd (heq ▸ List.mem_append_right t List.mem_cons_self) hwith

end Text

section Selectors

variable {name : Text} {parameters : List Text}

/-- The selector of an initializer has a colon for each parameter. -/
theorem count_colon_selectorOf (h : ∀ t ∈ parameters, Text.byte ':' ∉ t) :
    (selectorOf "init" true parameters).count (Text.byte ':') = parameters.length := by
  cases parameters with
  | nil => decide
  | cons first more =>
    rw [List.forall_mem_cons] at h
    have hfirst : Text.byte ':' ∉ Text.ofString "initWith" ++ Text.capitalize first := by
      rw [List.mem_append, not_or]
      exact ⟨by decide, Text.colon_notMem_capitalize h.1⟩
    have hkeywords : ∀ t ∈ selectorKeywords "init" true (first :: more), Text.byte ':' ∉ t :=
      List.forall_mem_cons.2 ⟨hfirst, h.2⟩
    exact Text.count_colon_endEach hkeywords

/-- The selectors of initializers begin as such. -/
theorem namesInitializer_selectorOf (parameters : List Text) :
    Text.namesInitializer (selectorOf "init" true parameters) = true := by
  cases parameters with
  | nil => decide
  | cons first more =>
    have hselector : selectorOf "init" true (first :: more) = Text.ofString "initWith" ++
        (Text.capitalize first ++ ":" ++ Text.endEach ":" more) := by
      simp [selectorOf, selectorKeywords, Text.endEach]
    rw [hselector, Text.namesInitializer, Text.startsWith_append, Bool.or_true]

/-- The selector of a method begins like that of an initializer only if its name does. -/
theorem namesInitializer_of_selectorOf
    (h : Text.namesInitializer (selectorOf name false parameters) = true) :
    Text.namesInitializer name = true := by
  cases parameters with
  | nil => simpa [selectorOf, selectorKeywords] using h
  | cons first more =>
    have hselector : selectorOf name false (first :: more) =
        name ++ Text.byte ':' :: Text.endEach ":" more := by
      simp [selectorOf, selectorKeywords, Text.endEach, Text.ofString_colon]
    rw [hselector] at h
    rw [Text.namesInitializer, Text.namesInitializer_of_append (by decide) (by decide) h,
      Bool.or_true]

end Selectors

/-- An item whose key no other one has is kept. -/
theorem mem_firstBy_of_unique {α κ : Type} [DecidableEq κ] {key : α → κ} {items : List α} {a : α}
    (ha : a ∈ items) (h : ∀ b ∈ items, key b = key a → b = a) : a ∈ firstBy key items := by
  obtain ⟨b, hb, hkey⟩ := (exists_mem_firstBy key).2 ⟨a, ha, rfl⟩
  exact h b ((firstBy_sublist key items).subset hb) hkey ▸ hb

section Declared

variable {mapper : TypeMapper} {r : Registry} {infos : List (Bool × MethodSignature)}
  {added : List TargetMethod} {m f : TargetMethod} {info : Bool × MethodSignature}

/-- The initializers of a class have the numbers of parameters that are declared. -/
theorem constructor_arities
    (h : List.Forall₂ (fun info m => TargetMethod.Reflects mapper r info.1 info.2 m) infos added) :
    (added.filter (·.isConstructor)).map (·.parameters.length) =
      ((infos.filter (·.1 = true)).map Prod.snd).map MethodSignature.arity := by
  induction h with
  | nil => rfl
  | @cons info m infos added hm _ ih =>
    have hkind := hm.isConstructor_eq
    cases hconstructor : info.1 with
    | false =>
      rw [List.filter_cons_of_neg (by simp [hkind, hconstructor]),
        List.filter_cons_of_neg (by simp [hconstructor]), ih]
    | true =>
      have hlength : m.parameters.length = info.2.arity := hm.parameters.length_eq.symm
      rw [List.filter_cons_of_pos (by rw [hkind, hconstructor]),
        List.filter_cons_of_pos (by simpa using hconstructor), List.map_cons, List.map_cons,
        List.map_cons, ih, hlength]

/-- A method begins like an initializer only if it is one or has such a name. -/
theorem TargetMethod.Reflects.isConstructor_of_selector (h : m.Reflects mapper r info.1 info.2)
    (hname : info.1 = false → Text.namesInitializer info.2.name = false)
    (hselector : Text.namesInitializer m.selector = true) : m.isConstructor = true := by
  rw [h.isConstructor_eq]
  cases hkind : info.1 with
  | true => rfl
  | false =>
    rw [h.selector_eq, hkind] at hselector
    have hmethod := namesInitializer_of_selectorOf hselector
    rw [if_neg (by simp), hname hkind] at hmethod
    exact hmethod

/-- The selector of an initializer has a colon for each parameter. -/
theorem TargetMethod.Reflects.count_colon (h : f.Reflects mapper r info.1 info.2)
    (hinfo : WellNamed info) (hf : f.isConstructor = true) :
    f.selector.count (Text.byte ':') = f.parameters.length := by
  have hconstructor := h.isConstructor_eq.symm.trans hf
  rw [h.selector_eq, hconstructor, if_pos rfl, count_colon_selectorOf]
  · rw [MethodSignature.parameterNames, List.length_map, h.parameters.length_eq]
  · intro t ht
    obtain ⟨p, hp, rfl⟩ := List.mem_map.1 ht
    exact (hinfo.parameters p hp).notMem (by decide)

/-- A class keeps all of its constructors if they differ in their numbers of parameters and no
method has the name of an initializer. -/
theorem constructor_kept (hmapper : mapper.CommaFree) (hr : r.Named)
    (hinfos : ∀ info ∈ infos, WellNamed info)
    (hadded : List.Forall₂ (fun info m => TargetMethod.Reflects mapper r info.1 info.2 m)
      infos added)
    (harities : (((infos.filter (·.1 = true)).map Prod.snd).map MethodSignature.arity).Nodup)
    (hnames : ∀ info ∈ infos, info.1 = false → Text.namesInitializer info.2.name = false)
    (hf : f ∈ added) (hconstructor : f.isConstructor = true) :
    f ∈ firstPerKey ClassBuilder.messageKey (added.foldl addedTo []) := by
  have hspelled : ∀ m ∈ added, m.Spelled := by
    intro m hm
    obtain ⟨info, hinfo, hm'⟩ := exists_of_mem_forall₂ hadded hm
    exact hm'.spelled hmapper hr (hinfos info hinfo)
  rw [← constructor_arities hadded] at harities
  have hunique : ∀ m ∈ added, m.isConstructor = true →
      m.parameters.length = f.parameters.length → m = f := fun m hm hkind hlength =>
    List.inj_on_of_nodup_map harities (List.mem_filter.2 ⟨hm, hkind⟩)
      (List.mem_filter.2 ⟨hf, hconstructor⟩) hlength
  have hsignature : f ∈ added.foldl addedTo [] := by
    rw [foldl_addedTo_eq]
    refine mem_firstBy_of_unique hf fun m hm heq => ?_
    obtain ⟨-, hkind, -, hlength⟩ := (hspelled m hm).signature_inj (hspelled f hf) heq
    exact hunique m hm (hkind.trans hconstructor) hlength
  rw [firstPerKey_eq]
  refine mem_firstBy_of_unique hsignature fun m hm heq => ?_
  have hmem : m ∈ added := (mem_of_mem_foldl_addedTo hm).resolve_left List.not_mem_nil
  have hmessage := (TargetMethod.messageKey_eq_iff (hspelled m hmem).unmarked
    (hspelled f hf).unmarked).1 heq
  have hselector : m.selector = f.selector := (Prod.mk.inj hmessage).2
  obtain ⟨info, hinfo, hm'⟩ := exists_of_mem_forall₂ hadded hmem
  obtain ⟨info', hinfo', hf'⟩ := exists_of_mem_forall₂ hadded hf
  have hinitializer : Text.namesInitializer m.selector = true := by
    rw [hselector, hf'.selector_eq, hf'.isConstructor_eq.symm.trans hconstructor]
    exact namesInitializer_selectorOf _
  have hkind := hm'.isConstructor_of_selector (hnames info hinfo) hinitializer
  have hcount := hm'.count_colon (hinfos info hinfo) hkind
  rw [hselector, hf'.count_colon (hinfos info' hinfo') hconstructor] at hcount
  exact hunique m hmem hkind hcount.symm

end Declared

end JavaObjC
