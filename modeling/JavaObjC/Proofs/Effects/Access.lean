import JavaObjC.Proofs.Effects.Lookups
import JavaObjC.Proofs.Wording

/-!
# Literals, names and fields have no calls

A literal as the language has it is written without the name of a method in
it: quotations are closed, and the words of a number begin with digits. A name
or a field is written as a word, behind the name of a class where it is static.
So the method's name does not come up unless it is the name itself, or ends in
it behind an underscore.
-/

namespace JavaObjC

open Lexeme (isLetter isLetterOrDigit isDigit)
open Text (EndsInCode occurrences separates codeWords bare encloses)
open Fragments Generating Lower

/-- Bytes of a number: letters, digits and points, and signs with a digit behind. -/
def numeralBytes : Text → Bool
  | [] => true
  | b :: rest =>
    (!separates b || ((b == 43 || b == 45) && Lexeme.frontIs isDigit rest)) && numeralBytes rest

/-- A number as a text. -/
def isNumeral (t : Text) : Bool :=
  Lexeme.frontIs (fun b => isDigit b || b == 46) t && numeralBytes t

/-- A token whose literal is what the language has for its kind. -/
def Token.IsProper (t : Token) : Prop :=
  match t.kind with
  | .stringLiteral => IsQuotation 34 t.literal
  | .charLiteral => IsQuotation 39 t.literal
  | .intLiteral | .floatLiteral => isNumeral t.literal = true
  | _ => True

/-- A word that is not the name of the method, and not the name of a static field that could be
written like it. -/
def MethodName.Spares (f : MethodName) (w : Text) : Prop :=
  occurrences f.text w = 0 ∧ (w ≠ [] → ¬ (Text.ofString "_" ++ w) <:+ f.text)

/-- A text of marks: it has no byte of a word, and no quotes. -/
def isOperator (t : Text) : Bool := !t.isEmpty && t.all fun b => separates b && b != 34 && b != 39

section Numerals

variable {f : MethodName} {t u : Text} {b : UInt8}

/-- A digit is no letter, and neither is a point. -/
theorem isLetter_of_front (h : Lexeme.frontIs (fun b => isDigit b || b == 46) t = true) :
    Lexeme.frontIs isLetter t = false := by
  have hall : ∀ b : UInt8, (isDigit b || b == 46) = true → isLetter b = false :=
    Lexeme.forall_byte (by decide +kernel)
  cases t with
  | nil => rfl
  | cons b t => exact hall b h

/-- The words of a number begin with what the number begins with, or with digits. -/
theorem words_of_numeralBytes (h : numeralBytes t = true) :
    ∃ first rest, t.splitOnP separates = first :: rest ∧ first <+: t ∧
      ∀ w ∈ rest, Lexeme.frontIs isLetter w = false := by
  induction t with
  | nil => exact ⟨[], [], by simp, List.prefix_refl _, by simp⟩
  | cons b t ih =>
    obtain ⟨hb, ht⟩ := Bool.and_eq_true_iff.1 h
    obtain ⟨first, rest, hsplit, hfirst, hrest⟩ := ih ht
    rw [List.splitOnP_cons_eq_if_modifyHead, hsplit]
    cases hseparates : separates b with
    | false => exact ⟨b :: first, rest, rfl, (List.prefix_cons_inj b).2 hfirst, hrest⟩
    | true =>
      refine ⟨[], first :: rest, rfl, List.nil_prefix, List.forall_mem_cons.2 ⟨?_, hrest⟩⟩
      have hdigit : Lexeme.frontIs isDigit t = true := by
        rw [hseparates] at hb
        exact (Bool.and_eq_true_iff.1 hb).2
      obtain ⟨more, rfl⟩ := hfirst
      cases first with
      | nil => rfl
      | cons c first =>
        have hc : isDigit c = true := hdigit
        exact isLetter_of_front (by simp [Lexeme.frontIs, hc])

/-- The name of a method does not stand in a number. -/
theorem Shows.numeral (f : MethodName) (h : isNumeral t = true) : Shows f 0 t := by
  obtain ⟨hfront, hbytes⟩ := Bool.and_eq_true_iff.1 h
  have hunquoted : ∀ b ∈ t, b ≠ 34 ∧ b ≠ 39 := by
    clear h hfront
    induction t with
    | nil => simp
    | cons b t ih =>
      obtain ⟨hb, ht⟩ := Bool.and_eq_true_iff.1 hbytes
      refine List.forall_mem_cons.2 ⟨?_, ih ht⟩
      constructor <;> rintro rfl <;> exact absurd hb (by simp [separates, isLetterOrDigit,
        isLetter, isDigit])
  obtain ⟨hclosed, hbare⟩ := Text.bare_of_unquoted hunquoted
  obtain ⟨first, rest, hsplit, hfirst, hrest⟩ := words_of_numeralBytes hbytes
  refine ⟨hclosed, List.count_eq_zero.2 fun hmem => ?_⟩
  have hletter := f.front
  rw [codeWords, hbare, hsplit, List.mem_cons] at hmem
  rcases hmem with heq | hmem
  · obtain ⟨more, rfl⟩ := hfirst
    have hnone := isLetter_of_front hfront
    rw [← heq] at hnone
    cases hname : f.text with
    | nil => exact f.ne_nil hname
    | cons b front =>
      rw [hname] at hletter hnone
      rw [Lexeme.frontIs] at hletter hnone
      exact absurd (hletter.symm.trans hnone) (by decide)
  · rw [hrest _ hmem] at hletter
    cases hletter

/-- A number without its underscores is a number. -/
theorem isNumeral_replaceByte (h : isNumeral t = true) :
    isNumeral (Text.replaceByte (Text.byte '_') [] t) = true := by
  have hcons : ∀ (b : UInt8) (t : Text), Text.replaceByte (Text.byte '_') [] (b :: t) =
      if b = 95 then Text.replaceByte (Text.byte '_') [] t
      else b :: Text.replaceByte (Text.byte '_') [] t := by
    intro b t
    have hmark : Text.byte '_' = 95 := by decide
    rw [Text.replaceByte, hmark, List.flatMap_cons]
    split <;> rfl
  have hfront : ∀ {test : UInt8 → Bool} {t : Text}, test 95 = false →
      Lexeme.frontIs test t = true →
        Lexeme.frontIs test (Text.replaceByte (Text.byte '_') [] t) = true := by
    intro test t htest ht
    cases t with
    | nil => cases ht
    | cons b t =>
      rw [hcons]
      split
      · next hb =>
        rw [hb, Lexeme.frontIs, List.head?_cons, Option.map_some, Option.getD_some, htest] at ht
        cases ht
      · exact ht
  obtain ⟨hfirst, hbytes⟩ := Bool.and_eq_true_iff.1 h
  refine Bool.and_eq_true_iff.2 ⟨hfront (by decide) hfirst, ?_⟩
  clear h hfirst
  induction t with
  | nil => rfl
  | cons b t ih =>
    obtain ⟨hb, ht⟩ := Bool.and_eq_true_iff.1 hbytes
    rw [hcons]
    split
    · exact ih ht
    · refine Bool.and_eq_true_iff.2 ⟨?_, ih ht⟩
      simp only [Bool.or_eq_true, Bool.and_eq_true] at hb ⊢
      exact hb.imp_right fun hsign => ⟨hsign.1, hfront (by decide) hsign.2⟩

/-- The last byte of a number, unless it is a digit or a point, can be replaced by others. -/
theorem isNumeral_replace_last (h : isNumeral (t ++ [b]) = true)
    (hb : (isDigit b || b == 46) = false) (hu : ∀ c ∈ u, separates c = false) :
    isNumeral (t ++ u) = true := by
  have hbytes : ∀ {t : Text}, numeralBytes (t ++ [b]) = true → numeralBytes (t ++ u) = true := by
    intro t ht
    induction t with
    | nil =>
      rw [List.nil_append]
      clear h ht
      induction u with
      | nil => rfl
      | cons c u ih =>
        rw [List.forall_mem_cons] at hu
        exact Bool.and_eq_true_iff.2 ⟨by rw [hu.1]; rfl, ih hu.2⟩
    | cons c t ih =>
      obtain ⟨hc, ht⟩ := Bool.and_eq_true_iff.1 ht
      refine Bool.and_eq_true_iff.2 ⟨?_, ih ht⟩
      simp only [Bool.or_eq_true, Bool.and_eq_true] at hc ⊢
      refine hc.imp_right fun hsign => ⟨hsign.1, ?_⟩
      cases t with
      | nil =>
        have hdigit : isDigit b = true := hsign.2
        rw [hdigit] at hb
        cases hb
      | cons d t => exact hsign.2
  obtain ⟨hfront, hall⟩ := Bool.and_eq_true_iff.1 h
  refine Bool.and_eq_true_iff.2 ⟨?_, hbytes hall⟩
  cases t with
  | nil =>
    have hfirst : (isDigit b || b == 46) = true := hfront
    rw [hfirst] at hb
    cases hb
  | cons c t => exact hfront

end Numerals

section Operators

variable {f : MethodName} {k : Nat} {t op : Text}

/-- The bytes of an operator. -/
theorem forall_of_isOperator (h : isOperator op = true) :
    ∀ b ∈ op, separates b = true ∧ b ≠ 34 ∧ b ≠ 39 := by
  simp only [isOperator, Bool.and_eq_true, List.all_eq_true, bne_iff_ne] at h
  exact fun b hb => ⟨(h.2 b hb).1.1, (h.2 b hb).1.2, (h.2 b hb).2⟩

/-- The name of a method does not stand between marks. -/
theorem Shows.marks (f : MethodName) (h : ∀ b ∈ op, separates b = true ∧ b ≠ 34 ∧ b ≠ 39) :
    Shows f 0 op := by
  obtain ⟨hclosed, hbare⟩ := Text.bare_of_unquoted fun b hb => (h b hb).2
  refine ⟨hclosed, List.count_eq_zero.2 fun hmem => f.ne_nil ?_⟩
  rw [codeWords, hbare] at hmem
  exact Text.eq_nil_of_mem_splitOnP (fun b hb => (h b hb).1) hmem

/-- An operator shows no call. -/
theorem Shows.operator (f : MethodName) (h : isOperator op = true) : Shows f 0 op :=
  .marks f (forall_of_isOperator h)

theorem ne_nil_of_isOperator (h : isOperator op = true) : op ≠ [] := by
  rintro rfl
  cases h

/-- An operator in front of its operand. -/
theorem Shows.signed (ht : Shows f k t) (h : isOperator op = true) : Shows f k (op ++ t) := by
  have hboth := (Shows.operator f h).append ht (.inr (.inr (.inl ?_)))
  · rwa [Nat.zero_add] at hboth
  · rw [List.getLast?_eq_some_getLast (ne_nil_of_isOperator h)]
    exact (forall_of_isOperator h _ (List.getLast_mem _)).1

/-- An operator behind its operand. -/
theorem Shows.marked (ht : Shows f k t) (h : isOperator op = true) : Shows f k (t ++ op) := by
  refine ht.append (.operator f h) (.inr (.inr (.inr ?_)))
  rw [List.head?_eq_some_head (ne_nil_of_isOperator h)]
  exact (forall_of_isOperator h _ (List.head_mem _)).1

end Operators

section Literals

variable {f : MethodName} {n : Node} {digits : Text}

/-- An integer literal shows no call and begins no chain. -/
theorem Unchained.integerLiteral (f : MethodName) (h : isNumeral digits = true) :
    Unchained f 0 (Lowering.integerLiteral digits) := by
  have hplain := isNumeral_replaceByte h
  unfold Lowering.integerLiteral
  dsimp only
  generalize Text.replaceByte (Text.byte '_') [] digits = plain at hplain ⊢
  split
  · next hlong =>
    obtain ⟨front, b, rfl, hb⟩ : ∃ front b, plain = front ++ [b] ∧
        (isDigit b || b == 46) = false := by
      have hmarks : Text.ofString "l" = [108] ∧ Text.ofString "L" = [76] := by decide
      rw [hmarks.1, hmarks.2, Bool.or_eq_true] at hlong
      rcases hlong with hlong | hlong
      · obtain ⟨front, rfl⟩ := List.isSuffixOf_iff_suffix.1 hlong
        exact ⟨front, _, rfl, by decide⟩
      · obtain ⟨front, rfl⟩ := List.isSuffixOf_iff_suffix.1 hlong
        exact ⟨front, _, rfl, by decide⟩
    have hmark : (Text.ofString "LL").all (fun c => !separates c) = true := by decide
    rw [List.dropLast_concat]
    exact .typed (.numeral f (isNumeral_replace_last hplain hb fun c hc =>
      (Bool.not_eq_true' _).mp (List.all_eq_true.1 hmark c hc))) _
  · exact .typed (.numeral f hplain) _

/-- A floating-point literal shows no call. -/
theorem floatLiteral_returns (h : isNumeral digits = true) :
    Returns f (Lowering.floatLiteral digits) (Unchained f 0) := by
  have hplain := isNumeral_replaceByte h
  unfold Lowering.floatLiteral
  dsimp only
  generalize Text.replaceByte (Text.byte '_') [] digits = plain at hplain ⊢
  refine (Answers.require (P := fun last => plain.getLast? = some last) fun _ => id).bind
    fun last hlast => .ite (fun _ => ?_) fun _ => .ite (fun hdouble => ?_) fun _ => ?_
  · exact .pure (.typed (.numeral f hplain) _)
  · obtain ⟨front, rfl⟩ := List.getLast?_eq_some_iff.1 hlast
    have hb : (isDigit last || last == 46) = false := by
      rcases hdouble with rfl | rfl <;> decide
    rw [List.dropLast_concat]
    have hfront := isNumeral_replace_last (u := []) hplain hb (by simp)
    rw [List.append_nil] at hfront
    exact .pure (.typed (.numeral f hfront) _)
  · exact .pure (.typed (.numeral f hplain) _)

/-- A quotation of characters. -/
theorem Shows.quotation (f : MethodName) {quote : UInt8} (hquote : quote = 34 ∨ quote = 39)
    {t : Text} (h : IsQuotation quote t) : Shows f 0 t := by
  obtain ⟨content, hencloses, rfl⟩ := h
  obtain ⟨hclosed, hcount⟩ := Text.codeWords_of_quotation hquote hencloses f.ne_nil
  exact ⟨hclosed, hcount⟩

/-- A literal shows no call. -/
theorem literal_returns (h : ∀ t ∈ n.token, t.IsProper) :
    Returns f (Lowering.literal n) (Unchained f 0) := by
  unfold Lowering.literal
  cases htoken : n.token with
  | none => exact .refuse _ _
  | some t =>
    have hproper := h t htoken
    unfold Token.IsProper at hproper
    dsimp only
    split
    · next hkind =>
      rw [hkind] at hproper
      refine .ite (fun _ => .refuse _ _) fun _ => .pure ?_
      obtain ⟨content, hencloses, hliteral⟩ := hproper
      have hcontent : (t.literal.drop 1).dropLast = content := by
        rw [hliteral, List.drop_one, List.tail_cons, List.dropLast_concat]
      have htext : Text.ofString "@" ++ t.literal = stringConstant content := by
        simp [hliteral, stringConstant, Text.ofString, String.utf8EncodeChar]
      rw [hcontent, htext]
      exact ⟨⟨.constant f hencloses, by simpa using hencloses, by simp, by simp⟩, rfl⟩
    · next hkind =>
      rw [hkind] at hproper
      exact .pure (.typed (.quotation f (.inr rfl) hproper) _)
    · exact .pure (.typed (.whole f (by simp [wholes])) _)
    · exact .pure (.typed (.whole f (by simp [wholes])) _)
    · exact .pure (.typed (.whole f (by simp [wholes])) _)
    · next hkind =>
      rw [hkind] at hproper
      exact .pure (.integerLiteral f hproper)
    · next hkind =>
      rw [hkind] at hproper
      exact floatLiteral_returns hproper
    · exact .refuse _ _
    · exact .refuse _ _

end Literals

section Names

variable {f : MethodName} {j : Nat} {w c : Text} {v : Value}

/-- A word that is not the method's name. -/
theorem MethodName.Spares.ne (h : f.Spares w) : w ≠ f.text := by
  rintro rfl
  exact absurd ((Shows.name f).count.symm.trans h.1) (by decide)

theorem Shows.spared (hw : w.IsWord) (h : f.Spares w) : Shows f 0 w := .of_isWord hw h.ne

/-- The variable for a static field. -/
theorem Shows.static (hc : c.IsWord) (hw : w.IsWord) (h : f.Spares w) :
    Shows f 0 (c ++ Text.ofString "_" ++ w) := by
  refine .word (fun b hb => ?_) fun heq => h.2 hw.1 ⟨c, by rw [← heq, List.append_assoc]⟩
  rw [List.mem_append, List.mem_append] at hb
  rcases hb with (hb | hb) | hb
  · exact separates_of_isWord hc b hb
  · have hmark : Text.ofString "_" = [95] := by decide
    rw [hmark, List.mem_singleton] at hb
    rw [hb]
    decide
  · exact separates_of_isWord hw b hb

/-- A static variable shows no call of the method. -/
theorem Unchained.staticField {around : Surroundings} (haround : around.Avoids f)
    {field : FieldSignature} {owner : ClassSignature}
    (hfield : around.field? w = some (field, owner)) (hw : w.IsWord) (h : f.Spares w) :
    Unchained f 0 (Lowering.staticField field owner) := by
  obtain ⟨c, hc, hfound⟩ := List.exists_of_findSome?_eq_some hfield
  obtain ⟨field', hfield', heq⟩ := Option.map_eq_some_iff.1 hfound
  cases heq
  have hname : field.name = w := by simpa using List.find?_some hfield'
  rw [Lowering.staticField, hname]
  exact .typed (.static (haround.hierarchy hc).name.1 hw h) _

/-- A name that stands alone. -/
theorem identifier_returns (hw : w.IsWord) (h : f.Spares w) :
    Returns f (Lowering.identifier w) (Unchained f 0) := by
  have hname := Shows.spared hw h
  refine .after fun localType => ?_
  cases localType with
  | some t => exact .pure (.typed hname _)
  | none =>
    refine Answers.read.bind fun around haround => ?_
    split
    · next field owner hfield =>
      refine .pure ?_
      split
      · exact .staticField haround hfield hw h
      · exact .typed hname _
    · refine .pure ⟨⟨hname, by simp, ?_, by simp⟩, rfl⟩
      intro className hclass
      split at hclass
      · obtain rfl := Option.some.inj hclass
        exact ⟨rfl, hw, h.ne⟩
      · cases hclass

/-- A field named through `this` or `super`. -/
theorem ownField_returns (hw : w.IsWord) (h : f.Spares w) :
    Returns f (Lowering.ownField w) (Unchained f 0) := by
  have hname := (Shows.spared hw h).keyed (c := "self->") (by simp [openings])
  refine Answers.read.bind fun around haround => ?_
  split
  · next field owner hfield =>
    refine .pure ?_
    split
    · exact .staticField haround hfield hw h
    · exact .typed hname _
  · exact .pure ⟨.plain hname rfl rfl rfl, rfl⟩

/-- The name of a class has no package. -/
theorem simpleName_of_isWord (hc : c.IsWord) : simpleName c = c := by
  have hnone := hc.notMem (b := Text.byte '.') (by decide)
  cases c with
  | nil => rfl
  | cons b rest =>
    rw [List.mem_cons, not_or] at hnone
    rw [simpleName, Text.afterLast, if_neg hnone.2, if_neg (Ne.symm hnone.1)]

/-- A static field named through its class. -/
theorem fieldOfClass_returns (hc : c.IsWord) (hw : w.IsWord) (h : f.Spares w) :
    Returns f (Lowering.fieldOfClass c w) (Unchained f 0) := by
  have hconstant := Unchained.constant? f c w
  unfold Lowering.fieldOfClass
  split
  · next v hv =>
    rw [hv] at hconstant
    exact .pure hconstant
  · have hstatic : ∀ type, Unchained f 0 (.typed (simpleName c ++ "_" ++ w) type) := fun type => by
      rw [simpleName_of_isWord hc]
      exact .typed (.static hc hw h) type
    refine Answers.read.bind fun around _ => ?_
    dsimp only
    exact .ite (fun _ => .after fun _ => .pure (hstatic _)) fun _ => .pure (hstatic _)

/-- A field of a value or a class. -/
theorem fieldOf_returns (hv : Calls f j v) (hw : w.IsWord) (h : f.Spares w) :
    Returns f (Lowering.fieldOf v w) (Unchained f j) := by
  unfold Lowering.fieldOf
  split
  · next className hclass =>
    obtain ⟨rfl, hword, -⟩ := hv.className className hclass
    refine .ite (fun hstream => .pure ?_) fun _ => fieldOfClass_returns hword hw h
    have htext : Text.ofString "System." ++ w = Text.ofString "System.out" ∨
        Text.ofString "System." ++ w = Text.ofString "System.err" := by
      have hnames := hstream.2
      simp only [Lowering.isStreamName, Bool.or_eq_true, beq_iff_eq] at hnames
      rcases hnames with rfl | rfl
      · exact .inl (by decide)
      · exact .inr (by decide)
    refine ⟨⟨?_, by simp, by simp, by simp⟩, rfl⟩
    dsimp only
    rcases htext with htext | htext
    · rw [htext]
      exact .whole f (by simp [wholes])
    · rw [htext]
      exact .whole f (by simp [wholes])
  · refine .ite (fun _ => .pure (.size hv.text)) fun _ => ?_
    refine Answers.read.bind fun around _ => .pure ?_
    exact .typed (hv.text.between (.spared hw h) (by simp [links])) _

end Names

end JavaObjC
