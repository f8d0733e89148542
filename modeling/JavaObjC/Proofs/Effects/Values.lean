import JavaObjC.Proofs.Effects.Fragments
import JavaObjC.Proofs.Links.Names

/-!
# Calls in generated expressions

How often a method is called in a generated expression, and what becomes of
the calls when expressions are boxed, read, printed, concatenated, sent as
arguments or joined by operators. Each of these writes the text of every
operand once; only literals are written in another way, and they hold no calls.
-/

namespace JavaObjC

open Text (EndsInCode occurrences separates encloses)
open Fragments

/-- A generated expression in which a method is called a number of times. Literals can be quoted
again, and classes are named by words; neither they nor output streams have calls. -/
structure Calls (f : MethodName) (k : Nat) (v : Value) : Prop where
  text : Shows f k v.text
  content : ∀ c ∈ v.content, k = 0 ∧ encloses 34 false c = true
  className : ∀ c ∈ v.className, k = 0 ∧ c.IsWord ∧ c ≠ f.text
  isStream : v.isStream = true → k = 0

/-- Such an expression that is no chain on a builder. -/
structure Unchained (f : MethodName) (k : Nat) (v : Value) : Prop extends Calls f k v where
  builder : v.builder = none

/-- How often a method is called in a generated expression. -/
def MethodName.callsIn (f : MethodName) (v : Value) : Nat := occurrences f.text v.text

/-- How often a method is called in several generated expressions. -/
def MethodName.callsInAll (f : MethodName) (vs : List Value) : Nat := (vs.map f.callsIn).sum

/-- Generated expressions in which the calls of a method can be counted. -/
def Counted (f : MethodName) (vs : List Value) : Prop := ∀ v ∈ vs, Calls f (f.callsIn v) v

section Several

variable {f : MethodName} {v : Value} {vs : List Value}

@[simp] theorem MethodName.callsInAll_nil (f : MethodName) : f.callsInAll [] = 0 := rfl

/-- The calls in values add up. -/
@[simp] theorem MethodName.callsInAll_cons (f : MethodName) (v : Value) (vs : List Value) :
    f.callsInAll (v :: vs) = f.callsIn v + f.callsInAll vs := List.sum_cons

@[simp] theorem counted_nil (f : MethodName) : Counted f [] := by simp [Counted]

/-- Values are counted when the first one and the others are. -/
@[simp] theorem counted_cons : Counted f (v :: vs) ↔ Calls f (f.callsIn v) v ∧ Counted f vs :=
  List.forall_mem_cons

end Several

section Words

variable {f : MethodName} {t : Text}

/-- Inside a word nothing separates. -/
theorem separates_of_isWord (h : t.IsWord) : ∀ b ∈ t, separates b = false := fun b hb => by
  simp [separates, h.2 b hb]

/-- A word that is not the name shows no call. -/
theorem Shows.of_isWord (h : t.IsWord) (hne : t ≠ f.text) : Shows f 0 t :=
  .word (separates_of_isWord h) hne

/-- A text of letters, digits and points can be quoted. -/
theorem encloses_of_not_separates (h : ∀ b ∈ t, separates b = false) :
    encloses 34 false t = true := by
  induction t with
  | nil => rfl
  | cons b t ih =>
    rw [List.forall_mem_cons] at h
    have hquote : b ≠ 34 ∧ b ≠ 92 := by
      constructor <;> rintro rfl <;> exact absurd h.1 (by decide)
    simp [encloses, bne_iff_ne.2 hquote.1, beq_eq_false_iff_ne.2 hquote.2, ih h.2]

end Words

namespace Calls

variable {f : MethodName} {j k : Nat} {v : Value} {t : Text}

theorem callsIn_eq (h : Calls f k v) : f.callsIn v = k := h.text.count

theorem counted (h : Calls f k v) : Calls f (f.callsIn v) v := by rwa [h.callsIn_eq]

/-- A text that is neither a literal nor a class nor a stream. -/
theorem plain (h : Shows f k v.text) (hcontent : v.content = none) (hclass : v.className = none)
    (hstream : v.isStream = false) : Calls f k v where
  text := h
  content := by simp [hcontent]
  className := by simp [hclass]
  isStream := by simp [hstream]

end Calls

/-- A text with a type begins no chain. -/
theorem Unchained.typed {f : MethodName} {k : Nat} {t : Text} (h : Shows f k t)
    (type : JavaType) : Unchained f k (.typed t type) := ⟨.plain h rfl rfl rfl, rfl⟩

section Numbers

variable {f : MethodName} {k : Nat} {v : Value}

/-- The selectors that unbox are no calls of the source. -/
theorem Shows.unboxSelector (f : MethodName) (name : Text) : Shows f 0 (unboxSelector name) := by
  rw [JavaObjC.unboxSelector]
  cases hfound : Text.find? unboxSelectors name with
  | none => exact .nil f
  | some selector =>
    have hall : ∀ selector ∈ unboxSelectors.map Prod.snd, selector ∈ wholes := by decide
    exact .whole f (hall selector (Text.mem_of_find? hfound))

/-- Reading a number from a value. -/
theorem Calls.read (h : Calls f k v) (name : Text) :
    Shows f k (message v.text (JavaObjC.unboxSelector name)) :=
  h.text.message (.unboxSelector f name)

/-- Unboxing repeats no call and loses none. -/
theorem Calls.unboxed (h : Calls f k v) : Shows f k v.unboxed := by
  unfold Value.unboxed
  split
  · exact h.read _
  · exact h.text

/-- A text as an object. -/
theorem Shows.boxed {t : Text} (h : Shows f k t) : Shows f k ("@(" ++ t ++ ")") :=
  (h.keyed (by simp [openings])).followed (by simp [endings])

/-- Boxing repeats no call and loses none. -/
theorem Calls.box (h : Calls f k v) : Shows f k v.box := by
  unfold Value.box
  split
  · exact h.text.boxed
  · exact h.text

/-- Coercing repeats no call and loses none. -/
theorem Calls.coerce (h : Calls f k v) (target : JavaType) : Shows f k (v.coerce target) := by
  unfold Value.coerce
  split_ifs
  · exact h.text
  · exact h.box
  · exact h.read _
  · exact h.text

end Numbers

section Formats

variable {f : MethodName} {k : Nat} {v : Value}

/-- A format directive ends no string. -/
theorem encloses_formatSpecifier (r : TypeRef) : encloses 34 false r.formatSpecifier = true := by
  have hall : ∀ directive ∈ TypeRef.scalarSpecifiers.map Prod.snd,
      encloses 34 false (Text.ofString directive) = true := by decide
  unfold TypeRef.formatSpecifier
  split
  · decide
  · next name =>
    cases hfound : Text.find? TypeRef.scalarSpecifiers name with
    | none => decide
    | some directive => exact hall directive (Text.mem_of_find? hfound)

/-- A directive can be quoted, and the printed argument has the calls of the value. -/
theorem Calls.formatArgument (h : Calls f k v) :
    encloses 34 false (formatArgument v).1 = true ∧ Shows f k (formatArgument v).2 := by
  have hobject : encloses 34 false (Text.ofString "%@") = true := by decide
  unfold JavaObjC.formatArgument
  dsimp only
  split_ifs
  · exact ⟨hobject, (h.unboxed.keyed (by simp [openings])).followed (by simp [endings])⟩
  · refine ⟨?_, h.unboxed.keyed (by simp [openings])⟩
    cases primitiveRef? (numericType v.type).name with
    | none => exact hobject
    | some r => exact encloses_formatSpecifier r
  · refine ⟨?_, h.unboxed⟩
    cases primitiveRef? (numericType v.type).name with
    | none => exact hobject
    | some r => exact encloses_formatSpecifier r
  · exact ⟨hobject, h.text⟩

/-- Doubling percent signs changes nothing about quotations. -/
theorem encloses_doubled {isEscaped : Bool} {content : Text}
    (h : encloses 34 isEscaped content = true) :
    encloses 34 isEscaped (Text.replaceByte (Text.byte '%') "%%" content) = true := by
  have hpercent : Text.byte '%' = 37 ∧ Text.ofString "%%" = [37, 37] := by decide
  rw [hpercent.1, hpercent.2]
  induction content generalizing isEscaped with
  | nil => exact h
  | cons b content ih =>
    rw [Text.replaceByte, List.flatMap_cons, ← Text.replaceByte]
    cases isEscaped with
    | true =>
      have hrest : encloses 34 false content = true := h
      by_cases hb : b = 37
      · rw [if_pos hb]
        exact ih hrest
      · rw [if_neg hb]
        exact ih hrest
    | false =>
      obtain ⟨hquote, hrest⟩ := Bool.and_eq_true_iff.1 h
      by_cases hb : b = 37
      · subst hb
        exact ih hrest
      · rw [if_neg hb]
        exact Bool.and_eq_true_iff.2 ⟨hquote, ih hrest⟩

/-- Two bytes that are neither quotes nor backslashes can stand anywhere in a quotation. -/
theorem encloses_pair {b c : UInt8} (hb : b ≠ 34 ∧ b ≠ 92) (hc : c ≠ 34 ∧ c ≠ 92)
    (isEscaped : Bool) (rest : Text) :
    encloses 34 isEscaped (b :: c :: rest) = encloses 34 false rest := by
  cases isEscaped <;>
    simp [encloses, bne_iff_ne.2 hb.1, bne_iff_ne.2 hc.1, beq_eq_false_iff_ne.2 hb.2,
      beq_eq_false_iff_ne.2 hc.2]

/-- Replacing conversions changes nothing about quotations. -/
theorem encloses_convertFormat {isEscaped : Bool} {content : Text}
    (h : encloses 34 isEscaped content = true) :
    encloses 34 isEscaped (convertFormat content) = true := by
  have htexts : Text.ofString "%@" = [37, 64] ∧ Text.ofString "\\n" = [92, 110] ∧
      Text.ofString "%d" = [37, 100] := by decide
  have hpercent : Text.byte '%' ≠ 34 ∧ Text.byte '%' ≠ 92 := by decide
  have hkeep : ∀ {b : UInt8} {rest : Text} {isEscaped : Bool},
      (∀ {isEscaped : Bool}, encloses 34 isEscaped rest = true →
        encloses 34 isEscaped (convertFormat rest) = true) →
      encloses 34 isEscaped (b :: rest) = true →
        encloses 34 isEscaped (b :: convertFormat rest) = true := by
    intro b rest isEscaped ih h
    cases isEscaped with
    | true => exact ih h
    | false => exact Bool.and_eq_true_iff.2 ((Bool.and_eq_true_iff.1 h).imp_right ih)
  fun_induction convertFormat content generalizing isEscaped with
  | case1 => exact h
  | case2 b => exact h
  | case3 c rest hc ih =>
    rw [encloses_pair hpercent (by rcases hc with rfl | rfl <;> decide)] at h
    rw [htexts.1]
    exact (encloses_pair (by decide) (by decide) _ _).trans (ih h)
  | case4 rest hc ih =>
    rw [encloses_pair hpercent (by decide)] at h
    rw [htexts.2.1]
    cases isEscaped <;> exact ih h
  | case5 rest hc hc' ih =>
    rw [encloses_pair hpercent (by decide)] at h
    rw [htexts.2.2]
    exact (encloses_pair (by decide) (by decide) _ _).trans (ih h)
  | case6 c rest _ _ _ ih => exact hkeep ih h
  | case7 b c rest _ ih => exact hkeep ih h

/-- A format pattern as an argument. -/
theorem Calls.formatPattern (h : Calls f k v) : Shows f k (formatPattern v) := by
  unfold JavaObjC.formatPattern
  split
  · next content hcontent =>
    obtain ⟨rfl, hencloses⟩ := h.content content hcontent
    exact .constant f (encloses_convertFormat hencloses)
  · exact h.text

end Formats

section Lists

variable {f : MethodName} {j k : Nat} {v : Value} {vs : List Value} {ts : List Text} {s : Text}

/-- Texts that are closed and have a number of calls together. -/
def ShowsAll (f : MethodName) (k : Nat) (ts : List Text) : Prop :=
  (∀ t ∈ ts, EndsInCode t) ∧ (ts.map (occurrences f.text)).sum = k

namespace ShowsAll

theorem nil (f : MethodName) : ShowsAll f 0 [] := ⟨by simp, rfl⟩

/-- The calls that texts show add up. -/
theorem cons (hs : Shows f j s) (h : ShowsAll f k ts) : ShowsAll f (j + k) (s :: ts) :=
  ⟨List.forall_mem_cons.2 ⟨hs.closed, h.1⟩, by rw [List.map_cons, List.sum_cons, hs.count, h.2]⟩

/-- Texts none of which shows a call show none. -/
theorem of_forall (h : ∀ t ∈ ts, Shows f 0 t) : ShowsAll f 0 ts :=
  ⟨fun t ht => (h t ht).closed,
    List.sum_eq_zero_iff_forall_eq_nat.2 (by simpa using fun t ht => (h t ht).count)⟩

/-- Texts with a fragment of the generator between neighbours. -/
theorem join (h : ShowsAll f k ts) {c : String} (hc : c ∈ links) :
    Shows f k (Text.join c ts) := h.2 ▸ Shows.join h.1 hc

/-- One text for each of several expressions, with the same calls. -/
theorem map (h : Counted f vs) {write : Value → Text}
    (hwrite : ∀ v ∈ vs, Shows f (f.callsIn v) (write v)) :
    ShowsAll f (f.callsInAll vs) (vs.map write) := by
  induction vs with
  | nil => exact nil f
  | cons v rest ih =>
    unfold Counted at h
    rw [List.forall_mem_cons] at h hwrite
    exact cons hwrite.1 (ih h.2 hwrite.2)

end ShowsAll

/-- The texts of counted values show the calls of the values. -/
theorem Counted.texts (h : Counted f vs) : ShowsAll f (f.callsInAll vs) (vs.map Value.text) :=
  .map h fun v hv => (h v hv).text

/-- Values behind a counted one are counted. -/
theorem Counted.tail (h : Counted f (v :: vs)) : Counted f vs := fun u hu =>
  h u (List.mem_cons_of_mem v hu)

/-- Arguments converted to the types of parameters. -/
theorem Counted.coerced (h : Counted f vs) (types : List JavaType) :
    ShowsAll f (f.callsInAll vs) (coerceAll vs types) := by
  fun_induction JavaObjC.coerceAll vs types with
  | case1 => exact .nil f
  | case2 v rest ih => exact .cons (h v List.mem_cons_self).text (ih h.tail)
  | case3 v rest t types ih => exact .cons ((h v List.mem_cons_self).coerce t) (ih h.tail)

/-- The printed arguments, with a format that can be quoted. Literals are part of the format. -/
theorem Counted.printed (h : Counted f vs) :
    encloses 34 false (formatParts vs).1 = true ∧
      ShowsAll f (f.callsInAll vs) (formatParts vs).2 := by
  unfold JavaObjC.formatParts
  dsimp only
  induction vs with
  | nil => exact ⟨rfl, .nil f⟩
  | cons v rest ih =>
    obtain ⟨hformat, harguments⟩ := ih h.tail
    have hv := h v List.mem_cons_self
    cases hcontent : v.content with
    | none =>
      refine ⟨?_, ?_⟩
      · simp only [List.flatMap_cons, hcontent]
        exact Text.encloses_append hv.formatArgument.1 hformat
      · simp only [List.filterMap_cons, Value.isLiteral, hcontent, Option.isSome_none,
          Bool.false_eq_true, if_false]
        exact .cons hv.formatArgument.2 harguments
    | some content =>
      obtain ⟨hnone, hencloses⟩ := hv.content content hcontent
      refine ⟨?_, ?_⟩
      · simp only [List.flatMap_cons, hcontent]
        exact Text.encloses_append (encloses_doubled hencloses) hformat
      · have hsum : f.callsInAll (v :: rest) = f.callsInAll rest := by
          rw [MethodName.callsInAll, List.map_cons, List.sum_cons, hnone, Nat.zero_add]
          rfl
        simp only [List.filterMap_cons, Value.isLiteral, hcontent, Option.isSome_some, if_true]
        rwa [hsum]

/-- A formatted string shows the calls of its format and of its arguments. -/
theorem Shows.formatted {format : Text} (hformat : Shows f j format) (h : ShowsAll f k ts) :
    Shows f (j + k) (formattedString format ts) :=
  (((h.cons hformat).join (by simp [links])).keyed (by simp [openings])).followed
    (by simp [endings])

/-- A call of a function of the generator. -/
theorem ShowsAll.function (h : ShowsAll f k ts) {c : String} (hc : c ∈ wholes) :
    Shows f k (functionCall c ts) := by
  have hcall := ((Shows.whole f hc).between (h.join (c := ", ") (by simp [links]))
    (c := "(") (by simp [links])).followed (c := ")") (by simp [endings])
  rwa [Nat.zero_add] at hcall

/-- Literals one after the other can be quoted. -/
theorem Counted.contents (h : Counted f vs) :
    encloses 34 false (vs.flatMap fun v => v.content.getD []) = true := by
  induction vs with
  | nil => rfl
  | cons v rest ih =>
    rw [List.flatMap_cons]
    refine Text.encloses_append ?_ (ih h.tail)
    cases hcontent : v.content with
    | none => rfl
    | some content => exact ((h v List.mem_cons_self).content content hcontent).2

/-- Concatenated expressions as one string. -/
theorem Counted.concatenated (h : Counted f vs) :
    Unchained f (f.callsInAll vs) (concatenation vs) := by
  obtain ⟨hformat, harguments⟩ := h.printed
  have hformatted : Shows f (f.callsInAll vs)
      (formattedString (stringConstant (formatParts vs).1) (formatParts vs).2) := by
    simpa using Shows.formatted (.constant f hformat) harguments
  have hliteral : (formatParts vs).2 = [] → Unchained f (f.callsInAll vs)
      { text := stringConstant (vs.flatMap fun v => v.content.getD []), type := .string,
        content := some (vs.flatMap fun v => v.content.getD []) } := by
    intro hnone
    have hzero : f.callsInAll vs = 0 := by rw [← harguments.2, hnone]; rfl
    rw [hzero]
    exact ⟨⟨.constant f h.contents, by simpa using h.contents, by simp, by simp⟩, rfl⟩
  unfold JavaObjC.concatenation
  dsimp only
  split
  · next only =>
    split_ifs with hstring hempty
    · have honly := (h only List.mem_cons_self).text
      have hobject : encloses 34 false (Text.ofString "%@") = true := by decide
      have htext : Text.ofString "@\"%@\"" = stringConstant "%@" := by decide
      rw [htext]
      exact .typed (by simpa [MethodName.callsInAll] using
        Shows.formatted (.constant f hobject) (.cons honly (.nil f))) _
    · exact hliteral (List.isEmpty_iff.1 hempty)
    · exact .typed hformatted _
  · next hnone => exact hliteral hnone
  · exact .typed hformatted _

/-- Keywords with an argument each. -/
theorem ShowsAll.zip_keywords {keywords : List Text} (hkeywords : ShowsAll f j keywords)
    (h : ShowsAll f k ts) (hlength : keywords.length = ts.length) :
    ShowsAll f (j + k) ((keywords.zip ts).map fun (keyword, argument) =>
      keyword ++ ":" ++ argument) := by
  induction keywords generalizing ts j k with
  | nil =>
    obtain rfl := List.length_eq_zero_iff.1 hlength.symm
    exact ⟨by simp, by rw [← hkeywords.2, ← h.2]; rfl⟩
  | cons keyword more ih =>
    cases ts with
    | nil => cases hlength
    | cons t rest =>
      obtain ⟨hclosed, rfl⟩ := hkeywords
      obtain ⟨hclosed', rfl⟩ := h
      rw [List.forall_mem_cons] at hclosed hclosed'
      have hfirst : Shows f (occurrences f.text keyword + occurrences f.text t)
          (keyword ++ Text.ofString ":" ++ t) :=
        Shows.between ⟨hclosed.1, rfl⟩ ⟨hclosed'.1, rfl⟩ (by simp [links])
      have hrest := ih ⟨hclosed.2, rfl⟩ ⟨hclosed'.2, rfl⟩ (Nat.succ.inj hlength)
      have hboth := hrest.cons hfirst
      simp only [List.map_cons, List.sum_cons, List.zip_cons_cons]
      convert hboth using 1
      omega

/-- A message with as many keywords as it has arguments, and at least one. -/
theorem Shows.sent {receiver text : Text} {i : Nat} {keywords : List Text}
    (hreceiver : Shows f j receiver) (hkeywords : ShowsAll f i keywords) (h : ShowsAll f k ts)
    (hlength : keywords.length = max 1 ts.length)
    (hsend : send? receiver keywords ts = some text) : Shows f (j + (i + k)) text := by
  unfold send? at hsend
  split at hsend
  · obtain ⟨keyword, rfl⟩ := List.length_eq_one_iff.1 hlength
    obtain rfl := Option.some.inj hsend
    have hkeyword : Shows f (i + k) keyword :=
      ⟨hkeywords.1 keyword List.mem_cons_self, by rw [← hkeywords.2, ← h.2]; simp⟩
    exact hreceiver.message hkeyword
  · next hne =>
    have hlength' : keywords.length = ts.length := by
      have hpos := List.length_pos_of_ne_nil hne
      omega
    rw [if_neg (by omega), Option.some.injEq] at hsend
    subst hsend
    exact hreceiver.message ((hkeywords.zip_keywords h hlength').join (by simp [links]))

end Lists

section Shifts

variable {f : MethodName} {j k : Nat} {l r : Value}

/-- Two operands with an operator between them. -/
theorem Shows.joined {left right op : Text} (hleft : Shows f j left) (hop : Shows f 0 op)
    (hright : Shows f k right) : Shows f (j + k) (Lowering.infixText left op right) :=
  (hleft.between hop (by simp [links])).between hright (by simp [links])

/-- An unsigned shift shows the calls of both sides once. -/
theorem Calls.unsignedShift (hl : Calls f j l) (hr : Calls f k r) :
    Shows f (j + k) (unsignedShift l r) := by
  unfold JavaObjC.unsignedShift
  split_ifs
  · exact ((hl.unboxed.keyed (by simp [openings])).between hr.unboxed (by simp [links])).followed
      (by simp [endings])
  · exact ((hl.unboxed.keyed (by simp [openings])).between hr.unboxed (by simp [links])).followed
      (by simp [endings])

end Shifts

end JavaObjC
