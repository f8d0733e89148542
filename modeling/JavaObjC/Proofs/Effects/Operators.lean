import JavaObjC.Proofs.Effects.Messages

/-!
# Operators and assignments keep the calls of their operands

Operators, elements of arrays, increments and assignments write their operands
once each, with three exceptions: an element of an array that gets a new value
from its old one, a boxed variable that does, and a string that something is
appended to are written twice. There the texts have the calls of the operands
if what is written twice has none.
-/

namespace JavaObjC

open Fragments Generating Lower

variable {f : MethodName} {i j k : Nat} {l r v array index : Value} {op s t : Text}
  {element : JavaType}

theorem Calls.infixText (hs : Shows f j s) (ht : Shows f k t) (hop : isOperator op = true) :
    Shows f (j + k) (Lowering.infixText s op t) := hs.joined (.operator f hop) ht

/-- An operator other than `+`. -/
theorem Unchained.applyOperator (hl : Calls f j l) (hr : Calls f k r)
    (hop : isOperator op = true) : Unchained f (j + k) (Lowering.applyOperator op l r) := by
  have htext := Calls.infixText hl.unboxed hr.unboxed hop
  unfold Lowering.applyOperator
  dsimp only
  split
  · exact .typed (hl.unsignedShift hr) _
  · split
    · exact .typed htext _
    · exact .typed (Calls.infixText hl.text hr.text hop) _
  · split
    · exact .typed htext _
    · exact .typed (Calls.infixText hl.text hr.text hop) _
  all_goals exact .typed htext _

section Elements

/-- An element of an array, as it is stored. -/
theorem Shows.slot (harray : Calls f j array) (hindex : Calls f k index) :
    Shows f (j + k) (Lowering.slot array index) :=
  (harray.text.between hindex.unboxed (by simp [links])).followed (by simp [endings])

theorem Shows.readSlot (h : Shows f k s) (element : JavaType) :
    Shows f k (Lowering.readSlot s element) := h.message (.unboxSelector f element.name)

/-- Something new for a variable. -/
theorem Shows.assigned (hs : Shows f j s) (ht : Shows f k t) : Shows f (j + k) (s ++ " = " ++ t) :=
  hs.between ht (by simp [links])

/-- A new number for a boxed variable. -/
theorem Shows.assignedNumber (hs : Shows f j s) (ht : Shows f k t) :
    Shows f (j + k) (s ++ " = @(" ++ t ++ ")") :=
  (hs.between ht (by simp [links])).followed (by simp [endings])

end Elements

section Steps

/-- One more or one less. -/
theorem Shows.delta (f : MethodName) {sign : UInt8} (h : isOperator [sign] = true) :
    Shows f 0 ([sign] ++ " 1") := by
  have hmark : Text.ofString " 1" = [32] ++ [49] := by decide
  rw [hmark, ← List.append_assoc]
  have hboth : isOperator ([sign] ++ [32]) = true := by
    simp only [isOperator, List.all_cons, List.all_nil, Bool.and_true, List.singleton_append] at h ⊢
    rw [Bool.and_eq_true_iff] at h ⊢
    exact ⟨rfl, Bool.and_eq_true_iff.2 ⟨h.2, by decide⟩⟩
  exact (Shows.numeral f (by decide)).signed hboth

/-- A new number from an old one. -/
theorem Shows.stepped (f : MethodName) {sign : UInt8} (h : isOperator [sign] = true)
    (hs : Shows f 0 s) (ht : Shows f 0 t) :
    Shows f 0 (s ++ " = @(" ++ t ++ " " ++ ([sign] ++ " 1") ++ ")") := by
  have hnew := ht.between (.delta f h) (c := " ") (by simp [links])
  simpa [List.append_assoc] using Shows.assignedNumber hs hnew

end Steps

/-- The operands of a sum: there is at least one, and exactly one if they make no string. -/
structure Summed (f : MethodName) (k : Nat) (p : List Value × Bool) : Prop where
  counted : Counted f p.1
  calls : f.callsInAll p.1 = k
  nonempty : p.1 ≠ []
  single : p.2 = false → p.1.length = 1

section Sums

variable {a b c o : Attributed}

theorem MethodName.callsInAll_append (f : MethodName) (vs us : List Value) :
    f.callsInAll (vs ++ us) = f.callsInAll vs + f.callsInAll us := by
  rw [MethodName.callsInAll, List.map_append, List.sum_append]
  rfl

/-- A sum: a single operand is one that two were added up to. -/
theorem sumOperands_returns (ha : Returns f a.meaning.operands (Summed f j))
    (hb : Returns f b.value (Calls f k)) : Returns f (Lowering.sumOperands [a, o, b]) fun p =>
      Summed f (j + k) p ∧ ∀ only, p.1 = [only] → Unchained f (j + k) only := by
  refine ha.bind fun ⟨left, isString⟩ hleft => hb.bind fun right hright => .ite (fun _ => ?_)
    fun hno => ?_
  · refine .pure ⟨⟨?_, ?_, by simp, by simp⟩, fun only honly => ?_⟩
    · exact List.forall_mem_append.2 ⟨hleft.counted, by simpa using hright.counted⟩
    · rw [MethodName.callsInAll_append, hleft.calls]
      simp [hright.callsIn_eq]
    · have hlength := congrArg List.length honly
      have hpos : 0 < left.length := List.length_pos_of_ne_nil hleft.nonempty
      simp only [List.length_append, List.length_singleton] at hlength
      omega
  · simp only [Bool.or_eq_true, not_or, Bool.not_eq_true] at hno
    have hsingle : left.length = 1 := hleft.single hno.1
    obtain ⟨first, rfl⟩ := List.length_eq_one_iff.1 hsingle
    have hcalls : f.callsIn first = j := by simpa using hleft.calls
    have hfirst : Calls f j first := hcalls ▸ hleft.counted first (by simp)
    have hsum : Unchained f (j + k) (.typed (first.unboxed ++ " + " ++ right.unboxed)
        (promote first.type right.type)) :=
      .typed (hfirst.unboxed.between hright.unboxed (by simp [links])) _
    refine .pure ⟨⟨by simpa using hsum.toCalls.counted, ?_, by simp, by simp⟩, ?_⟩
    · rw [MethodName.callsInAll_cons, hsum.callsIn_eq, MethodName.callsInAll_nil, Nat.add_zero]
    · rintro only honly
      exact List.singleton_inj.1 honly ▸ hsum

/-- A sum as one value. -/
theorem sum_returns (ha : Returns f a.meaning.operands (Summed f j))
    (hb : Returns f b.value (Calls f k)) :
    Returns f (Lowering.sum [a, o, b]) (Unchained f (j + k)) := by
  refine (sumOperands_returns ha hb).bind fun ⟨operands, isString⟩ ⟨hsum, honly⟩ => ?_
  have hconcatenated : Unchained f (j + k) (concatenation operands) := by
    have h := hsum.counted.concatenated
    rwa [hsum.calls] at h
  split
  · next only _ heq => exact .pure (honly only (Prod.mk.inj heq).1)
  · next heq => exact .pure (by rwa [← (Prod.mk.inj heq).1])

/-- An operator between two operands. -/
theorem binary_returns (ha : Returns f a.value (Calls f j))
    (ha' : Returns f a.meaning.operands (Summed f j)) (hb : Returns f b.value (Calls f k))
    (ho : isOperator o.literal = true) :
    Returns f (Lowering.binary [a, o, b]) (Unchained f (j + k)) := by
  refine .ite (fun _ => sum_returns ha' hb) fun _ => ?_
  exact ha.bind fun l hl => hb.bind fun r hr => .pure (.applyOperator hl hr ho)

end Sums

section Choices

variable {a b c : Attributed}

/-- An element of an array. -/
theorem arrayAccess_returns (ha : Returns f a.value (Calls f j))
    (hb : Returns f b.value (Calls f k)) :
    Returns f (Lowering.arrayAccess [a, b]) (Unchained f (j + k)) := by
  refine ha.bind fun array harray => hb.bind fun index hindex => .pure (.typed ?_ _)
  split
  · exact (Shows.slot harray hindex).readSlot _
  · exact .slot harray hindex

/-- A choice between two values. -/
theorem ternary_returns (ha : Returns f a.value (Calls f i)) (hb : Returns f b.value (Calls f j))
    (hc : Returns f c.value (Calls f k)) :
    Returns f (Lowering.ternary [a, b, c]) (Unchained f (i + (j + k))) := by
  refine ha.bind fun condition hcondition => hb.bind fun yes hyes => hc.bind fun no hno =>
    .pure (.typed ?_ _)
  rw [← Nat.add_assoc]
  exact (hcondition.unboxed.between hyes.text (by simp [links])).between hno.text
    (by simp [links])

/-- An expression in parentheses. -/
theorem parenthesized_returns (ha : Returns f a.value (Calls f k)) :
    Returns f (Lowering.parenthesized [a]) (Unchained f k) :=
  ha.bind fun v hv => .pure ⟨⟨hv.text.grouped, by simp, hv.className, by simp⟩, rfl⟩

end Choices

section Assignments

variable {target left right a b : Attributed}

/-- An increment or decrement of something without calls. -/
theorem step_returns (ho : isOperator op = true) (hvalue : Returns f target.value (Calls f 0))
    (hparts : target.kind = .arrayAccess → ∃ a b, target.parts = [a, b] ∧
      Returns f a.value (Calls f 0) ∧ Returns f b.value (Calls f 0)) (isBefore : Bool) :
    Returns f (Lowering.step target op isBefore) (Unchained f 0) := by
  refine (Answers.require (P := fun sign => isOperator [sign] = true) fun sign hsign => ?_).bind
    fun sign hsign => .ite (fun hkind => ?_) fun _ => ?_
  · have hbyte := forall_of_isOperator ho sign (List.mem_of_head? hsign)
    simpa [isOperator, and_assoc] using hbyte
  · obtain ⟨a, b, heq, ha, hb⟩ := hparts hkind
    rw [heq]
    refine ha.bind fun array harray => hb.bind fun index hindex => .ite (fun _ => .refuse _ _)
      fun _ => .pure (.typed ?_ _)
    exact .stepped f hsign (.slot harray hindex) ((Shows.slot harray hindex).readSlot _)
  · refine hvalue.bind fun operand hoperand => .ite (fun _ => .pure (.typed ?_ _)) fun _ =>
      .pure (.typed ?_ _)
    · exact .stepped f hsign hoperand.text hoperand.unboxed
    · split
      · exact hoperand.text.signed ho
      · exact hoperand.text.marked ho

/-- What a compound operator does to the old number. -/
theorem Shows.dropTail (f : MethodName) (ho : isOperator op = true) (tail : Text) :
    Shows f 0 (Text.dropTail op tail) := by
  refine .marks f fun b hb => forall_of_isOperator ho b ?_
  unfold Text.dropTail at hb
  split at hb
  · exact List.mem_of_mem_take hb
  · exact hb

/-- An assignment to an element of an array, which is written again unless the element gets
a value that does not depend on its old one. -/
theorem assignElement_returns (hparts : left.parts = [a, b]) (ho : isOperator op = true)
    (ha : Returns f a.value (Calls f i)) (hb : Returns f b.value (Calls f j))
    (hright : Returns f right.value (Calls f k))
    (hrepeats : op ≠ Text.ofString "=" → i = 0 ∧ j = 0) :
    Returns f (Lowering.assignElement left op right) (Unchained f (i + j + k)) := by
  unfold Lowering.assignElement
  rw [hparts]
  refine ha.bind fun array harray => hb.bind fun index hindex => hright.bind fun v hv => ?_
  have hslot := Shows.slot harray hindex
  refine .ite (fun _ => .pure (.typed (hslot.assigned (hv.coerce _)) _)) fun hop =>
    .ite (fun _ => .refuse _ _) fun _ => .pure (.typed ?_ _)
  obtain ⟨rfl, rfl⟩ := hrepeats hop
  rw [Nat.zero_add] at hslot ⊢
  have hcurrent := hslot.readSlot array.type.element
  rw [← Nat.zero_add k]
  refine hslot.assignedNumber ?_
  split
  · simpa using (Unchained.typed hcurrent array.type.element).toCalls.unsignedShift hv
  · simpa using hcurrent.joined (.dropTail f ho _) hv.unboxed

/-- An assignment to a variable, which is written again if something is appended to a string
or the variable is shifted without its sign. -/
theorem assignVariable_returns (ho : isOperator op = true)
    (hleft : Returns f left.value (Calls f j)) (hright : Returns f right.value (Calls f k))
    (hoperands : Returns f right.meaning.operands (Summed f k))
    (hrepeats : op = Text.ofString "+=" ∨ op = Text.ofString ">>>=" → j = 0) :
    Returns f (Lowering.assignVariable left op right) (Unchained f (j + k)) := by
  unfold Lowering.assignVariable
  refine hleft.bind fun target htarget => .ite (fun hop => ?_) fun _ => ?_
  · obtain rfl := hrepeats (.inl hop.1)
    refine hoperands.bind fun ⟨operands, _⟩ hsum => .pure (.typed ?_ _)
    have hall : Counted f (target :: operands) := counted_cons.2 ⟨htarget.counted, hsum.counted⟩
    have hcalls : f.callsInAll (target :: operands) = k := by
      rw [MethodName.callsInAll_cons, htarget.callsIn_eq, hsum.calls, Nat.zero_add]
    exact htarget.text.assigned (hcalls ▸ hall.concatenated.text)
  · refine hright.bind fun v hv => .ite (fun _ => .pure (.typed ?_ _)) fun _ =>
      .ite (fun hop => .pure (.typed ?_ _)) fun _ => .pure (.typed ?_ _)
    · exact htarget.text.assigned (hv.coerce _)
    · obtain rfl := hrepeats (.inr hop)
      simpa using htarget.text.assigned (htarget.unsignedShift hv)
    · exact Calls.infixText htarget.text hv.unboxed ho

end Assignments

section Types

variable {a b : Attributed}

/-- A cast. -/
theorem cast_returns (htype : a.type.isArray = false → Shows f 0 a.type.simple)
    (hb : Returns f b.value (Calls f k)) : Returns f (Lowering.cast [a, b]) (Unchained f k) := by
  refine hb.bind fun v hv => .ite (fun _ => .pure (.typed (hv.read _) _)) fun _ =>
    .ite (fun _ => .pure (.typed hv.box _)) fun _ => ?_
  refine (mapType_returns htype).bind fun ref href => .pure (.typed ?_ _)
  have hcast := (Shows.render href).grouped.append hv.text (.inr (.inr (.inl ?_)))
  · rwa [Nat.zero_add] at hcast
  · rw [List.getLast?_append]
    rfl

/-- A test of the class of a value. -/
theorem instanceTest_returns (ha : Returns f a.value (Calls f k))
    (htype : b.type.isArray = false → Shows f 0 b.type.simple) :
    Returns f (Lowering.instanceTest [a, b]) (Unchained f k) := by
  refine ha.bind fun v hv => (mapType_returns htype).bind fun ref href => ?_
  cases ref with
  | scalar _ => exact .refuse _ _
  | object c =>
    have hname : Shows f 0 c.name := href
    refine .ite (fun _ => .refuse _ _) fun _ => .ite (fun _ => .pure (.typed ?_ _)) fun _ =>
      .pure (.typed ?_ _)
    · exact hv.text.message ((hname.keyed (by simp [openings])).followed (by simp [endings]))
    · exact hv.text.message
        ((hname.message (.whole f (c := "class") (by simp [wholes]))).keyed (by simp [openings]))

/-- A class as a value. -/
theorem classLiteral_returns {n : Node} (htype : Returns f (Lowering.classLiteralType a) fun t =>
      t.isArray = false → Shows f 0 t.simple) :
    Returns f (Lowering.classLiteral n [a]) (Unchained f 0) := by
  refine htype.bind fun t ht => (mapType_returns ht).bind fun ref href => ?_
  cases ref with
  | scalar _ => exact .refuse _ _
  | object c =>
    have hname : Shows f 0 c.name := href
    refine .ite (fun _ => .pure (.typed ?_ _)) fun _ => .pure (.typed ?_ _)
    · exact (hname.keyed (by simp [openings])).followed (by simp [endings])
    · exact hname.message (.whole f (c := "class") (by simp [wholes]))

end Types

section Arrays

variable {parts : Parts}

/-- The elements of an array in braces. -/
theorem arrayLiteral_returns (t : JavaType) (hempty : parts = [] → k = 0)
    (h : ∀ type, Returns f (parts.mapM (Lowering.arrayElement type)) (ShowsAll f k)) :
    Returns f (Lowering.arrayLiteral parts t) (Unchained f k) := by
  unfold Lowering.arrayLiteral
  refine .after fun _ => .ite (fun hnone => ?_) fun _ => (h _).bind fun texts htexts =>
    .pure (.typed ?_ _)
  · obtain rfl := hempty (List.isEmpty_iff.1 hnone)
    exact .pure (.typed (.whole f (by simp [wholes])) _)
  · exact ((htexts.join (by simp [links])).keyed (by simp [openings])).followed
      (by simp [endings])

end Arrays

end JavaObjC
