import JavaObjC.Proofs.Formats.Concatenation

/-!
# Patterns of `printf` and `format`

The conversions of a literal pattern are replaced byte by byte, without reading
the pattern. The main statement says when the format that comes out still means
what the pattern says: exactly when no doubled percent sign stands in front of
a letter that would make a conversion with it. It also says which arguments fit
the conversions, since an argument is made for its own type and not for the
conversion that takes it.
-/

namespace JavaObjC

open C Lowering

/-- A conversion of a pattern. -/
inductive Conversion where
  /-- A text in its own letters, and one in capitals. -/
  | string | capitals
  | decimal
  | truth
  deriving DecidableEq

namespace Conversion

/-- The letter of a conversion. -/
def letter : Conversion → UInt8
  | string => Text.byte 's'
  | capitals => Text.byte 'S'
  | decimal => Text.byte 'd'
  | truth => Text.byte 'b'

/-- The directive that stands for a conversion. -/
def directive : Conversion → Directive
  | string | capitals => .object
  | decimal | truth => .int

/-- The directives that values are printed by which a conversion takes. -/
def accepted : Conversion → List Directive
  | string | capitals => [.object]
  | decimal | truth => [.int, .unichar]

end Conversion

/-- A part of a pattern. -/
inductive PatternPart where
  | plain (b : UInt8) (h : b ≠ Text.byte '%')
  | percent
  | lineBreak
  | conversion (c : Conversion)

namespace PatternPart

/-- How a part is written. -/
def spelling : PatternPart → Text
  | plain b _ => [b]
  | percent => "%%"
  | lineBreak => "%n"
  | conversion c => [Text.byte '%', c.letter]

/-- What a part means: a line break is written as an escape. -/
def pieces : PatternPart → List Piece
  | plain b _ => [.byte b]
  | percent => [.byte (Text.byte '%')]
  | lineBreak => Piece.plain "\\n"
  | conversion c => [.directive c.directive]

/-- The conversion that a part is. -/
def conversion? : PatternPart → Option Conversion
  | conversion c => some c
  | _ => none

/-- Whether a byte makes something else of a percent sign in front of it. -/
def isReplaced (b : UInt8) : Bool :=
  [Text.byte 's', Text.byte 'S', Text.byte 'n', Text.byte 'b'].contains b

/-- Whether a doubled percent sign stands in front of a letter that is replaced with it. -/
def clashes : List PatternPart → Bool
  | percent :: plain b h :: rest => isReplaced b || clashes (plain b h :: rest)
  | _ :: rest => clashes rest
  | [] => false

end PatternPart

open PatternPart

/-- A pattern as it is written. -/
def patternText (parts : List PatternPart) : Text := parts.flatMap spelling

section Replacing

variable {b : UInt8} {t : Text} {parts : List PatternPart}

/-- A byte other than a percent sign is kept. -/
theorem convertFormat_cons (hb : b ≠ Text.byte '%') (t : Text) :
    convertFormat (b :: t) = b :: convertFormat t := by
  cases t with
  | nil => rfl
  | cons c t => rw [convertFormat, if_neg hb]

theorem convertFormat_lineBreak (t : Text) :
    convertFormat (lineBreak.spelling ++ t) = Text.ofString "\\n" ++ convertFormat t := rfl

/-- A conversion becomes its directive. -/
theorem convertFormat_conversion (c : Conversion) (t : Text) :
    convertFormat ((conversion c).spelling ++ t) = c.directive.spelling ++ convertFormat t := by
  cases c with
  | decimal =>
    change Text.byte '%' :: convertFormat (Text.byte 'd' :: t) = _
    rw [convertFormat_cons (by decide)]
    rfl
  | string | capitals | truth => rfl

/-- A doubled percent sign is kept in front of everything that is not replaced with it. -/
theorem convertFormat_percent (h : ∀ b ∈ t.head?, isReplaced b = false) :
    convertFormat (percent.spelling ++ t) = percent.spelling ++ convertFormat t := by
  change Text.byte '%' :: convertFormat (Text.byte '%' :: t) = _
  cases t with
  | nil => rfl
  | cons b t =>
    have hb : isReplaced b = false := h b rfl
    simp only [isReplaced, List.contains_cons, List.contains_nil, Bool.or_eq_false_iff,
      beq_eq_false_iff_ne, Bool.or_false] at hb
    obtain ⟨hs, hcapital, hn, hb⟩ := hb
    rw [convertFormat, if_pos rfl, if_neg (by tauto), if_neg hn, if_neg hb]
    rfl

/-- What comes of a doubled percent sign in front of a letter that is replaced with it. -/
theorem decode_clash (hb : isReplaced b = true) (t : Text) (rest : List Piece) :
    Format.decode (convertFormat (percent.spelling ++ b :: t)) ≠
      some (.byte (Text.byte '%') :: .byte b :: rest) := by
  have hcases : b = Text.byte 's' ∨ b = Text.byte 'S' ∨ b = Text.byte 'n' ∨ b = Text.byte 'b' := by
    simpa [isReplaced] using hb
  have hother : ∀ (c : UInt8) (t : Text), c ≠ Text.byte '%' → c ≠ b →
      Format.decode (Text.ofString "%%" ++ c :: t) ≠
        some (.byte (Text.byte '%') :: .byte b :: rest) := fun c t hpercent hne h => by
    rw [Format.decode_percent, Format.decode_byte hpercent, Option.map_map] at h
    obtain ⟨ps, -, hps⟩ := Option.map_eq_some_iff.1 h
    have hpieces := (List.cons.inj (List.cons.inj hps).2).1
    exact hne (Piece.byte.inj hpieces)
  rcases hcases with rfl | rfl | rfl | rfl
  · exact hother (Text.byte '@') (convertFormat t) (by decide) (by decide)
  · exact hother (Text.byte '@') (convertFormat t) (by decide) (by decide)
  · change Format.decode (Text.ofString "%\\n" ++ convertFormat t) ≠ _
    exact fun h => by cases h
  · exact hother (Text.byte 'd') (convertFormat t) (by decide) (by decide)

/-- What a format prints is the pieces of its first part and then the others, if the first part
is read apart. -/
theorem decode_part_iff {s t : Text} {p rest : List Piece}
    (h : Format.decode (s ++ t) = (Format.decode t).map (p ++ ·)) :
    Format.decode (s ++ t) = some (p ++ rest) ↔ Format.decode t = some rest := by
  rw [h, Option.map_eq_some_iff]
  constructor
  · rintro ⟨read, ht, hread⟩
    exact ht.trans (congrArg some (List.append_cancel_left hread))
  · exact fun ht => ⟨rest, ht, rfl⟩

/-- A pattern that begins with a letter that is replaced has it as its first part. -/
theorem exists_plain_of_isReplaced (hmem : b ∈ (patternText parts).head?)
    (hb : isReplaced b = true) : ∃ h rest, parts = plain b h :: rest := by
  cases parts with
  | nil => cases hmem
  | cons p rest =>
    cases p with
    | plain c h =>
      obtain rfl : c = b := Option.some.inj hmem
      exact ⟨h, rest, rfl⟩
    | percent | lineBreak | conversion _ =>
      obtain rfl : Text.byte '%' = b := Option.some.inj hmem
      exact absurd hb (by decide)

/-- A doubled percent sign in front of anything else makes no clash. -/
theorem clashes_percent (h : ∀ b ∈ (patternText parts).head?, isReplaced b = false) :
    clashes (percent :: parts) = clashes parts := by
  cases parts with
  | nil => rfl
  | cons p rest =>
    cases p with
    | plain b hb => rw [clashes, h b rfl, Bool.false_or]
    | percent | lineBreak | conversion _ => rfl

/-- A pattern keeps its meaning exactly when no doubled percent sign stands in front of a letter
that is replaced with it. -/
theorem decode_convertFormat_iff (parts : List PatternPart) :
    Format.decode (convertFormat (patternText parts)) = some (parts.flatMap pieces) ↔
      clashes parts = false := by
  induction parts with
  | nil => exact ⟨fun _ => rfl, fun _ => rfl⟩
  | cons p parts ih =>
    rw [patternText, List.flatMap_cons, List.flatMap_cons]
    change Format.decode (convertFormat (p.spelling ++ patternText parts)) = _ ↔ _
    cases p with
    | plain b hb =>
      refine Iff.trans ?_ ih
      change Format.decode (convertFormat (b :: patternText parts)) = _ ↔ _
      rw [convertFormat_cons hb]
      exact decode_part_iff (s := [b]) (p := [.byte b]) (Format.decode_byte hb _)
    | lineBreak =>
      refine Iff.trans ?_ ih
      rw [convertFormat_lineBreak]
      -- an escape has no percent sign that would be doubled
      exact decode_part_iff (Format.decode_replaceByte "\\n" _)
    | conversion c =>
      refine Iff.trans ?_ ih
      rw [convertFormat_conversion]
      exact decode_part_iff (Format.decode_directive _ _)
    | percent =>
      by_cases hhead : ∀ b ∈ (patternText parts).head?, isReplaced b = false
      · rw [clashes_percent hhead, convertFormat_percent hhead]
        exact (decode_part_iff (Format.decode_percent _)).trans ih
      · push Not at hhead
        obtain ⟨b, hmem, hreplaced⟩ := hhead
        obtain ⟨h, rest, rfl⟩ := exists_plain_of_isReplaced hmem (by simpa using hreplaced)
        have hreplaced : isReplaced b = true := by simpa using hreplaced
        refine iff_of_false (decode_clash hreplaced _ _) ?_
        rw [clashes, hreplaced, Bool.true_or]
        simp

end Replacing

section Arguments

variable {given : Expr → Option Kind} {values : List Value}

/-- The conversions of a pattern, in order. -/
def conversions (parts : List PatternPart) : List Conversion := parts.filterMap conversion?

/-- The directives of a format are those of the conversions. -/
theorem directives_of_pattern (parts : List PatternPart) :
    (parts.flatMap pieces).filterMap Piece.directive? =
      (conversions parts).map Conversion.directive := by
  induction parts with
  | nil => rfl
  | cons p parts ih =>
    rw [List.flatMap_cons, List.filterMap_append, ih]
    cases p <;> rfl

/-- A directive takes what another one takes when the conversion accepts it. -/
theorem takes_eq_iff_mem_accepted (c : Conversion) (d : Directive) :
    d.takes = c.directive.takes ↔ d ∈ c.accepted := by
  cases c <;> cases d <;> decide

/-- The arguments for values fit the conversions exactly when each conversion accepts the
directive of its value. -/
theorem arguments_fit_iff {cs : List Conversion} (h : ∀ v ∈ values, ∃ e, v.Stands given e) :
    (values.map fun v => argumentKind? given (formatArgument v).2) =
        cs.map (fun c => some c.directive.takes) ↔
      List.Forall₂ (fun c v => Directive.printing v.type ∈ c.accepted) cs values := by
  induction values generalizing cs with
  | nil => cases cs <;> simp
  | cons v values ih =>
    obtain ⟨e, hv⟩ := h v List.mem_cons_self
    cases cs with
    | nil => simp
    | cons c cs =>
      rw [List.map_cons, List.map_cons, List.cons.injEq, hv.fits.2, Option.some.injEq,
        takes_eq_iff_mem_accepted, ih fun w hw => h w (List.mem_cons_of_mem v hw),
        List.forall₂_cons]

end Arguments

section Calls

/-- What comes of a literal pattern and values for its conversions, in output and in a string: a
format and an argument for each value. The format prints what the pattern means exactly when no
doubled percent sign stands in front of a letter that is replaced with it. Each argument is
passed as its directive takes it exactly when the conversions accept the values: those to text
accept what is printed as an object, and the others `int`, what is shorter, and characters. -/
theorem patterns_kept_iff (given : Expr → Option Kind) (parts : List PatternPart) (pattern : Value)
    (values : List Value) (hpattern : pattern.content = some (patternText parts))
    (hvalues : ∀ v ∈ values, ∃ e, v.Stands given e) :
    ∃ format arguments,
      (∀ (around : Surroundings) (s : BodyState) (n : Node) (list : Parts) (name : String),
        name ∈ ["printf", "format"] → (streamCall n name list (pattern :: values)).run' around s =
          (.ok (logCall (stringConstant format) arguments), s)) ∧
      LibraryCall.onStringClass? "format" (pattern :: values) =
        some (.typed (formattedString (stringConstant format) arguments) .string) ∧
      (Format.decode format = some (parts.flatMap pieces) ↔ clashes parts = false) ∧
      (arguments.map (argumentKind? given) =
          ((parts.flatMap pieces).filterMap Piece.directive?).map (fun d => some d.takes) ↔
        List.Forall₂ (fun c v => Directive.printing v.type ∈ c.accepted) (conversions parts)
          values) := by
  have hformat : formatPattern pattern = stringConstant (convertFormat (patternText parts)) := by
    rw [formatPattern, hpattern]
  refine ⟨convertFormat (patternText parts), values.map fun v => (formatArgument v).2, ?_, ?_,
    decode_convertFormat_iff parts, ?_⟩
  · intro around s n list name hname
    have hword : ∀ name ∈ ["printf", "format"], LibraryCall.word (Text.ofString name) = name := by
      decide +kernel
    unfold streamCall
    rw [hword name hname, ← hformat]
    simp only [List.mem_cons, List.not_mem_nil, or_false] at hname
    rcases hname with rfl | rfl <;> rfl
  · rw [← hformat]
    rfl
  · rw [directives_of_pattern, List.map_map, List.map_map]
    exact arguments_fit_iff hvalues

/-- A pattern with a share and a name: `%d%% of %s%n`. -/
def sharePattern : List PatternPart :=
  [.conversion .decimal, .percent, .plain 32 (by decide), .plain 111 (by decide),
    .plain 102 (by decide), .plain 32 (by decide), .conversion .string, .lineBreak]

/-- The pattern as a string literal. -/
def shareLiteral : Value where
  text := "@\"%d%% of %s%n\""
  type := .string
  content := some (patternText sharePattern)

/-- A number and a string for the pattern. -/
def shareValues : List Value := [.typed "x" .int, .typed "f" .string]

/-- The pattern keeps its meaning, and the number and the string fit its conversions. -/
theorem patterns_kept_iff_share :
    patternText sharePattern = "%d%% of %s%n" ∧
      (∀ v ∈ shareValues, ∃ e, v.Stands shareKind e) ∧
      clashes sharePattern = false ∧
      ∃ format arguments,
        LibraryCall.onStringClass? "format" (shareLiteral :: shareValues) =
          some (.typed (formattedString (stringConstant format) arguments) .string) ∧
        Format.decode format = some (sharePattern.flatMap pieces) ∧
        arguments.map (argumentKind? shareKind) = [some .int, some .object] := by
  have hvalues : ∀ v ∈ shareValues, ∃ e, v.Stands shareKind e := by
    intro v hv
    simp only [shareValues, List.mem_cons, List.not_mem_nil, or_false] at hv
    rcases hv with rfl | rfl
    · exact ⟨_, Value.stands_name (by decide +kernel) (by decide +kernel) (by decide +kernel)⟩
    · exact ⟨_, Value.stands_name (by decide +kernel) (by decide +kernel) (by decide +kernel)⟩
  obtain ⟨format, arguments, -, hstring, hformat, harguments⟩ :=
    patterns_kept_iff shareKind sharePattern shareLiteral shareValues rfl hvalues
  have hfits : List.Forall₂
      (fun (c : Conversion) (v : Value) => Directive.printing v.type ∈ c.accepted)
      (conversions sharePattern) shareValues := by decide +kernel
  exact ⟨by decide +kernel, hvalues, rfl, format, arguments, hstring, hformat.2 rfl,
    harguments.2 hfits⟩

end Calls

end JavaObjC
