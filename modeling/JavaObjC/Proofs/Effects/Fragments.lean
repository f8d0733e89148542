import JavaObjC.Proofs.Reading.Likeness
import Mathlib.Data.List.Basic
import JavaObjC.Lowering.Operators
import Mathlib.Algebra.GroupWithZero.Nat

/-!
# Words and calls in generated code

How often a word stands in a text of generated code. Words are as long as they
can be; a point belongs to the word it stands in, so that the parts of a number
are no words. What is between quotes holds none. Texts whose quotations are
closed can be put together, and the occurrences add up, as long as no word
reaches from one text into the next.

The name of a method that is used for nothing else is such a word. The generator
has fragments of its own, in none of which the name stands; a fragment that goes
in front of a part ends outside of words, one that follows a part begins outside
of words, and one between two parts does both. So a text that is put together
from fragments and parts has the calls of its parts.
-/

namespace JavaObjC

namespace Text

open Lexeme (isLetterOrDigit)

/-- The bytes of a string constant, as it stores them. -/
theorem ofString_eq_bytes (s : String) : ofString s = s.toByteArray.data.toList := by
  rw [← String.utf8Encode_toList, List.utf8Encode, List.data_toByteArray]
  rfl

/-- Where a byte stands: in code, in a quotation, or after a backslash in one. -/
inductive Place where
  | code
  | quoted (quote : UInt8)
  | escaped (quote : UInt8)
  deriving DecidableEq

namespace Place

/-- Where the byte after a byte stands. -/
def next : Place → UInt8 → Place
  | code, b => if b = 34 ∨ b = 39 then quoted b else code
  | quoted q, b => if b = q then code else if b = 92 then escaped q else quoted q
  | escaped q, _ => quoted q

/-- Where the byte after a text stands. -/
def after (p : Place) (t : Text) : Place := t.foldl next p

/-- The place behind two texts is reached text by text. -/
theorem after_append (p : Place) (s t : Text) : p.after (s ++ t) = (p.after s).after t :=
  List.foldl_append

end Place

/-- A text with blanks in place of its quotations. -/
def bare : Place → Text → Text
  | _, [] => []
  | p, b :: t => (if p = .code ∧ p.next b = .code then b else 32) :: bare (p.next b) t

/-- Whether a byte is part of no word. -/
def separates (b : UInt8) : Bool := !(isLetterOrDigit b || b == 46)

/-- The words of the code in a text; between separators that touch stands an empty one. -/
def codeWords (t : Text) : List Text := (bare .code t).splitOnP separates

/-- How often a word stands in the code of a text. -/
def occurrences (word t : Text) : Nat := (codeWords t).count word

/-- The quotations of a text are closed. -/
def EndsInCode (t : Text) : Prop := Place.code.after t = .code

instance (t : Text) : Decidable (EndsInCode t) := inferInstanceAs (Decidable (_ = _))

/-- No word reaches from one text into the next. -/
def Parted (s t : Text) : Prop :=
  s = [] ∨ t = [] ∨ s.getLast?.any separates = true ∨ t.head?.any separates = true

section Words

variable {s t word : Text}

/-- The code of two texts in a row, when the second begins where the first ends. -/
theorem bare_append (p : Place) (s t : Text) :
    bare p (s ++ t) = bare p s ++ bare (p.after s) t := by
  induction s generalizing p with
  | nil => rfl
  | cons b s ih =>
    rw [List.cons_append, bare, ih, bare, List.cons_append]
    rfl

/-- Words that are not empty are counted on both sides of a border. -/
theorem count_splitOnP_append (hword : word ≠ []) (h : Parted s t) :
    ((s ++ t).splitOnP separates).count word =
      (s.splitOnP separates).count word + (t.splitOnP separates).count word := by
  have hempty : (List.splitOnP separates ([] : Text)).count word = 0 := by
    simp [Ne.symm hword]
  rcases h with rfl | rfl | hs | ht
  · rw [List.nil_append, hempty, Nat.zero_add]
  · rw [List.append_nil, hempty, Nat.add_zero]
  · obtain ⟨b, hlast, hb⟩ := (Option.any_eq_true _ _).1 hs
    obtain ⟨front, rfl⟩ := List.getLast?_eq_some_iff.1 hlast
    rw [List.append_assoc, List.singleton_append, List.splitOnP_append_cons _ _ hb,
      List.splitOnP_append_cons _ _ hb, List.count_append, List.count_append, hempty, Nat.add_zero]
  · obtain ⟨b, hhead, hb⟩ := (Option.any_eq_true _ _).1 ht
    obtain ⟨rest, rfl⟩ := List.head?_eq_some_iff.1 hhead
    rw [List.splitOnP_append_cons _ _ hb, List.splitOnP_cons_eq_if_modifyHead, if_pos hb,
      List.count_append, List.count_cons_of_ne (Ne.symm hword)]

/-- A byte outside of words stays one when quotations are left out. -/
theorem separates_bare {b : UInt8} (p : Place) (hb : separates b = true) :
    separates (if p = .code ∧ p.next b = .code then b else 32) = true := by
  split
  · exact hb
  · rfl

/-- Texts that are parted stay so without their strings. -/
theorem Parted.bare (h : Parted s t) (hs : EndsInCode s) :
    Parted (Text.bare .code s) (Text.bare .code t) := by
  rcases h with rfl | rfl | hs' | ht
  · exact .inl rfl
  · exact .inr (.inl rfl)
  · obtain ⟨b, hlast, hb⟩ := (Option.any_eq_true _ _).1 hs'
    obtain ⟨front, rfl⟩ := List.getLast?_eq_some_iff.1 hlast
    refine .inr (.inr (.inl ?_))
    rw [bare_append, Text.bare, Text.bare, List.getLast?_concat]
    exact separates_bare _ hb
  · obtain ⟨b, hhead, hb⟩ := (Option.any_eq_true _ _).1 ht
    obtain ⟨rest, rfl⟩ := List.head?_eq_some_iff.1 hhead
    refine .inr (.inr (.inr ?_))
    rw [Text.bare, List.head?_cons]
    exact separates_bare _ hb

/-- The occurrences of a word in two texts add up. -/
theorem occurrences_append (hword : word ≠ []) (hs : EndsInCode s) (h : Parted s t) :
    occurrences word (s ++ t) = occurrences word s + occurrences word t := by
  have hs' : Place.code.after s = .code := hs
  rw [occurrences, codeWords, bare_append, hs']
  exact count_splitOnP_append hword (h.bare hs)

/-- A text without quotes is closed and all code. -/
theorem bare_of_unquoted (h : ∀ b ∈ t, b ≠ 34 ∧ b ≠ 39) : EndsInCode t ∧ bare .code t = t := by
  induction t with
  | nil => exact ⟨rfl, rfl⟩
  | cons b t ih =>
    rw [List.forall_mem_cons] at h
    obtain ⟨hclosed, ht⟩ := ih h.2
    have hb : Place.code.next b = .code := if_neg (by simp [h.1])
    refine ⟨?_, ?_⟩
    · rw [EndsInCode, Place.after, List.foldl_cons, hb]
      exact hclosed
    · rw [bare, if_pos ⟨rfl, hb⟩, hb, ht]

/-- A text without separators is one word. -/
theorem codeWords_of_not_separates (h : ∀ b ∈ t, separates b = false) :
    EndsInCode t ∧ codeWords t = [t] := by
  obtain ⟨hclosed, hbare⟩ := bare_of_unquoted (t := t) fun b hb => by
    constructor <;> rintro rfl <;> exact absurd (h _ hb) (by decide)
  exact ⟨hclosed, by rw [codeWords, hbare, List.splitOnP_eq_singleton h]⟩

/-- Two texts that do not end a string do not do so together. -/
theorem encloses_append {quote : UInt8} {isEscaped : Bool}
    (hs : encloses quote isEscaped s = true) (ht : encloses quote false t = true) :
    encloses quote isEscaped (s ++ t) = true := by
  induction s generalizing isEscaped with
  | nil =>
    cases isEscaped with
    | true => cases hs
    | false => exact ht
  | cons b s ih =>
    cases isEscaped with
    | true => exact ih hs
    | false =>
      obtain ⟨hb, hs⟩ := Bool.and_eq_true_iff.1 hs
      exact Bool.and_eq_true_iff.2 ⟨hb, ih hs⟩

/-- What a quotation holds is blank, and the quotation is left at its end. -/
theorem bare_quoted {quote : UInt8} {isEscaped : Bool} {p : Place}
    (hp : p = if isEscaped then .escaped quote else .quoted quote)
    (h : encloses quote isEscaped t = true) :
    p.after t = .quoted quote ∧ ∃ n, bare p t = List.replicate n 32 := by
  induction t generalizing isEscaped p with
  | nil =>
    cases isEscaped with
    | true => cases h
    | false => exact ⟨hp, 0, rfl⟩
  | cons b t ih =>
    subst hp
    cases isEscaped with
    | true =>
      obtain ⟨hafter, n, hn⟩ := ih (p := .quoted quote) rfl h
      refine ⟨hafter, n + 1, ?_⟩
      rw [bare, if_neg (by simp), List.replicate_succ]
      exact congrArg _ hn
    | false =>
      obtain ⟨hb, h⟩ := Bool.and_eq_true_iff.1 h
      have hnext : Place.next (.quoted quote) b =
          if (b == 92) = true then .escaped quote else .quoted quote := by
        rw [Place.next, if_neg (by simpa using hb)]
        simp
      obtain ⟨hafter, n, hn⟩ := ih hnext h
      refine ⟨?_, n + 1, ?_⟩
      · simpa [Place.after] using hafter
      · rw [bare, if_neg (by simp), List.replicate_succ]
        exact congrArg _ hn

/-- Between separators there are no words. -/
theorem eq_nil_of_mem_splitOnP (h : ∀ b ∈ t, separates b = true)
    (hword : word ∈ t.splitOnP separates) : word = [] := by
  induction t with
  | nil => simpa using hword
  | cons b t ih =>
    rw [List.forall_mem_cons] at h
    rw [List.splitOnP_cons_eq_if_modifyHead, if_pos h.1, List.mem_cons] at hword
    rcases hword with rfl | hword
    · rfl
    · exact ih h.2 hword

/-- A quotation is closed and has no words in it. -/
theorem codeWords_of_quotation {quote : UInt8} (hquote : quote = 34 ∨ quote = 39)
    (h : encloses quote false t = true) (hword : word ≠ []) :
    EndsInCode (quote :: (t ++ [quote])) ∧ occurrences word (quote :: (t ++ [quote])) = 0 := by
  obtain ⟨hafter, n, hblank⟩ := bare_quoted (p := .quoted quote) rfl h
  have hopen : Place.code.next quote = .quoted quote := if_pos hquote
  have hclosed : EndsInCode (quote :: (t ++ [quote])) := by
    rw [EndsInCode, Place.after, List.foldl_cons, hopen, ← Place.after, Place.after_append, hafter]
    exact if_pos rfl
  refine ⟨hclosed, ?_⟩
  have hbare : bare .code (quote :: (t ++ [quote])) = 32 :: (List.replicate n 32 ++ [32]) := by
    rw [bare, hopen, if_neg (by simp), bare_append, hblank, hafter]
    rfl
  rw [occurrences, codeWords, hbare, List.count_eq_zero]
  intro hmem
  have hall : ∀ b ∈ 32 :: (List.replicate n 32 ++ [32]), separates b = true := by
    intro b hb
    obtain rfl : b = 32 := by
      simp only [List.mem_cons, List.mem_append, List.mem_replicate, List.not_mem_nil,
        or_false] at hb
      tauto
    rfl
  exact hword (eq_nil_of_mem_splitOnP hall hmem)

end Words

end Text

open Lexeme (isLetter isLetterOrDigit)
open Text (EndsInCode Parted occurrences separates codeWords encloses)

namespace Fragments

/-- The fragments in front of a part. -/
def openings : List String :=
  ["(", "[", "@(", "!", "(int)", "(double)", "self->", "[NSString stringWithFormat:",
   "[NSString stringWithString:", "(long long)((unsigned long long)", "(int)((unsigned int)",
   "characterAtIndex:", "substringFromIndex:", "substringWithRange:NSMakeRange(",
   "rangeOfString:", "containsString:", "hasPrefix:", "hasSuffix:", "caseInsensitiveCompare:",
   "compare:", "stringByAppendingString:", "stringByReplacingOccurrencesOfString:",
   "objectAtIndex:", "addObject:", "insertObject:", "replaceObjectAtIndex:",
   "removeObjectAtIndex:", "removeObject:", "containsObject:", "indexOfObject:",
   "addObjectsFromArray:", "setObject:", "objectForKey:", "removeObjectForKey:", "appendString:",
   "appendFormat:", "isEqual:", "arrayWithCapacity:", "arrayWithArray:[", "arrayWithArray:",
   "dictionaryWithCapacity:", "dictionaryWithDictionary:", "setWithCapacity:", "setWithSet:",
   "setWithArray:", "stringWithCapacity:", "stringWithString:", "[NSException exceptionWithName:",
   "(long long)([[NSDate date] timeIntervalSince1970] * ", "[NSThread sleepForTimeInterval:",
   "[NSMutableArray arrayWithArray:@[", "conformsToProtocol:@protocol(", "isKindOfClass:",
   "@protocol(", "id<"]

/-- The fragments behind a part. -/
def endings : List String :=
  [")", "]", "))", "]]", ">", " *", " == 0", " == NSOrderedSame", " != nil", " allObjects]",
   " userInfo:nil]", " / 1000.0]", " ? @\"true\" : @\"false\")"]

/-- The fragments between two parts. -/
def links : List String :=
  [" ", ", ", ":", "(", "[", "->", " >> ", " + ", " = ", " ? ", " : ", " ?: ", " = @(", ", (",
   ") - (", " withString:", " atIndex:", " withObject:", " forKey:", " reason:"]

/-- The fragments that stand alone. -/
def wholes : List String :=
  ["", "self", "super", "nil", "YES", "NO", "void", "int", "long long", "float", "double", "BOOL",
   "unichar", "id", "init", "initWith", "alloc", "length", "uppercaseString", "lowercaseString",
   "stringByTrimmingCharactersInSet:[NSCharacterSet whitespaceCharacterSet]", ".location", "count",
   "allKeys", "allValues", "copy", "removeAllObjects", "hash", "description", "class", "intValue",
   "longLongValue", "floatValue", "doubleValue", "boolValue", "unsignedShortValue", "llabs", "fabs",
   "MAX", "MIN", "llround", "sqrt", "pow", "floor", "ceil", "sin", "cos", "tan", "atan", "atan2",
   "exp", "log", "log10", "hypot", "cbrt", "((double)arc4random() / UINT32_MAX)", "exit", "NSLog",
   "1000", "1000000000", "INT_MAX", "INT_MIN", "LLONG_MAX", "LLONG_MIN", "DBL_MAX", "DBL_MIN",
   "FLT_MAX", "FLT_MIN", "USHRT_MAX", "M_PI", "M_E", "@YES", "@NO", "[NSMutableArray array]",
   "[NSMutableDictionary dictionary]", "[NSMutableSet set]", "[NSMutableString string]", "@\"\"",
   "NSObject", "NSString", "NSMutableString", "NSNumber", "NSMutableArray", "NSMutableDictionary",
   "NSMutableSet", "NSException", "NSCopying", "NSCoding", "System.out", "System.err"]

/-- A fragment ends outside of words. -/
def leads (c : String) : Bool := (Text.ofString c).getLast?.any separates

/-- A fragment begins outside of words. -/
def trails (c : String) : Bool := (Text.ofString c).head?.any separates

/-- Every opening fragment ends in code and leads into a new word. -/
theorem openings_lead : ∀ c ∈ openings, EndsInCode c ∧ leads c = true := by
  simp only [leads, Text.ofString_eq_bytes]
  decide

/-- Every closing fragment ends in code and begins a new word. -/
theorem endings_trail : ∀ c ∈ endings, EndsInCode c ∧ trails c = true := by
  simp only [trails, Text.ofString_eq_bytes]
  decide

/-- Every fragment between two texts parts them. -/
theorem links_part : ∀ c ∈ links, EndsInCode c ∧ trails c = true ∧ leads c = true := by
  simp only [trails, leads, Text.ofString_eq_bytes]
  decide

theorem wholes_closed : ∀ c ∈ wholes, EndsInCode c := by
  simp only [Text.ofString_eq_bytes]
  decide

end Fragments

/-- The names of the methods without parameters that the generator has a counterpart for, and
of the methods it treats like such ones. -/
def libraryMethods : List String :=
  ["append", "clear", "currentTimeMillis", "exit", "format", "getClass", "hashCode", "isEmpty",
   "keySet", "length", "nanoTime", "print", "printf", "println", "random", "size", "toLowerCase",
   "toString", "toUpperCase", "trim", "values"]

/-- Whether the generator has a counterpart for a method without parameters of this name. -/
def isLibraryName (name : Text) : Bool :=
  (libraryMethods ++ LibraryCall.mathFunctions).contains (LibraryCall.word name) ||
    (Text.endsWith name "Value" && !(unboxSelector (Text.dropTail name "Value")).isEmpty)

open Fragments

/-- The name of a method that the generator neither writes nor looks for by itself. -/
structure MethodName where
  text : Text
  front : Lexeme.frontIs isLetter text = true
  inner : ∀ b ∈ text, isLetterOrDigit b = true
  foreign : ∀ c ∈ openings ++ endings ++ links ++ wholes, occurrences text c = 0
  unlisted : isLibraryName text = false

/-- The name of a method is not empty. -/
theorem MethodName.ne_nil (f : MethodName) : f.text ≠ [] := by
  intro hnil
  have hfront := f.front
  rw [hnil] at hfront
  cases hfront

/-- What is not listed is no library name. -/
theorem MethodName.unlisted_iff (f : MethodName) :
    LibraryCall.word f.text ∉ libraryMethods ∧
      LibraryCall.word f.text ∉ LibraryCall.mathFunctions ∧
      (Text.endsWith f.text "Value" = true →
        (unboxSelector (Text.dropTail f.text "Value")).isEmpty = true) := by
  have h := f.unlisted
  simp only [isLibraryName, Bool.or_eq_false_iff, List.contains_eq_mem, decide_eq_false_iff_not,
    List.mem_append, not_or, Bool.and_eq_false_imp, Bool.not_eq_false'] at h
  exact ⟨h.1.1, h.1.2, h.2⟩

/-- A closed text in which the name stands a number of times. -/
structure Shows (f : MethodName) (k : Nat) (t : Text) : Prop where
  closed : EndsInCode t
  count : occurrences f.text t = k

namespace Shows

variable {f : MethodName} {j k : Nat} {s t : Text} {c : String}

/-- The calls in texts that are parted add up. -/
theorem append (hs : Shows f j s) (ht : Shows f k t) (h : Parted s t) :
    Shows f (j + k) (s ++ t) where
  closed := by
    have hs' : Text.Place.code.after s = .code := hs.closed
    rw [EndsInCode, Text.Place.after_append, hs']
    exact ht.closed
  count := by rw [Text.occurrences_append f.ne_nil hs.closed h, hs.count, ht.count]

/-- A fragment of the generator alone. -/
theorem whole (f : MethodName) (h : c ∈ wholes) : Shows f 0 c :=
  ⟨wholes_closed c h, f.foreign c (by simp [h])⟩

/-- An opening fragment shows no call. -/
theorem opening (f : MethodName) (h : c ∈ openings) : Shows f 0 c :=
  ⟨(openings_lead c h).1, f.foreign c (by simp [h])⟩

/-- A closing fragment shows no call. -/
theorem closing (f : MethodName) (h : c ∈ endings) : Shows f 0 c :=
  ⟨(endings_trail c h).1, f.foreign c (by simp [h])⟩

/-- A fragment between two texts shows no call. -/
theorem link (f : MethodName) (h : c ∈ links) : Shows f 0 c :=
  ⟨(links_part c h).1, f.foreign c (by simp [h])⟩

/-- A part behind a fragment of the generator. -/
theorem keyed (ht : Shows f k t) (h : c ∈ openings) : Shows f k (Text.ofString c ++ t) := by
  have hboth := (opening f h).append ht (.inr (.inr (.inl (openings_lead c h).2)))
  rwa [Nat.zero_add] at hboth

/-- A part in front of a fragment of the generator. -/
theorem followed (ht : Shows f k t) (h : c ∈ endings) : Shows f k (t ++ Text.ofString c) :=
  ht.append (closing f h) (.inr (.inr (.inr (endings_trail c h).2)))

/-- Two parts with a fragment of the generator between them. -/
theorem between (hs : Shows f j s) (ht : Shows f k t) (h : c ∈ links) :
    Shows f (j + k) (s ++ Text.ofString c ++ t) := by
  obtain ⟨-, htrails, hleads⟩ := links_part c h
  refine (hs.append (link f h) (.inr (.inr (.inr htrails)))).append ht (.inr (.inr (.inl ?_)))
  obtain ⟨b, hb, hseparates⟩ := (Option.any_eq_true _ _).1 hleads
  rw [List.getLast?_append, hb]
  exact hseparates

/-- The name itself. -/
theorem name (f : MethodName) : Shows f 1 f.text := by
  obtain ⟨hclosed, hwords⟩ :=
    Text.codeWords_of_not_separates fun b hb => by simp [separates, f.inner b hb]
  exact ⟨hclosed, by rw [occurrences, hwords, List.count_singleton_self]⟩

/-- Another word. -/
theorem word (h : ∀ b ∈ t, separates b = false) (hne : t ≠ f.text) : Shows f 0 t := by
  obtain ⟨hclosed, hwords⟩ := Text.codeWords_of_not_separates h
  exact ⟨hclosed, by rw [occurrences, hwords, List.count_singleton, if_neg (by simpa using hne)]⟩

theorem nil (f : MethodName) : Shows f 0 [] := word (by simp) f.ne_nil.symm

/-- A message shows the calls of its receiver and of its selector. -/
theorem message (hs : Shows f j s) (ht : Shows f k t) : Shows f (j + k) (message s t) :=
  ((hs.keyed (by simp [openings])).between ht (by simp [links])).followed (by simp [endings])

/-- A text in parentheses. -/
theorem grouped (ht : Shows f k t) : Shows f k ("(" ++ t ++ ")") :=
  (ht.keyed (by simp [openings])).followed (by simp [endings])

/-- Texts with a fragment of the generator between neighbours. -/
theorem join {texts : List Text} (h : ∀ t ∈ texts, EndsInCode t) (hc : c ∈ links) :
    Shows f (texts.map (occurrences f.text)).sum (Text.join c texts) := by
  induction texts with
  | nil => exact nil f
  | cons t rest ih =>
    rw [List.forall_mem_cons] at h
    have ht : Shows f (occurrences f.text t) t := ⟨h.1, rfl⟩
    cases rest with
    | nil => exact ht
    | cons t' rest =>
      rw [List.map_cons, List.sum_cons, Text.join.eq_3 _ _ _ (by simp)]
      exact ht.between (ih h.2) hc

/-- A string constant. -/
theorem constant (f : MethodName) {content : Text} (h : encloses 34 false content = true) :
    Shows f 0 (stringConstant content) := by
  obtain ⟨hclosed, hcount⟩ := Text.codeWords_of_quotation (.inl rfl) h f.ne_nil
  have hat : Shows f 0 "@" := ⟨by decide, List.count_eq_zero.2 fun hmem => f.ne_nil ?_⟩
  · have hboth := hat.append ⟨hclosed, hcount⟩ (.inr (.inr (.inl (by decide))))
    have htext : stringConstant content = Text.ofString "@" ++ (34 :: (content ++ [34])) := by
      simp [stringConstant, Text.ofString, String.utf8EncodeChar]
    rwa [htext]
  · have hwords : codeWords (Text.ofString "@") = [[], []] := by decide
    simpa [hwords] using hmem

end Shows

end JavaObjC
