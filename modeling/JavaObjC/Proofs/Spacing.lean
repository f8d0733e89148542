import JavaObjC.Proofs.Numerals.Lexing

/-!
# Spacing between tokens

Where a token ends does not depend on the blanks around it. Every token that is
neither a blank, a comment nor an error is found by reading bytes up to the
first one that cannot be part of it, and neither a blank nor the end of the text
can be part of one. So a source without errors says the same when its tokens are
written with single blanks between them.
-/

namespace JavaObjC.Lexeme

section Exchange

/-- A text that may stand in place of another one without being read as part of what is in
front of it: what the other does not begin with, it does not begin with either. -/
def Replaces (u' u : Text) : Prop :=
  ∀ test : UInt8 → Bool, test 32 = false → test 41 = false →
    frontIs test u = false → frontIs test u' = false

/-- What ends a token may stand in place of anything behind it. -/
theorem Breaks.replaces {u' : Text} (h : Breaks u') (u : Text) : Replaces u' u := by
  intro test hblank hclosing _
  cases u' with
  | nil => rfl
  | cons b rest =>
    rcases h b rfl with rfl | rfl
    · exact hblank
    · exact hclosing

/-- What may replace a text may do so behind any front. -/
theorem Replaces.append {u u' : Text} (h : Replaces u' u) (front : Text) :
    Replaces (front ++ u') (front ++ u) := by
  intro test hblank hclosing hfront
  cases front with
  | nil => exact h test hblank hclosing hfront
  | cons b front => exact hfront

/-- A scanning function takes the same front of a text whatever replaces the rest. -/
def Takes (scan : Text → Bool × Text) (t front : Text) : Prop :=
  t = front ++ (scan t).2 ∧ ∀ u', Replaces u' (scan t).2 → scan (front ++ u') = ((scan t).1, u')

/-- One scanning function and then another, which may depend on what the first one saw. -/
theorem Takes.andThen {scan : Text → Bool × Text} {t front more : Text} (h : Takes scan t front)
    (step : Bool → Text → Bool × Text) (hmore : Takes (step (scan t).1) (scan t).2 more) :
    Takes (fun t => step (scan t).1 (scan t).2) t (front ++ more) := by
  refine ⟨by rw [List.append_assoc, ← hmore.1, ← h.1], fun u' hu => ?_⟩
  have hrest := hu.append more
  rw [← hmore.1] at hrest
  dsimp only
  rw [List.append_assoc, h.2 _ hrest]
  exact hmore.2 u' hu

/-- What is made of the finding of a scanning function does not change what it takes. -/
theorem Takes.map {scan : Text → Bool × Text} {t front : Text} (h : Takes scan t front)
    (f : Bool → Bool) : Takes (fun t => (f (scan t).1, (scan t).2)) t front :=
  ⟨h.1, fun u' hu => by simp only [h.2 u' hu]⟩

/-- Behind a run of bytes comes a byte that is not of the run. -/
theorem frontIs_dropWhile (test : UInt8 → Bool) (t : Text) :
    frontIs test (t.dropWhile test) = false := by
  cases hrest : t.dropWhile test with
  | nil => rfl
  | cons b rest =>
    have hhead := List.head?_dropWhile_not test t
    rw [hrest] at hhead
    simpa [frontIs] using hhead

/-- A run of bytes is the same run in front of another text. -/
theorem exists_run (test : UInt8 → Bool) (hblank : test 32 = false) (hclosing : test 41 = false)
    (t : Text) : ∃ front, t = front ++ t.dropWhile test ∧ (∀ b ∈ front, test b = true) ∧
      ∀ u', Replaces u' (t.dropWhile test) → (front ++ u').dropWhile test = u' := by
  have hfront : ∀ b ∈ t.takeWhile test, test b = true := fun b hb => List.all_eq_true.1 List.all_takeWhile b hb
  refine ⟨t.takeWhile test, List.takeWhile_append_dropWhile.symm, hfront, fun u' hu => ?_⟩
  exact dropWhile_append_of_all _ hfront (hu test hblank hclosing (frontIs_dropWhile test t))

/-- An optional byte is the same byte in front of another text. -/
theorem exists_option (options : List Char)
    (h : options.all fun c => Text.byte c != 32 && Text.byte c != 41) (t : Text) :
    ∃ front, t = front ++ dropOne options t ∧
      (∀ b ∈ front, ∃ c ∈ options, Text.byte c = b) ∧
      ∀ u', Replaces u' (dropOne options t) → dropOne options (front ++ u') = u' := by
  have hnot : ∀ b : UInt8, b = 32 ∨ b = 41 → options.any (Text.byte · == b) = false := by
    intro b hb
    refine List.any_eq_false.2 fun c hc heq => ?_
    have hc := List.all_eq_true.1 h c hc
    rw [eq_of_beq heq] at hc
    rcases hb with rfl | rfl <;> cases hc
  have hdrop : ∀ u', frontIs (fun b => options.any (Text.byte · == b)) u' = false →
      dropOne options u' = u' := by
    intro u' hu
    cases u' with
    | nil => rfl
    | cons b rest => exact if_neg (ne_true_of_eq_false hu)
  cases hfront : frontIs (fun b => options.any (Text.byte · == b)) t with
  | false =>
    rw [hdrop t hfront]
    exact ⟨[], rfl, nofun, fun u' hu => hdrop u' (hu _ (hnot 32 (.inl rfl)) (hnot 41 (.inr rfl)) hfront)⟩
  | true =>
    cases t with
    | nil => cases hfront
    | cons b rest =>
      have htaken : ∀ u', dropOne options (b :: u') = u' := fun u' => if_pos hfront
      rw [htaken]
      exact ⟨[b], rfl, by simpa [frontIs] using hfront, fun u' _ => htaken u'⟩

/-- An exponent is a front of its own, which begins with its letter if it is there. -/
theorem exists_exponent (letters : List Char) (h : letters.all fun c => isLetter (Text.byte c))
    (t : Text) :
    ∃ front, Takes (exponent letters) t front ∧ ∀ b ∈ front.head?, isLetter b = true := by
  have hletter : ∀ b : UInt8, letters.any (Text.byte · == b) = true → isLetter b = true := by
    intro b hb
    obtain ⟨c, hc, heq⟩ := List.any_eq_true.1 hb
    rw [← eq_of_beq heq]
    exact List.all_eq_true.1 h c hc
  have hnot : ∀ b : UInt8, isLetter b = false → letters.any (Text.byte · == b) = false :=
    fun b hb => eq_false_of_ne_true fun hany => absurd (hletter b hany) (ne_true_of_eq_false hb)
  cases hfront : frontIs (fun b => letters.any (Text.byte · == b)) t with
  | false =>
    refine ⟨[], ⟨?_, fun u' hu => ?_⟩, nofun⟩
    · rw [exponent_none hfront]
      rfl
    · rw [exponent_none hfront] at hu ⊢
      exact exponent_none (hu _ (hnot 32 (by decide)) (hnot 41 (by decide)) hfront)
  | true =>
    cases t with
    | nil => cases hfront
    | cons b rest =>
      have hread : ∀ u, exponent letters (b :: u) =
          (true, (dropOne ['+', '-'] u).dropWhile isDigitPart) := fun u => if_pos hfront
      obtain ⟨sign, hsign, -, hsigned⟩ := exists_option ['+', '-'] (by decide) rest
      obtain ⟨run, hrun, -, hdigits⟩ := exists_run isDigitPart (by decide) (by decide)
        (dropOne ['+', '-'] rest)
      refine ⟨b :: (sign ++ run), ⟨?_, fun u' hu => ?_⟩, ?_⟩
      · rw [hread, List.cons_append, List.append_assoc, ← hrun, ← hsign]
      · rw [hread] at hu ⊢
        have hrest := hu.append run
        rw [← hrun] at hrest
        rw [List.cons_append, List.append_assoc, hread, hsigned _ hrest, hdigits u' hu]
      · rintro c ⟨⟩
        exact hletter b hfront

/-- A fraction is the same in front of another text, unless that begins with a point. -/
theorem exists_fraction (t : Text) : ∃ front, t = front ++ (fraction t).2 ∧
    ∀ u', Replaces u' (fraction t).2 → frontIs (· == 46) u' = false →
      fraction (front ++ u') = ((fraction t).1, u') := by
  fun_cases fraction t with
  | case1 rest hdigit =>
    obtain ⟨run, hrun, -, hdigits⟩ := exists_run isDigitPart (by decide) (by decide) rest
    refine ⟨46 :: run, by rw [List.cons_append, ← hrun], fun u' hu _ => ?_⟩
    have hfront : frontIs isDigit (run ++ u') = true := by
      cases run with
      | nil =>
        have hnone := frontIs_dropWhile isDigitPart rest
        rw [← List.nil_append (rest.dropWhile isDigitPart), ← hrun] at hnone
        exact absurd hdigit (by
          cases rest with
          | nil => exact Bool.false_ne_true
          | cons b rest => exact fun hb => by simp [frontIs, isDigitPart] at hnone hb; simp [hnone] at hb)
      | cons b run =>
        rw [hrun] at hdigit
        exact hdigit
    have hread : fraction (46 :: (run ++ u')) = (true, (run ++ u').dropWhile isDigitPart) :=
      if_pos hfront
    rw [List.cons_append, hread, hdigits u' hu]
  | case2 rest _ _ => exact ⟨[], rfl, fun u' _ hpoint => fraction_none hpoint⟩
  | case3 rest hdigit hother =>
    obtain ⟨hletter, -⟩ := Bool.or_eq_false_iff.1 (eq_false_of_ne_true hother)
    refine ⟨[46], rfl, fun u' hu hpoint => ?_⟩
    have hdigit' := hu isDigit (by decide) (by decide) (eq_false_of_ne_true hdigit)
    have hletter' := hu isLetter (by decide) (by decide) hletter
    have hbare := fraction_bare hdigit' hpoint
    rwa [hletter', if_neg Bool.false_ne_true] at hbare
  | case4 => exact ⟨[], rfl, fun u' _ hpoint => fraction_none hpoint⟩

/-- Without a point a hexadecimal number has no fraction. -/
theorem hexFraction_none {t : Text} (h : frontIs (· == 46) t = false) :
    hexFraction t = (false, t) := by
  unfold hexFraction
  split
  · cases h
  · rfl

/-- A hexadecimal fraction is a front that no break behind it changes. -/
theorem exists_hexFraction (t : Text) : ∃ front, Takes hexFraction t front := by
  cases hpoint : frontIs (· == 46) t with
  | false =>
    refine ⟨[], ?_, fun u' hu => ?_⟩
    · rw [hexFraction_none hpoint]
      rfl
    · rw [hexFraction_none hpoint] at hu ⊢
      exact hexFraction_none (hu _ (by decide) (by decide) hpoint)
  | true =>
    cases t with
    | nil => cases hpoint
    | cons b rest =>
      obtain rfl : b = 46 := eq_of_beq hpoint
      have hread : ∀ u, hexFraction (46 :: u) = (true, u.dropWhile isHexPart) := fun u => rfl
      obtain ⟨run, hrun, -, hdigits⟩ := exists_run isHexPart (by decide) (by decide) rest
      refine ⟨46 :: run, ?_, fun u' hu => ?_⟩
      · rw [hread, List.cons_append, ← hrun]
      · rw [hread] at hu ⊢
        rw [List.cons_append, hread, hdigits u' hu]

/-- The letter behind a number is the same in front of another text. -/
theorem exists_letter (options : List Char)
    (h : options.all fun c => Text.byte c != 32 && Text.byte c != 41) (flag : Bool) (t : Text) :
    ∃ front, Takes (fun t => (flag, dropOne options t)) t front := by
  obtain ⟨front, hfront, -, hoption⟩ := exists_option options h t
  exact ⟨front, hfront, fun u' hu => by simp only [hoption u' hu]⟩

/-- A hexadecimal number is a front that no break behind it changes. -/
theorem exists_hexadecimal (t : Text) : ∃ front, Takes hexadecimal t front := by
  obtain ⟨run, hrun, -, hruns⟩ := exists_run isHexPart (by decide) (by decide) t
  have hdigits : Takes (fun t => (false, t.dropWhile isHexPart)) t run :=
    ⟨hrun, fun u' hu => by simp only [hruns u' hu]⟩
  obtain ⟨part, hpart⟩ := exists_hexFraction (t.dropWhile isHexPart)
  have hpointed := hdigits.andThen (fun _ => hexFraction) hpart
  obtain ⟨power, hpower, -⟩ := exists_exponent ['p', 'P'] (by decide)
    (hexFraction (t.dropWhile isHexPart)).2
  have hpowered := hpointed.andThen
    (fun point t => (point || (exponent ['p', 'P'] t).1, (exponent ['p', 'P'] t).2))
    (hpower.map _)
  obtain ⟨letter, hletter⟩ : ∃ letter, Takes (fun u => if
      (hexFraction (t.dropWhile isHexPart)).1 ||
        (exponent ['p', 'P'] (hexFraction (t.dropWhile isHexPart)).2).1
      then (true, dropOne ['f', 'F', 'd', 'D'] u) else (false, dropOne ['l', 'L'] u))
      (exponent ['p', 'P'] (hexFraction (t.dropWhile isHexPart)).2).2 letter := by
    split
    · exact exists_letter _ (by decide) true _
    · exact exists_letter _ (by decide) false _
  exact ⟨_, hpowered.andThen (fun floating u =>
    if floating then (true, dropOne ['f', 'F', 'd', 'D'] u)
    else (false, dropOne ['l', 'L'] u)) hletter⟩

/-- The mark of a radix is the second byte of a number. -/
theorem hasRadixMark_eq (b : UInt8) (rest : Text) :
    hasRadixMark (b :: rest) = (b == 48 && frontIs isRadixMark rest) := by
  unfold hasRadixMark
  split
  · next heq =>
    obtain ⟨rfl, rfl⟩ := List.cons_eq_cons.1 heq
    rfl
  · next hno =>
    cases rest with
    | nil => exact (Bool.and_false _).symm
    | cons c rest =>
      have hb : (b == 48) = false := beq_eq_false_iff_ne.2 fun hb => hno c rest (by rw [hb])
      rw [hb, Bool.false_and]

/-- Behind the exponent of a decimal number: the text after the letter that ends it. -/
def ending (floating : Bool) (t : Text) : Bool × Text :=
  if frontIs (fun b => ['f', 'F', 'd', 'D'].any (Text.byte · == b)) t then (true, t.tail)
  else (floating, dropOne ['l', 'L'] t)

/-- Behind the fraction of a decimal number: the text after its exponent and the letter. -/
def afterFraction (fractional : Bool) (t : Text) : Bool × Text :=
  ending (fractional || (exponent ['e', 'E'] t).1) (exponent ['e', 'E'] t).2

/-- A decimal number is digits, a fraction, and what may come after it. -/
theorem decimal_eq_afterFraction (t : Text) : decimal t =
    afterFraction (fraction (t.dropWhile isDigitPart)).1 (fraction (t.dropWhile isDigitPart)).2 :=
  decimal_eq rfl rfl

/-- The letter that ends a decimal number is the same in front of another text. -/
theorem exists_ending (floating : Bool) (t : Text) : ∃ front,
    Takes (ending floating) t front ∧ ∀ b ∈ front.head?, isLetter b = true := by
  obtain ⟨mark, hmark, hletter, hmarks⟩ := exists_option ['l', 'L'] (by decide) t
  have hletters : ∀ c ∈ ['f', 'F', 'd', 'D', 'l', 'L'], isLetter (Text.byte c) = true :=
    List.all_eq_true.1 (by decide)
  cases hfront : frontIs (fun b => ['f', 'F', 'd', 'D'].any (Text.byte · == b)) t with
  | true =>
    cases t with
    | nil => cases hfront
    | cons b rest =>
      have hread : ∀ u, ending floating (b :: u) = (true, u) := fun u => if_pos hfront
      refine ⟨[b], ⟨by rw [hread]; rfl, fun u' _ => by rw [hread]; exact hread u'⟩, ?_⟩
      rintro c ⟨⟩
      obtain ⟨c, hc, heq⟩ := List.any_eq_true.1 hfront
      rw [← eq_of_beq heq]
      exact hletters c (List.mem_append_left ['l', 'L'] hc)
  | false =>
    have hread : ∀ u, frontIs (fun b => ['f', 'F', 'd', 'D'].any (Text.byte · == b)) u = false →
        ending floating u = (floating, dropOne ['l', 'L'] u) :=
      fun u hu => if_neg (ne_true_of_eq_false hu)
    refine ⟨mark, ⟨by rwa [hread t hfront], fun u' hu => ?_⟩, ?_⟩
    · rw [hread t hfront] at hu ⊢
      have hrest := hu.append mark
      rw [← hmark] at hrest
      rw [hread _ (hrest _ (by decide) (by decide) hfront), hmarks u' hu]
    · intro b hb
      obtain ⟨c, hc, rfl⟩ := hletter b (List.mem_of_mem_head? hb)
      exact hletters c (List.mem_append_right ['f', 'F', 'd', 'D'] hc)

/-- Behind the fraction of a decimal number stands a letter or what follows the number. -/
theorem exists_afterFraction (fractional : Bool) (t : Text) : ∃ front,
    Takes (afterFraction fractional) t front ∧ ∀ b ∈ front.head?, isLetter b = true := by
  obtain ⟨power, hpower, hfirst⟩ := exists_exponent ['e', 'E'] (by decide) t
  obtain ⟨letter, hletter, hlast⟩ := exists_ending (fractional || (exponent ['e', 'E'] t).1)
    (exponent ['e', 'E'] t).2
  refine ⟨power ++ letter, (hpower.map (fractional || ·)).andThen ending hletter, ?_⟩
  cases power with
  | nil => exact hlast
  | cons b power => exact hfirst

/-- A decimal number is a front that no break behind it changes, and so is its kind. -/
theorem exists_decimal (t : Text) : ∃ front, t = front ++ (decimal t).2 ∧
    ∀ u', Breaks u' → decimal (front ++ u') = ((decimal t).1, u') := by
  obtain ⟨run, hrun, -, hruns⟩ := exists_run isDigitPart (by decide) (by decide) t
  obtain ⟨part, hpart, hparts⟩ := exists_fraction (t.dropWhile isDigitPart)
  obtain ⟨ends, ⟨hends, htakes⟩, hletter⟩ := exists_afterFraction
    (fraction (t.dropWhile isDigitPart)).1 (fraction (t.dropWhile isDigitPart)).2
  rw [← decimal_eq_afterFraction] at hends htakes
  refine ⟨run ++ (part ++ ends), ?_, fun u' hu => ?_⟩
  · rw [List.append_assoc, List.append_assoc, ← hends, ← hpart, ← hrun]
  · have hpoint : frontIs (· == 46) (ends ++ u') = false := by
      cases ends with
      | nil => exact hu.replaces [] _ (by decide) (by decide) rfl
      | cons b ends =>
        have hb := hletter b rfl
        exact beq_eq_false_iff_ne.2 fun heq => absurd hb (by rw [heq]; decide)
    have hrest := (hu.replaces (decimal t).2).append ends
    rw [← hends] at hrest
    have hnumber := hrest.append part
    rw [← hpart] at hnumber
    rw [List.append_assoc, List.append_assoc, decimal_eq_afterFraction, hruns _ hnumber,
      hparts _ hrest hpoint]
    exact htakes u' (hu.replaces _)

/-- A binary number is a front that no break behind it changes. -/
theorem exists_binary (t : Text) : ∃ front,
    Takes (fun t => (false, dropOne ['l', 'L'] (t.dropWhile isBinaryPart))) t front := by
  obtain ⟨run, hrun, -, hruns⟩ := exists_run isBinaryPart (by decide) (by decide) t
  have hdigits : Takes (fun t => (false, t.dropWhile isBinaryPart)) t run :=
    ⟨hrun, fun u' hu => by simp only [hruns u' hu]⟩
  obtain ⟨letter, hletter⟩ := exists_letter ['l', 'L'] (by decide) false
    (t.dropWhile isBinaryPart)
  exact ⟨_, hdigits.andThen (fun flag t => (flag, dropOne ['l', 'L'] t)) hletter⟩

/-- A number with the mark of a radix is the same number in front of another text. -/
theorem exists_marked {mark : UInt8} (hmark : isRadixMark mark = true) (rest : Text) :
    ∃ front, rest = front ++ (number (48 :: mark :: rest)).2 ∧
      ∀ u', Replaces u' (number (48 :: mark :: rest)).2 →
        number (48 :: mark :: (front ++ u')) = ((number (48 :: mark :: rest)).1, u') := by
  rcases isRadixMark_iff.1 hmark with hhex | hbinary
  · have hread : ∀ u, number (48 :: mark :: u) = hexadecimal u := fun u => if_pos hhex
    obtain ⟨front, hfront⟩ := exists_hexadecimal rest
    simp only [hread]
    exact ⟨front, hfront⟩
  · have hhex : ¬ (mark = 120 ∨ mark = 88) := by
      rcases hbinary with rfl | rfl <;> decide
    have hread : ∀ u, number (48 :: mark :: u) =
        (false, dropOne ['l', 'L'] (u.dropWhile isBinaryPart)) :=
      fun u => (if_neg hhex).trans (if_pos hbinary)
    obtain ⟨front, hfront⟩ := exists_binary rest
    simp only [hread]
    exact ⟨front, hfront⟩

/-- A number that begins with a point takes digits behind it. -/
theorem length_number_point {rest : Text} (h : frontIs isDigit rest = true) :
    (number (46 :: rest)).2.length < rest.length := by
  have hplain : hasRadixMark (46 :: rest) = false := by
    rw [hasRadixMark_eq]
    rfl
  have hdigits : (decimal (46 :: rest)).2 <:+ rest.dropWhile isDigitPart := by
    have hsuffix := decimal_suffix (46 :: rest)
    rw [List.dropWhile_cons_of_neg (by decide)] at hsuffix
    simpa only [fraction, h, if_true] using hsuffix
  rw [number_eq_decimal hplain]
  cases rest with
  | nil => cases h
  | cons b rest =>
    have hpart : isDigitPart b = true := Bool.or_eq_true_iff.2 (.inl h)
    rw [List.dropWhile_cons_of_pos hpart] at hdigits
    have hlength := hdigits.length_le.trans (List.dropWhile_suffix _).length_le
    exact Nat.lt_succ_of_le hlength

/-- A number is the same number in front of a text that breaks it off. -/
theorem exists_number {b : UInt8} {rest : Text}
    (h : isDigit b = true ∨ b = 46 ∧ frontIs isDigit rest = true) :
    ∃ front, rest = front ++ (number (b :: rest)).2 ∧
      ∀ u', Breaks u' → number (b :: (front ++ u')) = ((number (b :: rest)).1, u') := by
  cases hradix : hasRadixMark (b :: rest) with
  | true =>
    rw [hasRadixMark_eq, Bool.and_eq_true] at hradix
    obtain ⟨hzero, hmark⟩ := hradix
    obtain rfl := eq_of_beq hzero
    cases rest with
    | nil => cases hmark
    | cons mark rest =>
      obtain ⟨front, hfront, hreads⟩ := exists_marked hmark rest
      exact ⟨mark :: front, congrArg (mark :: ·) hfront, fun u' hu => hreads u' (hu.replaces _)⟩
  | false =>
    have hsuffix := number_suffix h
    rw [number_eq_decimal hradix] at hsuffix ⊢
    obtain ⟨front, hfront, hreads⟩ := exists_decimal (b :: rest)
    cases front with
    | nil =>
      have hlength := hsuffix.length_le
      rw [List.nil_append] at hfront
      rw [← hfront, List.length_cons] at hlength
      omega
    | cons c front =>
      obtain ⟨rfl, hrest⟩ := List.cons_eq_cons.1 hfront
      change rest = front ++ (decimal (b :: rest)).2 at hrest
      refine ⟨front, hrest, fun u' hu => ?_⟩
      -- no mark of a radix comes to stand behind a leading zero
      have hplain : hasRadixMark (b :: (front ++ u')) = false := by
        rw [hasRadixMark_eq, Bool.and_eq_false_iff] at hradix ⊢
        have hreplaced := (hu.replaces (decimal (b :: rest)).2).append front
        rw [← hrest] at hreplaced
        exact hradix.imp_right (hreplaced _ (by decide) (by decide))
      rw [number_eq_decimal hplain]
      exact hreads u' hu

end Exchange

section Quotations

/-- What stands before the end of a quotation stands before it in front of another text. -/
theorem exists_quotedRest {quote : UInt8} {t after : Text}
    (h : quotedRest quote t = quote :: after) : ∃ content, t = content ++ quote :: after ∧
      ∀ u', quotedRest quote (content ++ quote :: u') = quote :: u' := by
  fun_induction quotedRest quote t with
  | case1 => cases h
  | case2 b rest hends =>
    obtain ⟨rfl, rfl⟩ := List.cons_eq_cons.1 h
    refine ⟨[], rfl, fun u' => ?_⟩
    rw [List.nil_append, quotedRest.eq_def]
    exact if_pos (.inr (.inl rfl))
  | case3 => cases h
  | case4 b rest hends ih =>
    obtain ⟨content, rfl, hcontent⟩ := ih h
    refine ⟨92 :: b :: content, rfl, fun u' => ?_⟩
    rw [List.cons_append, List.cons_append, quotedRest, if_neg hends, if_pos rfl]
    exact hcontent u'
  | case5 b rest hends hb ih =>
    obtain ⟨content, rfl, hcontent⟩ := ih h
    refine ⟨b :: content, rfl, fun u' => ?_⟩
    rw [List.cons_append, quotedRest.eq_def]
    simp only [if_neg hends, if_neg hb]
    exact hcontent u'

/-- A closed quotation is the same one in front of another text. -/
theorem exists_quoted {kind found : TokenKind} {quote : UInt8} {t after : Text}
    (h : quoted kind quote t = (found, after)) (hfound : found ≠ .error) :
    found = kind ∧ ∃ content, t = content ++ quote :: after ∧
      ∀ u', quoted kind quote (content ++ quote :: u') = (kind, u') := by
  unfold quoted at h
  split at h
  · next b rest hrest =>
    split at h
    · next hb =>
      subst hb
      obtain ⟨rfl, rfl⟩ := Prod.mk.inj h
      obtain ⟨content, rfl, hcontent⟩ := exists_quotedRest hrest
      refine ⟨rfl, content, rfl, fun u' => ?_⟩
      rw [quoted, hcontent u']
      exact if_pos rfl
    · exact absurd (Prod.mk.inj h).1.symm hfound
  · exact absurd (Prod.mk.inj h).1.symm hfound

/-- A text block is the same one in front of another text. -/
theorem exists_textBlockRest {t after : Text} (h : textBlockRest? t = some after) :
    ∃ content, t = content ++ 34 :: 34 :: 34 :: after ∧
      ∀ u', textBlockRest? (content ++ 34 :: 34 :: 34 :: u') = some u' := by
  fun_induction textBlockRest? t with
  | case1 => cases h
  | case2 rest =>
    cases h
    exact ⟨[], rfl, fun u' => rfl⟩
  | case3 => cases h
  | case4 b rest _ ih =>
    obtain ⟨content, rfl, hcontent⟩ := ih h
    exact ⟨92 :: b :: content, rfl, hcontent⟩
  | case5 b rest hquotes hb ih =>
    obtain ⟨content, rfl, hcontent⟩ := ih h
    refine ⟨b :: content, rfl, fun u' => ?_⟩
    have hother : ∀ rest, content ++ 34 :: 34 :: 34 :: u' = 34 :: 34 :: rest → b ≠ 34 := by
      intro rest hrest hquote
      rcases content with _ | ⟨c, _ | ⟨d, content⟩⟩
      · exact hquotes _ hquote rfl
      · obtain ⟨rfl, -⟩ := List.cons_eq_cons.1 hrest
        exact hquotes _ hquote rfl
      · obtain ⟨rfl, htail⟩ := List.cons_eq_cons.1 hrest
        obtain ⟨rfl, -⟩ := List.cons_eq_cons.1 htail
        exact hquotes _ hquote rfl
    have hstep : textBlockRest? (b :: (content ++ 34 :: 34 :: 34 :: u')) =
        textBlockRest? (content ++ 34 :: 34 :: 34 :: u') := by
      rw [textBlockRest?.eq_def]
      split
      · next heq => cases heq
      · next heq =>
        obtain ⟨hquote, hrest⟩ := List.cons_eq_cons.1 heq
        exact absurd hquote (hother _ hrest)
      · next heq =>
        obtain ⟨rfl, rfl⟩ := List.cons_eq_cons.1 heq
        exact if_neg hb
    rw [List.cons_append, hstep]
    exact hcontent u'

end Quotations

section Tokens

variable {rest after : Text} {kind : TokenKind}

/-- Three quotes at the front of a text. -/
theorem startsWith_quotes (b : UInt8) (t : Text) :
    Text.startsWith (34 :: b :: t) "\"\"\"" = (b == 34 && frontIs (· == 34) t) := by
  have hquotes : Text.ofString "\"\"\"" = [34, 34, 34] := by decide +kernel
  rw [Text.startsWith, hquotes]
  cases t with
  | nil => simp [List.isPrefixOf, frontIs]
  | cons c t => simp [List.isPrefixOf, frontIs, Bool.beq_comm]

/-- A word is a front that no break behind it changes. -/
theorem exists_word {b : UInt8} (hb : isLetter b = true) (h : next b rest = (kind, after)) :
    ∃ front, rest = front ++ after ∧ ∀ u', Breaks u' → next b (front ++ u') = (kind, u') := by
  obtain ⟨front, hrest, hfront, -⟩ := exists_run isLetterOrDigit (by decide) (by decide)
    rest
  have hword := next_of_word hb hfront (frontIs_dropWhile isLetterOrDigit rest)
  rw [← hrest, h] at hword
  obtain ⟨rfl, rfl⟩ := Prod.mk.inj hword
  exact ⟨front, hrest, fun u' hu => next_of_word hb hfront hu.frontIs.1⟩

/-- A string or a text block that ends is a front that nothing behind it changes. -/
theorem exists_text (h : next 34 rest = (kind, after)) (hkind : kind ≠ .error) :
    ∃ front, rest = front ++ after ∧ ∀ u', Breaks u' → next 34 (front ++ u') = (kind, u') := by
  have hread : ∀ t, next 34 t = if Text.startsWith (34 :: t) "\"\"\"" then
      (textBlockRest? (t.drop 2)).elim (.error, []) fun after => (.textBlock, after)
    else quoted .stringLiteral 34 t := by
    intro t
    change (if Text.startsWith (34 :: t) "\"\"\"" then _ else _) = _
    cases textBlockRest? (t.drop 2) <;> rfl
  rw [hread] at h
  split at h
  · next hquotes =>
    obtain ⟨block, hblock⟩ := List.isPrefixOf_iff_prefix.1 hquotes
    obtain rfl : rest = 34 :: 34 :: block := (List.cons_eq_cons.1 hblock.symm).2
    rcases hfound : textBlockRest? ((34 :: 34 :: block).drop 2) with - | found
    · rw [hfound] at h
      exact absurd (Prod.mk.inj h).1.symm hkind
    · rw [hfound] at h
      obtain ⟨rfl, rfl⟩ := Prod.mk.inj h
      obtain ⟨content, rfl, hcontent⟩ := exists_textBlockRest hfound
      refine ⟨34 :: 34 :: (content ++ [34, 34, 34]), by simp, fun u' _ => ?_⟩
      have hblock : 34 :: 34 :: (content ++ [34, 34, 34]) ++ u' =
          34 :: 34 :: (content ++ 34 :: 34 :: 34 :: u') := by simp
      have hthree : Text.startsWith (34 :: 34 :: 34 :: (content ++ 34 :: 34 :: 34 :: u'))
          "\"\"\"" = true := by
        rw [startsWith_quotes]
        rfl
      rw [hblock, hread, if_pos hthree, List.drop_succ_cons, List.drop_succ_cons, List.drop_zero,
        hcontent u']
      rfl
  · next hquotes =>
    obtain ⟨rfl, content, rfl, hcontent⟩ := exists_quoted h hkind
    refine ⟨content ++ [34], by simp, fun u' hu => ?_⟩
    -- behind an empty quotation stands no third quote
    have hempty : ¬ Text.startsWith (34 :: (content ++ 34 :: u')) "\"\"\"" = true := by
      cases content with
      | nil =>
        have hthird := hu.replaces [] (· == 34) (by decide) (by decide) rfl
        rw [List.nil_append, startsWith_quotes, hthird]
        exact Bool.false_ne_true
      | cons c content =>
        have hsecond : frontIs (· == 34) (content ++ 34 :: u') =
            frontIs (· == 34) (content ++ 34 :: after) := by cases content <;> rfl
        rw [List.cons_append, startsWith_quotes] at hquotes ⊢
        rwa [hsecond]
    rw [List.append_assoc, List.singleton_append, hread, if_neg hempty]
    exact hcontent u'

/-- A token that is neither a blank, a comment nor an error is the same token in front of a
text that breaks it off. -/
theorem exists_next {b : UInt8} (h : next b rest = (kind, after)) (hkind : kind ≠ .error)
    (htrivia : kind.isTrivia = false) :
    ∃ front, rest = front ++ after ∧ ∀ u', Breaks u' → next b (front ++ u') = (kind, u') := by
  have htoken := h
  revert h
  fun_cases next b rest with
  | case1 =>
    rintro ⟨⟩
    cases htrivia
  | case2 =>
    rintro ⟨⟩
    cases htrivia
  | case3 =>
    rintro ⟨⟩
    exact absurd rfl hkind
  | case4 =>
    rintro ⟨⟩
    cases htrivia
  | case5 t _ _ _ hletter => exact fun _ => exists_word hletter htoken
  | case6 t _ _ _ _ hguard floating after' hnumber =>
    rintro ⟨⟩
    have hfront : isDigit b = true ∨ b = 46 ∧ frontIs isDigit rest = true := by simpa using hguard
    obtain ⟨front, hrest, hreads⟩ := exists_number hfront
    rw [hnumber] at hrest hreads
    refine ⟨front, hrest, fun u' hu => next_of_number ?_ (hreads u' hu)⟩
    refine hfront.imp_right fun h => ⟨h.1, ?_⟩
    obtain ⟨hpoint, hdigit⟩ := h
    subst hpoint
    have hlength := length_number_point hdigit
    rw [hnumber] at hlength
    rw [hrest] at hdigit hlength
    cases front with
    | nil => simp at hlength
    | cons c front => exact hdigit
  | case7 _ _ _ _ _ _ hquote =>
    intro h
    subst hquote
    obtain ⟨rfl, content, rfl, hcontent⟩ := exists_quoted h hkind
    refine ⟨content ++ [39], by simp, fun u' _ => ?_⟩
    rw [List.append_assoc]
    exact hcontent u'
  | case8 t _ _ _ _ _ _ hquote =>
    subst hquote
    exact fun _ => exists_text htoken hkind
  | case9 =>
    rintro ⟨⟩
    exact absurd rfl hkind
  | case10 _ _ _ _ _ _ _ hquote =>
    subst hquote
    exact fun _ => exists_text htoken hkind
  | case11 t _ _ _ _ _ _ _ mark hmark =>
    intro h
    obtain ⟨rfl, -⟩ := Prod.mk.inj h
    have hspelled := (next_fitting b rest).spelled mark (by rw [htoken])
    rw [htoken] at hspelled
    obtain ⟨c, front, hspelling, -⟩ := spelling_front mark
    rw [hspelling] at hspelled
    obtain ⟨rfl, hrest⟩ := List.cons_eq_cons.1 hspelled
    exact ⟨front, hrest, fun u' hu => next_of_mark hspelling (hu.frontIs.2.2 mark)⟩
  | case12 =>
    rintro ⟨⟩
    exact absurd rfl hkind

end Tokens

section Sources

/-- The tokens of a source that are neither blanks nor comments, written with single blanks
between them. -/
def respaced (source : Text) : Text :=
  Text.join " " (((significant source).filter (·.kind != .eof)).map Token.literal)

/-- What is written is what the source says. -/
theorem respaced_eq (source : Text) :
    respaced source = Text.join " " (((wording source).filter (·.1 != .eof)).map Prod.snd) := by
  rw [respaced, wording, List.filter_map, List.map_map]
  rfl

/-- A text behind which another one stands, after a blank if it is not empty. -/
theorem exists_join (t : Text) (texts : List Text) :
    ∃ rest, Text.join " " (t :: texts) = t ++ rest ∧ Breaks rest ∧
      ∀ kept : Said → Bool, (∀ u, kept (.whitespace, u) = false) →
        (spoken rest).filter kept = (spoken (Text.join " " texts)).filter kept := by
  cases texts with
  | nil => exact ⟨[], (List.append_nil t).symm, .nil, fun _ _ => rfl⟩
  | cons u texts =>
    refine ⟨32 :: Text.join " " (u :: texts), ?_, .blank _, fun kept hblank => ?_⟩
    · change t ++ Text.ofString " " ++ _ = _
      rw [List.append_assoc]
      rfl
    · exact filter_spoken_blank hblank _

/-- A source without errors says the same when its tokens are written with single blanks between
them: every token is found again, with its kind, and no other. -/
theorem boundaries_survive_spacing (source : Text) (h : ∀ t ∈ tokens source, t.kind ≠ .error) :
    (spoken (respaced source)).filter (·.1 != .whitespace) = wording source := by
  have hsaid : ∀ w ∈ spoken source, w.1 ≠ .error := by
    intro w hw
    obtain ⟨t, ht, rfl⟩ := List.mem_map.1 hw
    exact h t ht
  clear h
  -- the induction is on the text that is still to be read
  induction hlength : source.length using Nat.strong_induction_on generalizing source with
  | _ n ih =>
    subst hlength
    cases source with
    | nil => rfl
    | cons b rest =>
      obtain ⟨front, hrest⟩ := next_suffix b rest
      have hfitting := next_fitting b rest
      generalize hnext : next b rest = token at hrest hfitting
      obtain ⟨kind, after⟩ := token
      dsimp only at hrest hfitting
      subst hrest
      have hspoken := spoken_of_next hnext
      rw [hspoken, List.forall_mem_cons] at hsaid
      have hafter := ih after.length (by simp only [List.length_cons, List.length_append]; omega)
        after hsaid.2 rfl
      have hwording := wording_of_next hnext
      cases htrivia : kind.isTrivia with
      | true =>
        rw [htrivia, if_pos rfl, List.nil_append] at hwording
        rwa [respaced_eq, hwording, ← respaced_eq]
      | false =>
        rw [htrivia, if_neg Bool.false_ne_true, List.singleton_append] at hwording
        obtain ⟨front', hfront, hreads⟩ := exists_next hnext hsaid.1 htrivia
        obtain rfl := List.append_cancel_right hfront
        have hkept : (kind != .eof) = true := by simpa using hfitting.ne_eof
        obtain ⟨u', hjoin, hbreaks, hsame⟩ := exists_join (b :: front)
          (((wording after).filter (·.1 != .eof)).map Prod.snd)
        have hshown : (kind != .whitespace) = true := by
          cases kind <;> first | rfl | cases htrivia
        rw [respaced_eq, hwording, List.filter_cons, if_pos hkept, List.map_cons, hjoin,
          List.cons_append, spoken_of_next (hreads u' hbreaks), List.filter_cons, if_pos hshown,
          hsame _ fun _ => rfl, ← respaced_eq, hafter]

/-- A source in which nearly all tokens touch. -/
theorem boundaries_survive_spacing_of_touching :
    respaced "x=1.+y--/2.e3;/*a*/s+=\"\"+'\"'>>>=0x1f..b//" =
        "x = 1. + y -- / 2 . e3 ; s += \"\" + '\"' >>>= 0x1f. . b" ∧
      (spoken (respaced "x=1.+y--/2.e3;/*a*/s+=\"\"+'\"'>>>=0x1f..b//")).filter
        (·.1 != .whitespace) = wording "x=1.+y--/2.e3;/*a*/s+=\"\"+'\"'>>>=0x1f..b//" := by
  obtain ⟨hrespaced, hread⟩ :
      respaced "x=1.+y--/2.e3;/*a*/s+=\"\"+'\"'>>>=0x1f..b//" =
        "x = 1. + y -- / 2 . e3 ; s += \"\" + '\"' >>>= 0x1f. . b" ∧
      ∀ t ∈ tokens "x=1.+y--/2.e3;/*a*/s+=\"\"+'\"'>>>=0x1f..b//", t.kind ≠ .error := by
    decide +kernel
  exact ⟨hrespaced, boundaries_survive_spacing _ hread⟩

end Sources

end JavaObjC.Lexeme
