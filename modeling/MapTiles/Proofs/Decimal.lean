import MapTiles.Proofs.Decimal.Range
import MapTiles.Proofs.Text
import Mathlib

/-!
Numbers in decimal notation. A natural is read back from its digits if it is not above the limit,
and is too large otherwise. The floats are read from exactly the texts of a grammar: an optional
sign, then a word in any case or digits with an optional point and an optional exponent.
-/

namespace MapTiles.Decimal

theorem ne_of_isDigit {c x : Char} (hc : c.isDigit = true) (hx : x.isDigit = false) : c ≠ x := by
  rintro rfl
  exact absurd hc (Bool.eq_false_iff.mp hx)

section Numerals

variable {limit value : Nat} {overflow : NumeralError} {digits : List Char}

theorem le_ofDigitChars (digits : List Char) (value : Nat) :
    value ≤ Nat.ofDigitChars 10 digits value := by
  rw [Nat.ofDigitChars_eq_ofDigitChars_zero]
  have hpow : 1 ≤ 10 ^ digits.length := Nat.one_le_pow _ _ (by decide)
  have hscaled : 1 * value ≤ 10 ^ digits.length * value := Nat.mul_le_mul_right value hpow
  omega

/-- The value only grows while digits are read, so it passes the limit on the way if and only if it
is above the limit in the end. -/
theorem readDigits_eq (hdigits : ∀ c ∈ digits, c.isDigit = true) (hvalue : value ≤ limit) :
    readDigits limit overflow value digits =
      if Nat.ofDigitChars 10 digits value ≤ limit then .ok (Nat.ofDigitChars 10 digits value)
      else .error overflow := by
  induction digits generalizing value with
  | nil => rw [Nat.ofDigitChars_nil, if_pos hvalue, readDigits]
  | cons c rest ih =>
      obtain ⟨hc, hrest⟩ := List.forall_mem_cons.mp hdigits
      have hdigit : digit? c = some (c.toNat - '0'.toNat) := if_pos hc
      rw [readDigits, hdigit, Nat.ofDigitChars_cons]
      simp only
      split
      · rename_i hle
        exact ih hrest hle
      · rename_i hgt
        have hgrows := le_ofDigitChars rest (10 * value + (c.toNat - '0'.toNat))
        rw [if_neg (by omega)]

theorem isDigit_of_mem_repr {n : Nat} {c : Char} (h : c ∈ (Nat.repr n).toList) :
    c.isDigit = true := by
  rw [Nat.toList_repr] at h
  exact Nat.isDigit_of_mem_toDigits (by decide) (by decide) h

theorem readNat_repr (limit n : Nat) :
    readNat limit (Nat.repr n).toList = if n ≤ limit then .ok n else .error .tooLarge := by
  have hdigits : ∀ c ∈ (Nat.repr n).toList, c.isDigit = true := fun c => isDigit_of_mem_repr
  have hvalue : Nat.ofDigitChars 10 (Nat.repr n).toList 0 = n := by
    rw [Nat.toList_repr, Nat.ofDigitChars_ten_toDigits]
  have hne : (Nat.repr n).toList ≠ [] := by
    rw [Nat.toList_repr]
    exact Nat.toDigits_ne_nil
  have hread : readDigits limit .tooLarge 0 (Nat.repr n).toList = _ :=
    readDigits_eq hdigits (Nat.zero_le limit)
  rw [hvalue] at hread
  rw [← hread]
  obtain ⟨c, rest, hsplit⟩ := List.exists_cons_of_ne_nil hne
  have hc : c ≠ '+' := ne_of_isDigit (hdigits c (hsplit ▸ List.mem_cons_self)) rfl
  rw [hsplit, readNat]
  · exact List.cons_ne_nil c rest
  · exact fun h => hc (List.cons.inj h).1
  · exact fun _ h => hc (List.cons.inj h).1

end Numerals

section Literals

variable {text digits fraction rest : List Char} {negative : Bool}

/-- The optional sign of a number, and whether it is a minus. -/
inductive SignMark : List Char → Bool → Prop
  | none : SignMark [] false
  | plus : SignMark ['+'] false
  | minus : SignMark ['-'] true

/-- The optional exponent part of a number. -/
inductive ExponentPart : List Char → Int → Prop
  | none : ExponentPart [] 0
  | given {mark : Char} {sign digits : List Char} {negative : Bool}
      (hmark : mark = 'e' ∨ mark = 'E') (hsign : SignMark sign negative)
      (hdigits : ∀ c ∈ digits, c.isDigit = true) (hne : digits ≠ []) :
      ExponentPart (mark :: (sign ++ digits))
        (if negative then -(Nat.ofDigitChars 10 digits 0 : Int) else Nat.ofDigitChars 10 digits 0)

/-- The optional point of a number with the digits behind it. -/
inductive FractionPart : List Char → List Char → Prop
  | none : FractionPart [] []
  | given {digits : List Char} (hdigits : ∀ c ∈ digits, c.isDigit = true) :
      FractionPart ('.' :: digits) digits

/-- Digits on at least one side of an optional point, with an optional exponent. -/
inductive Number : List Char → Magnitude → Prop
  | mk {whole point fraction tail : List Char} {exponent : Int}
      (hwhole : ∀ c ∈ whole, c.isDigit = true) (hfraction : FractionPart point fraction)
      (hsome : whole ≠ [] ∨ fraction ≠ []) (htail : ExponentPart tail exponent) :
      Number (whole ++ (point ++ tail))
        (.decimal (Nat.ofDigitChars 10 (whole ++ fraction) 0) (exponent - fraction.length))

/-- The words among the literals. -/
def words : List (String × Magnitude) :=
  [("nan", .notANumber), ("inf", .infinite), ("infinity", .infinite)]

/-- A literal without its sign: a word in any case, or a number. -/
inductive Unsigned : List Char → Magnitude → Prop
  | word {text : List Char} {word : String} {m : Magnitude} (hword : (word, m) ∈ words)
      (h : text.map Char.toLower = word.toList) : Unsigned text m
  | number {text : List Char} {m : Magnitude} (h : Number text m) : Unsigned text m

/-- The float that a literal without its sign stands for. -/
def Magnitude.value : Magnitude → Float
  | .notANumber => 0.0 / 0.0
  | .infinite => 1.0 / 0.0
  | .decimal digits exponent => scientific digits exponent

/-- A float literal and the float that it stands for. -/
inductive Literal : List Char → Float → Prop
  | mk {sign text : List Char} {negative : Bool} {m : Magnitude} (hsign : SignMark sign negative)
      (htext : Unsigned text m) :
      Literal (sign ++ text) (if negative then -m.value else m.value)

theorem Magnitude.toFloat_eq_value (m : Magnitude) : m.toFloat = m.value := by
  cases m with
  | notANumber => rfl
  | infinite => rfl
  | decimal digits exponent => exact nearestDecimal_eq_scientific digits exponent

theorem exists_signMark (h : splitSign text = (negative, rest)) :
    ∃ sign, SignMark sign negative ∧ text = sign ++ rest := by
  rw [splitSign.eq_def] at h
  split at h
  · cases h
    exact ⟨_, .minus, rfl⟩
  · cases h
    exact ⟨_, .plus, rfl⟩
  · cases h
    exact ⟨_, .none, rfl⟩

/-- A sign is split off in front of what has no sign itself. -/
theorem SignMark.splitSign_append {sign : List Char} (h : SignMark sign negative)
    (hrest : ∀ c ∈ rest.head?, c ≠ '-' ∧ c ≠ '+') :
    splitSign (sign ++ rest) = (negative, rest) := by
  cases h with
  | none =>
      rw [List.nil_append, splitSign]
      · rintro others rfl
        exact (hrest '-' rfl).1 rfl
      · rintro others rfl
        exact (hrest '+' rfl).2 rfl
  | plus => rfl
  | minus => rfl

theorem exists_fractionPart (h : splitFraction text = (fraction, rest)) :
    ∃ point, FractionPart point fraction ∧ text = point ++ rest := by
  rw [splitFraction.eq_def] at h
  split at h
  · cases h
    exact ⟨_, .given fun c hc => List.mem_takeWhile_imp hc,
      congrArg ('.' :: ·) List.takeWhile_append_dropWhile.symm⟩
  · cases h
    exact ⟨_, .none, rfl⟩

theorem span_digits (hdigits : ∀ c ∈ digits, c.isDigit = true)
    (hrest : ∀ c ∈ rest.head?, c.isDigit = false) :
    (digits ++ rest).takeWhile Char.isDigit = digits ∧
      (digits ++ rest).dropWhile Char.isDigit = rest := by
  have hdrop : rest.dropWhile Char.isDigit = rest := Text.dropWhile_of_head hrest
  have htake : rest.takeWhile Char.isDigit = [] := by
    have hsplit : rest.takeWhile Char.isDigit ++ rest.dropWhile Char.isDigit = rest :=
      List.takeWhile_append_dropWhile
    rw [hdrop] at hsplit
    exact List.append_left_eq_self.mp hsplit
  rw [List.takeWhile_append_of_pos hdigits, List.dropWhile_append_of_pos hdigits, htake, hdrop,
    List.append_nil]
  exact ⟨rfl, rfl⟩

theorem FractionPart.splitFraction_append {point : List Char} (h : FractionPart point fraction)
    (hrest : ∀ c ∈ rest.head?, c.isDigit = false ∧ c ≠ '.') :
    splitFraction (point ++ rest) = (fraction, rest) := by
  cases h with
  | none =>
      rw [List.nil_append, splitFraction]
      rintro others rfl
      exact (hrest '.' rfl).2 rfl
  | given hdigits =>
      obtain ⟨htake, hdrop⟩ := span_digits hdigits fun c hc => (hrest c hc).1
      rw [List.cons_append, splitFraction, htake, hdrop]

theorem exponent?_mark {mark : Char} (hmark : mark = 'e' ∨ mark = 'E')
    (h : splitSign rest = (negative, digits)) :
    exponent? (mark :: rest) =
      if digits ≠ [] ∧ ∀ c ∈ digits, c.isDigit = true then
        some (if negative then -(Nat.ofDigitChars 10 digits 0 : Int)
          else Nat.ofDigitChars 10 digits 0)
      else none := by
  have hrefused : (digits.isEmpty || !digits.all Char.isDigit) = true ↔
      ¬ (digits ≠ [] ∧ ∀ c ∈ digits, c.isDigit = true) := by
    simp [Decidable.or_iff_not_imp_left]
  rw [exponent?, if_pos hmark, h]
  simp only [hrefused, ite_not]
  rfl

theorem exponent?_eq_some_iff {e : Int} : exponent? text = some e ↔ ExponentPart text e := by
  constructor
  · intro h
    cases text with
    | nil =>
        cases h
        exact .none
    | cons mark rest =>
        by_cases hmark : mark = 'e' ∨ mark = 'E'
        · obtain ⟨⟨negative, digits⟩, hsplit⟩ : ∃ parts, splitSign rest = parts := ⟨_, rfl⟩
          obtain ⟨sign, hsign, rfl⟩ := exists_signMark hsplit
          rw [exponent?_mark hmark hsplit, Option.ite_none_right_eq_some] at h
          obtain ⟨⟨hne, hdigits⟩, h⟩ := h
          cases h
          exact .given hmark hsign hdigits hne
        · rw [exponent?, if_neg hmark] at h
          cases h
  · intro h
    cases h with
    | none => rfl
    | given hmark hsign hdigits hne =>
        have hsplit := hsign.splitSign_append fun c hc =>
          have hc := hdigits c (List.mem_of_head? hc)
          ⟨ne_of_isDigit hc rfl, ne_of_isDigit hc rfl⟩
        rw [exponent?_mark hmark hsplit, if_pos ⟨hne, hdigits⟩]

/-- An exponent part does not go on with the digits or the point before it. -/
theorem ExponentPart.head {e : Int} (h : ExponentPart text e) :
    ∀ c ∈ text.head?, c.isDigit = false ∧ c ≠ '.' := by
  cases h with
  | none => nofun
  | given hmark hsign hdigits hne =>
      intro c hc
      cases hc
      rcases hmark with rfl | rfl <;> decide

theorem FractionPart.head {point : List Char} (h : FractionPart point fraction)
    (hrest : ∀ c ∈ rest.head?, c.isDigit = false) :
    ∀ c ∈ (point ++ rest).head?, c.isDigit = false := by
  cases h with
  | none => exact hrest
  | given hdigits =>
      intro c hc
      cases hc
      rfl

theorem decimal?_of_split {tail : List Char}
    (h : splitFraction (text.dropWhile Char.isDigit) = (fraction, tail)) :
    decimal? text =
      if text.takeWhile Char.isDigit ≠ [] ∨ fraction ≠ [] then
        (exponent? tail).map fun e =>
          .decimal (Nat.ofDigitChars 10 (text.takeWhile Char.isDigit ++ fraction) 0)
            (e - fraction.length)
      else none := by
  have hrefused : ((text.takeWhile Char.isDigit).isEmpty && fraction.isEmpty) = true ↔
      ¬ (text.takeWhile Char.isDigit ≠ [] ∨ fraction ≠ []) := by
    simp
  rw [decimal?, h]
  simp only [hrefused, ite_not]
  rfl

theorem decimal?_eq_some_iff {m : Magnitude} : decimal? text = some m ↔ Number text m := by
  constructor
  · intro h
    obtain ⟨⟨fraction, tail⟩, hsplit⟩ :
        ∃ parts, splitFraction (text.dropWhile Char.isDigit) = parts := ⟨_, rfl⟩
    obtain ⟨point, hfraction, hrest⟩ := exists_fractionPart hsplit
    rw [decimal?_of_split hsplit, Option.ite_none_right_eq_some, Option.map_eq_some_iff] at h
    obtain ⟨hsome, e, htail, rfl⟩ := h
    have hwhole : ∀ c ∈ text.takeWhile Char.isDigit, c.isDigit = true :=
      fun c hc => List.mem_takeWhile_imp hc
    have hnumber := Number.mk hwhole hfraction hsome (exponent?_eq_some_iff.mp htail)
    rwa [← hrest, List.takeWhile_append_dropWhile] at hnumber
  · rintro ⟨hwhole, hfraction, hsome, htail⟩
    obtain ⟨htake, hdrop⟩ := span_digits hwhole (hfraction.head fun c hc => (htail.head c hc).1)
    have hsplit := hfraction.splitFraction_append htail.head
    rw [← hdrop] at hsplit
    rw [decimal?_of_split hsplit, htake, if_pos hsome, exponent?_eq_some_iff.mpr htail]
    rfl

theorem isAlpha_of_words {word : String} {m : Magnitude} (hword : (word, m) ∈ words) :
    word.toList ≠ [] ∧ ∀ c ∈ word.toList, c.isAlpha = true := by
  have hall : ∀ entry ∈ words, entry.1.toList ≠ [] ∧ entry.1.toList.all Char.isAlpha = true := by
    decide
  exact (hall _ hword).imp_right List.all_eq_true.mp

theorem isAlpha_of_word {word : String} {m : Magnitude} (hword : (word, m) ∈ words)
    (h : text.map Char.toLower = word.toList) : ∀ c ∈ text, c.isAlpha = true := by
  intro c hc
  rw [← Char.isAlpha_toLower_eq_isAlpha]
  exact (isAlpha_of_words hword).2 _ (h ▸ List.mem_map_of_mem hc)

/-- A number starts with a digit or its point. -/
theorem Number.exists_head {m : Magnitude} (h : Number text m) :
    ∃ c ∈ text.head?, c.isDigit = true ∨ c = '.' := by
  cases h with
  | @mk whole point fraction tail exponent hwhole hfraction hsome htail =>
      cases whole with
      | cons c rest => exact ⟨c, rfl, .inl (hwhole c List.mem_cons_self)⟩
      | nil =>
          cases hfraction with
          | none => exact absurd rfl (hsome.resolve_left fun h => h rfl)
          | given hdigits => exact ⟨'.', rfl, .inr rfl⟩

theorem Number.ne_word {m w : Magnitude} (h : Number text m) {word : String}
    (hword : (word, w) ∈ words) : text.map Char.toLower ≠ word.toList := by
  intro heq
  obtain ⟨c, hc, hnumber⟩ := h.exists_head
  have halpha := isAlpha_of_word hword heq c (List.mem_of_head? hc)
  rcases hnumber with hdigit | rfl
  · rw [Text.isDigit_iff] at hdigit
    rw [Text.isAlpha_iff] at halpha
    omega
  · cases halpha

theorem magnitude?_eq_some_iff {m : Magnitude} : magnitude? text = some m ↔ Unsigned text m := by
  rw [magnitude?]
  constructor
  · intro h
    split at h
    · rename_i hnan
      cases h
      exact .word (.head _) hnan
    · split at h
      · rename_i hinf
        cases h
        exact hinf.elim (.word (.tail _ (.head _))) (.word (.tail _ (.tail _ (.head _))))
      · exact .number (decimal?_eq_some_iff.mp h)
  · intro h
    cases h with
    | word hword h =>
        simp only [words, List.mem_cons, Prod.mk.injEq, List.not_mem_nil, or_false] at hword
        rw [h]
        rcases hword with ⟨rfl, rfl⟩ | ⟨rfl, rfl⟩ | ⟨rfl, rfl⟩ <;> rfl
    | number h =>
        have hnan := h.ne_word (.head _)
        have hinf := h.ne_word (.tail _ (.head _))
        have hinfinity := h.ne_word (.tail _ (.tail _ (.head _)))
        rw [if_neg hnan, if_neg (not_or.mpr ⟨hinf, hinfinity⟩)]
        exact decimal?_eq_some_iff.mpr h

/-- A literal without its sign is not empty and has no second sign. -/
theorem Unsigned.exists_head {m : Magnitude} (h : Unsigned text m) :
    ∃ c ∈ text.head?, c ≠ '-' ∧ c ≠ '+' := by
  cases h with
  | word hword heq =>
      have halpha := isAlpha_of_word hword heq
      cases text with
      | nil => exact absurd heq.symm (isAlpha_of_words hword).1
      | cons c rest =>
          have hc := halpha c List.mem_cons_self
          refine ⟨c, rfl, ?_, ?_⟩
          · rintro rfl
            cases hc
          · rintro rfl
            cases hc
  | number h =>
      obtain ⟨c, hc, hdigit | rfl⟩ := h.exists_head
      · exact ⟨c, hc, ne_of_isDigit hdigit rfl, ne_of_isDigit hdigit rfl⟩
      · exact ⟨_, hc, by decide⟩

/-- What is read is what the grammar gives. -/
theorem readFloat_eq_ok_iff {x : Float} : readFloat text = .ok x ↔ Literal text x := by
  constructor
  · intro h
    obtain ⟨⟨negative, rest⟩, hsplit⟩ : ∃ parts, splitSign text = parts := ⟨_, rfl⟩
    obtain ⟨sign, hsign, rfl⟩ := exists_signMark hsplit
    rw [readFloat, hsplit] at h
    simp only at h
    split at h
    · cases h
    · split at h
      · cases h
      · rename_i m hm
        rw [m.toFloat_eq_value] at h
        cases h
        exact .mk hsign (magnitude?_eq_some_iff.mp hm)
  · intro h
    cases h with
    | @mk sign rest negative m hsign hrest =>
        obtain ⟨c, hc, hhead⟩ := hrest.exists_head
        have hsplit : splitSign (sign ++ rest) = (negative, rest) :=
          hsign.splitSign_append fun d hd => Option.mem_unique hc hd ▸ hhead
        have hne : (sign ++ rest).isEmpty ≠ true := by
          rw [Ne, List.isEmpty_iff, List.append_eq_nil_iff]
          rintro ⟨-, rfl⟩
          cases hc
        rw [readFloat, hsplit]
        simp only [if_neg hne, magnitude?_eq_some_iff.mpr hrest, m.toFloat_eq_value]

/-- Whether a character can stand in a literal. -/
def isMark (c : Char) : Bool :=
  c.isAlphanum || c == '-' || c == '+' || c == '.'

theorem isMark_of_isDigit {c : Char} (h : c.isDigit = true) : isMark c = true := by
  simp [isMark, Char.isAlphanum, h]

theorem SignMark.isMark {sign : List Char} (h : SignMark sign negative) :
    ∀ c ∈ sign, isMark c = true := by
  cases h with
  | none => nofun
  | plus => exact List.forall_mem_singleton.mpr rfl
  | minus => exact List.forall_mem_singleton.mpr rfl

theorem FractionPart.isMark {point : List Char} (h : FractionPart point fraction) :
    ∀ c ∈ point, isMark c = true := by
  cases h with
  | none => nofun
  | given hdigits =>
      exact List.forall_mem_cons.mpr ⟨rfl, fun c hc => isMark_of_isDigit (hdigits c hc)⟩

theorem ExponentPart.isMark {e : Int} (h : ExponentPart text e) : ∀ c ∈ text, isMark c = true := by
  cases h with
  | none => nofun
  | given hmark hsign hdigits hne =>
      refine List.forall_mem_cons.mpr ⟨by rcases hmark with rfl | rfl <;> rfl, ?_⟩
      exact List.forall_mem_append.mpr
        ⟨hsign.isMark, fun c hc => isMark_of_isDigit (hdigits c hc)⟩

theorem Unsigned.isMark {m : Magnitude} (h : Unsigned text m) : ∀ c ∈ text, isMark c = true := by
  cases h with
  | word hword heq =>
      intro c hc
      simp [Decimal.isMark, Char.isAlphanum, isAlpha_of_word hword heq c hc]
  | number h =>
      obtain ⟨hwhole, hfraction, -, htail⟩ := h
      exact List.forall_mem_append.mpr ⟨fun c hc => isMark_of_isDigit (hwhole c hc),
        List.forall_mem_append.mpr ⟨hfraction.isMark, htail.isMark⟩⟩

theorem Literal.isMark {x : Float} (h : Literal text x) : ∀ c ∈ text, isMark c = true := by
  obtain ⟨hsign, htext⟩ := h
  exact List.forall_mem_append.mpr ⟨hsign.isMark, htext.isMark⟩

end Literals

end MapTiles.Decimal
