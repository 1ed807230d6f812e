import MapTiles.Text.Blank
import Mathlib.Data.List.DropRight

/-!
Characters by their codes, and white space around texts. A text between blanks is found again by
trimming if it neither starts nor ends with a blank itself, and every text is what trimming leaves
of it between blanks.
-/

namespace MapTiles.Text

variable {left right text : List Char}

theorem isDigit_iff {c : Char} : c.isDigit = true ↔ 48 ≤ c.toNat ∧ c.toNat ≤ 57 :=
  Bool.and_eq_true_iff.trans (and_congr decide_eq_true_iff decide_eq_true_iff)

theorem isAlpha_iff {c : Char} :
    c.isAlpha = true ↔ 65 ≤ c.toNat ∧ c.toNat ≤ 90 ∨ 97 ≤ c.toNat ∧ c.toNat ≤ 122 := by
  have hupper : c.isUpper = true ↔ 65 ≤ c.toNat ∧ c.toNat ≤ 90 := decide_eq_true_iff
  have hlower : c.isLower = true ↔ 97 ≤ c.toNat ∧ c.toNat ≤ 122 :=
    Bool.and_eq_true_iff.trans (and_congr decide_eq_true_iff decide_eq_true_iff)
  exact Bool.or_eq_true_iff.trans (or_congr hupper hlower)

theorem isBlank_of_isAlphanum {c : Char} (h : c.isAlphanum = true) : isBlank c = false := by
  rw [Char.isAlphanum, Bool.or_eq_true, isAlpha_iff, isDigit_iff] at h
  simp only [isBlank, Bool.or_eq_false_iff, decide_eq_false_iff_not, beq_eq_false_iff_ne]
  omega

/-- What all characters of a text have to meet is checked along the text. Without this instance it
might be checked on every character there is. -/
instance (priority := high) decidableForallMem (text : List Char) (p : Char → Prop)
    [DecidablePred p] : Decidable (∀ c ∈ text, p c) :=
  List.decidableBAll p text

instance (priority := high) decidableForallMem? (c? : Option Char) (p : Char → Prop)
    [DecidablePred p] : Decidable (∀ c ∈ c?, p c) :=
  Option.decidableForallMem c?

/-- Whether a text neither starts nor ends with white space. -/
def Trimmed (text : List Char) : Prop :=
  (∀ c ∈ text.head?, isBlank c = false) ∧ ∀ c ∈ text.getLast?, isBlank c = false

instance (text : List Char) : Decidable (Trimmed text) :=
  inferInstanceAs (Decidable (_ ∧ _))

theorem trimmed_of_forall (h : ∀ c ∈ text, isBlank c = false) : Trimmed text :=
  ⟨fun c hc => h c (List.mem_of_head? hc), fun c hc => h c (List.mem_of_getLast? hc)⟩

theorem dropWhile_of_head {p : Char → Bool} (h : ∀ c ∈ text.head?, p c = false) :
    text.dropWhile p = text := by
  cases text with
  | nil => rfl
  | cons c rest => rw [List.dropWhile_cons_of_neg (Bool.eq_false_iff.mp (h c rfl))]

theorem trimEnd_append_of_blank (h : ∀ c ∈ right, isBlank c = true) (text : List Char) :
    trimEnd (text ++ right) = trimEnd text := by
  have hreverse : ∀ c ∈ right.reverse, isBlank c = true :=
    fun c hc => h c (List.mem_reverse.mp hc)
  rw [trimEnd, trimEnd, List.reverse_append, List.dropWhile_append_of_pos hreverse]

theorem Trimmed.trimEnd (h : Trimmed text) : trimEnd text = text := by
  have hlast : ∀ c ∈ text.reverse.head?, isBlank c = false := by
    rw [List.head?_reverse]
    exact h.2
  rw [Text.trimEnd, dropWhile_of_head hlast, List.reverse_reverse]

/-- A text is found again between blanks. -/
theorem Trimmed.trim_padded (h : Trimmed text) (hleft : ∀ c ∈ left, isBlank c = true)
    (hright : ∀ c ∈ right, isBlank c = true) : trim (left ++ text ++ right) = text := by
  rw [trim, List.append_assoc, List.dropWhile_append_of_pos hleft]
  cases text with
  | nil =>
      have hnone : right.dropWhile isBlank = [] := List.dropWhile_eq_nil_iff.mpr hright
      rw [List.nil_append, hnone]
      rfl
  | cons c rest =>
      have hhead : ∀ d ∈ (c :: rest ++ right).head?, isBlank d = false := h.1
      rw [dropWhile_of_head hhead, trimEnd_append_of_blank hright, h.trimEnd]

theorem Trimmed.trim (h : Trimmed text) : Text.trim text = text := by
  simpa using h.trim_padded (List.forall_mem_nil _) (List.forall_mem_nil _)

/-- What trimming takes away are blanks. -/
theorem exists_padded (text : List Char) :
    ∃ left right, (∀ c ∈ left, isBlank c = true) ∧ (∀ c ∈ right, isBlank c = true) ∧
      text = left ++ trim text ++ right := by
  have htail : trim text ++ (text.dropWhile isBlank).rtakeWhile isBlank = text.dropWhile isBlank :=
    List.rdropWhile_append_rtakeWhile
  refine ⟨text.takeWhile isBlank, (text.dropWhile isBlank).rtakeWhile isBlank,
    fun c hc => List.mem_takeWhile_imp hc, fun c hc => List.mem_rtakeWhile_imp hc, ?_⟩
  rw [List.append_assoc, htail, List.takeWhile_append_dropWhile]

end MapTiles.Text
