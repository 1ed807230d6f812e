import MapTiles.Proofs.Template
import Std.Data.String.ToInt

/-!
Which templates tell tiles apart. If a character that no integer is written with stands between any
two placeholders, the key of a tile determines its level, its column and its row. Digits may stand
next to a placeholder: the run of numerals that starts with its number is as long in both keys, and
ends in the same characters of the template.
-/

namespace MapTiles.Template

/-- Whether between any two placeholders of a text there is a character that no integer is written
with. Between placeholders that do not follow one another there always is, because of those in
between. -/
def Separated (text : List Char) : Prop :=
  ∀ (front : List Char) (p : Placeholder) (between : List Char) (q : Placeholder)
    (back : List Char), text = front ++ p.token ++ between ++ q.token ++ back →
      ∃ c ∈ between, isNumeral c = false

section Pieces

/-- Every place where a placeholder stands is found. -/
theorem pieces_append_token (front : List Char) (p : Placeholder) (back : List Char) :
    pieces (front ++ (p.token ++ back)) = pieces front ++ .hole p :: pieces back := by
  induction front using token_induction with
  | nil => exact pieces_token p back
  | token q rest ih =>
      rw [List.append_assoc, pieces_token, pieces_token, ih, List.cons_append]
  | literal a rest hnone ih =>
      rw [List.cons_append, pieces_cons hnone, pieces_cons, ih, List.cons_append]
      intro q hq
      obtain ⟨rfl, after, hafter⟩ := Placeholder.token_isPrefix_cons_iff.mp hq
      match rest with
      | [] => exact q.letter_ne_brace (List.cons.inj hafter).1
      | [_] => exact absurd (List.cons.inj (List.cons.inj hafter).2).1 (by decide)
      | b :: c :: rest =>
          obtain ⟨rfl, hclosing⟩ := List.cons.inj hafter
          obtain ⟨rfl, -⟩ := List.cons.inj hclosing
          exact hnone q ⟨rest, rfl⟩

theorem exists_append_token_of_occursIn {p : Placeholder} {text : List Char}
    (h : p.occursIn text = true) : ∃ front back, text = front ++ (p.token ++ back) := by
  induction text with
  | nil => nomatch h
  | cons a rest ih =>
      rw [Placeholder.occursIn, Bool.or_eq_true] at h
      rcases h with hstart | hrest
      · obtain ⟨back, hback⟩ := List.isPrefixOf_iff_prefix.mp hstart
        exact ⟨[], back, hback.symm⟩
      · obtain ⟨front, back, rfl⟩ := ih hrest
        exact ⟨a :: front, back, rfl⟩

theorem hole_mem_pieces {p : Placeholder} {text : List Char} (h : p.occursIn text = true) :
    .hole p ∈ pieces text := by
  obtain ⟨front, back, rfl⟩ := exists_append_token_of_occursIn h
  rw [pieces_append_token]
  exact List.mem_append_right _ List.mem_cons_self

theorem mem_of_literal_mem_pieces {c : Char} {text : List Char}
    (h : .literal c ∈ pieces text) : c ∈ text := by
  induction text using token_induction with
  | nil => nomatch h
  | token p rest ih =>
      rw [pieces_token] at h
      exact List.mem_append_right _ (ih (List.mem_of_ne_of_mem Piece.noConfusion h))
  | literal a rest hnone ih =>
      rw [pieces_cons hnone] at h
      rcases List.mem_cons.mp h with hhead | htail
      · obtain rfl := Piece.literal.inj hhead
        exact List.mem_cons_self
      · exact List.mem_cons_of_mem a (ih htail)

end Pieces

section Separators

/-- Whether no placeholder comes before the first character that no integer is written with. -/
def cleared : List Piece → Bool
  | [] => true
  | .literal c :: rest => !isNumeral c || cleared rest
  | .hole _ :: _ => false

/-- Whether what follows each placeholder is clear of others for long enough. -/
def spaced : List Piece → Bool
  | [] => true
  | .literal _ :: rest => spaced rest
  | .hole _ :: rest => cleared rest && spaced rest

theorem exists_numerals_of_not_cleared {text : List Char} (h : cleared (pieces text) = false) :
    ∃ between q back, text = between ++ (Placeholder.token q ++ back) ∧
      ∀ c ∈ between, isNumeral c = true := by
  induction text using token_induction with
  | nil => nomatch h
  | token p rest => exact ⟨[], p, rest, rfl, List.forall_mem_nil _⟩
  | literal a rest hnone ih =>
      rw [pieces_cons hnone, cleared, Bool.or_eq_false_iff, Bool.not_eq_false'] at h
      obtain ⟨between, q, back, rfl, hnumerals⟩ := ih h.2
      exact ⟨a :: between, q, back, rfl, List.forall_mem_cons.mpr ⟨h.1, hnumerals⟩⟩

theorem exists_separator_of_cleared {before after : List Piece} {q : Placeholder}
    (h : cleared (before ++ .hole q :: after) = true) :
    ∃ c, .literal c ∈ before ∧ isNumeral c = false := by
  induction before with
  | nil => nomatch h
  | cons piece rest ih =>
      cases piece with
      | hole p => nomatch h
      | literal c =>
          rw [List.cons_append, cleared, Bool.or_eq_true, Bool.not_eq_true'] at h
          rcases h with hseparates | hrest
          · exact ⟨c, List.mem_cons_self, hseparates⟩
          · obtain ⟨d, hd, hseparates⟩ := ih hrest
            exact ⟨d, List.mem_cons_of_mem _ hd, hseparates⟩

theorem cleared_of_spaced {before after : List Piece} {p : Placeholder}
    (h : spaced (before ++ .hole p :: after) = true) : cleared after = true := by
  induction before with
  | nil => exact (Bool.and_eq_true_iff.mp h).1
  | cons piece rest ih =>
      cases piece with
      | literal c => exact ih h
      | hole q => exact ih (Bool.and_eq_true_iff.mp h).2

theorem Separated.of_append (front : List Char) {text : List Char}
    (h : Separated (front ++ text)) : Separated text := by
  rintro earlier p between q back rfl
  exact h (front ++ earlier) p between q back (by simp only [List.append_assoc])

/-- Reading the pieces once is enough to see whether the placeholders are separated. -/
theorem separated_iff (text : List Char) : Separated text ↔ spaced (pieces text) = true := by
  constructor
  · intro h
    induction text using token_induction with
    | nil => rfl
    | literal a rest hnone ih =>
        rw [pieces_cons hnone]
        exact ih (h.of_append [a])
    | token p rest ih =>
        rw [pieces_token, spaced, Bool.and_eq_true]
        refine ⟨?_, ih (h.of_append p.token)⟩
        by_contra hblocked
        obtain ⟨between, q, back, rfl, hnumerals⟩ :=
          exists_numerals_of_not_cleared (Bool.eq_false_iff.mpr hblocked)
        obtain ⟨c, hc, hseparates⟩ := h [] p between q back (by simp)
        exact absurd ((hnumerals c hc).symm.trans hseparates) (by decide)
  · rintro h front p between q back rfl
    simp only [List.append_assoc, pieces_append_token] at h
    obtain ⟨c, hc, hseparates⟩ := exists_separator_of_cleared (cleared_of_spaced h)
    exact ⟨c, mem_of_literal_mem_pieces hc, hseparates⟩

instance (text : List Char) : Decidable (Separated text) :=
  decidable_of_iff _ (separated_iff text).symm

end Separators

section Numbers

variable {f g : Placeholder → List Char}

/-- The numerals at the start do not depend on what is filled in further on. -/
theorem takeWhile_fill_of_cleared {pieces : List Piece} (h : cleared pieces = true) :
    (fill f pieces).takeWhile isNumeral = (fill g pieces).takeWhile isNumeral := by
  induction pieces with
  | nil => rfl
  | cons piece rest ih =>
      cases piece with
      | hole p => nomatch h
      | literal c =>
          rw [cleared, Bool.or_eq_true, Bool.not_eq_true'] at h
          rw [fill_literal, fill_literal, List.takeWhile_cons, List.takeWhile_cons]
          rcases h with hseparates | hrest
          · rw [hseparates]
            rfl
          · rw [ih hrest]

/-- Numbers filled into spaced placeholders can be read off the result. -/
theorem eq_of_fill_eq_fill (hf : ∀ p, ∀ c ∈ f p, isNumeral c = true)
    (hg : ∀ p, ∀ c ∈ g p, isNumeral c = true) {pieces : List Piece} (hspaced : spaced pieces = true)
    (hfill : fill f pieces = fill g pieces) {p : Placeholder} (hp : .hole p ∈ pieces) :
    f p = g p := by
  induction pieces with
  | nil => nomatch hp
  | cons piece rest ih =>
      cases piece with
      | literal c =>
          have htail : fill f rest = fill g rest := (List.cons.inj hfill).2
          exact ih hspaced htail (List.mem_of_ne_of_mem Piece.noConfusion hp)
      | hole q =>
          obtain ⟨hcleared, hspaced⟩ := Bool.and_eq_true_iff.mp hspaced
          rw [fill_hole, fill_hole] at hfill
          have hvalue : f q = g q := by
            have hrun := congrArg (List.takeWhile isNumeral) hfill
            rw [List.takeWhile_append_of_pos (hf q), List.takeWhile_append_of_pos (hg q),
              takeWhile_fill_of_cleared hcleared] at hrun
            exact List.append_cancel_right hrun
          have htail : fill f rest = fill g rest := by
            rw [hvalue] at hfill
            exact List.append_cancel_left hfill
          rcases List.mem_cons.mp hp with hhere | hlater
          · exact Piece.hole.inj hhere ▸ hvalue
          · exact ih hspaced htail hlater

end Numbers

/-- If any two placeholders of a template are separated by a character that no integer is written
with, then tiles with the same key have the same level, column and row. -/
theorem key_determines_tile {text : String} {t : Template} (hparse : parse text = .ok t)
    (hseparated : Separated text.toList) {a b : Tile} (hkey : t.key a = t.key b) :
    a.level = b.level ∧ a.column = b.column ∧ a.row = b.row := by
  have hfill : fill (Placeholder.value · a) (pieces text.toList) =
      fill (Placeholder.value · b) (pieces text.toList) := by
    rw [key_eq_fill hparse, key_eq_fill hparse] at hkey
    exact String.ofList_injective hkey
  have hvalue (p : Placeholder) : p.value a = p.value b := by
    refine eq_of_fill_eq_fill (fun _ _ => Placeholder.isNumeral_of_mem_value)
      (fun _ _ => Placeholder.isNumeral_of_mem_value) ((separated_iff _).mp hseparated) hfill ?_
    rw [← text_of_parse hparse]
    exact hole_mem_pieces (t.complete p)
  have hnumber {m n : Int} (h : (Int.repr m).toList = (Int.repr n).toList) : m = n :=
    Int.repr_injective (String.toList_injective h)
  exact ⟨hnumber (hvalue .level), hnumber (hvalue .column), hnumber (hvalue .row)⟩

/-- A template with digits and a minus sign next to its placeholders. -/
def digitText : String :=
  "1\x7by\x7d-0/\x7bx\x7d2z3\x7bz\x7d"

/-- Two tiles of levels that differ in the nominal zoom alone. -/
theorem key_determines_tile_among_digits :
    ∃ t, parse digitText = .ok t ∧ Separated digitText.toList ∧
      ∃ a b : Tile, a ≠ b ∧ t.key a = "1-5-0/122z3-3" ∧ t.key b = "1-5-0/122z3-3" ∧
        a.level = b.level ∧ a.column = b.column ∧ a.row = b.row := by
  have hcomplete (p : Placeholder) : p.occursIn digitText.toList = true := by
    cases p <;> decide
  have hparse := parse_eq_ok hcomplete
  have hseparated : Separated digitText.toList := by decide
  let a : Tile := ⟨12, -5, -3, ⟨0⟩⟩
  let b : Tile := ⟨12, -5, -3, ⟨1⟩⟩
  have hkeys (tile : Tile) (hsame : tile = a ∨ tile = b) :
      Template.key ⟨digitText.toList, hcomplete⟩ tile = "1-5-0/122z3-3" := by
    rw [key_eq_fill hparse]
    rcases hsame with rfl | rfl <;> decide
  have ha := hkeys a (.inl rfl)
  have hb := hkeys b (.inr rfl)
  exact ⟨_, hparse, hseparated, a, b, by decide, ha, hb,
    key_determines_tile hparse hseparated (ha.trans hb.symm)⟩

end MapTiles.Template
