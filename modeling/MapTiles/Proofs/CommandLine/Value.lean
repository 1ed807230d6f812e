import MapTiles.CommandLine.Value
import MapTiles.Proofs.Binary64
import MapTiles.Proofs.Decimal
import MapTiles.Proofs.Fallible

/-!
Bounds read from the command line. A text gives bounds if and only if it is four float literals
between commas, with blanks around them, and neither minimum is known to reach its maximum. As
nothing is known of a NaN, bounds with one in them are accepted too.
-/

namespace MapTiles.CommandLine

variable {text : List Char} {x : Float} {b : Bounds}

/-- A float literal between blanks. -/
inductive Coordinate : List Char → Float → Prop
  | mk {left literal right : List Char} {x : Float} (hleft : ∀ c ∈ left, Text.isBlank c = true)
      (hliteral : Decimal.Literal literal x) (hright : ∀ c ∈ right, Text.isBlank c = true) :
      Coordinate (left ++ literal ++ right) x

/-- Four coordinates between commas. -/
inductive Bounds.Written : List Char → Bounds → Prop
  | mk {minX minY maxX maxY : List Char} {b : Bounds} (hminX : Coordinate minX b.minX)
      (hminY : Coordinate minY b.minY) (hmaxX : Coordinate maxX b.maxX)
      (hmaxY : Coordinate maxY b.maxY) :
      Bounds.Written ([','].intercalate [minX, minY, maxX, maxY]) b

theorem fields_eq_splitOn (text : List Char) : fields text = text.splitOn ',' := by
  induction text with
  | nil => rfl
  | cons c rest ih =>
      rw [fields, ih, List.splitOn_cons_eq_if_modifyHead]
      by_cases hc : c = ','
      · rw [if_pos hc, if_pos (beq_iff_eq.mpr hc)]
      · obtain ⟨field, others, hfields⟩ := List.exists_cons_of_ne_nil (List.splitOn_ne_nil ',' rest)
        rw [if_neg hc, if_neg fun h => hc (beq_iff_eq.mp h), hfields, List.modifyHead_cons]

theorem isBlank_of_isMark {c : Char} (h : Decimal.isMark c = true) : Text.isBlank c = false := by
  simp only [Decimal.isMark, Bool.or_eq_true, beq_iff_eq] at h
  obtain ((h | rfl) | rfl) | rfl := h
  · exact Text.isBlank_of_isAlphanum h
  · rfl
  · rfl
  · rfl

theorem readCoordinate_eq_ok_iff : readCoordinate text = .ok x ↔ Coordinate text x := by
  have hread : readCoordinate text = .ok x ↔ Decimal.readFloat (Text.trim text) = .ok x := by
    rw [readCoordinate]
    split <;> simp [*]
  rw [hread, Decimal.readFloat_eq_ok_iff]
  constructor
  · intro h
    obtain ⟨left, right, hleft, hright, htext⟩ := Text.exists_padded text
    rw [htext]
    exact .mk hleft h hright
  · rintro ⟨hleft, hliteral, hright⟩
    have htrimmed := Text.trimmed_of_forall fun c hc => isBlank_of_isMark (hliteral.isMark c hc)
    rw [htrimmed.trim_padded hleft hright]
    exact hliteral

theorem Coordinate.not_comma (h : Coordinate text x) : ',' ∉ text := by
  obtain ⟨hleft, hliteral, hright⟩ := h
  intro hmem
  rcases List.mem_append.mp hmem with hmem | hmem
  · rcases List.mem_append.mp hmem with hmem | hmem
    · cases hleft ',' hmem
    · cases hliteral.isMark ',' hmem
  · cases hright ',' hmem

theorem Bounds.written_iff :
    Bounds.Written text b ↔
      List.Forall₂ Coordinate (fields text) [b.minX, b.minY, b.maxX, b.maxY] := by
  rw [fields_eq_splitOn]
  constructor
  · rintro ⟨hminX, hminY, hmaxX, hmaxY⟩
    rw [List.splitOn_intercalate ',' _ (List.cons_ne_nil _ _)]
    · exact .cons hminX (.cons hminY (.cons hmaxX (.cons hmaxY .nil)))
    · simp only [List.forall_mem_cons]
      exact ⟨hminX.not_comma, hminY.not_comma, hmaxX.not_comma, hmaxY.not_comma, nofun⟩
  · intro h
    have htext : [','].intercalate (text.splitOn ',') = text := List.intercalate_splitOn ','
    rw [← htext]
    simp only [List.forall₂_cons_right_iff, List.forall₂_nil_right_iff] at h
    obtain ⟨minX, _, hminX, ⟨minY, _, hminY, ⟨maxX, _, hmaxX, ⟨maxY, _, hmaxY, rfl, rfl⟩, rfl⟩,
      rfl⟩, hfields⟩ := h
    rw [hfields]
    exact .mk hminX hminY hmaxX hmaxY

/-- Bounds are read if and only if there are four coordinates and the check of their order finds
nothing. -/
theorem Bounds.read_eq_ok_iff :
    Bounds.read text = .ok b ↔
      List.Forall₂ Coordinate (fields text) [b.minX, b.minY, b.maxX, b.maxY] ∧
        ¬ b.maxX ≤ b.minX ∧ ¬ b.maxY ≤ b.minY := by
  simp only [Bounds.read, bind_eq_ok_iff, mapM_eq_ok_iff, readCoordinate_eq_ok_iff]
  constructor
  · rintro ⟨values, hvalues, h⟩
    split at h
    · split at h
      · cases h
      · rename_i hordered
        cases h
        simpa using And.intro hvalues hordered
    · cases h
  · rintro ⟨hvalues, hordered⟩
    refine ⟨_, hvalues, if_neg ?_⟩
    simpa using hordered

/-- A text gives bounds if and only if it is four float literals with blanks around them between
commas, and on both axes the minimum lies below the maximum or one of the two is a NaN. The bounds
are the values of the literals in their order. -/
theorem Bounds.read_as_written (text : List Char) (b : Bounds) :
    Bounds.read text = .ok b ↔
      Bounds.Written text b ∧
        (b.minX < b.maxX ∨ b.minX.isNaN = true ∨ b.maxX.isNaN = true) ∧
        (b.minY < b.maxY ∨ b.minY.isNaN = true ∨ b.maxY.isNaN = true) := by
  rw [Bounds.read_eq_ok_iff, Bounds.written_iff, ← Binary64.not_le_iff, ← Binary64.not_le_iff]

/-- Bounds may be accepted with neither minimum below its maximum. -/
example : (Bounds.read "NaN, 0,nan,nan".toList).toOption.any
    (fun b => !(decide (b.minX < b.maxX) || decide (b.minY < b.maxY))) = true := by
  decide +kernel

end MapTiles.CommandLine
