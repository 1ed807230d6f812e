import MapTiles.Loading

/-!
What is in a map keyed by tiles once a tile was put in or taken out, and how statements about all
tiles in it carry over.
-/

namespace MapTiles

namespace TileMap

variable {α : Type} {m : TileMap α} {t : Tile} {v : α} {p : Tile → Prop}

theorem getElem?_insert (m : TileMap α) (t u : Tile) (v : α) :
    (m.insert t v)[u]? = if t = u then some v else m[u]? := by
  rw [Std.ExtTreeMap.getElem?_insert]
  simp only [Std.compare_eq_iff_eq]

theorem getElem?_erase (m : TileMap α) (t u : Tile) :
    (m.erase t)[u]? = if t = u then none else m[u]? := by
  rw [Std.ExtTreeMap.getElem?_erase]
  simp only [Std.compare_eq_iff_eq]

theorem mem_insert_iff {u : Tile} : u ∈ m.insert t v ↔ t = u ∨ u ∈ m := by
  rw [Std.ExtTreeMap.mem_insert, Std.compare_eq_iff_eq]

theorem mem_erase_iff {u : Tile} : u ∈ m.erase t ↔ t ≠ u ∧ u ∈ m := by
  rw [Std.ExtTreeMap.mem_erase, ne_eq, Std.compare_eq_iff_eq]

theorem not_mem_erase_self (m : TileMap α) (t : Tile) : t ∉ m.erase t :=
  fun h => (mem_erase_iff.mp h).1 rfl

theorem forall_insert (hnew : p t) (hold : ∀ u ∈ m, p u) : ∀ u ∈ m.insert t v, p u := by
  intro u hu
  rcases mem_insert_iff.mp hu with rfl | hmem
  · exact hnew
  · exact hold u hmem

theorem forall_erase (hold : ∀ u ∈ m, p u) : ∀ u ∈ m.erase t, p u :=
  fun u hu => hold u (mem_erase_iff.mp hu).2

/-- Tiles that are not in a map are not in it either once another tile was put in. -/
theorem not_mem_insert (hnew : ¬p t) (hold : ∀ u, p u → u ∉ m) :
    ∀ u, p u → u ∉ m.insert t v := by
  intro u hu hmem
  rcases mem_insert_iff.mp hmem with rfl | hbefore
  · exact hnew hu
  · exact hold u hu hbefore

theorem not_mem_erase (hold : ∀ u, p u → u ∉ m) : ∀ u, p u → u ∉ m.erase t :=
  fun u hu hmem => hold u hu (mem_erase_iff.mp hmem).2

/-- The values come in the order of their tiles. -/
theorem values_eq (m : TileMap α) : m.values = m.toList.map Prod.snd := by
  have hvalues : m.values = m.foldr (fun _ v rest => v :: rest) [] := by
    obtain ⟨⟨inner⟩⟩ := m
    induction inner using Quotient.inductionOn with
    | h inner => rfl
  rw [hvalues, Std.ExtTreeMap.foldr_eq_foldr_toList]
  exact List.foldr_cons_eq_append.trans (List.append_nil _)

end TileMap

theorem TileSet.forall_insert {s : TileSet} {t : Tile} {p : Tile → Prop} (hnew : p t)
    (hold : ∀ u ∈ s, p u) : ∀ u ∈ s.insert t, p u := by
  intro u hu
  rw [Std.ExtTreeSet.mem_insert, Std.compare_eq_iff_eq] at hu
  rcases hu with rfl | hmem
  · exact hnew
  · exact hold u hmem

end MapTiles
