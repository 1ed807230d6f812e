import MapTiles.Template
import Mathlib.Data.List.Induction
import Mathlib.Logic.Function.Basic

/-!
What a template stands for. Read once from left to right, a text falls into characters that are
copied and placeholders that are replaced. Replacing one kind of placeholder after the other comes
to the same, because a number neither holds a placeholder nor completes one: it has no brace and no
letter, and there is always something of it.
-/

namespace MapTiles

/-- Whether a character is one that integers are written with. -/
def isNumeral (c : Char) : Bool :=
  c.isDigit || c == '-'

theorem isNumeral_of_mem_repr {n : Int} {c : Char} (h : c ∈ (Int.repr n).toList) :
    isNumeral c = true := by
  have hdigit {m : Nat} (hm : c ∈ (Nat.repr m).toList) : c.isDigit = true := by
    rw [Nat.toList_repr] at hm
    exact Nat.isDigit_of_mem_toDigits (by decide) (by decide) hm
  rw [isNumeral, Bool.or_eq_true, beq_iff_eq]
  cases n with
  | ofNat m => exact .inl (hdigit h)
  | negSucc m =>
      rw [Int.repr, String.toList_append, List.mem_append] at h
      rcases h with hsign | hrest
      · exact .inr (List.mem_singleton.mp hsign)
      · exact .inl (hdigit hrest)

theorem toList_repr_ne_nil (n : Int) : (Int.repr n).toList ≠ [] := by
  have hdigits (m : Nat) : (Nat.repr m).toList ≠ [] := by
    rw [Nat.toList_repr]
    exact Nat.toDigits_ne_nil
  cases n with
  | ofNat m => exact hdigits m
  | negSucc m =>
      rw [Int.repr, String.toList_append]
      exact List.append_ne_nil_of_right_ne_nil _ (hdigits _)

namespace Placeholder

/-- The placeholder that some characters are. -/
def ofToken? (token : List Char) : Option Placeholder :=
  all.find? fun p => decide (p.token = token)

theorem mem_all (p : Placeholder) : p ∈ all := by
  cases p <;> decide

theorem ofToken?_token (p : Placeholder) : ofToken? p.token = some p := by
  cases p <;> decide

theorem ofToken?_eq_some_iff {token : List Char} {p : Placeholder} :
    ofToken? token = some p ↔ token = p.token := by
  constructor
  · intro h
    rw [ofToken?, List.find?_eq_some_iff_append] at h
    exact (of_decide_eq_true h.1).symm
  · rintro rfl
    exact p.ofToken?_token

theorem token_injective {p q : Placeholder} (h : p.token = q.token) : p = q :=
  Option.some.inj (p.ofToken?_token.symm.trans (h ▸ q.ofToken?_token))

theorem letter_ne_brace (p : Placeholder) : p.letter ≠ '\x7b' := by
  cases p <;> decide

theorem isNumeral_letter (p : Placeholder) : isNumeral p.letter = false := by
  cases p <;> decide

theorem isNumeral_of_mem_value {p : Placeholder} {tile : Tile} {c : Char} (h : c ∈ p.value tile) :
    isNumeral c = true := by
  cases p <;> exact isNumeral_of_mem_repr h

theorem value_ne_nil (p : Placeholder) (tile : Tile) : p.value tile ≠ [] := by
  cases p <;> exact toList_repr_ne_nil _

theorem token_isPrefix_cons_iff {p : Placeholder} {a : Char} {text : List Char} :
    p.token <+: a :: text ↔ a = '\x7b' ∧ [p.letter, '\x7d'] <+: text := by
  rw [token, List.cons_prefix_cons, eq_comm]

section Substitution

variable (p : Placeholder) (value : List Char)

theorem substitute_token (rest : List Char) :
    p.substitute value (p.token ++ rest) = value ++ p.substitute value rest :=
  if_pos rfl

variable {p}

theorem substitute_cons {a : Char} {rest : List Char} (h : ¬p.token <+: a :: rest) :
    p.substitute value (a :: rest) = a :: p.substitute value rest := by
  match rest with
  | [] | [_] => rfl
  | b :: c :: rest =>
      apply if_neg
      intro htoken
      exact h ⟨rest, by rw [← htoken]; rfl⟩

/-- No placeholder starts where there is no opening brace. -/
theorem substitute_append {copied : List Char} (h : '\x7b' ∉ copied) (rest : List Char) :
    p.substitute value (copied ++ rest) = copied ++ p.substitute value rest := by
  induction copied with
  | nil => rfl
  | cons a copied ih =>
      have hnone : ¬p.token <+: a :: (copied ++ rest) := by
        intro htoken
        obtain ⟨rfl, -⟩ := token_isPrefix_cons_iff.mp htoken
        exact h List.mem_cons_self
      have hcopied : '\x7b' ∉ copied := fun hmem => h (List.mem_cons_of_mem a hmem)
      rw [List.cons_append, substitute_cons value hnone, ih hcopied, List.cons_append]

/-- Another placeholder is copied. -/
theorem substitute_other {q : Placeholder} (h : q ≠ p) (rest : List Char) :
    p.substitute value (q.token ++ rest) = q.token ++ p.substitute value rest := by
  have hnone : ¬p.token <+: q.token ++ rest := by
    intro htoken
    have hsame : p.token = q.token :=
      (List.prefix_of_prefix_length_le htoken (List.prefix_append _ _) (Nat.le_refl 3)).eq_of_length
        rfl
    exact h (token_injective hsame).symm
  have hcopied : '\x7b' ∉ [q.letter, '\x7d'] := by
    cases q <;> decide
  calc
    p.substitute value (q.token ++ rest)
      = '\x7b' :: p.substitute value ([q.letter, '\x7d'] ++ rest) := substitute_cons value hnone
    _ = q.token ++ p.substitute value rest := by rw [substitute_append value hcopied]; rfl

end Substitution

section Shown

variable {tile : Tile} {replaced : List Placeholder} {p : Placeholder}

/-- What stands for a placeholder once some of them have been replaced. -/
def shown (tile : Tile) (replaced : List Placeholder) (p : Placeholder) : List Char :=
  if p ∈ replaced then p.value tile else p.token

theorem shown_of_mem (h : p ∈ replaced) : p.shown tile replaced = p.value tile :=
  if_pos h

theorem shown_of_not_mem (h : p ∉ replaced) : p.shown tile replaced = p.token :=
  if_neg h

theorem shown_append (tile : Tile) (earlier : List Placeholder) (p : Placeholder) :
    shown tile (earlier ++ [p]) = Function.update (shown tile earlier) p (p.value tile) := by
  funext q
  by_cases hq : q = p
  · subst hq
    rw [Function.update_self]
    exact shown_of_mem (List.mem_append_right earlier (List.mem_singleton_self q))
  · rw [Function.update_of_ne hq, shown, shown]
    simp only [List.mem_append, List.mem_singleton, hq, or_false]

end Shown

end Placeholder

/-- A part of a template: a character that is copied, or a placeholder. -/
inductive Piece where
  | literal (c : Char)
  | hole (p : Placeholder)
deriving DecidableEq

namespace Template

/-- The pieces of a text, read once from left to right. -/
def pieces : List Char → List Piece
  | a :: b :: c :: rest =>
    match Placeholder.ofToken? [a, b, c] with
    | some p => .hole p :: pieces rest
    | none => .literal a :: pieces (b :: c :: rest)
  | short => short.map .literal

/-- The pieces one after the other, with a text for every placeholder. -/
def fill (value : Placeholder → List Char) (pieces : List Piece) : List Char :=
  pieces.flatMap fun
    | .literal c => [c]
    | .hole p => value p

theorem pieces_token (p : Placeholder) (rest : List Char) :
    pieces (p.token ++ rest) = .hole p :: pieces rest := by
  have hread : Placeholder.ofToken? ['\x7b', p.letter, '\x7d'] = some p := p.ofToken?_token
  rw [Placeholder.token, List.cons_append, List.cons_append, List.cons_append, List.nil_append,
    pieces, hread]

theorem pieces_cons {a : Char} {rest : List Char} (h : ∀ p : Placeholder, ¬p.token <+: a :: rest) :
    pieces (a :: rest) = .literal a :: pieces rest := by
  match rest with
  | [] | [_] => rfl
  | b :: c :: rest =>
      have hread : Placeholder.ofToken? [a, b, c] = none := by
        rw [Option.eq_none_iff_forall_ne_some]
        intro p hp
        exact h p ⟨rest, by rw [← Placeholder.ofToken?_eq_some_iff.mp hp]; rfl⟩
      rw [pieces, hread]

/-- A text is empty, or it starts with a placeholder, or with a character that starts none. -/
theorem token_induction {motive : List Char → Prop} (nil : motive [])
    (token : ∀ p rest, motive rest → motive (Placeholder.token p ++ rest))
    (literal : ∀ a rest, (∀ p : Placeholder, ¬p.token <+: a :: rest) → motive rest →
      motive (a :: rest))
    (text : List Char) : motive text := by
  induction hlength : text.length using Nat.strongRecOn generalizing text with
  | ind n ih =>
      subst hlength
      cases text with
      | nil => exact nil
      | cons a rest =>
          by_cases htoken : ∃ p : Placeholder, p.token <+: a :: rest
          · obtain ⟨p, after, hafter⟩ := htoken
            rw [← hafter]
            refine token p after (ih _ ?_ after rfl)
            rw [← hafter, List.length_append]
            exact Nat.lt_add_of_pos_left (Nat.succ_pos _)
          · exact literal a rest (not_exists.mp htoken) (ih _ (Nat.lt_succ_self _) rest rfl)

section Fill

variable (value : Placeholder → List Char)

@[simp] theorem fill_nil : fill value [] = [] :=
  rfl

@[simp] theorem fill_literal (c : Char) (rest : List Piece) :
    fill value (.literal c :: rest) = c :: fill value rest :=
  rfl

@[simp] theorem fill_hole (p : Placeholder) (rest : List Piece) :
    fill value (.hole p :: rest) = value p ++ fill value rest :=
  rfl

end Fill

/-- The pieces of a text hold all of it, in its order. -/
theorem fill_token_pieces (text : List Char) : fill Placeholder.token (pieces text) = text := by
  induction text using token_induction with
  | nil => rfl
  | token p rest ih => rw [pieces_token, fill_hole, ih]
  | literal a rest hnone ih => rw [pieces_cons hnone, fill_literal, ih]

/-- Whether every placeholder is left as it is or has a number in its place. -/
def Numbers (value : Placeholder → List Char) : Prop :=
  ∀ p, value p = p.token ∨ value p ≠ [] ∧ ∀ c ∈ value p, isNumeral c = true

section Passes

variable {value : Placeholder → List Char}

/-- What follows an opening brace in a placeholder comes from the template alone: nothing that is
put into it starts with such a character. -/
theorem eq_cons_of_fill_eq_cons (hvalue : Numbers value) {c : Char} (hbrace : c ≠ '\x7b')
    (hc : isNumeral c = false) {text filled : List Char}
    (hfill : fill value (pieces text) = c :: filled) :
    ∃ rest, text = c :: rest ∧ fill value (pieces rest) = filled := by
  induction text using token_induction with
  | nil => nomatch hfill
  | token p rest =>
      rw [pieces_token, fill_hole] at hfill
      rcases hvalue p with htoken | ⟨hsome, hnumeral⟩
      · rw [htoken] at hfill
        exact absurd (List.cons.inj hfill).1.symm hbrace
      · obtain ⟨d, digits, hdigits⟩ := List.exists_cons_of_ne_nil hsome
        rw [hdigits] at hfill
        obtain rfl : d = c := (List.cons.inj hfill).1
        have := hnumeral d (hdigits ▸ List.mem_cons_self)
        exact absurd (this.symm.trans hc) (by decide)
  | literal a rest hnone =>
      rw [pieces_cons hnone, fill_literal] at hfill
      obtain ⟨rfl, hrest⟩ := List.cons.inj hfill
      exact ⟨rest, rfl, hrest⟩

/-- Replacing a placeholder that is still there fills in its value and changes nothing else. -/
theorem substitute_fill (hvalue : Numbers value) {p : Placeholder} (hp : value p = p.token)
    (inserted text : List Char) :
    p.substitute inserted (fill value (pieces text)) =
      fill (Function.update value p inserted) (pieces text) := by
  induction text using token_induction with
  | nil => rfl
  | token q rest ih =>
      rw [pieces_token, fill_hole, fill_hole, ← ih]
      by_cases hsame : q = p
      · subst hsame
        rw [hp, Function.update_self, Placeholder.substitute_token]
      · rw [Function.update_of_ne hsame]
        rcases hvalue q with htoken | ⟨-, hnumeral⟩
        · rw [htoken, Placeholder.substitute_other inserted hsame]
        · refine Placeholder.substitute_append inserted (fun hbrace => ?_) _
          exact absurd (hnumeral _ hbrace) (by decide)
  | literal a rest hnone ih =>
      rw [pieces_cons hnone, fill_literal, fill_literal, ← ih]
      apply Placeholder.substitute_cons
      rw [Placeholder.token_isPrefix_cons_iff]
      rintro ⟨rfl, after, hafter⟩
      obtain ⟨middle, rfl, hmiddle⟩ := eq_cons_of_fill_eq_cons hvalue p.letter_ne_brace
        p.isNumeral_letter hafter.symm
      obtain ⟨last, rfl, -⟩ := eq_cons_of_fill_eq_cons hvalue (by decide) (by decide) hmiddle
      exact hnone p ⟨last, rfl⟩

theorem numbers_shown (tile : Tile) (replaced : List Placeholder) :
    Numbers (Placeholder.shown tile replaced) := by
  intro p
  by_cases hp : p ∈ replaced
  · rw [Placeholder.shown_of_mem hp]
    exact .inr ⟨p.value_ne_nil tile, fun _ => Placeholder.isNumeral_of_mem_value⟩
  · exact .inl (Placeholder.shown_of_not_mem hp)

/-- Placeholders are replaced one after the other, each of them once. -/
theorem foldl_substitute (tile : Tile) {replaced : List Placeholder} (hnodup : replaced.Nodup)
    (text : List Char) :
    replaced.foldl (fun text p => p.substitute (p.value tile) text) text =
      fill (Placeholder.shown tile replaced) (pieces text) := by
  induction replaced using List.reverseRecOn with
  | nil => exact (fill_token_pieces text).symm
  | append_singleton earlier p ih =>
      obtain ⟨hearlier, -, hnew⟩ := List.nodup_append.mp hnodup
      have hp : p ∉ earlier := fun hmem => hnew p hmem p (List.mem_singleton_self p) rfl
      rw [List.foldl_append, List.foldl_cons, List.foldl_nil, ih hearlier,
        substitute_fill (numbers_shown tile earlier) (Placeholder.shown_of_not_mem hp),
        Placeholder.shown_append]

end Passes

theorem text_of_parse {text : String} {t : Template} (h : parse text = .ok t) :
    t.text = text.toList := by
  unfold parse at h
  split at h
  case isFalse => nomatch h
  split at h
  case isFalse => nomatch h
  split at h
  case isFalse => nomatch h
  case isTrue =>
    obtain rfl := Except.ok.inj h
    rfl

theorem parse_eq_ok {text : String} (h : ∀ p : Placeholder, p.occursIn text.toList = true) :
    parse text = .ok ⟨text.toList, h⟩ := by
  simp only [parse, h, dite_true]

theorem nodup_all : Placeholder.all.Nodup := by
  decide

theorem key_eq_fill {text : String} {t : Template} (hparse : parse text = .ok t) (tile : Tile) :
    t.key tile = String.ofList (fill (Placeholder.value · tile) (pieces text.toList)) := by
  have hshown : Placeholder.shown tile Placeholder.all = (Placeholder.value · tile) := by
    funext p
    exact Placeholder.shown_of_mem p.mem_all
  rw [key, foldl_substitute tile nodup_all, text_of_parse hparse, hshown]

/-- The key of a tile is the template with every placeholder replaced by its number at once, in one
reading from left to right. The passes do not disturb each other: after each of them the text is the
template with the numbers of the placeholders replaced so far in their places, so nothing that one
pass has put in is changed by a later one. -/
theorem placeholders_replaced_at_once {text : String} {t : Template} (hparse : parse text = .ok t)
    (tile : Tile) :
    t.key tile = String.ofList (fill (Placeholder.value · tile) (pieces text.toList)) ∧
      ∀ n, let replaced := Placeholder.all.take n
        replaced.foldl (fun text p => p.substitute (p.value tile) text) text.toList =
          fill (Placeholder.shown tile replaced) (pieces text.toList) :=
  ⟨key_eq_fill hparse tile,
    fun n => foldl_substitute tile (nodup_all.sublist (List.take_sublist n _)) _⟩

/-- A template with braces that belong to no placeholder. Without a number between them, the first
of these would make a placeholder with what follows. -/
def bracedText : String :=
  "\x7b\x7bz\x7dx\x7d/\x7bx\x7d\x7by\x7d\x7by"

theorem placeholders_replaced_at_once_braced :
    ∃ t, parse bracedText = .ok t ∧
      t.key ⟨7, -3, 0, default⟩ = "\x7b0x\x7d/7-3\x7by" := by
  have hcomplete (p : Placeholder) : p.occursIn bracedText.toList = true := by
    cases p <;> decide
  have hparse := parse_eq_ok hcomplete
  refine ⟨_, hparse, ?_⟩
  rw [(placeholders_replaced_at_once hparse ⟨7, -3, 0, default⟩).1]
  decide

end Template

end MapTiles
