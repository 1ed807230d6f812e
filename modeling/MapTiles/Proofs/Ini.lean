import MapTiles.Ini.Reader
import MapTiles.Proofs.Fallible
import MapTiles.Proofs.Text

/-!
Configuration texts of plain lines: empty lines, headers, and entries with the equals sign between
two spaces. Such a text is read as it is written. Where a cursor stands on a line plays no part, so
each reader is described by what is left of the text before it and after it.
-/

namespace MapTiles.Ini

namespace Cursor

@[simp] theorem rest_arrive (rest : List Char) (line column : Nat) :
    (arrive rest line column).rest = rest := by
  cases rest with
  | nil => rfl
  | cons c rest =>
      rw [arrive]
      split <;> rfl

@[simp] theorem rest_next (c : Cursor) : c.next.rest = c.rest.tail :=
  rest_arrive _ _ _

theorem rest_skipWhile (p : Char → Bool) (c : Cursor) :
    (c.skipWhile p).rest = c.rest.dropWhile p := by
  have hgo (text : List Char) (c : Cursor) (hc : c.rest = text) :
      (skipWhile.go p text c).rest = text.dropWhile p := by
    induction text generalizing c with
    | nil => exact hc
    | cons x rest ih =>
        rw [skipWhile.go, List.dropWhile_cons]
        split
        · exact ih c.next (by rw [rest_next, hc, List.tail_cons])
        · exact hc
  exact hgo c.rest c rfl

theorem skipBlanks_of_current? {c : Cursor} {x : Char} (hc : c.current? = some x)
    (hx : Text.isBlank x = false) : c.skipBlanks = c := by
  obtain ⟨rest, hrest⟩ := List.head?_eq_some_iff.mp hc
  rw [skipBlanks, hrest, skipBlanks.go, hx]
  rfl

/-- A newline is skipped together with what is skipped after it, unless the next line is
indented. -/
theorem skipBlanks_newline {c : Cursor} {rest : List Char} (hc : c.rest = '\n' :: rest)
    (hrest : ∀ x ∈ rest.head?, x ≠ ' ' ∧ x ≠ '\t') : c.skipBlanks = c.next.skipBlanks := by
  have hnext : c.next.rest = rest := by rw [rest_next, hc, List.tail_cons]
  rw [skipBlanks, skipBlanks, hnext, hc, skipBlanks.go, if_neg (by decide), if_neg]
  rintro ⟨-, hspace | htab⟩
  · exact (hrest _ hspace).1 rfl
  · exact (hrest _ htab).2 rfl

end Cursor

section Readers

variable {stops : Stops} {text after : List Char} {c : Cursor}

/-- Whether a text holds neither a stop nor a backslash, so that it is copied as it stands. -/
def Copied (stops : Stops) (text : List Char) : Prop :=
  ∀ x ∈ text, x ≠ '\x5c' ∧ some x ∉ stops

theorem readUntil_append (htext : Copied stops text) (hafter : after.head? ∈ stops)
    (hc : c.rest = text ++ after) :
    ∃ last, readUntil stops c = .ok (text, last) ∧ last.rest = after := by
  have hgo (rounds : Nat) (text : List Char) (c : Cursor) (htext : Copied stops text)
      (hc : c.rest = text ++ after) (hrounds : text.length < rounds) :
      ∃ last, readUntil.go stops rounds c = .ok (text, last) ∧ last.rest = after := by
    induction rounds generalizing text c with
    | zero => omega
    | succ rounds ih =>
        cases text with
        | nil =>
            have hstop : stops.contains c.current? = true := by
              rw [Cursor.current?, hc]
              exact List.contains_iff_mem.mpr hafter
            exact ⟨c, by rw [readUntil.go, if_pos hstop], hc⟩
        | cons x text =>
            obtain ⟨⟨hbackslash, hnone⟩, htext⟩ := List.forall_mem_cons.mp htext
            have hcurrent : c.current? = some x := by rw [Cursor.current?, hc]; rfl
            have hnext : c.next.rest = text ++ after := by rw [Cursor.rest_next, hc]; rfl
            obtain ⟨last, hread, hlast⟩ := ih text c.next htext hnext
              (by simpa using hrounds)
            refine ⟨last, ?_, hlast⟩
            rw [readUntil.go, hcurrent, if_neg (by simpa using hnone)]
            simp [hread]
  exact hgo _ text c htext hc (by rw [hc, List.length_append]; omega)

end Readers

section Lines

/-- A line of a text. -/
inductive Line where
  | empty
  | header (name : List Char)
  | entry (key value : List Char)
deriving DecidableEq

/-- A line as it is written. -/
def Line.text : Line → List Char
  | .empty => []
  | .header name => '[' :: name ++ [']']
  | .entry key value => key ++ " = ".toList ++ value

/-- Lines as they are written one below the other. A text that ends with a newline ends with an
empty line. -/
def textOf (lines : List Line) : List Char :=
  ['\n'].intercalate (lines.map Line.text)

/-- Whether a piece of a line stands for itself: it has no blanks at its ends, no line breaks and
no backslashes. -/
def Plain (text : List Char) : Prop :=
  Text.Trimmed text ∧ ∀ c ∈ text, c ≠ '\n' ∧ c ≠ '\r' ∧ c ≠ '\x5c'

instance (text : List Char) : Decidable (Plain text) :=
  inferInstanceAs (Decidable (_ ∧ _))

/-- Whether a line is read as it is written. A name must not hold the bracket that ends it, a key
none of the signs that end it, and the first character of a key or a value must not make it
something else: a comment, a header or a quoted part. -/
def Line.Plain : Line → Prop
  | .empty => True
  | .header name => Ini.Plain name ∧ ']' ∉ name
  | .entry key value =>
    Ini.Plain key ∧ key ≠ [] ∧ (∀ c ∈ key, c ≠ '=' ∧ c ≠ ':') ∧
      (∀ c ∈ key.head?, c ≠ ';' ∧ c ≠ '#' ∧ c ≠ '[') ∧
      Ini.Plain value ∧ ∀ c ∈ value.head?, c ≠ '\x22' ∧ c ≠ '\x27'

instance (line : Line) : Decidable line.Plain :=
  match line with
  | .empty => inferInstanceAs (Decidable True)
  | .header _ => inferInstanceAs (Decidable (_ ∧ _))
  | .entry _ _ => inferInstanceAs (Decidable (_ ∧ _))

/-- What has been read after one more line. -/
def Progress.readLine (p : Progress) : Line → Progress
  | .empty => p
  | .header name => p.openSection name
  | .entry key value => { p with key := key }.store value

end Lines

section Reading

variable {name key value after : List Char} {c : Cursor} {p : Progress}

theorem Plain.copied {stops : Stops} (h : Plain text) (hstops : ∀ x ∈ text, some x ∉ stops) :
    Copied stops text :=
  fun x hx => ⟨(h.2 x hx).2.2, hstops x hx⟩

theorem readItem_header (hplain : Plain name) (hname : ']' ∉ name)
    (hc : c.rest = '[' :: name ++ ']' :: after) :
    ∃ last, readItem p c '[' = .ok (p.openSection name, last, true) ∧ last.rest = after := by
  have hcopied : Copied sectionStops name := by
    refine hplain.copied fun x hx hstop => ?_
    obtain rfl := Option.some.inj (List.mem_singleton.mp hstop)
    exact hname hx
  have hnext : c.next.rest = name ++ ']' :: after := by rw [Cursor.rest_next, hc]; rfl
  obtain ⟨last, hread, hlast⟩ := readUntil_append hcopied (List.mem_singleton.mpr rfl) hnext
  refine ⟨last.next, ?_, by rw [Cursor.rest_next, hlast, List.tail_cons]⟩
  simp [readItem, readSection, hread, hplain.1.trim]

theorem readKey_append (hplain : Plain key) (hkey : ∀ x ∈ key, x ≠ '=' ∧ x ≠ ':')
    (hc : c.rest = key ++ ' ' :: '=' :: after) :
    ∃ last, readKey c = .ok (key, last) ∧ last.rest = '=' :: after := by
  have hcopied : Copied keyStops (key ++ [' ']) := by
    refine List.forall_mem_append.mpr ⟨hplain.copied fun x hx hstop => ?_, by decide⟩
    simp only [keyStops, List.mem_cons, Option.some.injEq, List.not_mem_nil, or_false] at hstop
    exact hstop.elim (hkey x hx).1 (hkey x hx).2
  have hrest : c.rest = (key ++ [' ']) ++ '=' :: after := by rw [hc, List.append_assoc]; rfl
  obtain ⟨last, hread, hlast⟩ := readUntil_append hcopied (by simp [keyStops]) hrest
  have htrim : Text.trim (key ++ [' ']) = key :=
    hplain.1.trim_padded (List.forall_mem_nil _) (by decide)
  refine ⟨last, ?_, hlast⟩
  simp [readKey, hread, htrim]

/-- A value runs to the end of its line. -/
theorem readValue_append (hplain : Plain value)
    (hvalue : ∀ x ∈ value.head?, x ≠ '\x22' ∧ x ≠ '\x27')
    (hafter : ∀ x ∈ after.head?, x = '\n') (hc : c.rest = '=' :: ' ' :: (value ++ after)) :
    ∃ last, readValue c = .ok (value, last) ∧ last.rest = after := by
  obtain ⟨first, hfirst⟩ :
      ∃ first, first = c.next.skipWhile fun x => Text.isBlank x && x != '\n' && x != '\r' := ⟨_, rfl⟩
  -- the value may be empty, and then the line ends here
  have hhead : ∀ x ∈ (value ++ after).head?,
      x = '\n' ∨ Text.isBlank x = false ∧ x ≠ '\x22' ∧ x ≠ '\x27' := by
    cases value with
    | nil => exact fun x hx => .inl (hafter x hx)
    | cons y rest =>
        intro x hx
        obtain rfl := Option.some.inj hx
        exact .inr ⟨hplain.1.1 y rfl, hvalue y rfl⟩
  have hrest : first.rest = value ++ after := by
    rw [hfirst, Cursor.rest_skipWhile, Cursor.rest_next, hc, List.tail_cons,
      List.dropWhile_cons_of_pos (by decide)]
    refine Text.dropWhile_of_head fun x hx => ?_
    rcases hhead x hx with rfl | ⟨hblank, -⟩
    · rfl
    · rw [hblank]
      rfl
  have hquote : ¬ (first.current? = some '\x22' ∨ first.current? = some '\x27') := by
    rw [Cursor.current?, hrest]
    rintro (hdouble | hsingle)
    · rcases hhead _ hdouble with heq | ⟨-, hne, -⟩
      · exact absurd heq (by decide)
      · exact hne rfl
    · rcases hhead _ hsingle with heq | ⟨-, -, hne⟩
      · exact absurd heq (by decide)
      · exact hne rfl
  have hcopied : Copied valueStops value := by
    refine hplain.copied fun x hx hstop => ?_
    obtain ⟨hnewline, hreturn, -⟩ := hplain.2 x hx
    simp [valueStops, hnewline, hreturn] at hstop
  have hend : after.head? ∈ valueStops := by
    cases hnext : after.head? with
    | none => decide
    | some x =>
        obtain rfl := hafter x hnext
        decide
  obtain ⟨last, hread, hlast⟩ := readUntil_append hcopied hend hrest
  refine ⟨last, ?_, hlast⟩
  rw [readValue, ← hfirst, readValue.go, if_neg hquote]
  simp [hread, hplain.1.trim]

/-- The first character of a key starts no other item. -/
theorem readItem_key (h : (Line.entry key value).Plain)
    (hc : c.rest = key ++ ' ' :: '=' :: after) :
    ∃ x last, c.current? = some x ∧ Text.isBlank x = false ∧
      readItem p c x = .ok ({ p with key := key }, last, true) ∧ last.rest = '=' :: after := by
  obtain ⟨hplain, hne, hkey, hfirst, -⟩ := h
  obtain ⟨last, hread, hlast⟩ := readKey_append hplain hkey hc
  obtain ⟨x, rest, rfl⟩ := List.exists_cons_of_ne_nil hne
  obtain ⟨hsemicolon, hhash, hbracket⟩ := hfirst x rfl
  obtain ⟨hequals, hcolon⟩ := hkey x List.mem_cons_self
  obtain ⟨hnewline, hreturn, -⟩ := hplain.2 x List.mem_cons_self
  have hblank : Text.isBlank x = false := hplain.1.1 x rfl
  have hspace : x ≠ ' ' := fun hx => absurd (hx ▸ hblank) (by decide)
  have htab : x ≠ '\t' := fun hx => absurd (hx ▸ hblank) (by decide)
  refine ⟨x, last, by rw [Cursor.current?, hc]; rfl, hblank, ?_, hlast⟩
  simp [readItem, hsemicolon, hhash, hbracket, hequals, hcolon, hspace, htab, hnewline, hreturn,
    hread]

theorem readItem_value (h : (Line.entry key value).Plain) (hp : p.key = key)
    (hafter : ∀ x ∈ after.head?, x = '\n') (hc : c.rest = '=' :: ' ' :: (value ++ after)) :
    ∃ last, readItem p c '=' = .ok (p.store value, last, true) ∧ last.rest = after := by
  obtain ⟨-, hne, -, -, hplain, hvalue⟩ := h
  obtain ⟨last, hread, hlast⟩ := readValue_append hplain hvalue hafter hc
  refine ⟨last, ?_, hlast⟩
  simp [readItem, hp, hne, hread]

theorem go_item {x : Char} {q : Progress} {last : Cursor} (rounds : Nat)
    (hc : c.current? = some x) (hitem : readItem p c x = .ok (q, last, true)) :
    parse.go (rounds + 1) p c = parse.go rounds q last.skipBlanks := by
  simp [parse.go, hc, hitem]

/-- Whether a text is read to some sections from wherever it stands, after what has been read
before it. -/
def Reads (p : Progress) (text : List Char) (sections : List Section) : Prop :=
  ∀ (rounds : Nat) (c : Cursor), c.rest = text → text.length < rounds →
    parse.go rounds p c.skipBlanks = .ok sections

variable {sections : List Section}

theorem reads_nil (p : Progress) : Reads p [] p.sections := by
  intro rounds c hc hrounds
  obtain ⟨n, rfl⟩ := Nat.exists_eq_add_of_lt hrounds
  have hblanks : c.skipBlanks = c := by rw [Cursor.skipBlanks, hc, Cursor.skipBlanks.go]
  rw [hblanks, parse.go, Cursor.current?, hc]
  rfl

theorem Reads.newline (h : Reads p text sections) (htext : ∀ x ∈ text.head?, x ≠ ' ' ∧ x ≠ '\t') :
    Reads p ('\n' :: text) sections := by
  intro rounds c hc hrounds
  rw [Cursor.skipBlanks_newline hc htext]
  exact h rounds c.next (by rw [Cursor.rest_next, hc, List.tail_cons])
    (Nat.lt_of_succ_lt hrounds)

/-- What is left of a text is read on from the end of a line. -/
theorem Reads.line {line : Line} (hline : line.Plain) (hafter : ∀ x ∈ after.head?, x = '\n')
    (h : Reads (p.readLine line) after sections) : Reads p (line.text ++ after) sections := by
  intro rounds c hc hrounds
  cases line with
  | empty => exact h rounds c hc hrounds
  | header name =>
      have hrest : c.rest = '[' :: name ++ ']' :: after := by
        rw [hc, Line.text, List.append_assoc]
        rfl
      have hcurrent : c.current? = some '[' := by rw [Cursor.current?, hrest]; rfl
      obtain ⟨last, hitem, hlast⟩ := readItem_header (p := p) hline.1 hline.2 hrest
      obtain ⟨n, rfl⟩ : ∃ n, rounds = n + 1 := ⟨rounds - 1, by omega⟩
      rw [Cursor.skipBlanks_of_current? hcurrent rfl, go_item n hcurrent hitem]
      refine h n last hlast ?_
      simp only [Line.text, List.length_append, List.length_cons] at hrounds
      omega
  | entry key value =>
      have hrest : c.rest = key ++ ' ' :: '=' :: ' ' :: (value ++ after) := by
        rw [hc, Line.text, List.append_assoc, List.append_assoc]
        rfl
      obtain ⟨x, middle, hx, hclear, hkey, hmiddle⟩ := readItem_key (p := p) hline hrest
      have hcurrent : middle.current? = some '=' := by rw [Cursor.current?, hmiddle]; rfl
      obtain ⟨last, hvalue, hlast⟩ := readItem_value (p := { p with key := key }) hline rfl hafter
        hmiddle
      have hlength : " = ".toList.length = 3 := rfl
      simp only [Line.text, List.length_append, hlength] at hrounds
      obtain ⟨n, rfl⟩ : ∃ n, rounds = n + 2 := ⟨rounds - 2, by omega⟩
      rw [Cursor.skipBlanks_of_current? hx hclear, go_item (n + 1) hx hkey,
        Cursor.skipBlanks_of_current? hcurrent rfl, go_item n hcurrent hvalue]
      exact h n last hlast (by omega)

/-- What follows the first line of a text. -/
def below : List Line → List Char
  | [] => []
  | lines => '\n' :: textOf lines

theorem textOf_cons (first : Line) (rest : List Line) :
    textOf (first :: rest) = first.text ++ below rest := by
  cases rest with
  | nil => exact (List.append_nil first.text).symm ▸ List.intercalate_singleton
  | cons second rest => simp [textOf, below, List.intercalate_cons_cons]

theorem head?_below (lines : List Line) : ∀ x ∈ (below lines).head?, x = '\n' := by
  intro x hx
  cases lines with
  | nil => nomatch hx
  | cons first rest => exact (Option.some.inj hx).symm

theorem Line.Plain.isBlank_head {line : Line} (h : line.Plain) :
    ∀ x ∈ line.text.head?, Text.isBlank x = false := by
  intro x hx
  cases line with
  | empty => nomatch hx
  | header name =>
      obtain rfl := Option.some.inj hx
      rfl
  | entry key value =>
      obtain ⟨hplain, hne, -⟩ := h
      obtain ⟨y, rest, rfl⟩ := List.exists_cons_of_ne_nil hne
      exact hplain.1.1 x hx

theorem Line.Plain.eq_empty {line : Line} (h : line.Plain) (htext : line.text = []) :
    line = .empty := by
  cases line with
  | empty => rfl
  | header name => nomatch htext
  | entry key value =>
      rw [Line.text, List.append_assoc] at htext
      exact absurd (List.append_eq_nil_iff.mp htext).1 h.2.1

/-- Plain lines are not indented. -/
theorem head?_textOf {lines : List Line} (hplain : ∀ line ∈ lines, line.Plain) :
    ∀ x ∈ (textOf lines).head?, x ≠ ' ' ∧ x ≠ '\t' := by
  intro x hx
  cases lines with
  | nil => nomatch hx
  | cons first rest =>
      rw [textOf_cons, List.head?_append] at hx
      rcases Option.or_eq_some_iff.mp hx with hfirst | ⟨-, hbelow⟩
      · have hblank := (hplain first List.mem_cons_self).isBlank_head x hfirst
        constructor <;> rintro rfl <;> exact absurd hblank (by decide)
      · rw [head?_below rest x hbelow]
        decide

theorem Reads.below {lines : List Line} (hplain : ∀ line ∈ lines, line.Plain)
    (h : Reads p (textOf lines) sections) : Reads p (below lines) sections := by
  cases lines with
  | nil => exact h
  | cons first rest => exact h.newline (head?_textOf hplain)

/-- A text of plain lines is read line by line. -/
theorem reads_textOf {lines : List Line} (hplain : ∀ line ∈ lines, line.Plain) (p : Progress) :
    Reads p (textOf lines) (lines.foldl Progress.readLine p).sections := by
  induction lines generalizing p with
  | nil => exact reads_nil p
  | cons first rest ih =>
      obtain ⟨hfirst, hrest⟩ := List.forall_mem_cons.mp hplain
      rw [textOf_cons]
      exact ((ih hrest (p.readLine first)).below hrest).line hfirst (head?_below rest)

/-- Blanks are not skipped before the first item of a text: a newline there is an item itself. -/
theorem parse_textOf {lines : List Line} (hplain : ∀ line ∈ lines, line.Plain) :
    parse (textOf lines) = .ok (lines.foldl Progress.readLine .start).sections := by
  have hstart (text : List Char) : (Cursor.start text).rest = text := Cursor.rest_arrive text 0 0
  cases lines with
  | nil => rfl
  | cons first rest =>
      obtain ⟨hfirst, hrest⟩ := List.forall_mem_cons.mp hplain
      cases hhead : first.text.head? with
      | some x =>
          have hcurrent : (Cursor.start (textOf (first :: rest))).current? = some x := by
            rw [Cursor.current?, hstart, textOf_cons, List.head?_append, hhead, Option.some_or]
          have hreads := reads_textOf hplain .start _ _ (hstart _) (Nat.lt_succ_self _)
          rwa [Cursor.skipBlanks_of_current? hcurrent (hfirst.isBlank_head x hhead)] at hreads
      | none =>
          obtain rfl := hfirst.eq_empty (List.head?_eq_none_iff.mp hhead)
          cases rest with
          | nil => rfl
          | cons second rest =>
              have htext : textOf (.empty :: second :: rest) = '\n' :: textOf (second :: rest) :=
                textOf_cons _ _
              have hcurrent :
                  (Cursor.start ('\n' :: textOf (second :: rest))).current? = some '\n' := by
                rw [Cursor.current?, hstart, List.head?_cons]
              rw [htext, parse, go_item _ hcurrent rfl]
              refine reads_textOf hrest .start _ _ ?_ (Nat.lt_succ_self _)
              rw [Cursor.rest_next, hstart, List.tail_cons]

end Reading

section Sections

/-- A section as lines: its header, and an entry for each of its values. -/
def Section.lines (s : Section) : List Line :=
  (s.name.map Line.header).toList ++ s.entries.map fun entry => .entry entry.1 entry.2

/-- Whether a section has a name and lines that are read as they are written. -/
def Section.Plain (s : Section) : Prop :=
  s.name.isSome = true ∧ ∀ line ∈ s.lines, line.Plain

instance (s : Section) : Decidable s.Plain :=
  inferInstanceAs (Decidable (_ ∧ _))

/-- Whether lines are those of some sections one after the other, with empty lines anywhere. -/
def Arranges (lines : List Line) (sections : List Section) : Prop :=
  lines.filter (· ≠ .empty) = sections.flatMap Section.lines

instance (lines : List Line) (sections : List Section) : Decidable (Arranges lines sections) :=
  inferInstanceAs (Decidable (_ = _))

variable {lines : List Line} {sections : List Section}

theorem Arranges.plain (h : Arranges lines sections) (hplain : ∀ s ∈ sections, s.Plain) :
    ∀ line ∈ lines, line.Plain := by
  intro line hline
  by_cases hempty : line = .empty
  · rw [hempty]
    trivial
  · have hkept : line ∈ sections.flatMap Section.lines := by
      rw [← h]
      exact List.mem_filter.mpr ⟨hline, decide_eq_true hempty⟩
    obtain ⟨s, hs, hmem⟩ := List.mem_flatMap.mp hkept
    exact (hplain s hs).2 line hmem

theorem foldl_readLine_filter (lines : List Line) (p : Progress) :
    (lines.filter (· ≠ .empty)).foldl Progress.readLine p = lines.foldl Progress.readLine p := by
  induction lines generalizing p with
  | nil => rfl
  | cons line rest ih => cases line <;> exact ih _

theorem foldl_readLine_entries (entries : List (List Char × List Char)) {p : Progress}
    (hp : p.key = []) :
    (entries.map fun entry => Line.entry entry.1 entry.2).foldl Progress.readLine p =
      { p with opened := { p.opened with entries := p.opened.entries ++ entries } } := by
  induction entries generalizing p with
  | nil => rw [List.append_nil]; rfl
  | cons entry rest ih =>
      rw [List.map_cons, List.foldl_cons, ih rfl]
      simp [Progress.readLine, Progress.store, hp]

/-- The lines of a section close the section before them. -/
theorem foldl_readLine_section {s : Section} (h : s.Plain) {p : Progress} (hp : p.key = []) :
    s.lines.foldl Progress.readLine p = ⟨p.closed ++ [p.opened], s, []⟩ := by
  obtain ⟨name, hname⟩ := Option.isSome_iff_exists.mp h.1
  rw [Section.lines, hname, List.foldl_append]
  have hopened : (p.openSection name).key = [] := hp
  refine (foldl_readLine_entries s.entries hopened).trans ?_
  simp [Progress.openSection, hp, ← hname]

theorem sections_foldl_readLine (hplain : ∀ s ∈ sections, s.Plain) {p : Progress}
    (hp : p.key = []) :
    ((sections.flatMap Section.lines).foldl Progress.readLine p).sections =
      p.sections ++ sections := by
  induction sections generalizing p with
  | nil => exact (List.append_nil _).symm
  | cons s rest ih =>
      obtain ⟨hs, hrest⟩ := List.forall_mem_cons.mp hplain
      rw [List.flatMap_cons, List.foldl_append, foldl_readLine_section hs hp, ih hrest rfl]
      simp [Progress.sections]

/-- Sections are read as they are written. Before the first of them stands the one without a name,
which has nothing in it. -/
theorem parse_of_arranges (hplain : ∀ s ∈ sections, s.Plain) (h : Arranges lines sections) :
    parse (textOf lines) = .ok (⟨none, []⟩ :: sections) := by
  rw [parse_textOf (h.plain hplain), ← foldl_readLine_filter, h,
    sections_foldl_readLine hplain rfl]
  rfl

end Sections

end MapTiles.Ini

namespace MapTiles

open Ini (Arranges Section)

/-- Whether a reader takes plain lines as they are written. In a section that is the only one of its
name, and in which every key stands once, it finds under each key the value that is written after
it, and nothing under any other key. -/
def SectionReader.Faithful (r : SectionReader) : Prop :=
  ∀ (lines : List Ini.Line) (before : List Section) (s : Section) (after : List Section)
    (name : List Char), Arranges lines (before ++ s :: after) →
    (∀ other ∈ before ++ s :: after, other.Plain) → s.name = some name →
    (∀ other ∈ before ++ after, other.name ≠ some name) → (s.entries.map Prod.fst).Nodup →
    ∃ file found, r.read (String.ofList (Ini.textOf lines)) = .ok file ∧
      r.entries? file (String.ofList name) = some found ∧
      ∀ key, r.value? found key = (s.value? key).map String.ofList

theorem Ini.reader_faithful : reader.Faithful := by
  intro lines before s after name harranged hplain hname hothers _
  have hread := parse_of_arranges hplain harranged
  have hfirst : ∀ other ∈ (⟨none, []⟩ : Section) :: before, ¬other.name = some name := by
    intro other hother
    rcases List.mem_cons.mp hother with rfl | hbefore
    · nofun
    · exact hothers other (List.mem_append_left _ hbefore)
  refine ⟨⟨none, []⟩ :: (before ++ s :: after), s, ?_, ?_, fun key => rfl⟩
  · simp only [reader, String.toList_ofList, hread]
  · simp only [reader, String.toList_ofList]
    rw [← List.cons_append, List.find?_append,
      List.find?_eq_none.mpr fun other hother => by simpa using hfirst other hother,
      Option.none_or]
    exact List.find?_cons_of_pos (decide_eq_true hname)

end MapTiles
