import MapTiles.Config.File
import MapTiles.Proofs.Config
import MapTiles.Proofs.Decimal
import MapTiles.Proofs.Fallible
import MapTiles.Proofs.Ini

/-!
Settings read back from the text that they were written to. The section that holds them may leave
some out and list the others in any order, and stands among other sections with plain lines. The
text is accepted if and only if the numbers fit and, together with the standard values of those
left out, meet the rules for settings; the settings are then these numbers. No text at all gives
settings that break a rule.
-/

namespace MapTiles

theorem Setting.key_injective {a b : Setting} (h : a.key.toList = b.key.toList) : a = b := by
  cases a <;> cases b <;> first | rfl | exact absurd h (by decide)

namespace Config

/-- The number that a setting has unless told otherwise. Waits are counted in milliseconds. -/
def standardNumber : Setting → Nat
  | .maxLoads => 8
  | .minBackoff => 1000
  | .maxBackoff => 32000
  | .buckets => 20

/-- The settings with given numbers. -/
def ofNumbers (value : Setting → Nat) : Config where
  maxLoads := value .maxLoads
  minBackoff := Duration.ofMillis (value .minBackoff)
  maxBackoff := Duration.ofMillis (value .maxBackoff)
  buckets := value .buckets

/-- The section that lists some settings with their numbers. -/
def settingsSection (numbers : Setting → Nat) (shown : List Setting) : Ini.Section where
  name := some sectionName.toList
  entries := shown.map fun setting => (setting.key.toList, (Nat.repr (numbers setting)).toList)

/-- The number that is given for a setting, if it is among those shown. -/
def given (numbers : Setting → Nat) (shown : List Setting) (setting : Setting) : Option Nat :=
  if setting ∈ shown then some (numbers setting) else none

/-- A text with some settings in it. The section of the settings stands among other sections, and
empty lines stand anywhere. -/
structure Document where
  before : List Ini.Section
  numbers : Setting → Nat
  /-- The settings that are not left out, in the order in which they are listed. -/
  shown : List Setting
  after : List Ini.Section
  lines : List Ini.Line
  once : shown.Nodup
  plain : ∀ s ∈ before ++ after, s.Plain
  others : ∀ s ∈ before ++ after, s.name ≠ some sectionName.toList
  arranged : Ini.Arranges lines (before ++ settingsSection numbers shown :: after)

namespace Document

def text (d : Document) : String :=
  String.ofList (Ini.textOf d.lines)

/-- The number of a setting, the standard one if it is left out. -/
def value (d : Document) (setting : Setting) : Nat :=
  (given d.numbers d.shown setting).getD (standardNumber setting)

end Document

section Reading

variable {numbers : Setting → Nat} {shown : List Setting} {config : Config}

theorem ne_of_mem_repr {n : Nat} {c x : Char} (hc : c ∈ (Nat.repr n).toList)
    (hx : x.isDigit = false) : c ≠ x :=
  Decimal.ne_of_isDigit (Decimal.isDigit_of_mem_repr hc) hx

theorem plain_entry (setting : Setting) (n : Nat) :
    (Ini.Line.entry setting.key.toList (Nat.repr n).toList).Plain := by
  have hnumber : Ini.Plain (Nat.repr n).toList := by
    refine ⟨Text.trimmed_of_forall fun c hc => ?_, fun c hc => ?_⟩
    · have hdigit : c.isDigit = true := Decimal.isDigit_of_mem_repr hc
      exact Text.isBlank_of_isAlphanum ((Bool.or_eq_true _ _).mpr (.inr hdigit))
    · exact ⟨ne_of_mem_repr hc rfl, ne_of_mem_repr hc rfl, ne_of_mem_repr hc rfl⟩
  have hkey : Ini.Plain setting.key.toList ∧ setting.key.toList ≠ [] ∧
      (∀ c ∈ setting.key.toList, c ≠ '=' ∧ c ≠ ':') ∧
      ∀ c ∈ setting.key.toList.head?, c ≠ ';' ∧ c ≠ '#' ∧ c ≠ '[' := by
    cases setting <;> decide
  refine ⟨hkey.1, hkey.2.1, hkey.2.2.1, hkey.2.2.2, hnumber, fun c hc => ?_⟩
  have hmem := List.mem_of_head? hc
  exact ⟨ne_of_mem_repr hmem rfl, ne_of_mem_repr hmem rfl⟩

theorem plain_settingsSection (numbers : Setting → Nat) (shown : List Setting) :
    (settingsSection numbers shown).Plain := by
  refine ⟨rfl, fun line hline => ?_⟩
  rcases List.mem_append.mp hline with hheader | hentry
  · obtain rfl := List.mem_singleton.mp hheader
    decide
  · obtain ⟨entry, hmem, rfl⟩ := List.mem_map.mp hentry
    obtain ⟨setting, -, rfl⟩ := List.mem_map.mp hmem
    exact plain_entry setting _

theorem value?_settingsSection (numbers : Setting → Nat) (shown : List Setting)
    (setting : Setting) :
    (settingsSection numbers shown).value? setting.key =
      (given numbers shown setting).map fun n => (Nat.repr n).toList := by
  induction shown with
  | nil => rfl
  | cons first rest ih =>
      rw [Ini.Section.value?, settingsSection, List.map_cons, List.find?_cons]
      by_cases hfirst : first = setting
      · rw [hfirst, decide_eq_true rfl, given, if_pos List.mem_cons_self]
        rfl
      · rw [decide_eq_false fun h => hfirst (Setting.key_injective h)]
        refine ih.trans ?_
        simp only [given, List.mem_cons, Ne.symm hfirst, false_or]

/-- The values under the keys of a section, each as a text. -/
def lookup (s : Ini.Section) (key : String) : Option String :=
  (s.value? key).map String.ofList

theorem number?_settingsSection_eq_ok_iff {setting : Setting} {answer : Option Nat} :
    number? (lookup (settingsSection numbers shown)) setting = .ok answer ↔
      (setting ∈ shown → numbers setting ≤ largest setting) ∧
        answer = given numbers shown setting := by
  have htrim : Text.trim (Nat.repr (numbers setting)).toList = (Nat.repr (numbers setting)).toList :=
    (plain_entry setting (numbers setting)).2.2.2.2.1.1.trim
  rw [number?, lookup, value?_settingsSection, given]
  by_cases hshown : setting ∈ shown
  · simp only [if_pos hshown, Option.map_some, String.toList_ofList, htrim, Decimal.readNat_repr]
    by_cases hfits : numbers setting ≤ largest setting <;> simp [hshown, hfits, eq_comm]
  · simp [hshown, eq_comm]

/-- Settings are read if and only if each of them is. -/
theorem ofSection_eq_ok_iff {value? : String → Option String} :
    ofSection value? = .ok config ↔
      ∃ given : Setting → Option Nat, (∀ setting, number? value? setting = .ok (given setting)) ∧
        config = ofNumbers fun setting => (given setting).getD (standardNumber setting) := by
  have hwait (n : Option Nat) (standard : Nat) :
      (n.map Duration.ofMillis).getD (Duration.ofMillis standard) =
        Duration.ofMillis (n.getD standard) := by
    cases n <;> rfl
  constructor
  · intro h
    simp only [ofSection, bind_eq_ok_iff] at h
    obtain ⟨maxLoads, hloads, minBackoff, hmin, maxBackoff, hmax, buckets, hbuckets, h⟩ := h
    obtain ⟨given, hgiven⟩ : ∃ given : Setting → Option Nat,
        given = fun
          | .maxLoads => maxLoads
          | .minBackoff => minBackoff
          | .maxBackoff => maxBackoff
          | .buckets => buckets := ⟨_, rfl⟩
    refine ⟨given, fun setting => ?_, ?_⟩
    · rw [hgiven]
      cases setting
      · exact hloads
      · exact hmin
      · exact hmax
      · exact hbuckets
    · rw [hgiven, ← Except.ok.inj h, ofNumbers, ← hwait, ← hwait]
      rfl
  · rintro ⟨given, hgiven, rfl⟩
    simp only [ofSection, hgiven, ofNumbers, ← hwait]
    rfl

theorem ofSection_settingsSection_eq_ok_iff :
    ofSection (lookup (settingsSection numbers shown)) = .ok config ↔
      (∀ setting ∈ shown, numbers setting ≤ largest setting) ∧
        config = ofNumbers fun setting =>
          (given numbers shown setting).getD (standardNumber setting) := by
  simp only [ofSection_eq_ok_iff, number?_settingsSection_eq_ok_iff]
  constructor
  · rintro ⟨answers, hanswers, rfl⟩
    refine ⟨fun setting => (hanswers setting).1, ?_⟩
    rw [funext fun setting => (hanswers setting).2]
  · rintro ⟨hfits, rfl⟩
    exact ⟨given numbers shown, fun setting => ⟨hfits setting, rfl⟩, rfl⟩

theorem sound_ofNumbers_iff {value : Setting → Nat} :
    (ofNumbers value).Sound ↔
      1 ≤ value .maxLoads ∧ 1 ≤ value .buckets ∧ 1 ≤ value .minBackoff ∧
        value .minBackoff ≤ value .maxBackoff := by
  have hunit : 0 < Duration.millisecond := by decide
  constructor
  · rintro ⟨hloads, hbuckets, hmin, hle⟩
    exact ⟨hloads, hbuckets, Nat.pos_of_mul_pos_right hmin, Nat.le_of_mul_le_mul_right hle hunit⟩
  · rintro ⟨hloads, hbuckets, hmin, hle⟩
    exact ⟨hloads, hbuckets, Nat.mul_pos hmin hunit, Nat.mul_le_mul_right _ hle⟩

end Reading

variable {r : SectionReader}

/-- A faithful reader finds the section of the settings among the others. -/
theorem ofText_document (hr : r.Faithful) (d : Document) :
    ofText r d.text = (ofSection (lookup (settingsSection d.numbers d.shown))).bind validate := by
  have hkeys : ((settingsSection d.numbers d.shown).entries.map Prod.fst).Nodup := by
    rw [settingsSection, List.map_map]
    exact d.once.map fun _ _ h => Setting.key_injective h
  have hplain : ∀ s ∈ d.before ++ settingsSection d.numbers d.shown :: d.after, s.Plain := by
    intro s hs
    rcases List.mem_append.mp hs with hbefore | hrest
    · exact d.plain s (List.mem_append_left _ hbefore)
    · rcases List.mem_cons.mp hrest with rfl | hafter
      · exact plain_settingsSection _ _
      · exact d.plain s (List.mem_append_right _ hafter)
  obtain ⟨file, found, hread, hfound, hvalues⟩ :=
    hr d.lines d.before _ d.after sectionName.toList d.arranged hplain rfl d.others hkeys
  have hlookup : r.value? found = lookup (settingsSection d.numbers d.shown) := funext hvalues
  rw [String.ofList_toList] at hfound
  rw [ofText, Document.text, hread]
  simp only [hfound, hlookup]
  rfl

/-- Whatever a text holds, the settings that it gives meet every rule. -/
theorem validate_of_ofText {text : String} {config : Config} (h : ofText r text = .ok config) :
    config.validate = .ok config := by
  have hagain {c : Config} (hc : c.validate = .ok config) : config.validate = .ok config := by
    obtain ⟨hsound, rfl⟩ := validate_eq_ok_iff.mp hc
    exact validate_eq_ok_iff.mpr ⟨hsound, rfl⟩
  rw [ofText] at h
  split at h
  · cases h
  · split at h
    · exact hagain h
    · obtain ⟨c, -, hc⟩ := bind_eq_ok_iff.mp h
      exact hagain hc

/-- With a reader that takes plain lines as they are written, a text in which settings are listed in
any order, with some of them left out, among other sections of plain lines is accepted if and only
if every listed number fits its setting and the numbers, with the standard ones for the settings
left out, meet the rules. The settings read are then these numbers. And for every text at all, settings
that are read from it pass the check. -/
theorem settings_read_as_written (r : SectionReader) (hr : r.Faithful) :
    (∀ (d : Document) (config : Config), ofText r d.text = .ok config ↔
      (∀ setting ∈ d.shown, d.numbers setting ≤ largest setting) ∧
        (1 ≤ d.value .maxLoads ∧ 1 ≤ d.value .buckets ∧ 1 ≤ d.value .minBackoff ∧
          d.value .minBackoff ≤ d.value .maxBackoff) ∧
        config = ofNumbers d.value) ∧
    ∀ (text : String) (config : Config), ofText r text = .ok config →
      config.validate = .ok config := by
  refine ⟨fun d config => ?_, fun text config => validate_of_ofText⟩
  rw [ofText_document hr]
  refine bind_eq_ok_iff.trans ?_
  simp only [ofSection_settingsSection_eq_ok_iff, validate_eq_ok_iff]
  constructor
  · rintro ⟨c, ⟨hfits, rfl⟩, hsound, rfl⟩
    exact ⟨hfits, sound_ofNumbers_iff.mp hsound, rfl⟩
  · rintro ⟨hfits, hsound, rfl⟩
    exact ⟨_, ⟨hfits, rfl⟩, sound_ofNumbers_iff.mpr hsound, rfl⟩

/-- Settings at their limits, with the shortest wait left out, between two other sections. One of
these has a key of the settings with a number that would not do. -/
def limits : Document where
  before := [⟨some "map".toList, [("max_concurrent_loads".toList, "0".toList)]⟩]
  numbers
    | .maxLoads => Nat.pow 2 64 - 1
    | .minBackoff => 0
    | .maxBackoff => 1000
    | .buckets => Nat.pow 2 32 - 1
  shown := [.buckets, .maxLoads, .maxBackoff]
  after := [⟨some "other".toList, [("foo".toList, "bar".toList)]⟩]
  lines := [
    .header "map".toList,
    .entry "max_concurrent_loads".toList "0".toList,
    .empty,
    .header "source".toList,
    .entry "priority_buckets".toList "4294967295".toList,
    .entry "max_concurrent_loads".toList "18446744073709551615".toList,
    .entry "max_backoff_ms".toList "1000".toList,
    .header "other".toList,
    .entry "foo".toList "bar".toList,
    .empty]
  once := by decide
  plain := by decide
  others := by decide
  arranged := by decide

theorem settings_read_as_written_at_limits :
    Ini.reader.Faithful ∧
      limits.text = "[map]\nmax_concurrent_loads = 0\n\n[source]\npriority_buckets = 4294967295\n" ++
        "max_concurrent_loads = 18446744073709551615\nmax_backoff_ms = 1000\n" ++
        "[other]\nfoo = bar\n" ∧
      ofText Ini.reader limits.text =
        .ok ⟨18446744073709551615, 1000000000, 1000000000, 4294967295⟩ ∧
      validate ⟨18446744073709551615, 1000000000, 1000000000, 4294967295⟩ =
        .ok ⟨18446744073709551615, 1000000000, 1000000000, 4294967295⟩ := by
  obtain ⟨hwritten, hchecked⟩ := settings_read_as_written Ini.reader Ini.reader_faithful
  have hread : ofText Ini.reader limits.text = .ok (ofNumbers limits.value) :=
    (hwritten limits _).mpr ⟨by decide, by decide, rfl⟩
  exact ⟨Ini.reader_faithful, by decide +kernel, hread, hchecked _ _ hread⟩

end Config

end MapTiles
