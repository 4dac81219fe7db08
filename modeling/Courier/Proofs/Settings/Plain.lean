import Courier.Proofs.Text.Scan
import Courier.Settings.Variable
import Mathlib.Data.List.DropRight

/-!
# What texts are read as

A variable says a text, but not every text stands for itself:

* `Plain`: no blanks at the ends, no bracket or quote to open with, no flag and
  no number;
* `Plain.read`: such a text stands for itself, character for character;
* `read_digits`: digits stand for a number.
-/

namespace Courier

/-! ## Blanks at the ends -/

namespace Text

theorem isBlank_of_isAsciiBlank {c : Char} (ascii : isAsciiBlank c = true) :
    isBlank c = true := by
  simp only [isAsciiBlank, Bool.or_eq_true, beq_iff_eq] at ascii
  obtain (((rfl | rfl) | rfl) | rfl) | feed := ascii
  · decide
  · decide
  · decide
  · decide
  · simp [isBlank, feed]

/-- A text with no blanks at its ends begins with none, and no end of it is blank. -/
theorem ends_of_strip {cs : List Char} (stripped : strip isBlank cs = cs) :
    cs.dropWhile isAsciiBlank = cs ∧
      ∀ rest, rest <:+ cs → rest ≠ [] → rest.dropWhile isAsciiBlank ≠ [] := by
  have same : (cs.dropWhile isBlank).rdropWhile isBlank = cs := stripped
  have whole : cs.dropWhile isBlank = cs := by
    refine (List.dropWhile_suffix isBlank).eq_of_length_le ?_
    calc cs.length = ((cs.dropWhile isBlank).rdropWhile isBlank).length := by rw [same]
      _ ≤ (cs.dropWhile isBlank).length := (List.rdropWhile_prefix _ _).length_le
  rw [whole, List.rdropWhile_eq_self_iff] at same
  rw [List.dropWhile_eq_self_iff] at whole
  constructor
  · rw [List.dropWhile_eq_self_iff]
    exact fun some_ ascii => whole some_ (isBlank_of_isAsciiBlank ascii)
  · rintro rest ⟨before, rfl⟩ some_ blank
    have last := List.dropWhile_eq_nil_iff.mp blank _ (List.getLast_mem some_)
    apply same (List.append_ne_nil_of_right_ne_nil before some_)
    rw [List.getLast_append_of_ne_nil _ some_]
    exact isBlank_of_isAsciiBlank last

theorem strip_of_trim {raw : String} (trimmed : trim raw = raw) :
    strip isBlank raw.toList = raw.toList := by
  rw [← String.toList_ofList (l := strip _ _)]
  exact congrArg String.toList trimmed

theorem trim_eq_self {raw : String} (full : ∀ c ∈ raw.toList, isBlank c = false) :
    trim raw = raw := by
  have front : raw.toList.dropWhile isBlank = raw.toList := by
    rw [List.dropWhile_eq_self_iff]
    exact fun some_ blank => nomatch (full _ (List.getElem_mem some_)).symm.trans blank
  have back : raw.toList.rdropWhile isBlank = raw.toList := by
    rw [List.rdropWhile_eq_self_iff]
    exact fun some_ blank => nomatch (full _ (List.getLast_mem some_)).symm.trans blank
  have strip : strip isBlank raw.toList = raw.toList := by
    rw [strip, front]
    exact back
  rw [trim, strip, String.ofList_toList]

end Text

/-! ## What a variable says -/

namespace Settings.Variable

theorem value_succ (levels : Nat) (cs : List Char) :
    value (levels + 1) cs = (value.core levels (cs.dropWhile Text.isAsciiBlank)).bind fun found =>
      some (found.1, found.2.dropWhile Text.isAsciiBlank) := by
  rw [value]
  rfl

theorem core_bare {levels : Nat} {cs : List Char}
    (opens : ∀ c ∈ cs.head?, c ∉ ['{', '[', '"', '\''])
    (unflagged : ¬ "true".toList <+: cs ∧ ¬ "false".toList <+: cs) :
    value.core levels cs = some
      (bare (Text.strip Text.isBlank (cs.takeWhile fun c => !isSeparator c)),
        cs.dropWhile fun c => !isSeparator c) := by
  rw [value.core, Scan.orElse_of_none (Scan.bind_of_none (Scan.word_of_not unflagged.1)),
    Scan.orElse_of_none (Scan.bind_of_none (Scan.word_of_not unflagged.2)), Scan.bind_peek]
  refine Eq.trans (congrFun (?_ : _ = (do
    let text ← Scan.span fun c => !isSeparator c
    pure (bare (Text.strip Text.isBlank text)) : Scan Data)) cs) rfl
  split
  · next ahead => simp [ahead] at opens
  · next ahead => simp [ahead] at opens
  · next ahead => simp [ahead] at opens
  · next ahead => simp [ahead] at opens
  · rfl

/-- Texts that stand for themselves: no blanks at their ends, no bracket or quote to open with, no
flag and no number. -/
structure Plain (raw : String) : Prop where
  trimmed : Text.trim raw = raw
  opens : ∀ c ∈ raw.toList.head?, c ∉ ['{', '[', '"', '\'']
  unflagged : raw ≠ "true" ∧ raw ≠ "false"
  unnumbered : Decimal.pointed? raw.toList = none ∧ integer? raw.toList = none

-- The opening character is tested, not looked for among all there are.
instance (raw : String) : Decidable (Plain raw) :=
  decidable_of_iff (Text.trim raw = raw ∧
      (raw.toList.head?.all fun c => decide (c ∉ ['{', '[', '"', '\''])) = true ∧
      (raw ≠ "true" ∧ raw ≠ "false") ∧
      (Decimal.pointed? raw.toList = none ∧ integer? raw.toList = none)) (by
    constructor
    · rintro ⟨trimmed, opens, unflagged, unnumbered⟩
      refine ⟨trimmed, ?_, unflagged, unnumbered⟩
      intro c first
      rw [Option.mem_def.mp first] at opens
      exact of_decide_eq_true opens
    · rintro ⟨trimmed, opens, unflagged, unnumbered⟩
      refine ⟨trimmed, ?_, unflagged, unnumbered⟩
      cases first : raw.toList.head? with
      | none => rfl
      | some c => exact decide_eq_true (opens c first))

/-- A text that goes on after what it opens with is no value, unless only blanks are left. -/
theorem read_of_core {raw : String} {d : Data} {rest : List Char} (trimmed : Text.trim raw = raw)
    (opens : value.core raw.length raw.toList = some (d, rest)) (suffix : rest <:+ raw.toList) :
    read raw = if rest = [] then d else .text raw := by
  obtain ⟨front, ends⟩ := Text.ends_of_strip (Text.strip_of_trim trimmed)
  rw [read, Scan.whole, value_succ, front, opens]
  by_cases done : rest = []
  · subst done
    rfl
  · have more := ends rest suffix done
    simp only [Option.bind_some, if_neg done]
    split
    · next found => exact absurd (Prod.mk.inj (Option.some.inj found)).2 more
    · rfl

theorem read_bare {raw : String} (trimmed : Text.trim raw = raw)
    (opens : ∀ c ∈ raw.toList.head?, c ∉ ['{', '[', '"', '\''])
    (unflagged : ¬ "true".toList <+: raw.toList ∧ ¬ "false".toList <+: raw.toList) :
    read raw = if raw.toList.all (fun c => !isSeparator c) then bare raw.toList else .text raw := by
  rw [read_of_core trimmed (core_bare opens unflagged) (List.dropWhile_suffix _)]
  simp only [List.dropWhile_eq_nil_iff, List.all_eq_true]
  split
  · next all => rw [List.takeWhile_eq_self_iff.mpr all, Text.strip_of_trim trimmed]
  · rfl

theorem read_flagged {raw : String} (flag : Bool) (trimmed : Text.trim raw = raw)
    (opens : (toString flag).toList <+: raw.toList) (unflagged : raw ≠ toString flag) :
    read raw = .text raw := by
  obtain ⟨rest, whole⟩ := opens
  have core : value.core raw.length raw.toList = some (.bool flag, rest) := by
    rw [← whole, value.core]
    cases flag with
    | true => rfl
    | false => rfl
  have more : rest ≠ [] := by
    rintro rfl
    exact unflagged (String.toList_inj.mp (by rw [← whole, List.append_nil]))
  rw [read_of_core trimmed core ⟨_, whole⟩, if_neg more]

/-- A plain text stands for itself, character for character. -/
theorem Plain.read {raw : String} (plain : Plain raw) : read raw = .text raw := by
  obtain ⟨trimmed, opens, ⟨notTrue, notFalse⟩, pointed, integer⟩ := plain
  by_cases t : "true".toList <+: raw.toList
  · exact read_flagged true trimmed t notTrue
  · by_cases f : "false".toList <+: raw.toList
    · exact read_flagged false trimmed f notFalse
    · rw [read_bare trimmed opens ⟨t, f⟩, bare, pointed, integer, Option.getD_none,
        String.ofList_toList, ite_self]

theorem isDigit_ten {c : Char} (digit : Text.isDigit 10 c = true) :
    c ∈ ['0', '1', '2', '3', '4', '5', '6', '7', '8', '9'] := by
  obtain ⟨n, value, small⟩ : ∃ n, Text.digit? c = some n ∧ n < 10 := by
    simpa [Text.isDigit, Option.any_eq_true] using digit
  unfold Text.digit? at value
  split at value
  · next decimal =>
    simp only [Bool.and_eq_true, decide_eq_true_eq, Char.le_def, UInt32.le_iff_toNat_le] at decimal
    have low : 48 ≤ c.toNat := decimal.1
    have high : c.toNat ≤ 57 := decimal.2
    have all : ∀ n < 58, 48 ≤ n →
        Char.ofNat n ∈ ['0', '1', '2', '3', '4', '5', '6', '7', '8', '9'] := by decide
    have member := all c.toNat (by omega) low
    rwa [Char.ofNat_toNat] at member
  · split at value
    · have := Option.some.inj value
      omega
    · split at value
      · have := Option.some.inj value
        omega
      · cases value

theorem apart_of_isDigit {c : Char} (digit : Text.isDigit 10 c = true) :
    Text.isBlank c = false ∧ isSeparator c = false ∧
      c ∉ ['{', '[', '"', '\'', 't', 'f', '-', '+'] := by
  have all : ['0', '1', '2', '3', '4', '5', '6', '7', '8', '9'].all (fun c =>
      decide (Text.isBlank c = false ∧ isSeparator c = false ∧
        c ∉ ['{', '[', '"', '\'', 't', 'f', '-', '+'])) = true := by decide
  exact of_decide_eq_true (List.all_eq_true.mp all c (isDigit_ten digit))

/-- Digits stand for a number, whatever they are meant for. -/
theorem read_digits {raw : String} (some_ : raw.toList ≠ [])
    (digits : ∀ c ∈ raw.toList, Text.isDigit 10 c = true)
    (small : Text.digitsValue 10 raw.toList < 0x10000000000000000) :
    read raw = .unsigned (Text.digitsValue 10 raw.toList) := by
  obtain ⟨c, cs, first⟩ := List.exists_cons_of_ne_nil some_
  have lead := (apart_of_isDigit (digits c (first ▸ List.mem_cons_self))).2.2
  simp only [List.mem_cons, List.not_mem_nil, or_false, not_or] at lead
  obtain ⟨brace, bracket, quote, tick, t, f, minus, plus⟩ := lead
  have trimmed := Text.trim_eq_self fun c member => (apart_of_isDigit (digits c member)).1
  have plainly : raw.toList.all (fun c => !isSeparator c) = true := by
    rw [List.all_eq_true]
    intro c member
    rw [(apart_of_isDigit (digits c member)).2.1, Bool.not_false]
  have unsigned : Decimal.sign raw.toList = (false, raw.toList) := by
    rw [first, Decimal.sign.eq_def]
    grind
  have pointed : Decimal.pointed? raw.toList = none := by
    rw [Decimal.pointed?, unsigned]
    simp only
    rw [List.dropWhile_eq_nil_iff.mpr digits]
  have integer : integer? raw.toList = some (.unsigned (Text.digitsValue 10 raw.toList)) := by
    have value : digits? raw.toList = some (Text.digitsValue 10 raw.toList) := by
      simpa [digits?, some_] using digits
    simp [integer?, unsigned, value, small]
  rw [read_bare trimmed ?_ ?_, if_pos plainly, bare, pointed, integer, Option.getD_some]
  · simp [first, brace, bracket, quote, tick]
  · simp [first, Ne.symm t, Ne.symm f]

end Settings.Variable

end Courier
