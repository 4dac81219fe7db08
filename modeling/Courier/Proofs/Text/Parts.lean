import Courier.Text.Blank
import Mathlib.Data.List.DropRight

/-!
# Parts of texts

A text is taken apart at separators, and blanks are dropped at its ends:

* `not_mem_of_parts`: no part has the separator in it;
* `parts_intercalate`: parts that are put together again come apart as they were;
* `Trimmed`: no blank stands at either end;
* `trimmed_trim`, `trim_of_trimmed`: this is so of what is left of a text, and then nothing more
  is dropped.
-/

namespace Courier.Text

/-! ## Separators -/

theorem splitAt_eq_splitOn (sep : Char) (cs : List Char) :
    splitAt (· == sep) cs = cs.splitOn sep := by
  induction cs with
  | nil => rfl
  | cons c cs ih =>
    rw [splitAt, ih, List.splitOn_cons_eq_if_modifyHead]
    cases parts : cs.splitOn sep with
    | nil => exact absurd parts (List.splitOn_ne_nil sep cs)
    | cons part rest => rfl

theorem not_mem_of_splitAt {p : Char → Bool} {cs part : List Char} (among : part ∈ splitAt p cs) :
    ∀ c ∈ part, p c = false := by
  induction cs generalizing part with
  | nil =>
    rw [splitAt, List.mem_singleton] at among
    simp [among]
  | cons c cs ih =>
    rw [splitAt] at among
    cases parts : splitAt p cs with
    | nil =>
      rw [parts] at among
      simp [List.mem_singleton.mp among]
    | cons first rest =>
      simp only [parts] at among ih
      cases separates : p c with
      | true =>
        simp only [separates, ↓reduceIte] at among
        obtain rfl | old := List.mem_cons.mp among
        · simp
        · exact ih old
      | false =>
        rw [if_neg (by simp [separates])] at among
        obtain rfl | old := List.mem_cons.mp among
        · exact List.forall_mem_cons.mpr ⟨separates, ih List.mem_cons_self⟩
        · exact ih (List.mem_cons_of_mem _ old)

theorem not_mem_of_parts {sep : Char} {s part : String} (among : part ∈ parts sep s) :
    sep ∉ part.toList := by
  obtain ⟨cs, there, rfl⟩ := List.mem_map.mp among
  rw [String.toList_ofList]
  intro member
  simpa using not_mem_of_splitAt there sep member

/-- Parts that are put together with separators come apart as they were. -/
theorem parts_intercalate {sep : Char} {texts : List String} (some_ : texts ≠ [])
    (free : ∀ s ∈ texts, sep ∉ s.toList) :
    parts sep ((String.singleton sep).intercalate texts) = texts := by
  have whole : (texts.map String.toList).map String.ofList = texts := by simp
  rw [parts, splitAt_eq_splitOn, String.toList_intercalate, String.toList_singleton,
    List.splitOn_intercalate, whole]
  · simpa using free
  · simpa using some_

/-! ## Blanks at the ends -/

theorem strip_eq (p : Char → Bool) (cs : List Char) :
    strip p cs = (cs.dropWhile p).rdropWhile p := rfl

/-- No blank stands at either end. -/
structure Trimmed (s : String) : Prop where
  first : ∀ c, s.toList.head? = some c → isBlank c = false
  last : ∀ c, s.toList.getLast? = some c → isBlank c = false

theorem trimmed_trim (s : String) : Trimmed (trim s) := by
  have begins : strip isBlank s.toList <+: s.toList.dropWhile isBlank := List.rdropWhile_prefix ..
  constructor
  case first =>
    intro c here
    rw [trim, String.toList_ofList] at here
    obtain ⟨rest, eq⟩ := begins
    have first : (s.toList.dropWhile isBlank).head? = some c := by
      rw [← eq, List.head?_append, here]
      rfl
    have stops := List.head?_dropWhile_not isBlank s.toList
    simpa [first] using stops
  case last =>
    intro c here
    rw [trim, String.toList_ofList, strip_eq] at here
    have some_ : (s.toList.dropWhile isBlank).rdropWhile isBlank ≠ [] := by
      intro none
      simp [none] at here
    obtain rfl := Option.some.inj ((List.getLast?_eq_some_getLast some_).symm.trans here)
    simpa using List.rdropWhile_last_not isBlank _ some_

theorem trim_of_trimmed {s : String} (trimmed : Trimmed s) : trim s = s := by
  have front : s.toList.dropWhile isBlank = s.toList := by
    rw [List.dropWhile_eq_self_iff]
    intro some_
    simp [trimmed.first _ (List.head?_eq_getElem?.trans (List.getElem?_eq_getElem some_))]
  have back : s.toList.rdropWhile isBlank = s.toList := by
    rw [List.rdropWhile_eq_self_iff]
    intro some_
    simp [trimmed.last _ (List.getLast?_eq_some_getLast some_)]
  rw [trim, strip_eq, front, back, String.ofList_toList]

theorem mem_of_trim {s : String} {c : Char} (member : c ∈ (trim s).toList) : c ∈ s.toList := by
  rw [trim, String.toList_ofList, strip_eq] at member
  exact (List.dropWhile_sublist _).subset ((List.rdropWhile_prefix ..).subset member)

end Courier.Text
