import Courier.Proofs.Json.Reads
import Courier.Proofs.Text.Utf8

/-!
# Strings printed and read

What the printer escapes the reader takes back, for every character:

* `reads_letterEscape`, `reads_unicodeEscape`: an escape is read as the
  character it stands for;
* `reads_stringBytes`: the inside of a printed string spells the string;
* `reads_string`, `reads_text`: a printed string is read as itself.
-/

namespace Courier.Json.Reader

open Utf8 (bytes)

theorem hexDigit_digitChar {d : Nat} (small : d < 16) :
    hexDigit (UInt8.ofNat (Nat.digitChar d).toNat) = some d := by
  decide +revert

theorem digitChar_ascii {d : Nat} (small : d < 16) : (Nat.digitChar d).toNat ≤ 0x7F := by
  decide +revert

theorem reads_hexUnit {n : Nat} (control : n < 0x20) (rest : Bytes) :
    Reads hexUnit (bytes ['0', '0', Nat.digitChar (n / 16), Nat.digitChar (n % 16)]) n rest := by
  intro index
  have high : n / 16 < 16 := by omega
  have low : n % 16 < 16 := by omega
  have digits : bytes ['0', '0', Nat.digitChar (n / 16), Nat.digitChar (n % 16)] =
      [0x30, 0x30, UInt8.ofNat (Nat.digitChar (n / 16)).toNat,
        UInt8.ofNat (Nat.digitChar (n % 16)).toNat] := by
    rw [Utf8.bytes_cons_ascii (by decide), Utf8.bytes_cons_ascii (by decide),
      Utf8.bytes_cons_ascii (digitChar_ascii high), Utf8.bytes_cons_ascii (digitChar_ascii low)]
    rfl
  have zero : hexDigit 0x30 = some 0 := by decide
  rw [digits]
  simp [hexUnit, zero, hexDigit_digitChar high, hexDigit_digitChar low, Nat.div_add_mod']

theorem reads_unicodeEscape {n : Nat} (control : n < 0x20) (rest : Bytes) :
    Reads unicodeEscape (bytes ['0', '0', Nat.digitChar (n / 16), Nat.digitChar (n % 16)])
      (Char.ofNat n) rest := by
  apply (reads_hexUnit control _).last
  rw [if_neg (by simp; omega), if_neg (by simp; omega)]
  exact .pure _ _

theorem reads_letterEscape {b : UInt8} {c : Char} (letter : letterEscape b = some c)
    (rest : Bytes) : Reads escape [b] c rest := by
  apply Reads.step (reads_next b rest)
  simp only [letter]
  exact .pure _ _

/-- A character is escaped by a backslash and something that is read as it, or it stands for
itself and is neither a control, a quote nor a backslash. -/
theorem escapeChar_cases (c : Char) :
    (∃ tail, escapeChar c = '\\' :: tail ∧ ∀ rest, Reads escape (bytes tail) c rest) ∨
      (escapeChar c = [c] ∧ 0x20 ≤ c.toNat ∧ c.toNat ≠ 0x22 ∧ c.toNat ≠ 0x5C) := by
  have letter {x d : Char} (low : x.toNat ≤ 0x7F)
      (stands : letterEscape (UInt8.ofNat x.toNat) = some d) (rest : Bytes) :
      Reads escape (bytes [x]) d rest := by
    rw [Utf8.bytes_cons_ascii low]
    exact reads_letterEscape stands rest
  unfold escapeChar
  split
  · exact .inl ⟨_, rfl, letter (by decide) (by decide)⟩
  · exact .inl ⟨_, rfl, letter (by decide) (by decide)⟩
  · exact .inl ⟨_, rfl, letter (by decide) (by decide)⟩
  · exact .inl ⟨_, rfl, letter (by decide) (by decide)⟩
  · exact .inl ⟨_, rfl, letter (by decide) (by decide)⟩
  · exact .inl ⟨_, rfl, letter (by decide) (by decide)⟩
  · exact .inl ⟨_, rfl, letter (by decide) (by decide)⟩
  · next notQuote notBackslash _ _ _ _ _ =>
    split
    · next control =>
      refine .inl ⟨_, rfl, ?_⟩
      intro rest
      have control : c.toNat < 0x20 := control
      rw [Utf8.bytes_cons_ascii (by decide)]
      apply Reads.step (reads_next _ _)
      have spelled := reads_unicodeEscape control rest
      rwa [Char.ofNat_toNat] at spelled
    · next printable =>
      refine .inr ⟨rfl, Nat.le_of_not_lt printable, ?_, ?_⟩
      · intro same
        exact notQuote (Char.toNat_inj.mp same)
      · intro same
        exact notBackslash (Char.toNat_inj.mp same)

theorem reads_plain {plain more out rest : Bytes} {steps : Nat}
    (free : ∀ b ∈ plain, 0x20 ≤ b.toNat ∧ b.toNat ≠ 0x22 ∧ b.toNat ≠ 0x5C)
    (behind : Reads (stringBytes steps) more out rest) :
    Reads (stringBytes (plain.length + steps)) (plain ++ more) (plain ++ out) rest := by
  induction plain with
  | nil => simpa using behind
  | cons b plain ih =>
    obtain ⟨control, quote, backslash⟩ := free b List.mem_cons_self
    have ih := ih (by
      intro x member
      exact free x (List.mem_cons_of_mem _ member))
    have quote : (b == 0x22) = false := by
      rw [beq_eq_false_iff_ne, Ne, ← UInt8.toNat_inj]
      exact quote
    have backslash : (b == 0x5C) = false := by
      rw [beq_eq_false_iff_ne, Ne, ← UInt8.toNat_inj]
      exact backslash
    have control : ¬ b < 0x20 := by
      rw [UInt8.lt_iff_toNat_lt]
      exact Nat.not_lt.mpr control
    rw [List.length_cons, Nat.add_right_comm]
    apply Reads.look (reads_peek _)
    simp only [List.cons_append, List.head?_cons, quote, backslash, Bool.false_eq_true, ↓reduceIte]
    apply Reads.step (reads_eat b _)
    rw [if_neg control]
    exact Reads.last ih (.pure _ _)

/-- The inside of a printed string spells the string. Every round takes at least one byte. -/
theorem reads_stringBytes (cs : List Char) (rest : Bytes) {steps : Nat}
    (enough : (bytes (cs.flatMap escapeChar)).length < steps) :
    Reads (stringBytes steps) (bytes (cs.flatMap escapeChar)) (bytes cs) (0x22 :: rest) := by
  induction cs generalizing steps with
  | nil =>
    obtain ⟨steps, rfl⟩ := Nat.exists_eq_add_of_lt enough
    exact .look (reads_peek _) (.pure _ _)
  | cons c cs ih =>
    rw [List.flatMap_cons, Utf8.bytes_append] at enough ⊢
    rw [List.length_append] at enough
    obtain ⟨tail, escaped, spelled⟩ | ⟨itself, control, quote, backslash⟩ := escapeChar_cases c
    · rw [escaped, Utf8.bytes_cons_ascii (by decide)] at enough ⊢
      rw [List.length_cons] at enough
      obtain ⟨steps, rfl⟩ : ∃ n, steps = n + 1 := ⟨steps - 1, by omega⟩
      apply Reads.look (reads_peek _)
      apply Reads.step (reads_eat _ _)
      rw [Utf8.bytes_cons]
      apply (spelled _).bind
      exact (ih (by omega)).last (.pure _ _)
    · rw [itself, Utf8.bytes_cons, Utf8.bytes_nil, List.append_nil] at enough ⊢
      have room : (String.utf8EncodeChar c).length < steps :=
        Nat.lt_of_le_of_lt (Nat.le_add_right ..) enough
      obtain ⟨steps, rfl⟩ := Nat.exists_eq_add_of_lt room
      rw [Utf8.bytes_cons, Nat.add_assoc]
      apply reads_plain ?_ (ih (by omega))
      intro b member
      by_cases ascii : c.toNat ≤ 0x7F
      · rw [Utf8.encode_ascii ascii, List.mem_singleton] at member
        have same : b.toNat = c.toNat := by
          rw [member, UInt8.toNat_ofNat']
          omega
        omega
      · have high := Utf8.encode_high (by omega) b member
        omega

/-- A printed string is read as itself, from behind its opening quote. -/
theorem reads_string (s : String) (rest : Bytes) :
    Reads string (bytes (s.toList.flatMap escapeChar) ++ [0x22]) s rest := by
  apply Reads.look (reads_remaining _)
  refine (reads_stringBytes s.toList rest ?_).bind ?_
  · simp only [List.length_append]
    omega
  · rw [Utf8.decode?_bytes, String.ofList_toList]
    exact .step (reads_eat _ _) (.pure _ _)

theorem bytes_printString (s : String) :
    bytes (printString s) = 0x22 :: (bytes (s.toList.flatMap escapeChar) ++ [0x22]) := by
  rw [printString, List.cons_append, Utf8.bytes_cons_ascii (by decide), Utf8.bytes_append,
    Utf8.bytes_cons_ascii (by decide)]
  rfl

theorem reads_text (s : String) (rest : Bytes) : Reads text (bytes (printString s)) s rest := by
  rw [bytes_printString]
  apply Reads.anchored
  apply Reads.look (reads_peekToken (by decide) _)
  exact .step (reads_eat _ _) (reads_string s rest)

end Courier.Json.Reader
