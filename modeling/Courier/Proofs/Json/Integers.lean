import Courier.Proofs.Json.Reads
import Courier.Proofs.Text.Utf8
import Mathlib.Data.List.TakeWhile

/-!
# Integers printed and read

The digits of an integer of 64 bits are read as that integer:

* `gather_eq`: digits are gathered to the number they write, if it fits;
* `reads_number`, `reads_negative`: printed digits are read as their number,
  where they end.
-/

namespace Courier.Json.Reader

open Utf8 (bytes)

/-- The number that digits write behind a number that was written before. -/
def writtenBy (significand : Nat) (ds : Bytes) : Nat :=
  ds.foldl (fun n d => n * 10 + digitOf d) significand

theorem writtenBy_cons (significand : Nat) (d : UInt8) (ds : Bytes) :
    writtenBy significand (d :: ds) = writtenBy (significand * 10 + digitOf d) ds :=
  List.foldl_cons ..

theorem writtenBy_concat (significand : Nat) (ds : Bytes) (d : UInt8) :
    writtenBy significand (ds ++ [d]) = writtenBy significand ds * 10 + digitOf d := by
  rw [writtenBy, writtenBy, List.foldl_append, List.foldl_cons, List.foldl_nil]

theorem le_writtenBy (significand : Nat) (ds : Bytes) : significand ≤ writtenBy significand ds := by
  induction ds generalizing significand with
  | nil => exact Nat.le_refl _
  | cons d ds ih =>
    have more := ih (significand * 10 + digitOf d)
    rw [writtenBy_cons]
    omega

/-- No digit is dropped from a number below 2^64. -/
theorem gather_eq {significand : Nat} {ds : Bytes}
    (fits : writtenBy significand ds < 0x10000000000000000) :
    gather significand ds = (writtenBy significand ds, []) := by
  induction ds generalizing significand with
  | nil => rfl
  | cons d ds ih =>
    rw [writtenBy_cons] at fits ⊢
    have small := Nat.lt_of_le_of_lt (le_writtenBy _ ds) fits
    rw [gather]
    simp only [small, ↓reduceIte]
    exact ih fits

theorem digit_byte {d : Nat} (small : d < 10) :
    String.utf8EncodeChar (Nat.digitChar d) = [UInt8.ofNat (d + 0x30)] := by
  decide +revert

theorem byte_ne_zero {d : Nat} (small : d < 10) (nonzero : d ≠ 0) :
    (UInt8.ofNat (d + 0x30) == 0x30) = false := by
  decide +revert

theorem digitOf_byte {d : Nat} (small : d < 10) :
    isDigit (UInt8.ofNat (d + 0x30)) = true ∧ digitOf (UInt8.ofNat (d + 0x30)) = d := by
  decide +revert

/-- The bytes of a number in decimal: the first is no zero unless it stands alone. -/
theorem bytes_toDigits (n : Nat) : ∃ d ds, d < 10 ∧ (d = 0 → n = 0 ∧ ds = []) ∧
    (∀ b ∈ ds, isDigit b = true) ∧ writtenBy d ds = n ∧
    bytes (Nat.toDigits 10 n) = UInt8.ofNat (d + 0x30) :: ds := by
  induction n using Nat.strongRecOn with
  | ind n ih =>
    by_cases small : n < 10
    · refine ⟨n, [], small, fun zero => ⟨zero, rfl⟩, nofun, rfl, ?_⟩
      rw [Nat.toDigits_of_lt_base small, Utf8.bytes_cons, digit_byte small]
      rfl
    · obtain ⟨d, ds, small, nonzero, digits, value, eq⟩ := ih (n / 10) (by omega)
      have last : n % 10 < 10 := Nat.mod_lt _ (by decide)
      obtain ⟨isDigit_last, value_last⟩ := digitOf_byte last
      refine ⟨d, ds ++ [UInt8.ofNat (n % 10 + 0x30)], small, ?_, ?_, ?_, ?_⟩
      · intro zero
        obtain ⟨none, -⟩ := nonzero zero
        omega
      · intro b member
        obtain member | member := List.mem_append.mp member
        · exact digits b member
        · exact (List.mem_singleton.mp member) ▸ isDigit_last
      · rw [writtenBy_concat, value, value_last]
        omega
      · rw [Nat.toDigits_of_base_le (by decide) (by omega), Utf8.bytes_append, eq, Utf8.bytes_cons,
          digit_byte last]
        rfl

/-- Nothing ahead that would go on with a number. -/
def NumberEnds (rest : Bytes) : Prop :=
  ∀ b ∈ rest.head?, isDigit b = false ∧ (b == 0x2E) = false ∧ isExponentMark b = false

theorem reads_digits {ds rest : Bytes} (digits_ : ∀ b ∈ ds, isDigit b = true)
    (ends : NumberEnds rest) : Reads digits ds ds rest := by
  intro index
  have taken : (ds ++ rest).takeWhile isDigit = ds := by
    rw [List.takeWhile_append_of_pos digits_]
    cases rest with
    | nil => simp
    | cons b rest => simp [(ends b rfl).1]
  rw [digits]
  simp [taken]

theorem reads_tail {positive : Bool} {significand : Nat} {number : Number} {rest : Bytes}
    (whole : tail.whole positive significand 0 = pure number) (ends : NumberEnds rest) :
    Reads (tail positive significand 0) [] number rest := by
  apply Reads.look (reads_peek _)
  cases rest with
  | nil =>
    rw [List.nil_append, List.head?_nil, whole]
    exact .pure _ _
  | cons b rest =>
    obtain ⟨-, point, mark⟩ := ends b rfl
    simp only [List.nil_append, List.head?_cons, point, mark, Bool.false_eq_true, ↓reduceIte, whole]
    exact .pure _ _

/-- The digits of a number below 2^64 are gathered to that number, whatever its sign makes of it. -/
theorem reads_signed {positive : Bool} {n : Nat} {number : Number}
    (fits : n < 0x10000000000000000) (whole : tail.whole positive n 0 = pure number) {rest : Bytes}
    (ends : NumberEnds rest) :
    Reads (Reader.number positive) (bytes (Nat.toDigits 10 n)) number rest := by
  obtain ⟨d, ds, small, alone, digits, value, eq⟩ := bytes_toDigits n
  obtain ⟨isDigit_first, value_first⟩ := digitOf_byte small
  rw [eq]
  apply Reads.step (reads_next _ _)
  by_cases zero : d = 0
  · obtain ⟨rfl, rfl⟩ := alone zero
    subst zero
    apply Reads.look (reads_peek _)
    cases rest with
    | nil => exact reads_tail whole ends
    | cons b rest =>
      simp only [List.nil_append, List.head?_cons, (ends b rfl).1, Bool.false_eq_true, ↓reduceIte]
      exact reads_tail whole ends
  · simp only [byte_ne_zero small zero, isDigit_first, Bool.false_eq_true, ↓reduceIte]
    apply (reads_digits digits ends).last
    rw [value_first, gather_eq (by omega), value]
    exact reads_tail whole ends

theorem reads_number {n : Nat} (fits : n < 0x10000000000000000) {rest : Bytes}
    (ends : NumberEnds rest) :
    Reads (number true) (bytes (Nat.toDigits 10 n)) (.int n) rest :=
  reads_signed fits rfl ends

/-- Behind a minus sign, the digits of a number up to 2^63 are read as that number below zero. -/
theorem reads_negative {n : Nat} (positive : 0 < n) (fits : n ≤ 0x8000000000000000) {rest : Bytes}
    (ends : NumberEnds rest) :
    Reads (number false) (bytes (Nat.toDigits 10 n)) (.int (-n)) rest := by
  refine reads_signed (by omega) ?_ ends
  have whole : ¬ (n = 0 ∨ 0x8000000000000000 < n) := by omega
  simp [tail.whole, whole]

end Courier.Json.Reader
