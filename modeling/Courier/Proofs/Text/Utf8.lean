import Courier.Text.Utf8
import Mathlib.Data.List.TakeWhile

/-!
# Texts and their bytes

What a text is encoded as is decoded to the same text:

* `front_encode`: the first character of an encoded text is read back with all
  its bytes and no more;
* `scan_bytes`: encoded characters spell themselves, and nothing else;
* `decode?_encode`: a text is decoded from its bytes.
-/

namespace Courier.Utf8

/-- A lead byte with as many tail bytes as it asks for spells one character. -/
theorem front_of_lead {b c low high : UInt8} (more : Bytes) (long : 0x80 ≤ b.toNat)
    (first : lead b = some (more.length + 1, low, high)) (above : low.toNat ≤ c.toNat)
    (below : c.toNat ≤ high.toNat) (tails : ∀ t ∈ more, 0x80 ≤ t.toNat ∧ t.toNat ≤ 0xBF)
    (rest : Bytes) :
    front b (c :: (more ++ rest)) =
      (some (assemble (b.toNat % (1 <<< (5 - more.length))) (c :: more)), more.length + 1) := by
  have notShort : ¬ b < 0x80 := by
    rw [UInt8.lt_iff_toNat_lt]
    exact Nat.not_lt.mpr long
  have within : (low ≤ c && c ≤ high) = true := by
    simp [UInt8.le_iff_toNat_le, above, below]
  have all : more.takeWhile isTail = more := by
    apply List.takeWhile_eq_self_iff.mpr
    intro t member
    simpa [isTail, UInt8.le_iff_toNat_le] using tails t member
  rw [front, if_neg notShort, first]
  simp [within, all, Nat.succ_sub_succ]

section
variable {b : UInt8}

theorem lead_two (low : 0xC2 ≤ b.toNat) (high : b.toNat ≤ 0xDF) :
    lead b = some (1, 0x80, 0xBF) := by
  simp [lead, UInt8.le_iff_toNat_le, low, high]

/-- The ranges of the second byte keep overlong forms and surrogates out. -/
theorem lead_three (low : 0xE0 ≤ b.toNat) (high : b.toNat ≤ 0xEF) :
    lead b = some (2, if b.toNat = 0xE0 then 0xA0 else 0x80,
      if b.toNat = 0xED then 0x9F else 0xBF) := by
  have past : ¬ b.toNat ≤ 0xDF := by omega
  simp only [lead, UInt8.le_iff_toNat_le, beq_iff_eq, ← UInt8.toNat_inj]
  simp [past, high]
  split
  · simp_all
  · split
    · simp_all
    · simp_all
      omega

theorem lead_four (low : 0xF0 ≤ b.toNat) (high : b.toNat ≤ 0xF4) :
    lead b = some (3, if b.toNat = 0xF0 then 0x90 else 0x80,
      if b.toNat = 0xF4 then 0x8F else 0xBF) := by
  have past : ¬ b.toNat ≤ 0xDF ∧ ¬ b.toNat ≤ 0xEF ∧ b.toNat ≠ 0xE0 ∧ b.toNat ≠ 0xED := by omega
  simp only [lead, UInt8.le_iff_toNat_le, beq_iff_eq, ← UInt8.toNat_inj]
  simp [past]
  split
  · simp_all
  · split
    · simp_all
      omega
    · have last : b.toNat = 0xF4 := by omega
      simp_all

end

/-- Six bits of a code point in a tail byte. -/
def tailOf (n : Nat) : UInt8 := UInt8.ofNat (n % 64 + 0x80)

theorem toNat_tailOf (n : Nat) : (tailOf n).toNat = n % 64 + 0x80 := by
  rw [tailOf, UInt8.toNat_ofNat']
  omega

theorem toNat_tailOf_mod (n : Nat) : (tailOf n).toNat % 64 = n % 64 := by
  rw [toNat_tailOf]
  omega

theorem tailOf_range (n : Nat) : 0x80 ≤ (tailOf n).toNat ∧ (tailOf n).toNat ≤ 0xBF := by
  rw [toNat_tailOf]
  omega

theorem front_two {n : Nat} (low : 0x80 ≤ n) (high : n ≤ 0x7FF) (rest : Bytes) :
    front (UInt8.ofNat (n / 64 % 32 + 0xC0)) (tailOf n :: rest) = (some (Char.ofNat n), 1) := by
  have first : (UInt8.ofNat (n / 64 % 32 + 0xC0)).toNat = n / 64 + 0xC0 := by
    rw [UInt8.toNat_ofNat']
    omega
  obtain ⟨above, below⟩ := tailOf_range n
  have spelled := front_of_lead (b := UInt8.ofNat (n / 64 % 32 + 0xC0)) [] (by omega)
    (lead_two (by omega) (by omega)) above below nofun rest
  have whole : (n / 64 + 0xC0) % 32 * 64 + n % 64 = n := by omega
  rw [List.nil_append] at spelled
  rw [spelled, assemble, first]
  simp [toNat_tailOf_mod, whole]

theorem front_three {n : Nat} (low : 0x800 ≤ n) (high : n ≤ 0xFFFF)
    (scalar : n < 0xD800 ∨ 0xDFFF < n) (rest : Bytes) :
    front (UInt8.ofNat (n / 4096 % 16 + 0xE0)) (tailOf (n / 64) :: tailOf n :: rest) =
      (some (Char.ofNat n), 2) := by
  have first : (UInt8.ofNat (n / 4096 % 16 + 0xE0)).toNat = n / 4096 + 0xE0 := by
    rw [UInt8.toNat_ofNat']
    omega
  have second := toNat_tailOf (n / 64)
  have above : (if (UInt8.ofNat (n / 4096 % 16 + 0xE0)).toNat = 0xE0 then (0xA0 : UInt8)
      else 0x80).toNat ≤ (tailOf (n / 64)).toNat := by
    rw [first, second]
    split
    · simp
      omega
    · simp
  have below : (tailOf (n / 64)).toNat ≤ (if (UInt8.ofNat (n / 4096 % 16 + 0xE0)).toNat = 0xED
      then (0x9F : UInt8) else 0xBF).toNat := by
    rw [first, second]
    split
    · simp
      omega
    · simp
      omega
  have tails : ∀ t ∈ [tailOf n], 0x80 ≤ t.toNat ∧ t.toNat ≤ 0xBF := by
    simpa using tailOf_range n
  have spelled := front_of_lead [tailOf n] (by omega) (lead_three (by omega) (by omega))
    above below tails rest
  have whole : ((n / 4096 + 0xE0) % 16 * 64 + n / 64 % 64) * 64 + n % 64 = n := by omega
  rw [List.singleton_append] at spelled
  rw [spelled, assemble, first]
  simp [toNat_tailOf_mod, whole]

theorem front_four {n : Nat} (low : 0x10000 ≤ n) (high : n ≤ 0x10FFFF) (rest : Bytes) :
    front (UInt8.ofNat (n / 262144 % 8 + 0xF0))
      (tailOf (n / 4096) :: tailOf (n / 64) :: tailOf n :: rest) = (some (Char.ofNat n), 3) := by
  have first : (UInt8.ofNat (n / 262144 % 8 + 0xF0)).toNat = n / 262144 + 0xF0 := by
    rw [UInt8.toNat_ofNat']
    omega
  have second := toNat_tailOf (n / 4096)
  have above : (if (UInt8.ofNat (n / 262144 % 8 + 0xF0)).toNat = 0xF0 then (0x90 : UInt8)
      else 0x80).toNat ≤ (tailOf (n / 4096)).toNat := by
    rw [first, second]
    split
    · simp
      omega
    · simp
  have below : (tailOf (n / 4096)).toNat ≤ (if (UInt8.ofNat (n / 262144 % 8 + 0xF0)).toNat = 0xF4
      then (0x8F : UInt8) else 0xBF).toNat := by
    rw [first, second]
    split
    · simp
      omega
    · simp
      omega
  have tails : ∀ t ∈ [tailOf (n / 64), tailOf n], 0x80 ≤ t.toNat ∧ t.toNat ≤ 0xBF := by
    simp only [List.mem_cons, List.not_mem_nil, or_false, forall_eq_or_imp, forall_eq]
    exact ⟨tailOf_range (n / 64), tailOf_range n⟩
  have spelled := front_of_lead [tailOf (n / 64), tailOf n] (by omega)
    (lead_four (by omega) (by omega)) above below tails rest
  have whole : (((n / 262144 + 0xF0) % 8 * 64 + n / 4096 % 64) * 64 + n / 64 % 64) * 64 +
      n % 64 = n := by omega
  rw [List.cons_append, List.singleton_append] at spelled
  rw [spelled, assemble, first]
  simp [toNat_tailOf_mod, whole]

/-- The first character of an encoded text is read back with all its bytes. -/
theorem front_encode (c : Char) (rest : Bytes) :
    ∃ b more, String.utf8EncodeChar c = b :: more ∧
      front b (more ++ rest) = (some c, more.length) := by
  have scalar : c.toNat < 0xD800 ∨ 0xDFFF < c.toNat ∧ c.toNat < 0x110000 := c.valid
  have same : Char.ofNat c.toNat = c := Char.ofNat_toNat c
  unfold String.utf8EncodeChar
  simp only [show c.val.toNat = c.toNat from rfl]
  split
  · next one =>
    refine ⟨_, [], rfl, ?_⟩
    have first : (UInt8.ofNat c.toNat).toNat = c.toNat := by
      rw [UInt8.toNat_ofNat']
      omega
    have short : UInt8.ofNat c.toNat < 0x80 := by
      rw [UInt8.lt_iff_toNat_lt, first]
      exact Nat.lt_succ_of_le one
    rw [front, if_pos short, first, same]
    rfl
  · split
    · have spelled := front_two (n := c.toNat) (by omega) (by omega) rest
      exact ⟨_, _, rfl, by rwa [same] at spelled⟩
    · split
      · have spelled := front_three (n := c.toNat) (by omega) (by omega) (by omega) rest
        exact ⟨_, _, rfl, by rwa [same] at spelled⟩
      · have spelled := front_four (n := c.toNat) (by omega) (by omega) rest
        exact ⟨_, _, rfl, by rwa [same] at spelled⟩

def bytes (cs : List Char) : Bytes := cs.flatMap String.utf8EncodeChar

@[simp] theorem bytes_nil : bytes [] = [] := rfl

theorem bytes_cons (c : Char) (cs : List Char) :
    bytes (c :: cs) = String.utf8EncodeChar c ++ bytes cs := List.flatMap_cons

theorem bytes_append (a b : List Char) : bytes (a ++ b) = bytes a ++ bytes b :=
  List.flatMap_append ..

theorem bytes_ne_nil {cs : List Char} (some_ : cs ≠ []) : bytes cs ≠ [] := by
  obtain ⟨c, rest, rfl⟩ := List.exists_cons_of_ne_nil some_
  simp [bytes_cons, String.utf8EncodeChar_ne_nil]

theorem bytes_ofList (cs : List Char) : encode (String.ofList cs) = bytes cs := by
  rw [encode, String.toList_ofList, bytes]

theorem encode_ascii {c : Char} (low : c.toNat ≤ 0x7F) :
    String.utf8EncodeChar c = [UInt8.ofNat c.toNat] := by
  rw [String.utf8EncodeChar]
  exact if_pos low

theorem bytes_cons_ascii {c : Char} (low : c.toNat ≤ 0x7F) (cs : List Char) :
    bytes (c :: cs) = UInt8.ofNat c.toNat :: bytes cs := by
  rw [bytes_cons, encode_ascii low, List.singleton_append]

/-- No byte of a longer character is one of ASCII. -/
theorem encode_high {c : Char} (high : 0x80 ≤ c.toNat) :
    ∀ b ∈ String.utf8EncodeChar c, 0x80 ≤ b.toNat := by
  intro b member
  unfold String.utf8EncodeChar at member
  simp only [show c.val.toNat = c.toNat from rfl] at member
  split at member
  · omega
  · have mod_le (n : Nat) : n % 256 ≤ n := Nat.mod_le _ _
    split at member
    · simp only [List.mem_cons, List.not_mem_nil, or_false] at member
      rcases member with rfl | rfl <;> rw [UInt8.toNat_ofNat'] <;> omega
    · split at member
      · simp only [List.mem_cons, List.not_mem_nil, or_false] at member
        rcases member with rfl | rfl | rfl <;> rw [UInt8.toNat_ofNat'] <;> omega
      · simp only [List.mem_cons, List.not_mem_nil, or_false] at member
        rcases member with rfl | rfl | rfl | rfl <;> rw [UInt8.toNat_ofNat'] <;> omega

theorem scan_cons_encode (c : Char) (rest : Bytes) :
    scan (String.utf8EncodeChar c ++ rest) = some c :: scan rest := by
  obtain ⟨b, more, encoded, spelled⟩ := front_encode c rest
  rw [encoded, List.cons_append, scan, spelled]
  simp

/-- Encoded characters spell themselves, and nothing else. -/
theorem scan_bytes (cs : List Char) : scan (bytes cs) = cs.map some := by
  induction cs with
  | nil => simp [scan]
  | cons c cs ih => rw [bytes_cons, scan_cons_encode, ih, List.map_cons]

theorem decode?_bytes (cs : List Char) : decode? (bytes cs) = some (String.ofList cs) := by
  have all : (cs.map some).mapM id = some cs := by
    induction cs with
    | nil => rfl
    | cons c cs ih => simp [ih]
  rw [decode?, scan_bytes, all, Option.map_some]

theorem decode?_encode (s : String) : decode? (encode s) = some s := by
  rw [← String.ofList_toList (s := s), bytes_ofList, decode?_bytes]

end Courier.Utf8
