import Courier.Proofs.Text.Utf8

/-!
# Bytes that are read and written again

What spells a character is the encoding of that character, and of no other:

* `encode_front`: what is read as a character is its encoding;
* `decode?_eq_some`: the bytes of a text, and no others, are decoded to it;
* `encode_decodeLossy`: what is shown of a sequence is written as that sequence
  exactly if the sequence is valid;
* `decodeLossy_encode`: what is shown of a text is the text.
-/

namespace Courier.Utf8

/-! ## What spells a character is its encoding -/

theorem toNat_ofNat {n : Nat} (valid : n.isValidChar) : (Char.ofNat n).val.toNat = n := by
  rw [Char.ofNat, dif_pos valid]
  rfl

theorem encode_two {n : Nat} (low : 0x80 ≤ n) (high : n ≤ 0x7FF) :
    String.utf8EncodeChar (Char.ofNat n) = [UInt8.ofNat (n / 64 % 32 + 0xC0), tailOf n] := by
  have same := toNat_ofNat (n := n) (.inl (by omega))
  unfold String.utf8EncodeChar
  simp only [same]
  rw [if_neg (by omega), if_pos high]
  rfl

theorem encode_three {n : Nat} (low : 0x800 ≤ n) (high : n ≤ 0xFFFF)
    (scalar : n < 0xD800 ∨ 0xDFFF < n) :
    String.utf8EncodeChar (Char.ofNat n) =
      [UInt8.ofNat (n / 4096 % 16 + 0xE0), tailOf (n / 64), tailOf n] := by
  have same := toNat_ofNat (n := n) (scalar.imp_right fun above => ⟨above, by omega⟩)
  unfold String.utf8EncodeChar
  simp only [same]
  rw [if_neg (by omega), if_neg (by omega), if_pos high]
  rfl

theorem encode_four {n : Nat} (low : 0x10000 ≤ n) (high : n ≤ 0x10FFFF) :
    String.utf8EncodeChar (Char.ofNat n) =
      [UInt8.ofNat (n / 262144 % 8 + 0xF0), tailOf (n / 4096), tailOf (n / 64), tailOf n] := by
  have same := toNat_ofNat (n := n) (.inr ⟨by omega, by omega⟩)
  unfold String.utf8EncodeChar
  simp only [same]
  rw [if_neg (by omega), if_neg (by omega), if_neg (by omega)]
  rfl

/-- What a lead byte asks for, by its range. -/
theorem lead_cases {b low high : UInt8} {tails : Nat} (found : lead b = some (tails, low, high)) :
    (tails = 1 ∧ 0xC2 ≤ b.toNat ∧ b.toNat ≤ 0xDF ∧ low.toNat = 0x80 ∧ high.toNat = 0xBF) ∨
    (tails = 2 ∧ 0xE0 ≤ b.toNat ∧ b.toNat ≤ 0xEF ∧
      low.toNat = (if b.toNat = 0xE0 then 0xA0 else 0x80) ∧
      high.toNat = (if b.toNat = 0xED then 0x9F else 0xBF)) ∨
    (tails = 3 ∧ 0xF0 ≤ b.toNat ∧ b.toNat ≤ 0xF4 ∧
      low.toNat = (if b.toNat = 0xF0 then 0x90 else 0x80) ∧
      high.toNat = (if b.toNat = 0xF4 then 0x8F else 0xBF)) := by
  by_cases two : 0xC2 ≤ b.toNat ∧ b.toNat ≤ 0xDF
  · rw [lead_two two.1 two.2] at found
    cases found
    exact .inl ⟨rfl, two.1, two.2, rfl, rfl⟩
  · by_cases three : 0xE0 ≤ b.toNat ∧ b.toNat ≤ 0xEF
    · rw [lead_three three.1 three.2] at found
      cases found
      refine .inr (.inl ⟨rfl, three.1, three.2, ?_, ?_⟩) <;> split <;> rfl
    · by_cases four : 0xF0 ≤ b.toNat ∧ b.toNat ≤ 0xF4
      · rw [lead_four four.1 four.2] at found
        cases found
        refine .inr (.inr ⟨rfl, four.1, four.2, ?_, ?_⟩) <;> split <;> rfl
      · have none : lead b = none := by
          simp only [lead, UInt8.le_iff_toNat_le, beq_iff_eq, ← UInt8.toNat_inj]
          simp
          grind
        simp [none] at found

theorem toNat_of_tail {t : UInt8} (tail : isTail t = true) : 0x80 ≤ t.toNat ∧ t.toNat ≤ 0xBF := by
  simpa [isTail, UInt8.le_iff_toNat_le] using tail

theorem tailOf_eq {t : UInt8} {n : Nat} (low : 0x80 ≤ t.toNat) (high : t.toNat ≤ 0xBF)
    (last : n % 64 = t.toNat % 64) : tailOf n = t := by
  rw [← UInt8.toNat_inj, toNat_tailOf]
  omega

theorem ofNat_eq {b : UInt8} {n : Nat} (same : n = b.toNat) : UInt8.ofNat n = b := by
  rw [same, UInt8.ofNat_toNat]

/-- A character is a byte of ASCII, or a lead byte with the tail bytes it asks for. -/
theorem front_eq_some {b : UInt8} {rest : Bytes} {c : Char} {n : Nat}
    (spelled : front b rest = (some c, n)) :
    (b.toNat < 0x80 ∧ c = Char.ofNat b.toNat ∧ n = 0) ∨
    ∃ low high t more, lead b = some (more.length + 1, low, high) ∧
      (low.toNat ≤ t.toNat ∧ t.toNat ≤ high.toNat) ∧
      (∀ u ∈ more, 0x80 ≤ u.toNat ∧ u.toNat ≤ 0xBF) ∧ rest.take n = t :: more ∧
      c = assemble (b.toNat % (1 <<< (5 - more.length))) (t :: more) := by
  unfold front at spelled
  split at spelled
  · next short =>
    cases spelled
    exact .inl ⟨UInt8.lt_iff_toNat_lt.mp short, rfl, rfl⟩
  · split at spelled
    · cases spelled
    · next tails low high found =>
      split at spelled
      · cases spelled
      · next t rest =>
        split at spelled
        · cases spelled
        · next within =>
          have within : low.toNat ≤ t.toNat ∧ t.toNat ≤ high.toNat := by
            simpa [UInt8.le_iff_toNat_le] using within
          simp only at spelled
          split at spelled
          · cases spelled
          · next enough =>
            -- No tail byte is missing, so none of those that were looked at is anything else.
            have asked : 1 ≤ tails := by
              obtain ⟨rfl, -⟩ | ⟨rfl, -⟩ | ⟨rfl, -⟩ := lead_cases found <;> omega
            have shorter := List.takeWhile_prefix (l := rest.take (tails - 1)) isTail
            have all : (rest.take (tails - 1)).takeWhile isTail = rest.take (tails - 1) := by
              refine shorter.eq_of_length_le ?_
              rw [List.length_take]
              omega
            rw [all] at spelled enough
            have long : (rest.take (tails - 1)).length + 1 = tails := by
              have := List.length_take_le (tails - 1) rest
              omega
            obtain ⟨whole, same⟩ := Prod.mk.inj spelled
            subst same
            refine .inr ⟨low, high, t, rest.take (tails - 1), ?_, within, ?_, ?_, ?_⟩
            · rw [long, found]
            · intro u member
              exact toNat_of_tail (List.takeWhile_eq_self_iff.mp all u member)
            · rw [← Nat.sub_add_cancel asked, List.take_succ_cons, Nat.add_sub_cancel]
            · rw [← Option.some.inj whole, show 5 - _ = 6 - tails by omega]

section
variable {b t u v : UInt8}

theorem encode_assemble_two (low : 0xC2 ≤ b.toNat) (high : b.toNat ≤ 0xDF)
    (first : 0x80 ≤ t.toNat ∧ t.toNat ≤ 0xBF) :
    String.utf8EncodeChar (assemble (b.toNat % 32) [t]) = [b, t] := by
  have whole : assemble (b.toNat % 32) [t] = Char.ofNat (b.toNat % 32 * 64 + t.toNat % 64) := rfl
  rw [whole, encode_two (by omega) (by omega), tailOf_eq (t := t) first.1 first.2 (by omega),
    ofNat_eq (b := b) (by omega)]

/-- The ranges of the second byte keep overlong forms and surrogates out. -/
theorem encode_assemble_three (low : 0xE0 ≤ b.toNat) (high : b.toNat ≤ 0xEF)
    (above : (if b.toNat = 0xE0 then 0xA0 else 0x80) ≤ t.toNat)
    (below : t.toNat ≤ if b.toNat = 0xED then 0x9F else 0xBF)
    (second : 0x80 ≤ u.toNat ∧ u.toNat ≤ 0xBF) :
    String.utf8EncodeChar (assemble (b.toNat % 16) [t, u]) = [b, t, u] := by
  have first : 0x80 ≤ t.toNat ∧ t.toNat ≤ 0xBF := by split at above <;> split at below <;> omega
  have least : 0x800 ≤ (b.toNat % 16 * 64 + t.toNat % 64) * 64 + u.toNat % 64 := by
    split at above <;> omega
  have scalar : (b.toNat % 16 * 64 + t.toNat % 64) * 64 + u.toNat % 64 < 0xD800 ∨
      0xDFFF < (b.toNat % 16 * 64 + t.toNat % 64) * 64 + u.toNat % 64 := by
    split at below <;> omega
  have whole : assemble (b.toNat % 16) [t, u] =
      Char.ofNat ((b.toNat % 16 * 64 + t.toNat % 64) * 64 + u.toNat % 64) := rfl
  rw [whole, encode_three least (by omega) scalar, tailOf_eq (t := t) first.1 first.2 (by omega),
    tailOf_eq (t := u) second.1 second.2 (by omega), ofNat_eq (b := b) (by omega)]

theorem encode_assemble_four (low : 0xF0 ≤ b.toNat) (high : b.toNat ≤ 0xF4)
    (above : (if b.toNat = 0xF0 then 0x90 else 0x80) ≤ t.toNat)
    (below : t.toNat ≤ if b.toNat = 0xF4 then 0x8F else 0xBF)
    (second : 0x80 ≤ u.toNat ∧ u.toNat ≤ 0xBF) (third : 0x80 ≤ v.toNat ∧ v.toNat ≤ 0xBF) :
    String.utf8EncodeChar (assemble (b.toNat % 8) [t, u, v]) = [b, t, u, v] := by
  have first : 0x80 ≤ t.toNat ∧ t.toNat ≤ 0xBF := by split at above <;> split at below <;> omega
  have least : 0x10000 ≤ ((b.toNat % 8 * 64 + t.toNat % 64) * 64 + u.toNat % 64) * 64 +
      v.toNat % 64 := by
    split at above <;> omega
  have most : ((b.toNat % 8 * 64 + t.toNat % 64) * 64 + u.toNat % 64) * 64 + v.toNat % 64 ≤
      0x10FFFF := by
    split at below <;> omega
  have whole : assemble (b.toNat % 8) [t, u, v] = Char.ofNat
      (((b.toNat % 8 * 64 + t.toNat % 64) * 64 + u.toNat % 64) * 64 + v.toNat % 64) := rfl
  rw [whole, encode_four least most, tailOf_eq (t := t) first.1 first.2 (by omega),
    tailOf_eq (t := u) second.1 second.2 (by omega), tailOf_eq (t := v) third.1 third.2 (by omega),
    ofNat_eq (b := b) (by omega)]

end

/-- What is read as a character is the encoding of that character. -/
theorem encode_front {b : UInt8} {rest : Bytes} {c : Char} {n : Nat}
    (spelled : front b rest = (some c, n)) : String.utf8EncodeChar c = b :: rest.take n := by
  obtain ⟨short, rfl, rfl⟩ | ⟨low, high, t, more, found, ⟨above, below⟩, tails, taken, rfl⟩ :=
    front_eq_some spelled
  · have same := toNat_ofNat (n := b.toNat) (.inl (by omega))
    unfold String.utf8EncodeChar
    simp only [same]
    rw [if_pos (by omega), UInt8.ofNat_toNat, List.take_zero]
  · rw [taken]
    obtain ⟨long, first, last, isLow, isHigh⟩ | ⟨long, first, last, isLow, isHigh⟩ |
      ⟨long, first, last, isLow, isHigh⟩ := lead_cases found
    · obtain rfl : more = [] := List.length_eq_zero_iff.mp (by omega)
      exact encode_assemble_two first last ⟨isLow ▸ above, isHigh ▸ below⟩
    · obtain ⟨u, rfl⟩ : ∃ u, more = [u] := List.length_eq_one_iff.mp (by omega)
      exact encode_assemble_three first last (isLow ▸ above) (isHigh ▸ below) (tails u (.head _))
    · obtain ⟨u, v, rfl⟩ : ∃ u v, more = [u, v] := by
        match more, long with
        | [u, v], _ => exact ⟨u, v, rfl⟩
      exact encode_assemble_four first last (isLow ▸ above) (isHigh ▸ below) (tails u (.head _))
        (tails v (.tail _ (.head _)))

/-! ## Whole sequences -/

/-- A sequence in which every run spells a character is the encoding of those characters. -/
theorem bytes_of_scan {input : Bytes} {cs : List Char} (all : scan input = cs.map some) :
    bytes cs = input := by
  induction input using scan.induct generalizing cs with
  | case1 =>
    rw [scan] at all
    obtain rfl := List.map_eq_nil_iff.mp all.symm
    rfl
  | case2 b rest c n spelled ih =>
    rw [scan, spelled] at all
    obtain ⟨d, ds, rfl, rfl, rest'⟩ := List.map_eq_cons_iff.mp all.symm
    rw [bytes_cons, encode_front spelled, ih rest'.symm, List.cons_append,
      List.take_append_drop]

theorem eq_map_of_mapM {xs : List (Option Char)} {cs : List Char} (all : xs.mapM id = some cs) :
    xs = cs.map some := by
  induction xs generalizing cs with
  | nil =>
    obtain rfl := Option.some.inj all
    rfl
  | cons x xs ih =>
    rw [List.mapM_cons] at all
    obtain ⟨c, here, all⟩ := Option.bind_eq_some_iff.mp all
    obtain ⟨ds, rest, all⟩ := Option.bind_eq_some_iff.mp all
    obtain rfl := Option.some.inj all
    rw [ih rest, show x = some c from here, List.map_cons]

/-- The bytes of a text, and no others, are decoded to that text. -/
theorem decode?_eq_some {input : Bytes} {s : String} :
    decode? input = some s ↔ encode s = input := by
  constructor
  · intro decoded
    obtain ⟨cs, all, rfl⟩ := Option.map_eq_some_iff.mp decoded
    rw [bytes_ofList, bytes_of_scan (eq_map_of_mapM all)]
  · rintro rfl
    exact decode?_encode s

theorem decodeLossy_encode (s : String) : decodeLossy (encode s) = s := by
  have all (cs : List Char) : (cs.map some).map (fun c => c.getD '\uFFFD') = cs := by
    rw [List.map_map]
    exact List.map_id cs
  rw [← String.ofList_toList (s := s), bytes_ofList, decodeLossy, scan_bytes, all]

/-- What is shown of a sequence is written as that sequence exactly if every run of it spells a
character. -/
theorem encode_decodeLossy {input : Bytes} :
    encode (decodeLossy input) = input ↔ (decode? input).isSome := by
  rw [Option.isSome_iff_exists]
  constructor
  · intro same
    exact ⟨_, decode?_eq_some.mpr same⟩
  · rintro ⟨s, decoded⟩
    rw [← decode?_eq_some.mp decoded, decodeLossy_encode]

theorem isSome_decode? {input : Bytes} :
    (decode? input).isSome ↔ input.toByteArray.IsValidUTF8 := by
  rw [Option.isSome_iff_exists]
  constructor
  · rintro ⟨s, decoded⟩
    refine ⟨s.toList, ?_⟩
    rw [← decode?_eq_some.mp decoded]
    rfl
  · rintro ⟨cs, same⟩
    have eq : input = bytes cs := by
      rw [← List.toList_data_toByteArray (l := input), same]
      exact List.toList_data_toByteArray
    exact ⟨String.ofList cs, decode?_eq_some.mpr (by rw [bytes_ofList, eq])⟩

end Courier.Utf8
