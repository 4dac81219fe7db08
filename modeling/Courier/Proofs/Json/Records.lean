import Courier.Json.Documents
import Courier.Proofs.Json.Integers
import Courier.Proofs.Json.Strings

/-!
# Records printed and read

An object that holds the fields of a record is read as that record:

* `Record.reads_field`: one field, and the rest of the object behind it;
* `Record.reads`: the object between its braces;
* `Order.reads`: a printed order is read as itself.
-/

namespace Courier.Json

open Utf8 (bytes)

namespace Reader

section
variable (first : Bool) (s : String) (rest : Bytes)

theorem reads_name : Reads nextName.name (bytes (printString s)) s rest := by
  rw [bytes_printString]
  exact .step (reads_eat _ _) (reads_string s rest)

theorem reads_nextName_first : Reads (nextName true) (bytes (printString s)) (some s) rest := by
  have name := reads_name s rest
  rw [bytes_printString] at name ⊢
  exact .look (reads_peekToken (by decide) _) name.map

theorem reads_nextName_more :
    Reads (nextName false) (0x2C :: bytes (printString s)) (some s) rest := by
  have name := reads_name s rest
  rw [bytes_printString] at name ⊢
  apply Reads.look (reads_peekToken (by decide) _)
  apply Reads.step (reads_eat _ _)
  exact .look (reads_peekToken (by decide) _) name.map

theorem reads_nextName_none : Reads (nextName first) [] none (0x7D :: rest) :=
  .look (reads_peekToken (by decide) _) (.pure _ _)

theorem reads_colon : Reads colon [0x3A] () rest :=
  .look (reads_peekToken (by decide) _) (reads_eat _ _)

theorem reads_endObject : Reads endObject [0x7D] () rest :=
  .look (reads_peekToken (by decide) _) (reads_eat _ _)

end

theorem reads_integer {range : Range} {n : Nat} (low : range.low ≤ n) (high : n ≤ range.high)
    (fits : n < 0x10000000000000000) {rest : Bytes} (ends : NumberEnds rest) :
    Reads (integer range) (bytes (Nat.toDigits 10 n)) n rest := by
  have number := reads_number fits ends
  obtain ⟨d, ds, small, -, -, -, eq⟩ := bytes_toDigits n
  obtain ⟨isDigit_first, -⟩ := digitOf_byte small
  have first : isBlankByte (UInt8.ofNat (d + 0x30)) = false ∧
      (UInt8.ofNat (d + 0x30) == 0x2D) = false := by
    clear eq number isDigit_first
    decide +revert
  rw [eq] at number ⊢
  apply Reads.anchored
  apply Reads.look (reads_peekToken first.1 _)
  simp only [first.2, isDigit_first, Bool.false_eq_true, ↓reduceIte]
  apply number.last
  rw [integer.accept, if_pos (by simp [low, high])]
  exact .pure _ _

namespace Record

variable {σ α : Type} {record : Record σ α} {levels steps : Nat} {s s' : σ} {a : α}

theorem reads_field {field : Field σ} {first : Bool} {name : String}
    {before value behind rest : Bytes}
    (known : record.fields.find? (·.name == name) = some field) (absent : field.present s = false)
    (named : Reads (nextName first) before (some name) (0x3A :: (value ++ behind) ++ rest))
    (held : Reads (field.read levels s) value s' (behind ++ rest))
    (others : Reads (record.named levels s' false steps) behind a rest) :
    Reads (record.named levels s first (steps + 1)) (before ++ 0x3A :: (value ++ behind)) a
      rest := by
  apply named.bind
  simp only [known, absent, Bool.false_eq_true, ↓reduceIte]
  exact .step (reads_colon _) (held.bind others)

theorem reads_finished {first : Bool} (whole : record.finish s = .ok a) (rest : Bytes) :
    Reads (record.named levels s first (steps + 1)) [] a (0x7D :: rest) := by
  apply Reads.look (reads_nextName_none first rest)
  simp only [finished, whole]
  exact .pure _ _

/-- An object between its braces. Every field takes at least one byte. -/
theorem reads {fields rest : Bytes}
    (inner : ∀ steps, fields.length < steps →
      Reads (record.named levels record.start true steps) fields a (0x7D :: rest)) :
    Reads (record.read (levels + 1)) (0x7B :: (fields ++ [0x7D])) a rest := by
  apply Reads.anchored
  apply Reads.look (reads_peekToken (by decide) _)
  show Reads (opened (levels + 1)
    (fun n => do record.named n record.start true ((← remaining) + 1)) endObject) _ a rest
  apply Reads.opened ?_ (reads_endObject rest)
  apply Reads.look (reads_remaining _)
  apply inner
  simp only [List.length_append]
  omega

end Record

end Reader

namespace Order

open Reader

theorem bytes_print (o : Order) : bytes (print o.toJson) =
    0x7B :: ((bytes (printString "id") ++ 0x3A :: (bytes (Nat.toDigits 10 o.id) ++
      (0x2C :: bytes (printString "item") ++ 0x3A :: (bytes (printString o.item) ++ [])))) ++
      [0x7D]) := by
  have digits : printInt o.id = Nat.toDigits 10 o.id := by simp [printInt]
  simp [toJson, print, printMembers, Json.nat, Number.print, digits, Utf8.bytes_append,
    Utf8.bytes_cons_ascii]

/-- A printed order is read as itself. -/
theorem reads {o : Order} (fits : o.id ≤ 0xFFFFFFFF) {levels : Nat} (rest : Bytes) :
    Reads (record.read (levels + 1)) (bytes (print o.toJson)) o rest := by
  rw [bytes_print]
  apply Record.reads
  intro steps enough
  obtain ⟨steps, rfl⟩ : ∃ n, steps = n + 3 := by
    simp only [List.length_append, List.length_cons] at enough
    exact ⟨steps - 3, by omega⟩
  have id : Reads (do return { id := some (← integer .u32).toNat : Draft })
      (bytes (Nat.toDigits 10 o.id)) { id := some o.id }
      (0x2C :: bytes (printString "item") ++ 0x3A :: (bytes (printString o.item) ++ []) ++
        0x7D :: rest) := by
    have ends : NumberEnds (0x2C :: bytes (printString "item") ++
        0x3A :: (bytes (printString o.item) ++ []) ++ 0x7D :: rest) := by
      rintro _ ⟨⟩
      decide
    have high : (o.id : Int) ≤ Range.u32.high := Int.ofNat_le.mpr fits
    have number := reads_integer (Int.natCast_nonneg _) high (by omega) ends
    exact number.last (.pure _ _)
  have item : Reads (do return { id := some o.id, item := some (← text) : Draft })
      (bytes (printString o.item)) { id := some o.id, item := some o.item } ([] ++ 0x7D :: rest) :=
    (reads_text o.item _).last (.pure _ _)
  apply Record.reads_field rfl rfl (reads_nextName_first "id" _) id
  apply Record.reads_field rfl rfl (reads_nextName_more "item" _) item
  exact Record.reads_finished rfl rest

end Order

end Courier.Json
