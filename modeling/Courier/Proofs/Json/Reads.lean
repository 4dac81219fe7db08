import Courier.Json.Reader.Typed

/-!
# Reading what stands ahead

`Reads r text a rest` says what a reader does with a text it can read. It is
carried through a reader part by part:

* `Reads.bind`, `Reads.look`, `Reads.last`: one part after another, where the
  first or the second may take nothing;
* `Reads.anchored`, `Reads.opened`: the parts that deal with failures are
  passed without one;
* `readAll_of_reads`: a text that is read to its end is read as a whole.
-/

namespace Courier.Json

/-- Standing before `rest`, `text` is read by `r`, which answers `a` and leaves `rest`. -/
def Reads {α : Type} (r : Reader α) (text : Bytes) (a : α) (rest : Bytes) : Prop :=
  ∀ index, r ⟨text ++ rest, index⟩ = (.ok a, ⟨rest, index + text.length⟩)

namespace Reads

variable {α β : Type} {r : Reader α} {text more rest : Bytes} {a : α} {b : β}

protected theorem pure (a : α) (rest : Bytes) : Reads (pure a : Reader α) [] a rest := fun _ => rfl

theorem bind_eq (r : Reader α) (f : α → Reader β) (c : Cursor) :
    (r >>= f) c = match r c with
      | (.ok a, c') => f a c'
      | (.error e, c') => (.error e, c') := by
  show (ExceptT.bindCont f (r c).1) (r c).2 = _
  rcases r c with ⟨answer | answer, c'⟩ <;> rfl

protected theorem bind {f : α → Reader β} (first : Reads r text a (more ++ rest))
    (then_ : Reads (f a) more b rest) : Reads (r >>= f) (text ++ more) b rest := by
  intro index
  rw [bind_eq, List.append_assoc, first index]
  simp only [then_ (index + text.length), List.length_append, Nat.add_assoc]

theorem look {f : α → Reader β} (first : Reads r [] a (text ++ rest))
    (then_ : Reads (f a) text b rest) : Reads (r >>= f) text b rest :=
  first.bind then_

theorem step {f : α → Reader β} {x : UInt8} (first : Reads r [x] a (text ++ rest))
    (then_ : Reads (f a) text b rest) : Reads (r >>= f) (x :: text) b rest :=
  first.bind then_

theorem last {f : α → Reader β} (h : Reads r text a rest) (then_ : Reads (f a) [] b rest) :
    Reads (r >>= f) text b rest := by
  have whole := Reads.bind h then_
  rwa [List.append_nil] at whole

protected theorem map {f : α → β} (h : Reads r text a rest) : Reads (f <$> r) text (f a) rest := by
  rw [map_eq_pure_bind]
  exact h.last (.pure _ _)

theorem anchored (h : Reads r text a rest) : Reads (Reader.anchored r) text a rest := by
  intro index
  rw [Reader.anchored, h index]

theorem closing {body : Reader α} {close : Reader Unit} (inner : Reads body text a (more ++ rest))
    (last : Reads close more () rest) :
    Reads (Reader.closing body close) (text ++ more) a rest := by
  intro index
  rw [Reader.closing, List.append_assoc, inner index]
  simp only [last (index + text.length), List.length_append, Nat.add_assoc]

/-- A container between its brackets, if one more may be opened. -/
theorem opened {body : Nat → Reader α} {close : Reader Unit} {levels : Nat} {x : UInt8}
    (inner : Reads (body levels) text a (more ++ rest)) (last : Reads close more () rest) :
    Reads (Reader.opened (levels + 1) body close) (x :: (text ++ more)) a rest :=
  step (fun _ => rfl) (closing inner last)

end Reads

namespace Reader

theorem reads_peek (rest : Bytes) : Reads peek [] rest.head? rest := fun _ => rfl

theorem reads_next (b : UInt8) (rest : Bytes) : Reads next [b] (some b) rest := fun _ => rfl

theorem reads_eat (b : UInt8) (rest : Bytes) : Reads eat [b] () rest := fun _ => rfl

theorem reads_remaining (rest : Bytes) : Reads remaining [] rest.length rest := fun _ => rfl

theorem reads_peekToken {b : UInt8} (shows_ : isBlankByte b = false) (rest : Bytes) :
    Reads peekToken [] (some b) (b :: rest) := by
  intro index
  rw [peekToken, Reads.bind_eq, skipBlanks]
  simp [shows_, peek]

theorem reads_peekToken_end : Reads peekToken [] none [] := fun _ => rfl

end Reader

theorem readAll_of_reads {α : Type} {r : Reader α} {text : Bytes} {a : α} (h : Reads r text a []) :
    readAll r text = .ok a := by
  have read := h 0
  rw [List.append_nil] at read
  have quiet := Reader.reads_peekToken_end (0 + text.length)
  rw [List.append_nil] at quiet
  rw [readAll, Reads.bind_eq, read]
  simp only [Reads.bind_eq, quiet]
  rfl

end Courier.Json
