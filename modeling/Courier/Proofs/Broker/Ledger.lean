import Courier.Broker.Ledger

/-! What the operations of a ledger do to its logs, its offsets and its readers. -/
namespace Courier

/-- What stands in a list with a new last entry stood there before, or is that entry. -/
theorem getElem?_concat_some {α : Type} {xs : List α} {x y : α} {i : Nat}
    (found : (xs ++ [x])[i]? = some y) : xs[i]? = some y ∨ (i = xs.length ∧ x = y) := by
  rw [List.getElem?_append] at found
  split at found
  · exact .inl found
  · rw [List.getElem?_singleton] at found
    split at found
    · exact .inr ⟨by omega, Option.some.inj found⟩
    · cases found

namespace Broker.Ledger

/-- The same logs and the same offsets; faults, epochs and counters may differ. -/
structure Alike (a b : Ledger) : Prop where
  log : b.log = a.log
  committed : b.committed = a.committed

theorem Alike.refl (a : Ledger) : Alike a a := ⟨rfl, rfl⟩

/-- Entry `i` of a topic's log is of that topic and has offset `i`. -/
def Numbered (b : Ledger) : Prop :=
  ∀ (topic : String) (i : Nat) (m : Message), (b.log topic)[i]? = some m →
    m.topic = topic ∧ m.offset = i

theorem numbered_empty : Numbered {} := by
  intro topic i m h
  simp at h

theorem Numbered.alike {a b : Ledger} (h : Numbered a) (same : Alike a b) : Numbered b := by
  intro topic i m found
  rw [same.log] at found
  exact h topic i m found

theorem at?_eq_some {b : Ledger} {topic : String} {cursor : Int} {m : Message} :
    b.at? topic cursor = some m ↔ ∃ i : Nat, cursor = i ∧ (b.log topic)[i]? = some m := by
  unfold Ledger.at?
  split
  · simp only [reduceCtorEq, false_iff, not_exists, not_and]
    intro i hi
    omega
  · constructor
    · intro h
      exact ⟨cursor.toNat, by omega, h⟩
    · rintro ⟨i, rfl, h⟩
      exact h

theorem at?_eq_none {b : Ledger} {topic : String} {cursor : Int} :
    b.at? topic cursor = none ↔ cursor < 0 ∨ ((b.log topic).length : Int) ≤ cursor := by
  unfold Ledger.at?
  split
  · simp_all
  · simp only [List.getElem?_eq_none_iff]
    omega

theorem Numbered.offset_at? {b : Ledger} (h : Numbered b) {topic : String} {cursor : Int}
    {m : Message} (found : b.at? topic cursor = some m) : m.offset = cursor := by
  obtain ⟨i, rfl, hi⟩ := at?_eq_some.mp found
  exact (h topic i m hi).2

theorem at?_of_prefix {a b : Ledger} {topic : String} (grows : a.log topic <+: b.log topic)
    {cursor : Int} {m : Message} (found : a.at? topic cursor = some m) :
    b.at? topic cursor = some m := by
  obtain ⟨i, rfl, hi⟩ := at?_eq_some.mp found
  obtain ⟨more, eq⟩ := grows
  have bound : i < (a.log topic).length := (List.getElem?_eq_some_iff.mp hi).1
  have kept : (b.log topic)[i]? = some m := by
    rw [← eq, List.getElem?_append_left bound]
    exact hi
  exact at?_eq_some.mpr ⟨i, rfl, kept⟩

theorem Numbered.append {b : Ledger} (h : Numbered b) (now : Nat) (r : Record) :
    Numbered (b.append r.topic.name (b.entry now r)) := by
  intro topic i m found
  rw [log_append] at found
  by_cases same : topic = r.topic.name
  · subst same
    rw [if_pos rfl] at found
    obtain old | ⟨place, rfl⟩ := getElem?_concat_some found
    · exact h _ i m old
    · constructor
      · rfl
      · simp only [entry, place]
  · rw [if_neg same, List.append_nil] at found
    exact h topic i m found

section
variable {r r' : Reader} {b b' : Ledger}

theorem fetch_nothing (h : fetch r b = (.nothing, r', b')) :
    r' = r ∧ b' = b ∧ b.at? r.topic r.cursor = none := by
  unfold fetch at h
  split at h
  · simp at h
  · split at h
    · simp at h
    · split at h
      · simp at h
      · next none =>
        simp only [Prod.mk.injEq, true_and] at h
        exact ⟨h.1.symm, h.2.symm, none⟩

/-- A fetched message is the entry under the cursor, and the cursor goes past it. -/
theorem fetch_message {m : Message} (h : fetch r b = (.message m, r', b')) :
    r' = { r with cursor := r.cursor + 1 } ∧ b' = b ∧ b.at? r.topic r.cursor = some m := by
  unfold fetch at h
  split at h
  · simp at h
  · split at h
    · simp at h
    · split at h
      · next found =>
        simp only [Prod.mk.injEq, Fetched.message.injEq] at h
        exact ⟨h.2.1.symm, h.2.2.symm, h.1 ▸ found⟩
      · simp at h

theorem fetch_closed {e : Error} (h : fetch r b = (.closed e, r', b')) :
    r' = r ∧ b' = b ∧ (r.closed = true ∨ r.epoch ≠ b.epoch) := by
  unfold fetch at h
  split at h
  · simp at h
  · split at h
    · next lost =>
      simp only [Prod.mk.injEq] at h
      simp only [Bool.or_eq_true, bne_iff_ne] at lost
      exact ⟨h.2.1.symm, h.2.2.symm, lost⟩
    · split at h <;> simp at h

theorem fetch_transient {e : Error} (h : fetch r b = (.transient e, r', b')) :
    r' = r ∧ b' = { b with fetchFaults := b.fetchFaults - 1 } ∧ b.fetchFaults ≠ 0 := by
  unfold fetch at h
  split at h
  · next fault =>
    simp only [Prod.mk.injEq] at h
    exact ⟨h.2.1.symm, h.2.2.symm, fault⟩
  · split at h
    · simp at h
    · split at h <;> simp at h

theorem fetch_of_open {m : Message} (faultless : b.fetchFaults = 0) (isOpen : r.closed = false)
    (current : r.epoch = b.epoch) (entry : b.at? r.topic r.cursor = some m) :
    fetch r b = (.message m, { r with cursor := r.cursor + 1 }, b) := by
  simp [fetch, faultless, isOpen, current, entry]

theorem commit_reader {m : Message} {result : Except Error Unit}
    (h : commit r m b = (result, r', b')) : r' = r := by
  unfold commit at h
  simp only at h
  split at h <;> exact (Prod.mk.inj (Prod.mk.inj h).2).1.symm

/-- A commit that succeeds sets the group's offset behind the message; no other changes. -/
theorem commit_ok {m : Message} (h : commit r m b = (.ok (), r', b')) :
    b'.log = b.log ∧ b'.committed = (b.setCommitted r.topic r.group (m.offset + 1)).committed := by
  unfold commit at h
  simp only at h
  split at h
  · simp at h
  · simp only [Prod.mk.injEq, true_and] at h
    obtain ⟨-, rfl⟩ := h
    exact ⟨rfl, rfl⟩

theorem commit_error {m : Message} {e : Error} (h : commit r m b = (.error e, r', b')) :
    Alike b b' := by
  unfold commit at h
  simp only at h
  split at h
  · simp only [Prod.mk.injEq] at h
    obtain ⟨-, -, rfl⟩ := h
    exact ⟨rfl, rfl⟩
  · simp at h

theorem withhold_eq {m : Message} {result : Except Error Unit}
    (h : withhold r m b = (result, r', b')) :
    result = .ok () ∧ r' = { r with cursor := m.offset } ∧ b' = b := by
  simp only [withhold, Prod.mk.injEq] at h
  exact ⟨h.1.symm, h.2.1.symm, h.2.2.symm⟩

end

theorem control_alike (b : Ledger) (c : Control) : Alike b (b.control c) := by
  cases c <;> exact ⟨rfl, rfl⟩

end Broker.Ledger

end Courier
