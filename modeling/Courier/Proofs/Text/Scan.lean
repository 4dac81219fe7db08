import Courier.Text.Scan

/-!
# What scans come to

`Yields s P`: whatever `s` makes of a text has the property `P`. Each way to put
scans together has its rule.
-/

namespace Courier.Scan

variable {α β : Type} {P : α → Prop} {Q : β → Prop} {s t : Scan α}

/-- Whatever the scan makes of a text has the property. -/
def Yields (s : Scan α) (P : α → Prop) : Prop :=
  ∀ cs a rest, s cs = some (a, rest) → P a

namespace Yields

theorem bind (first : Yields s P) {f : α → Scan β} (then_ : ∀ a, P a → Yields (f a) Q) :
    Yields (s >>= f) Q := by
  intro cs b rest eq
  obtain ⟨⟨a, more⟩, here, there⟩ := Option.bind_eq_some_iff.mp eq
  exact then_ a (first cs a more here) more b rest there

theorem after {f : α → Scan β} (then_ : ∀ a, Yields (f a) Q) : Yields (s >>= f) Q := by
  have any : Yields s fun _ => True := fun _ _ _ _ => trivial
  exact any.bind fun a _ => then_ a

protected theorem pure {a : α} (holds : P a) : Yields (pure a) P := by
  intro cs b rest eq
  obtain ⟨rfl, -⟩ := Prod.mk.inj (Option.some.inj eq)
  exact holds

protected theorem failure : Yields (failure : Scan α) P := nofun

protected theorem map (first : Yields s P) {f : α → β} (holds : ∀ a, P a → Q (f a)) :
    Yields (f <$> s) Q := by
  intro cs b rest eq
  obtain ⟨⟨a, more⟩, here, there⟩ := Option.bind_eq_some_iff.mp eq
  obtain ⟨rfl, -⟩ := Prod.mk.inj (Option.some.inj there)
  exact holds a (first cs a more here)

protected theorem orElse (first : Yields s P) (second : Yields t P) : Yields (s <|> t) P := by
  intro cs a rest eq
  have eq : (s cs <|> t cs) = some (a, rest) := eq
  cases here : s cs with
  | none =>
    rw [here] at eq
    exact second cs a rest eq
  | some found =>
    rw [here] at eq
    exact first cs a rest (here.trans eq)

protected theorem manyWhile (each : Yields s P) (more : Option Char → Bool) (bound : Nat) :
    Yields (manyWhile more s bound) fun as => ∀ a ∈ as, P a := by
  induction bound with
  | zero => exact .failure
  | succ bound ih =>
    rw [Scan.manyWhile]
    refine .after fun ahead => ?_
    split
    · exact each.bind fun a first => ih.bind fun as rest =>
        .pure (List.forall_mem_cons.mpr ⟨first, rest⟩)
    · exact .pure nofun

protected theorem whole (yields : Yields s P) {text : List Char} {a : α}
    (eq : whole s text = some a) : P a := by
  unfold Scan.whole at eq
  split at eq
  · next b here =>
    obtain rfl := Option.some.inj eq
    exact yields _ _ _ here
  · cases eq

end Yields

/-! ## Scans that fail -/

section
variable {cs : List Char}

theorem word_of_not {w : String} (other : ¬ w.toList <+: cs) : word w cs = none :=
  if_neg fun ahead => other (List.isPrefixOf_iff_prefix.mp ahead)

theorem orElse_of_none (failed : s cs = none) : (s <|> t) cs = t cs := by
  show (s cs <|> t cs) = t cs
  rw [failed]
  rfl

theorem bind_of_none {f : α → Scan β} (failed : s cs = none) : (s >>= f) cs = none := by
  show (s cs).bind _ = none
  rw [failed]
  rfl

theorem bind_peek {f : Option Char → Scan β} : (peek >>= f) cs = f cs.head? cs := rfl

end

end Courier.Scan
