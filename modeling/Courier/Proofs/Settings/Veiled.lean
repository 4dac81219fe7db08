import Courier.Proofs.Settings.Layering

/-!
# Tables that are the same but for the password

* `VeiledTable`: the password stands by its name in a table, and third in a list;
* `VeiledTable.stack`: layers that are the same but for the password come to
  tables that are;
* `VeiledTable.isSome_at?`: something stands at the same short paths of them;
* `VeiledVariables.table`: variables that are the same but for the password are
  such a layer.
-/

namespace Courier.Settings

section
variable {secret : Data → Data → Prop}

/-! ## Two passwords -/

/-- The same, or two passwords. -/
inductive Veiled (secret : Data → Data → Prop) : Option Data → Option Data → Prop
  | same (x : Option Data) : Veiled secret x x
  | two {d d' : Data} (apart : secret d d') : Veiled secret (some d) (some d')

/-- Parts for the broker that are the same but for the password. In a list it stands third. -/
inductive VeiledPart (secret : Data → Data → Prop) : Option Data → Option Data → Prop
  | same (x : Option Data) : VeiledPart secret x x
  | table {a b : Table} (others : ∀ key, key ≠ "password" → a.get? key = b.get? key)
    (password : Veiled secret (a.get? "password") (b.get? "password")) :
    VeiledPart secret (some (.table a)) (some (.table b))
  | list {a b : List Data} (others : ∀ n, n ≠ 2 → a[n]? = b[n]?)
    (password : Veiled secret a[2]? b[2]?) : VeiledPart secret (some (.list a)) (some (.list b))

/-- Tables that are the same but for the password. -/
structure VeiledTable (secret : Data → Data → Prop) (a b : Table) : Prop where
  others : ∀ key, key ≠ "kafka" → a.get? key = b.get? key
  kafka : VeiledPart secret (a.get? "kafka") (b.get? "kafka")

/-- Whatever overrides one of two passwords comes to the same or to two passwords. -/
def Lasting (secret : Data → Data → Prop) : Prop :=
  ∀ d d' u u', Veiled secret (some d) (some d') → Veiled secret (some u) (some u') →
    Veiled secret (some (d.override u)) (some (d'.override u'))

def Pair (p q d d' : Data) : Prop := d = p ∧ d' = q

def Texts (d d' : Data) : Prop := (∃ x, d = .text x) ∧ ∃ y, d' = .text y

theorem override_of_single {older newer : Data} (single : ∀ table, newer ≠ .table table) :
    older.override newer = newer := by
  cases newer with
  | table t => exact absurd rfl (single t)
  | _ => cases older <;> rfl

theorem override_text (older : Data) (x : String) : older.override (.text x) = .text x :=
  override_of_single fun _ => nofun

theorem lasting_any : Lasting fun _ _ => True := fun _ _ _ _ _ _ => .two trivial

theorem lasting_texts : Lasting Texts := by
  intro d d' u u' below above
  cases above with
  | two texts =>
    obtain ⟨⟨x, rfl⟩, y, rfl⟩ := texts
    rw [override_text, override_text]
    exact .two ⟨⟨x, rfl⟩, y, rfl⟩
  | same =>
    cases below with
    | same => exact .same _
    | two texts =>
      -- A table replaces a text as anything else does.
      obtain ⟨⟨x, rfl⟩, y, rfl⟩ := texts
      cases u <;> exact .same _

variable {x x' y y' : Option Data} {a a' b b' : Table}

theorem Veiled.mono {more : Data → Data → Prop} (weaker : ∀ d d', secret d d' → more d d')
    (veiled : Veiled secret x y) : Veiled more x y := by
  cases veiled with
  | same => exact .same _
  | two apart => exact .two (weaker _ _ apart)

theorem VeiledPart.mono {more : Data → Data → Prop} (weaker : ∀ d d', secret d d' → more d d')
    (veiled : VeiledPart secret x y) : VeiledPart more x y := by
  cases veiled with
  | same => exact .same _
  | table others password => exact .table others (password.mono weaker)
  | list others password => exact .list others (password.mono weaker)

theorem VeiledTable.mono {more : Data → Data → Prop} (weaker : ∀ d d', secret d d' → more d d')
    (veiled : VeiledTable secret a b) : VeiledTable more a b :=
  ⟨veiled.others, veiled.kafka.mono weaker⟩

theorem VeiledTable.refl (a : Table) : VeiledTable secret a a := ⟨fun _ _ => rfl, .same _⟩

/-! ## Layers -/

theorem Veiled.layered (lasting : Lasting secret) (below : Veiled secret x y)
    (above : Veiled secret x' y') : Veiled secret (layered x x') (layered y y') := by
  match x, y, x', y', below, above with
  | none, none, _, _, _, above => exact above
  | some d, some d', none, none, below, _ => exact below
  | some d, some d', some u, some u', below, above => exact lasting d d' u u' below above

/-- Parts that are laid over the same one, or over parts that are the same but for the password. -/
theorem VeiledPart.layered_table (lasting : Lasting secret) (below : VeiledPart secret x y)
    (others : ∀ key, key ≠ "password" → a.get? key = b.get? key)
    (password : Veiled secret (a.get? "password") (b.get? "password"))
    (distinct : (Data.table a).Distinct) (distinct' : (Data.table b).Distinct) :
    VeiledPart secret (layered x (some (.table a))) (layered y (some (.table b))) := by
  have merged (lower lower' : Table)
      (othersBelow : ∀ key, key ≠ "password" → lower.get? key = lower'.get? key)
      (passwordBelow : Veiled secret (lower.get? "password") (lower'.get? "password")) :
      VeiledPart secret (layered (some (.table lower)) (some (.table a)))
        (layered (some (.table lower')) (some (.table b))) := by
    rw [Settings.layered, Settings.layered, Data.override_tables, Data.override_tables]
    refine .table (fun key other => ?_) ?_
    · rw [get?_overrideTable distinct.keys, get?_overrideTable distinct'.keys,
        othersBelow key other, others key other]
    · rw [get?_overrideTable distinct.keys, get?_overrideTable distinct'.keys]
      exact passwordBelow.layered lasting password
  cases below with
  | table othersBelow passwordBelow => exact merged _ _ othersBelow passwordBelow
  | list => exact .table others password
  | same =>
    match x with
    | some (.table lower) => exact merged lower lower (fun _ _ => rfl) (.same _)
    | none | some (.bool _) | some (.signed _) | some (.unsigned _) | some (.float _)
    | some (.text _) | some (.list _) => exact .table others password

theorem layered_single {d : Data} (single : ∀ table, d ≠ .table table) (x : Option Data) :
    layered x (some d) = some d := by
  cases x with
  | none => rfl
  | some older => exact congrArg some (override_of_single single)

theorem layered_none (x : Option Data) : layered x none = x := by cases x <;> rfl

theorem VeiledPart.layered (lasting : Lasting secret) (below : VeiledPart secret x y)
    (above : VeiledPart secret x' y') (distinct : ∀ d, x' = some d → d.Distinct)
    (distinct' : ∀ d, y' = some d → d.Distinct) :
    VeiledPart secret (layered x x') (layered y y') := by
  cases above with
  | table others password =>
    exact below.layered_table lasting others password (distinct _ rfl) (distinct' _ rfl)
  | list others password =>
    have single (items : List Data) : ∀ table, Data.list items ≠ .table table := fun _ => nofun
    rw [layered_single (single _), layered_single (single _)]
    exact .list others password
  | same =>
    cases x' with
    | none => rwa [layered_none, layered_none]
    | some d =>
      by_cases table : ∃ upper, d = .table upper
      · obtain ⟨upper, rfl⟩ := table
        exact below.layered_table lasting (fun _ _ => rfl) (.same _) (distinct _ rfl)
          (distinct _ rfl)
      · rw [layered_single (not_exists.mp table), layered_single (not_exists.mp table)]
        exact .same _

theorem VeiledTable.overrideTable (lasting : Lasting secret) (below : VeiledTable secret a b)
    (above : VeiledTable secret a' b') (distinct : (Data.table a').Distinct)
    (distinct' : (Data.table b').Distinct) :
    VeiledTable secret (Data.overrideTable a a') (Data.overrideTable b b') := by
  refine ⟨fun key other => ?_, ?_⟩
  · rw [get?_overrideTable distinct.keys, get?_overrideTable distinct'.keys,
      below.others key other, above.others key other]
  · rw [get?_overrideTable distinct.keys, get?_overrideTable distinct'.keys]
    exact below.kafka.layered lasting above.kafka (fun _ => distinct.get?) fun _ => distinct'.get?

theorem VeiledTable.stack {lower lower' upper upper' top top' : Table} (lasting : Lasting secret)
    (below : VeiledTable secret lower lower') (above : VeiledTable secret upper upper')
    (last : VeiledTable secret top top')
    (each : ∀ table ∈ [lower, lower', upper, upper', top, top'], (Data.table table).Distinct) :
    VeiledTable secret (stack lower upper top) (stack lower' upper' top') := by
  simp only [List.forall_mem_cons] at each
  obtain ⟨distinct, distinct', distinctAbove, distinctAbove', distinctLast, distinctLast', -⟩ :=
    each
  have one := (VeiledTable.refl []).overrideTable lasting below distinct distinct'
  have two := one.overrideTable lasting above distinctAbove distinctAbove'
  exact two.overrideTable lasting last distinctLast distinctLast'

theorem Veiled.isSome (veiled : Veiled secret x y) : x.isSome = y.isSome := by
  cases veiled <;> rfl

theorem VeiledPart.isSome (veiled : VeiledPart secret x y) : x.isSome = y.isSome := by
  cases veiled <;> rfl

theorem isSome_at?_list (items : List Data) (key : String) :
    ((Data.list items).at? [key]).isSome =
      (List.range' 0 items.length).any fun n => toString n == key := by
  have inner : ((Data.list items).at? [key]).isSome =
      (items.zipIdx.find? fun item => toString item.2 == key).isSome := by
    rw [Data.at?]
    cases items.zipIdx.find? _ <;> simp [Data.at?]
  rw [inner, Bool.eq_iff_iff, List.find?_isSome, List.any_eq_true, ← List.zipIdx_map_snd 0 items]
  simp only [List.mem_map]
  constructor
  · rintro ⟨⟨d, n⟩, member, same⟩
    exact ⟨n, ⟨(d, n), member, rfl⟩, same⟩
  · rintro ⟨_, ⟨⟨d, n⟩, member, rfl⟩, same⟩
    exact ⟨(d, n), member, same⟩

theorem VeiledPart.isSome_at? (veiled : VeiledPart secret x y) (key : String) :
    (x.bind fun d => d.at? [key]).isSome = (y.bind fun d => d.at? [key]).isSome := by
  cases veiled with
  | same => rfl
  | table others password =>
    rw [Option.bind_some, Option.bind_some, at?_key, at?_key]
    by_cases same : key = "password"
    · rw [same, password.isSome]
    · rw [others key same]
  | @list a b others password =>
    have long : a.length = b.length := by
      have same (n : Nat) : n < a.length ↔ n < b.length := by
        rw [← isSome_getElem? a n, ← isSome_getElem? b n]
        by_cases third : n = 2
        · rw [third, password.isSome]
        · rw [others n third]
      have first := same a.length
      have second := same b.length
      omega
    rw [Option.bind_some, Option.bind_some, isSome_at?_list, isSome_at?_list, long]

theorem VeiledTable.isSome_at? (veiled : VeiledTable secret a b) {path : List String}
    (short : path.length ≤ 2) :
    ((Data.table a).at? path).isSome = ((Data.table b).at? path).isSome := by
  match path, short with
  | [], _ => simp [Data.at?]
  | [key], _ =>
    rw [at?_key, at?_key]
    by_cases kafka : key = "kafka"
    · rw [kafka, veiled.kafka.isSome]
    · rw [veiled.others key kafka]
  | [key, inner], _ =>
    rw [Data.at?, Data.at?]
    by_cases kafka : key = "kafka"
    · rw [kafka, veiled.kafka.isSome_at? inner]
    · rw [veiled.others key kafka]

/-! ## Variables -/

/-- Variables that are the same but for those that give the password. -/
inductive VeiledVariables (secret : Data → Data → Prop) : Environment → Environment → Prop
  | nil : VeiledVariables secret [] []
  | same {e e' : Environment} (v : String × String) (rest : VeiledVariables secret e e') :
    VeiledVariables secret (e ++ [v]) (e' ++ [v])
  | password {e e' : Environment} {name raw raw' : String}
    (named : Variable.path? name = some (Field.path .password))
    (two : secret (Variable.read raw) (Variable.read raw')) (rest : VeiledVariables secret e e') :
    VeiledVariables secret (e ++ [(name, raw)]) (e' ++ [(name, raw')])

section
variable {e e' : Environment}

theorem VeiledVariables.mono {more : Data → Data → Prop} (weaker : ∀ d d', secret d d' → more d d')
    (veiled : VeiledVariables secret e e') : VeiledVariables more e e' := by
  induction veiled with
  | nil => exact .nil
  | same v _ ih => exact .same v ih
  | password named two _ ih => exact .password named (weaker _ _ two) ih

theorem VeiledVariables.refl (e : Environment) : VeiledVariables secret e e := by
  induction e using List.reverseRecOn with
  | nil => exact .nil
  | append_singleton e v ih => exact .same v ih

/-- The stage is chosen by a variable of its own. -/
theorem VeiledVariables.stage (veiled : VeiledVariables secret e e') : stage e = stage e' := by
  have same : e.lookup "APP_ENV" = e'.lookup "APP_ENV" := by
    induction veiled with
    | nil => rfl
    | same v _ ih => rw [List.lookup_append, List.lookup_append, ih]
    | @password _ _ name raw raw' named _ _ ih =>
      simp only [List.lookup_append, ih, List.lookup_cons, stage_of_named named, List.lookup_nil]
  rw [Settings.stage, same, ← Settings.stage]

theorem veiledTable_password {d d' : Data} (two : secret d d') :
    VeiledTable secret [("kafka", .table [("password", d)])]
      [("kafka", .table [("password", d')])] := by
  refine ⟨fun key other => ?_, ?_⟩
  · rw [get?_singleton, get?_singleton, if_neg other, if_neg other]
  · rw [get?_singleton, get?_singleton, if_pos rfl, if_pos rfl]
    refine .table (fun key other => ?_) ?_
    · rw [get?_singleton, get?_singleton, if_neg other, if_neg other]
    · rw [get?_singleton, get?_singleton, if_pos rfl, if_pos rfl]
      exact .two two

theorem VeiledVariables.table (lasting : Lasting secret) (veiled : VeiledVariables secret e e') :
    VeiledTable secret (environmentTable e) (environmentTable e') := by
  induction veiled with
  | nil => exact .refl _
  | same v _ ih =>
    obtain ⟨name, raw⟩ := v
    match named : Variable.path? name with
    | none => rwa [environmentTable_unnamed named, environmentTable_unnamed named]
    | some [] => exact absurd named (Variable.path?_ne_nil name)
    | some (key :: path) =>
      have distinct := distinct_nest (key :: path) (Variable.read_distinct raw)
      rw [environmentTable_named named, environmentTable_named named]
      exact ih.overrideTable lasting (.refl _) distinct distinct
  | @password _ _ name raw raw' named two _ ih =>
    have distinct (said : String) :=
      distinct_nest (Field.path .password) (Variable.read_distinct said)
    rw [environmentTable_named named, environmentTable_named named]
    exact ih.overrideTable lasting (veiledTable_password two) (distinct raw) (distinct raw')

end

end

end Courier.Settings
