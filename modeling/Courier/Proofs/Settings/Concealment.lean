import Courier.Proofs.Settings.Survival
import Courier.Proofs.Settings.Veiled

/-!
# What loading tells of the password

Two runs of loading with layers that are the same but for the password:

* `Veils`: outcomes that are the same but for the password, unless one of them
  finds one that is no text;
* `VeiledTable.ofTable`: this is what tables that are the same but for the
  password are taken for;
* `concealment_law`: a password that is a text is not disclosed, and one that is
  none is told by the failure that blames it only.

Files that are not what settings are written in are left out.
-/

namespace Courier.Settings

/-! ## Outcomes -/

/-- Where the password stands, in a table and in a list. -/
def passwordPaths : List (List String) := [["kafka", "password"], ["kafka", "2"]]

/-- Outcomes that differ in what is related only, or else one of them finds a password that is no
text. -/
inductive Veils {α : Type} (secret : Data → Data → Prop) (related : α → α → Prop) :
    Except Mismatch α → Except Mismatch α → Prop
  | both {a b : α} (same : related a b) : Veils secret related (.ok a) (.ok b)
  | neither {m : Mismatch} (short : m.path.length ≤ 2) : Veils secret related (.error m) (.error m)
  | first {d d' : Data} {path : List String} {r : Except Mismatch α} (place : path ∈ passwordPaths)
    (two : secret d d') (other : ∀ x, d ≠ .text x) :
    Veils secret related (.error (.wrongType path d "a string")) r
  | second {d d' : Data} {path : List String} {r : Except Mismatch α} (place : path ∈ passwordPaths)
    (two : secret d d') (other : ∀ x, d' ≠ .text x) :
    Veils secret related r (.error (.wrongType path d' "a string"))

section
variable {secret : Data → Data → Prop} {a b : Table} {x y : Option Data}
  {α β : Type} {related : α → α → Prop} {related' : β → β → Prop} {r r' : Except Mismatch α}

theorem Veils.bind {f g : α → Except Mismatch β} (first : Veils secret related r r')
    (then_ : ∀ a b, related a b → Veils secret related' (f a) (g b)) :
    Veils secret related' (r >>= f) (r' >>= g) := by
  cases first with
  | both same => exact then_ _ _ same
  | neither short => exact .neither short
  | first place two other => exact .first place two other
  | second place two other => exact .second place two other

theorem Veils.map {f : α → β} (first : Veils secret related r r')
    (then_ : ∀ a b, related a b → related' (f a) (f b)) :
    Veils secret related' (f <$> r) (f <$> r') := by
  cases first with
  | both same => exact .both (then_ _ _ same)
  | neither short => exact .neither short
  | first place two other => exact .first place two other
  | second place two other => exact .second place two other

theorem Veils.imp {more : α → α → Prop} (veils : Veils secret related r r')
    (weaker : ∀ a b, related a b → more a b) : Veils secret more r r' := by
  cases veils with
  | both same => exact .both (weaker _ _ same)
  | neither short => exact .neither short
  | first place two other => exact .first place two other
  | second place two other => exact .second place two other

/-- A reader that names the place where it reads. -/
def Placed (read : List String → Data → Except Mismatch α) : Prop :=
  ∀ path d m, read path d = .error m → m.path = path

theorem placed_asText : Placed asText := by
  intro path d m failed
  cases d <;> cases failed <;> rfl

theorem placed_asFlag : Placed asFlag := by
  intro path d m failed
  cases d <;> cases failed <;> rfl

theorem placed_asSomeText : Placed asSomeText := by
  intro path d m failed
  cases d <;> cases failed <;> rfl

theorem veils_read {read : List String → Data → Except Mismatch α} (placed : Placed read)
    {path : List String} (short : path.length ≤ 2) (d : Data) :
    Veils secret Eq (read path d) (read path d) := by
  cases eq : read path d with
  | ok a => exact .both rfl
  | error m => exact .neither (placed path d m eq ▸ short)

theorem field_eq_elim {read : List String → Data → Except Mismatch α} {default : α}
    {path : List String} (table : Table) (key : String) :
    field read default path table key =
      (table.get? key).elim (.ok default) (read (path ++ [key])) := by
  rw [field]
  cases table.get? key <;> rfl

theorem item_eq_elim {read : List String → Data → Except Mismatch α} {default : α}
    {path : List String} (items : List Data) (n : Nat) :
    item read default path items n =
      items[n]?.elim (.ok default) (read (path ++ [toString n])) := by
  rw [item]
  cases items[n]? <;> rfl

theorem veils_field {read : List String → Data → Except Mismatch α} (placed : Placed read)
    {default : α} {path : List String} (short : path.length ≤ 1) {key : String}
    (same : a.get? key = b.get? key) :
    Veils secret Eq (field read default path a key) (field read default path b key) := by
  rw [field_eq_elim, field_eq_elim, same]
  cases b.get? key with
  | none => exact .both rfl
  | some d => exact veils_read placed (by simpa using short) d

theorem veils_item {read : List String → Data → Except Mismatch α} (placed : Placed read)
    {default : α} {path : List String} (short : path.length ≤ 1) {n : Nat} {l l' : List Data}
    (same : l[n]? = l'[n]?) :
    Veils secret Eq (item read default path l n) (item read default path l' n) := by
  rw [item_eq_elim, item_eq_elim, same]
  cases l'[n]? with
  | none => exact .both rfl
  | some d => exact veils_read placed (by simpa using short) d

/-- Two passwords are two texts, or one of them is found to be none. -/
theorem veils_password {path : List String} (place : path ∈ passwordPaths)
    (veiled : Veiled secret x y) :
    Veils secret (fun _ _ => True) (x.elim (.ok "") (asText path))
      (y.elim (.ok "") (asText path)) := by
  have short : path.length ≤ 2 := by
    have all : ∀ path ∈ passwordPaths, path.length ≤ 2 := by decide
    exact all path place
  cases veiled with
  | same =>
    cases x with
    | none => exact .both trivial
    | some d => exact (veils_read placed_asText short d).imp fun _ _ _ => trivial
  | @two d d' two =>
    by_cases text : ∃ x, d = .text x
    · by_cases text' : ∃ x, d' = .text x
      · obtain ⟨_, rfl⟩ := text
        obtain ⟨_, rfl⟩ := text'
        exact .both trivial
      · rw [Option.elim_some, Option.elim_some, asText_of_ne (not_exists.mp text')]
        exact .second place two (not_exists.mp text')
    · rw [Option.elim_some, asText_of_ne (not_exists.mp text)]
      exact .first place two (not_exists.mp text)

def Kafka.veil (k : Kafka) : Kafka := { k with password := "" }

def veil (s : Settings) : Settings := { s with kafka := s.kafka.veil }

theorem Kafka.veils_table {c d : Table}
    (others : ∀ key, key ≠ "password" → c.get? key = d.get? key)
    (password : Veiled secret (c.get? "password") (d.get? "password")) :
    Veils secret (fun k l => k.veil = l.veil) (Kafka.ofData ["kafka"] (.table c))
      (Kafka.ofData ["kafka"] (.table d)) := by
  have text {default : String} {key : String} (other : key ≠ "password") :
      Veils secret Eq (field asText default ["kafka"] c key)
        (field asText default ["kafka"] d key) :=
    veils_field placed_asText (by decide) (others key other)
  rw [Kafka.ofData, Kafka.ofData]
  refine (text (by decide)).bind ?_
  rintro brokers _ rfl
  refine (veils_field placed_asSomeText (by decide) (others _ (by decide))).bind ?_
  rintro caFile _ rfl
  refine (veils_field placed_asFlag (by decide) (others _ (by decide))).bind ?_
  rintro isDebug _ rfl
  refine (text (by decide)).bind ?_
  rintro mechanisms _ rfl
  rw [field_eq_elim c "password", field_eq_elim d "password"]
  refine (veils_password (by decide) password).bind ?_
  rintro p q -
  refine (text (by decide)).bind ?_
  rintro protocol _ rfl
  refine (text (by decide)).bind ?_
  rintro username _ rfl
  exact .both rfl

theorem Kafka.veils_list {l l' : List Data} (others : ∀ n, n ≠ 2 → l[n]? = l'[n]?)
    (password : Veiled secret l[2]? l'[2]?) :
    Veils secret (fun a b => a.veil = b.veil) (Kafka.ofData ["kafka"] (.list l))
      (Kafka.ofData ["kafka"] (.list l')) := by
  have text {default : String} {n : Nat} (other : n ≠ 2) :
      Veils secret Eq (item asText default ["kafka"] l n) (item asText default ["kafka"] l' n) :=
    veils_item placed_asText (by decide) (others n other)
  rw [Kafka.ofData, Kafka.ofData]
  refine (text (by decide)).bind ?_
  rintro brokers _ rfl
  refine (text (by decide)).bind ?_
  rintro username _ rfl
  rw [item_eq_elim l 2, item_eq_elim l' 2]
  refine (veils_password (by decide) password).bind ?_
  rintro p q -
  refine (text (by decide)).bind ?_
  rintro mechanisms _ rfl
  refine (text (by decide)).bind ?_
  rintro protocol _ rfl
  refine (veils_item placed_asSomeText (by decide) (others _ (by decide))).bind ?_
  rintro caFile _ rfl
  refine (veils_item placed_asFlag (by decide) (others _ (by decide))).bind ?_
  rintro isDebug _ rfl
  exact .both rfl

theorem Telemetry.veils (d : Data) :
    Veils secret Eq (Telemetry.ofData ["telemetry"] d) (Telemetry.ofData ["telemetry"] d) := by
  cases d with
  | table t =>
    refine (veils_field placed_asFlag (by decide) rfl).bind ?_
    rintro json _ rfl
    refine (veils_field placed_asText (by decide) rfl).bind ?_
    rintro logLevel _ rfl
    exact .both rfl
  | list items =>
    refine (veils_item placed_asText (by decide) rfl).bind ?_
    rintro logLevel _ rfl
    refine (veils_item placed_asFlag (by decide) rfl).bind ?_
    rintro json _ rfl
    exact .both rfl
  | _ => exact .neither (Nat.le_succ 1)

theorem veils_kafka (veiled : VeiledPart secret (a.get? "kafka") (b.get? "kafka")) :
    Veils secret (fun k l => k.map Kafka.veil = l.map Kafka.veil)
      (field (fun path d => some <$> Kafka.ofData path d) none [] a "kafka")
      (field (fun path d => some <$> Kafka.ofData path d) none [] b "kafka") := by
  have given {k l : Kafka} (same : k.veil = l.veil) :
      (some k).map Kafka.veil = (some l).map Kafka.veil := congrArg some same
  rw [field_eq_elim, field_eq_elim]
  generalize a.get? "kafka" = x, b.get? "kafka" = y at veiled
  cases veiled with
  | table others password => exact (Kafka.veils_table others password).map fun _ _ => given
  | list others password => exact (Kafka.veils_list others password).map fun _ _ => given
  | same =>
    match x with
    | none => exact .both rfl
    | some (.table t) => exact (Kafka.veils_table (fun _ _ => rfl) (.same _)).map fun _ _ => given
    | some (.list items) =>
      exact (Kafka.veils_list (fun _ _ => rfl) (.same _)).map fun _ _ => given
    | some (.bool _) | some (.signed _) | some (.unsigned _) | some (.float _) | some (.text _) =>
      exact .neither (Nat.le_succ 1)

theorem veils_telemetry (same : a.get? "telemetry" = b.get? "telemetry") :
    Veils secret Eq (field Telemetry.ofData {} [] a "telemetry")
      (field Telemetry.ofData {} [] b "telemetry") := by
  rw [field_eq_elim, field_eq_elim, same]
  cases b.get? "telemetry" with
  | none => exact .both rfl
  | some d => exact Telemetry.veils d

/-- Tables that are the same but for the password come to settings that are. -/
theorem VeiledTable.ofTable (veiled : VeiledTable secret a b) :
    Veils secret (fun s t => s.veil = t.veil) (Settings.ofTable a) (Settings.ofTable b) := by
  rw [Settings.ofTable, Settings.ofTable]
  refine (veils_field placed_asText (by decide) (veiled.others _ (by decide))).bind ?_
  rintro appEnv _ rfl
  refine (veils_field placed_asSomeText (by decide) (veiled.others _ (by decide))).bind ?_
  rintro appName _ rfl
  refine (veils_kafka veiled.kafka).bind ?_
  rintro kafka kafka' same
  refine (veils_telemetry (veiled.others _ (by decide))).bind ?_
  rintro telemetry _ rfl
  cases appName with
  | none => exact .neither (by decide)
  | some name =>
    cases kafka with
    | none =>
      cases kafka' with
      | none => exact .neither (by decide)
      | some l => simp at same
    | some k =>
      cases kafka' with
      | none => simp at same
      | some l =>
        refine .both ?_
        rw [veil, veil, Option.some.inj same]

end

/-! ## Loading -/

section
variable {files files' : Files} {e e' : Environment} {directory : String} {p q : Data}

/-- Files that are what settings are written in, and the same but for the password. -/
def VeiledFiles (secret : Data → Data → Prop) (files files' : Files) (places : List String) :
    Prop :=
  ∀ place ∈ places, ∃ table table', fileTable files place = some table ∧
    fileTable files' place = some table' ∧ VeiledTable secret table table'

theorem VeiledFiles.mono {secret more : Data → Data → Prop} {places : List String}
    (weaker : ∀ d d', secret d d' → more d d') (veiled : VeiledFiles secret files files' places) :
    VeiledFiles more files files' places := by
  intro place member
  obtain ⟨table, table', found, found', veiled⟩ := veiled place member
  exact ⟨table, table', found, found', veiled.mono weaker⟩

/-- Layers that are the same but for the password come to settings that are, and failures are put
down to the same layers. -/
theorem load_veiled {secret : Data → Data → Prop} (lasting : Lasting secret)
    (said : VeiledVariables secret e e')
    (tables : VeiledFiles secret files files' (filePaths directory (stage e))) :
    ∃ all all', load files e directory = ofLayers all ∧ load files' e' directory = ofLayers all' ∧
      Veils secret (fun s t => s.veil = t.veil) (ofTable (merged all)) (ofTable (merged all')) ∧
      ∀ path : List String, path.length ≤ 2 → sourceOf all path = sourceOf all' path := by
  obtain ⟨lower, lower', defaults, defaults', below⟩ := tables _ (.head _)
  obtain ⟨upper, upper', staged, staged', above⟩ := tables _ (.tail _ (.head _))
  have last := said.table lasting
  rw [load, load, ← said.stage, loadFor_eq defaults staged, loadFor_eq defaults' staged']
  refine ⟨_, _, rfl, rfl, ?_, fun path short => ?_⟩
  · rw [merged_layers, merged_layers]
    refine (below.stack lasting above last ?_).ofTable
    simp only [List.forall_mem_cons]
    refine ⟨fileTable_distinct defaults, fileTable_distinct defaults', fileTable_distinct staged,
      fileTable_distinct staged', environmentTable_distinct e, environmentTable_distinct e', ?_⟩
    simp
  · simp only [sourceOf, List.reverse_cons, List.reverse_nil, List.nil_append, List.cons_append,
      List.find?_cons, List.find?_nil, below.isSome_at? short, above.isSome_at? short,
      last.isSome_at? short]
    cases ((Data.table (environmentTable e')).at? path).isSome
    · cases ((Data.table upper').at? path).isSome
      · cases ((Data.table lower').at? path).isSome <;> rfl
      · rfl
    · rfl

def Mismatch.source (all : List Layer) : Mismatch → Option Source
  | .wrongType path _ _ => sourceOf all path
  | .missing _ => none

theorem ofLayers_error {all : List Layer} {m : Mismatch}
    (failed : ofTable (merged all) = .error m) :
    ofLayers all = .error (.mismatch m (m.source all)) := by
  rw [ofLayers, failed]
  cases m <;> rfl

/-- Loading failed since the password is no text. -/
def LoadError.BlamesPassword (e : LoadError) : Prop :=
  ∃ path ∈ passwordPaths, ∃ d source, (∀ x, d ≠ .text x) ∧
    e = .mismatch (.wrongType path d "a string") source

/-- Outcomes that differ in the password only, or else one of them finds one that is no text. -/
inductive Outcomes (secret : Data → Data → Prop) :
    Except LoadError Settings → Except LoadError Settings → Prop
  | both {s t : Settings} (same : s.veil = t.veil) : Outcomes secret (.ok s) (.ok t)
  | neither (e : LoadError) : Outcomes secret (.error e) (.error e)
  | first {d d' : Data} {e : LoadError} {r : Except LoadError Settings} (two : secret d d')
    (other : ∀ x, d ≠ .text x) (blames : e.BlamesPassword) : Outcomes secret (.error e) r
  | second {d d' : Data} {e : LoadError} {r : Except LoadError Settings} (two : secret d d')
    (other : ∀ x, d' ≠ .text x) (blames : e.BlamesPassword) : Outcomes secret r (.error e)

theorem outcomes_load {secret : Data → Data → Prop} (lasting : Lasting secret)
    (said : VeiledVariables secret e e')
    (tables : VeiledFiles secret files files' (filePaths directory (stage e))) :
    Outcomes secret (load files e directory) (load files' e' directory) := by
  obtain ⟨all, all', eq, eq', veils, sources⟩ := load_veiled lasting said tables
  rw [eq, eq']
  generalize taken : ofTable (merged all) = r at veils
  generalize taken' : ofTable (merged all') = r' at veils
  cases veils with
  | both same =>
    rw [ofLayers_eq_ok.mpr taken, ofLayers_eq_ok.mpr taken']
    exact .both same
  | @neither m short =>
    have source : m.source all = m.source all' := by
      cases m with
      | missing => rfl
      | wrongType path => exact sources path short
    rw [ofLayers_error taken, ofLayers_error taken', source]
    exact .neither _
  | first place two other =>
    rw [ofLayers_error taken]
    exact .first two other ⟨_, place, _, _, other, rfl⟩
  | second place two other =>
    rw [ofLayers_error taken']
    exact .second two other ⟨_, place, _, _, other, rfl⟩

theorem get_of_veil {s t : Settings} (same : s.veil = t.veil) {f : Field} (other : f ≠ .password) :
    s.get f = t.get f := by
  have hidden (s : Settings) : s.veil.get f = s.get f := by
    cases f <;> first | rfl | exact absurd rfl other
  rw [← hidden s, same, hidden t]

theorem render_of_veil {s t : Settings} (same : s.veil = t.veil) : s.render = t.render := by
  have hidden (s : Settings) : s.veil.render = s.render := rfl
  rw [← hidden s, same, hidden t]

/-- What is known of two outcomes, with one password and with another. -/
structure ConcealmentLaw (p q : Data) (a b : Except LoadError Settings) : Prop where
  /-- Settings show nothing of their password, and nothing else depends on it. -/
  shown : ∀ s t, a = .ok s → b = .ok t →
    s.render = t.render ∧ ∀ f, f ≠ .password → s.get f = t.get f
  /-- Unless the password is to blame, failures say the same. -/
  failures : ∀ e e', a = .error e → b = .error e' →
    e.message = e'.message ∨ e.BlamesPassword ∨ e'.BlamesPassword
  fate : ∀ s e, a = .ok s ∧ b = .error e ∨ b = .ok s ∧ a = .error e → e.BlamesPassword
  /-- One text is as good as another. -/
  texts : Texts p q → (∃ s t, a = .ok s ∧ b = .ok t) ∨
    ∃ e e', a = .error e ∧ b = .error e' ∧ e.message = e'.message

/-- **A password that is a text is not disclosed.** Whatever else is given, loading comes to the
same with one text and with another: settings that look the same, or the same failure. A password
that is no text is told by the failure that blames it, and by nothing else. -/
theorem concealment_law (said : VeiledVariables (Pair p q) e e')
    (tables : VeiledFiles (Pair p q) files files' (filePaths directory (stage e))) :
    ConcealmentLaw p q (load files e directory) (load files' e' directory) := by
  have outcomes := outcomes_load lasting_any (said.mono fun _ _ _ => trivial)
    (tables.mono fun _ _ _ => trivial)
  have plain (texts : Texts p q) :
      Outcomes Texts (load files e directory) (load files' e' directory) := by
    have both : ∀ d d', Pair p q d d' → Texts d d' := by
      rintro _ _ ⟨rfl, rfl⟩
      exact texts
    exact outcomes_load lasting_texts (said.mono both) (tables.mono both)
  -- From here on only the two outcomes count.
  generalize load files e directory = a at outcomes plain
  generalize load files' e' directory = b at outcomes plain
  constructor
  case shown =>
    rintro s t rfl rfl
    cases outcomes with
    | both same => exact ⟨render_of_veil same, fun f => get_of_veil same⟩
  case failures =>
    rintro e e' rfl rfl
    cases outcomes with
    | neither => exact .inl rfl
    | first _ _ blames => exact .inr (.inl blames)
    | second _ _ blames => exact .inr (.inr blames)
  case fate =>
    rintro s e (⟨rfl, rfl⟩ | ⟨rfl, rfl⟩)
    · cases outcomes with
      | second _ _ blames => exact blames
    · cases outcomes with
      | first _ _ blames => exact blames
  case texts =>
    intro texts
    cases plain texts with
    | both => exact .inl ⟨_, _, rfl, rfl⟩
    | neither e => exact .inr ⟨e, e, rfl, rfl, rfl⟩
    | first two other =>
      obtain ⟨⟨x, rfl⟩, -⟩ := two
      exact absurd rfl (other x)
    | second two other =>
      obtain ⟨-, x, rfl⟩ := two
      exact absurd rfl (other x)

end

theorem veiledFiles_self {secret : Data → Data → Prop} {files : Files} {places : List String}
    (readable : ∀ place ∈ places, (fileTable files place).isSome) :
    VeiledFiles secret files files places := by
  intro place member
  obtain ⟨table, found⟩ := Option.isSome_iff_exists.mp (readable place member)
  exact ⟨table, table, found, found, .refl table⟩

theorem concealment_law_password :
    ConcealmentLaw (.text "hunter2") (.text "correct horse")
      (load numbered [("MQ_KAFKA__PASSWORD", "hunter2")] "conf")
      (load numbered [("MQ_KAFKA__PASSWORD", "correct horse")] "conf") := by
  have first : Variable.read "hunter2" = .text "hunter2" :=
    Variable.Plain.read (by decide)
  have second : Variable.read "correct horse" = .text "correct horse" :=
    Variable.Plain.read (by decide)
  exact concealment_law (.password path?_password ⟨first, second⟩ .nil)
    (veiledFiles_self (by decide +kernel))

/-- The failure tells one number from another. -/
theorem password_told : ∃ (files : Files) (name raw raw' : String) (e e' : LoadError),
    Variable.path? name = some (Field.path .password) ∧
      load files [(name, raw)] "conf" = .error e ∧ load files [(name, raw')] "conf" = .error e' ∧
      e.message ≠ e'.message := by
  refine ⟨numbered, "MQ_KAFKA__PASSWORD", "90417", "31337", _, _, path?_password,
    load_digits (by decide) (List.all_eq_true.mp (by decide)) (by decide),
    load_digits (by decide) (List.all_eq_true.mp (by decide)) (by decide), ?_⟩
  decide +kernel

end Courier.Settings
