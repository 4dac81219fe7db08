import Courier.Proofs.Broker.Desk

/-!
# The end of a stream

A reader is closed, or loses its stream with all readers that there are. Either is final, and no
reader that is opened later is concerned:

* `Reader.Open` and `Reader.Cut`: the stream of a reader is open, or it has come to its end;
* `fetch_of_cut`: a fetch from a stream that was cut fails at once;
* `Desk.Sound`: a fetch sleeps only while its stream is open;
* `Serves.ages`: what becomes of a reader with a request;
* `Desk.StreamLaw`: the law for all readers of a ledger.
-/

namespace Courier.Broker.Ledger

def Reader.Open (r : Reader) (b : Ledger) : Prop := r.closed = false ∧ r.epoch = b.epoch

def Reader.Cut (r : Reader) (b : Ledger) : Prop := r.closed = true ∨ r.epoch < b.epoch

section
variable {r r' : Reader} {b b' : Ledger}

theorem open_openReader (b : Ledger) (topic : Topic) (group : String) :
    (b.openReader topic group).Open b :=
  ⟨rfl, rfl⟩

theorem Reader.Cut.not_open (cut : r.Cut b) : ¬ r.Open b := by
  rintro ⟨isOpen, current⟩
  obtain closed | past := cut
  · simp [closed] at isOpen
  · omega

theorem open_or_cut (known : r.epoch ≤ b.epoch) : r.Open b ∨ r.Cut b := by
  cases closed : r.closed with
  | true => exact .inr (.inl closed)
  | false =>
    obtain past | current := Nat.lt_or_eq_of_le known
    · exact .inr (.inr past)
    · exact .inl ⟨closed, current⟩

/-- A fetch neither closes its reader nor moves it to another stream. -/
theorem fetch_keeps {f : Fetched} (h : fetch r b = (f, r', b')) :
    r'.closed = r.closed ∧ r'.epoch = r.epoch ∧ r'.topic = r.topic ∧ b'.epoch = b.epoch := by
  cases f with
  | nothing =>
    obtain ⟨rfl, rfl, -⟩ := fetch_nothing h
    exact ⟨rfl, rfl, rfl, rfl⟩
  | message m =>
    obtain ⟨rfl, rfl, -⟩ := fetch_message h
    exact ⟨rfl, rfl, rfl, rfl⟩
  | closed e =>
    obtain ⟨rfl, rfl, -⟩ := fetch_closed h
    exact ⟨rfl, rfl, rfl, rfl⟩
  | transient e =>
    obtain ⟨rfl, rfl, -⟩ := fetch_transient h
    exact ⟨rfl, rfl, rfl, rfl⟩

theorem commit_epoch {m : Message} {result : Except Error Unit}
    (h : commit r m b = (result, r', b')) : b'.epoch = b.epoch := by
  unfold commit at h
  simp only at h
  split at h <;>
    (simp only [Prod.mk.injEq] at h; obtain ⟨-, -, rfl⟩ := h; rfl)

def cutOff (b : Ledger) : Fetched :=
  if b.fetchFaults = 0 then .closed readerClosed else .transient brokerUnavailable

theorem fetch_of_cut (cut : r.Cut b) : ∃ b', fetch r b = (b.cutOff, r, b') := by
  have lost : (r.closed || r.epoch != b.epoch) = true := by
    obtain closed | past := cut
    · simp [closed]
    · have other : r.epoch ≠ b.epoch := by omega
      simp [other]
  unfold fetch cutOff
  by_cases none : b.fetchFaults = 0
  · rw [if_neg (by simp [none]), if_pos lost, if_pos none]
    exact ⟨b, rfl⟩
  · rw [if_pos none, if_neg none]
    exact ⟨_, rfl⟩

/-- Only an open stream gives messages, and only on an open one a fetch waits. -/
theorem fetch_open {f : Fetched} (h : fetch r b = (f, r', b'))
    (given : f = .nothing ∨ ∃ m, f = .message m) (known : r.epoch ≤ b.epoch) : r.Open b := by
  obtain isOpen | cut := open_or_cut known
  · exact isOpen
  · obtain ⟨b₁, eq⟩ := fetch_of_cut cut
    obtain rfl : b.cutOff = f := (Prod.mk.inj (eq.symm.trans h)).1
    unfold cutOff at given
    split at given <;> simp at given

end

/-- No reader is of an epoch to come, and a fetch sleeps only while its stream is open. -/
structure Seat.Sound (b : Ledger) (s : Seat) : Prop where
  epoch : s.reader.epoch ≤ b.epoch
  asleep : s.fetching = .asleep → s.reader.Open b

namespace Desk

def Sound (d : Desk) : Prop := ∀ s ∈ d.seats, s.Sound d.ledger

/-- What becomes of reader `k`, which was `s`, with a request. -/
structure Ages (d v : Desk) (q : Request) (k : Nat) (s s' : Seat) : Prop where
  epoch : s'.reader.epoch = s.reader.epoch
  topic : s'.reader.topic = s.reader.topic
  closed : s.reader.closed = true → s'.reader.closed = true
  unclosed : q ≠ .closeReader k → s'.reader.closed = s.reader.closed

theorem Ages.refl (d v : Desk) (q : Request) (k : Nat) (s : Seat) : Ages d v q k s s :=
  ⟨rfl, rfl, id, fun _ => rfl⟩

variable {d v : Desk} {q : Request} {reply : Reply}

/-- Only the end of all streams begins an epoch. -/
theorem Serves.epoch (serves : Serves d q reply v) : d.ledger.epoch ≤ v.ledger.epoch ∧
    (q ≠ .control .closeReaders → v.ledger.epoch = d.ledger.epoch) := by
  cases serves with
  | write here written =>
    obtain rfl := write_ok written
    exact ⟨Nat.le_refl _, fun _ => rfl⟩
  | refuse here refused =>
    obtain rfl := write_error refused
    exact ⟨Nat.le_refl _, fun _ => rfl⟩
  | fetch here awake fetched =>
    have same : _ = d.ledger.epoch := (fetch_keeps fetched).2.2.2
    exact ⟨Nat.le_of_eq same.symm, fun _ => same⟩
  | commit here committed =>
    have same : _ = d.ledger.epoch := commit_epoch committed
    exact ⟨Nat.le_of_eq same.symm, fun _ => same⟩
  | @control c other =>
    have same : (d.ledger.control c).epoch = d.ledger.epoch := by
      cases c with
      | closeReaders => exact absurd rfl other
      | failProbe | failWrites | failCommits | failFetches => rfl
    exact ⟨Nat.le_of_eq same.symm, fun _ => same⟩
  | closeReaders => exact ⟨Nat.le_succ _, absurd rfl⟩
  | probe | openWriter | closeWriter | openReader | abandon | withhold | closeReader =>
    exact ⟨Nat.le_refl _, fun _ => rfl⟩

theorem rouse_reader (s : Seat) : s.rouse.reader = s.reader := by
  unfold Seat.rouse
  split <;> rfl

theorem rouse_awake (s : Seat) : s.rouse.fetching ≠ .asleep := by
  unfold Seat.rouse
  split
  · nofun
  · next awake => exact awake

/-- A reader stays, at its place and on its stream. -/
theorem Serves.ages (serves : Serves d q reply v) {k : Nat} {s : Seat}
    (here : d.seats[k]? = some s) : ∃ s', v.seats[k]? = some s' ∧ Ages d v q k s s' := by
  have roused (d' : Desk) (same : d'.seats = d.seats) :
      ∃ s', d'.rouse.seats[k]? = some s' ∧ Ages d v q k s s' := by
    refine ⟨s.rouse, by simp [rouse, same, here], ?_⟩
    constructor <;> simp [rouse_reader]
  have set (d' : Desk) (same : d'.seats = d.seats) {j : Nat} {a b : Seat}
      (there : d.seats[j]? = some a) (ages : j = k → Ages d v q k a b) :
      ∃ s', (d'.setSeat j b).seats[k]? = some s' ∧ Ages d v q k s s' := by
    by_cases mine : j = k
    · subst mine
      obtain rfl : a = s := Option.some.inj (there.symm.trans here)
      have bound := (List.getElem?_eq_some_iff.mp there).1
      exact ⟨b, by simp [setSeat, same, bound], ages rfl⟩
    · exact ⟨s, by simp [setSeat, same, mine, here], .refl ..⟩
  cases serves with
  | write => exact roused _ rfl
  | closeReaders => exact roused _ rfl
  | openReader =>
    have bound := (List.getElem?_eq_some_iff.mp here).1
    exact ⟨s, (List.getElem?_append_left bound).trans here, .refl ..⟩
  | fetch there _ fetched =>
    obtain ⟨closed, epoch, topic, -⟩ := fetch_keeps fetched
    exact set _ rfl there fun _ => ⟨epoch, topic, fun was => closed.trans was, fun _ => closed⟩
  | commit there committed =>
    obtain rfl := commit_reader committed
    exact set _ rfl there fun _ => ⟨rfl, rfl, id, fun _ => rfl⟩
  | abandon there | withhold there =>
    exact set _ rfl there fun _ => ⟨rfl, rfl, id, fun _ => rfl⟩
  | closeReader there =>
    refine set _ rfl there ?_
    rintro rfl
    exact ⟨rfl, rfl, fun _ => rfl, absurd rfl⟩
  | probe | openWriter | refuse | closeWriter | control => exact ⟨s, here, .refl ..⟩

/-- At a desk that is sound, a request leaves it so. -/
theorem Serves.sound (serves : Serves d q reply v) (sound : Sound d) : Sound v := by
  have ⟨grown, same⟩ := serves.epoch
  have kept (still : v.ledger.epoch = d.ledger.epoch) {s : Seat} (member : s ∈ d.seats) :
      s.Sound v.ledger := by
    refine ⟨still ▸ (sound s member).epoch, fun asleep => ?_⟩
    obtain ⟨isOpen, current⟩ := (sound s member).asleep asleep
    exact ⟨isOpen, current.trans still.symm⟩
  have awake {s : Seat} (epoch : s.reader.epoch ≤ v.ledger.epoch)
      (fetching : s.fetching ≠ .asleep) : s.Sound v.ledger :=
    ⟨epoch, fun asleep => absurd asleep fetching⟩
  -- What is roused is awake, and needs no more than an epoch that there was.
  have roused {s : Seat} (member : s ∈ d.seats.map Seat.rouse) : s.Sound v.ledger := by
    obtain ⟨s₀, member₀, rfl⟩ := List.mem_map.mp member
    apply awake _ (rouse_awake s₀)
    rw [rouse_reader]
    exact Nat.le_trans (sound s₀ member₀).epoch grown
  have set (still : v.ledger.epoch = d.ledger.epoch) {k : Nat} {b : Seat}
      (new : b.Sound v.ledger) {s : Seat} (member : s ∈ d.seats.set k b) : s.Sound v.ledger := by
    obtain old | rfl := List.mem_or_eq_of_mem_set member
    · exact kept still old
    · exact new
  intro s member
  cases serves with
  | write | closeReaders => exact roused member
  | openReader =>
    obtain old | new := List.mem_append.mp member
    · exact kept rfl old
    · obtain rfl := List.mem_singleton.mp new
      exact ⟨Nat.le_refl _, nofun⟩
  | @fetch k seat f reader ledger here _ fetched =>
    have still := same nofun
    have known := (sound seat (List.mem_of_getElem? here)).epoch
    obtain ⟨closed, epoch, -, -⟩ := fetch_keeps fetched
    refine set still ⟨?_, ?_⟩ member
    · show reader.epoch ≤ ledger.epoch
      rw [epoch]
      exact Nat.le_trans known grown
    · intro asleep
      have nothing : f = .nothing := by
        cases f with
        | nothing => rfl
        | message | transient | closed => cases asleep
      obtain ⟨isOpen, current⟩ := fetch_open fetched (.inl nothing) known
      exact ⟨closed.trans isOpen, epoch.trans (current.trans still.symm)⟩
  | commit here committed =>
    obtain rfl := commit_reader committed
    have known := (sound _ (List.mem_of_getElem? here)).epoch
    refine set (same nofun) ?_ member
    exact awake (Nat.le_trans known grown) nofun
  | abandon here | withhold here | closeReader here =>
    have known := (sound _ (List.mem_of_getElem? here)).epoch
    refine set rfl ?_ member
    exact awake known nofun
  | probe | openWriter | closeWriter | refuse => exact kept (same nofun) member
  | control other => exact kept (same fun eq => other (Request.control.inj eq)) member

/-- Reader `k` has come to the end of its stream. -/
def Severed (d : Desk) (k : Nat) : Prop := ∃ s, d.seats[k]? = some s ∧ s.reader.Cut d.ledger

/-- The stream of reader `k` is open. -/
def Connected (d : Desk) (k : Nat) : Prop := ∃ s, d.seats[k]? = some s ∧ s.reader.Open d.ledger

theorem Serves.severed (serves : Serves d q reply v) {k : Nat} (severed : Severed d k) :
    Severed v k := by
  obtain ⟨s, here, cut⟩ := severed
  obtain ⟨s', there, ages⟩ := serves.ages here
  refine ⟨s', there, cut.imp ages.closed fun past => ?_⟩
  rw [ages.epoch]
  exact Nat.lt_of_lt_of_le past serves.epoch.1

theorem Serves.connected (serves : Serves d q reply v) {k : Nat} (connected : Connected d k)
    (others : q ≠ .control .closeReaders) (mine : q ≠ .closeReader k) : Connected v k := by
  obtain ⟨s, here, isOpen, current⟩ := connected
  obtain ⟨s', there, ages⟩ := serves.ages here
  refine ⟨s', there, (ages.unclosed mine).trans isOpen, ?_⟩
  rw [ages.epoch, current, serves.epoch.2 others]

/-- Once a stream has come to its end, every later fetch fails at once: with a fault while there is
one, and else with the end of the stream. -/
theorem Severed.final {k : Nat} (severed : Severed d k) (sound : Sound d)
    (requests : List Request) : ∃ u, (d.after requests).serve (.fetch k) =
      some (.fetched (d.after requests).ledger.cutOff, u) := by
  obtain ⟨sound, s, here, cut⟩ : Sound (d.after requests) ∧ Severed (d.after requests) k :=
    after_induct requests (P := fun d => Sound d ∧ Severed d k) ⟨sound, severed⟩
      fun _ _ _ _ _ serves h => ⟨serves.sound h.1, serves.severed h.2⟩
  have awake : s.fetching ≠ .asleep := by
    intro asleep
    exact cut.not_open ((sound s (List.mem_of_getElem? here)).asleep asleep)
  obtain ⟨b, fetched⟩ := fetch_of_cut cut
  simp only [serve, here, awake, ↓reduceIte, fetched, Option.some.injEq, Prod.mk.injEq, true_and]
  exact ⟨_, rfl⟩

/-- A stream stays open until it is closed, or all streams are. -/
theorem Connected.lasts {k : Nat} (connected : Connected d k) {requests : List Request}
    (others : .control .closeReaders ∉ requests) (mine : .closeReader k ∉ requests) :
    Connected (d.after requests) k :=
  after_induct requests (P := (Connected · k)) connected fun _ _ _ _ member serves h =>
    serves.connected h (fun eq => others (eq ▸ member)) fun eq => mine (eq ▸ member)

/-- The law of streams, for all readers of a ledger. -/
structure StreamLaw (d : Desk) : Prop where
  /-- To end all streams changes no log and no offset. -/
  alike : ∀ v reply, d.serve (.control .closeReaders) = some (reply, v) → d.ledger.Alike v.ledger
  /-- Every reader that there is then gets no message any more. -/
  others : ∀ v reply, d.serve (.control .closeReaders) = some (reply, v) →
    ∀ k < d.seats.length, ∀ requests, ∃ u, (v.after requests).serve (.fetch k) =
      some (.fetched (v.after requests).ledger.cutOff, u)
  /-- Nor does one that is closed itself. -/
  own : ∀ k v reply, d.serve (.closeReader k) = some (reply, v) →
    ∀ requests, ∃ u, (v.after requests).serve (.fetch k) =
      some (.fetched (v.after requests).ledger.cutOff, u)
  /-- A reader that is opened later starts where its group has left off. -/
  start : ∀ topic group v reply, d.serve (.openReader topic group) = some (reply, v) →
    ∃ s, v.seats[d.seats.length]? = some s ∧ s.reader.topic = topic.name ∧
      s.reader.group = group ∧ s.reader.cursor = (d.ledger.committed topic.name group).getD 0
  /-- Until it is closed, or streams are ended again, it gets what is under its cursor. -/
  newcomer : ∀ topic group v reply, d.serve (.openReader topic group) = some (reply, v) →
    ∀ requests, .control .closeReaders ∉ requests → .closeReader d.seats.length ∉ requests →
    let u := v.after requests
    ∃ s, u.seats[d.seats.length]? = some s ∧ (s.fetching ≠ .asleep → u.ledger.fetchFaults = 0 →
      ∃ u', u.serve (.fetch d.seats.length) = some (.fetched
        (match u.ledger.at? s.reader.topic s.reader.cursor with
          | some m => .message m
          | none => .nothing), u'))

theorem Sound.streamLaw (sound : Sound d) : StreamLaw d := by
  have opened {topic : Topic} {group : String} {v : Desk} {reply : Reply}
      (served : d.serve (.openReader topic group) = some (reply, v)) :
      v.seats[d.seats.length]? = some { reader := d.ledger.openReader topic group } ∧
        v.ledger = d.ledger := by
    cases serve_serves served with
    | openReader => exact ⟨List.getElem?_concat_length, rfl⟩
  constructor
  case alike =>
    intro v reply served
    cases serve_serves served with
    | closeReaders => exact ⟨rfl, rfl⟩
    | control other => exact absurd rfl other
  case others =>
    intro v reply served k bound requests
    have serves := serve_serves served
    refine Severed.final ?_ (serves.sound sound) requests
    have here := List.getElem?_eq_getElem bound
    obtain ⟨s, there, ages⟩ := serves.ages here
    refine ⟨s, there, .inr ?_⟩
    have known := (sound _ (List.mem_of_getElem? here)).epoch
    rw [ages.epoch]
    cases serves with
    | closeReaders => exact Nat.lt_succ_of_le known
    | control other => exact absurd rfl other
  case own =>
    intro k v reply served requests
    have serves := serve_serves served
    refine Severed.final ?_ (serves.sound sound) requests
    cases serves with
    | @closeReader _ reader here =>
      have bound := (List.getElem?_eq_some_iff.mp here).1
      exact ⟨_, List.getElem?_set_self bound, .inl rfl⟩
  case start =>
    intro topic group v reply served
    obtain ⟨there, -⟩ := opened served
    exact ⟨_, there, rfl, rfl, rfl⟩
  case newcomer =>
    intro topic group v reply served requests others mine u
    obtain ⟨there, ledger⟩ := opened served
    have connected : Connected v d.seats.length :=
      ⟨_, there, ledger ▸ open_openReader d.ledger topic group⟩
    obtain ⟨s, found, isOpen, current⟩ := connected.lasts others mine
    refine ⟨s, found, ?_⟩
    intro awake faultless
    have found : u.seats[d.seats.length]? = some s := found
    have fetched : ∃ r, fetch s.reader u.ledger = (match u.ledger.at? s.reader.topic
        s.reader.cursor with
        | some m => .message m
        | none => .nothing, r, u.ledger) := by
      have current : s.reader.epoch = u.ledger.epoch := current
      cases entry : u.ledger.at? s.reader.topic s.reader.cursor with
      | some m => exact ⟨_, fetch_of_open faultless isOpen current entry⟩
      | none => exact ⟨s.reader, by simp [fetch, faultless, isOpen, current, entry]⟩
    obtain ⟨r, fetched⟩ := fetched
    simp only [serve, found, awake, ↓reduceIte, fetched, Option.some.injEq, Prod.mk.injEq,
      true_and]
    exact ⟨_, rfl⟩

theorem sound_after (requests : List Request) : Sound (({} : Desk).after requests) :=
  after_induct requests (P := Sound) nofun fun _ _ _ _ _ serves => serves.sound

end Desk

end Courier.Broker.Ledger
