import Courier.Proofs.Broker.Desk
import Courier.Proofs.Queue.Frame
import Courier.Proofs.Queue.Traffic
import Courier.Proofs.Queue.Waiting

/-!
# One topic and one group alone

What a topic and a group have of a run they would have if there were nothing else in it:

* `ReadLoop.bare`, `takes_bare`: what a loop does depends on its topic and its group alone;
* `meet`: a world to which nothing happens but what concerns them;
* `Alone`: what they have of a world is all there is in another;
* `alone_attempt`, `alone_after`: so it stays, whatever happens besides.
-/

namespace Courier

namespace Broker.Ledger

/-- No call is to fail, and no stream was ever ended. -/
structure Calm (b : Ledger) : Prop where
  fetches : b.fetchFaults = 0
  commits : b.commitFaults = 0
  epoch : b.epoch = 0

theorem calm_empty : Calm {} := ⟨rfl, rfl, rfl⟩

/-- Two ledgers have the same for a topic and a group. -/
structure Shared (topic group : String) (a b : Ledger) : Prop where
  log : b.log topic = a.log topic
  committed : b.committed topic group = a.committed topic group

section
variable {a b : Ledger} {topic group : String}

theorem Calm.fetch_eq (calm : a.Calm) (calm' : b.Calm) {r r' : Reader} {f : Fetched} {a' : Ledger}
    (same : b.log r.topic = a.log r.topic) (fetched : fetch r a = (f, r', a')) :
    fetch r b = (f, r', b) ∧ a' = a := by
  have under : b.at? r.topic r.cursor = a.at? r.topic r.cursor := by simp [at?, same]
  unfold fetch at fetched ⊢
  rw [calm'.fetches, calm'.epoch, under]
  rw [calm.fetches, calm.epoch] at fetched
  simp only [ne_eq, not_true_eq_false, ↓reduceIte] at fetched ⊢
  split at fetched
  · next lost =>
    obtain ⟨rfl, rfl, rfl⟩ : _ = f ∧ r = r' ∧ a = a' := by simpa using fetched
    simp [lost]
  · next current =>
    rw [if_neg current]
    split at fetched
    · obtain ⟨rfl, rfl, rfl⟩ : _ = f ∧ _ = r' ∧ a = a' := by simpa using fetched
      exact ⟨rfl, rfl⟩
    · obtain ⟨rfl, rfl, rfl⟩ : _ = f ∧ r = r' ∧ a = a' := by simpa using fetched
      exact ⟨rfl, rfl⟩

theorem Calm.commit_eq (calm : a.Calm) (r : Reader) (m : Message) :
    commit r m a =
      (.ok (), r,
        { a with commits := a.commits + 1 }.setCommitted r.topic r.group (m.offset + 1)) := by
  simp [commit, calm.commits]

end

end Broker.Ledger

namespace Queue

open Broker (Ledger Transport)

variable {α : Type}

/-- A loop that found nothing is as good as one that is yet to look. -/
def Phase.roused : Phase α → Phase α
  | .parked => .ready
  | p => p

/-- What of a loop decides on what it hands over. -/
def ReadLoop.bare (l : ReadLoop Ledger α) : ReadLoop Ledger α :=
  { l with label := "", queue := 0, isDebug := false, phase := l.phase.roused }

section
variable {k now : Nat} {b : Ledger} {l : ReadLoop Ledger α} {t : Turn Ledger α}

/-- A turn makes no call fail that comes after it. -/
theorem takes_calm (calm : b.Calm) (takes : l.Takes k now b t) : t.broker.Calm := by
  cases takes with
  | stop | leave | rise | fail => exact calm
  | park _ _ fetched | deliver _ _ fetched | lose _ _ fetched | falter _ _ fetched =>
    obtain ⟨-, rfl⟩ := calm.fetch_eq calm rfl fetched
    exact calm
  | @accept _ _ m _ _ _ _ committed =>
    have committed : Ledger.commit l.reader m b = _ := committed
    rw [calm.commit_eq] at committed
    obtain ⟨-, -, rfl⟩ : _ ∧ _ ∧ _ = _ := by simpa using committed
    exact ⟨calm.fetches, calm.commits, calm.epoch⟩
  | reject _ _ withheld =>
    obtain ⟨-, -, rfl⟩ := Ledger.withhold_eq withheld
    exact calm

/-- A loop that looks and finds nothing is as it was. -/
theorem takes_parked (takes : l.Takes k now b t) (parked : t.loop.phase = .parked) :
    t.loop.bare = l.bare ∧ t.broker = b ∧ t.notes = [] := by
  cases takes with
  | park phase _ fetched =>
    obtain ⟨rfl, rfl, -⟩ := Ledger.fetch_nothing fetched
    exact ⟨by simp [ReadLoop.bare, phase, Phase.roused], rfl, rfl⟩
  | @deliver _ _ _ r => cases r <;> cases parked
  | stop | lose | falter | accept | reject | leave | rise | fail => cases parked

theorem bare_phase {p : Phase α} (phase : l.phase = p) : l.bare.phase = p.roused :=
  congrArg Phase.roused phase

/-- What a loop does depends on its topic and its group, and on nothing else. -/
theorem takes_bare {topic group : String} {b' : Ledger} (takes : l.Takes k now b t)
    (found : t.loop.phase ≠ .parked) (calm : b.Calm) (calm' : b'.Calm)
    (shared : b.Shared topic group b') (reads : l.reader.topic = topic)
    (serves : l.reader.group = group) (i : Nat) :
    ∃ t', l.bare.Takes i now b' t' ∧ t'.loop = t.loop.bare ∧
      t'.notes.filterMap (·.actOf i) = t.notes.filterMap (·.actOf k) ∧
      t.broker.Shared topic group t'.broker := by
  subst reads serves
  cases takes with
  | stop phase cancelled =>
    have phase : l.bare.phase = .ready := by
      obtain phase | phase := phase
      · exact bare_phase phase
      · exact bare_phase phase
    exact ⟨_, .stop (.inl phase) cancelled, rfl, by simp [List.filterMap_cons], shared⟩
  | park => exact absurd rfl found
  | @deliver _ _ m r said calls phase running fetched received =>
    obtain ⟨again, rfl⟩ := calm.fetch_eq calm' shared.log fetched
    refine ⟨_, .deliver (bare_phase phase) running again received, ?_, by simp, shared⟩
    cases r <;> rfl
  | lose phase running fetched =>
    obtain ⟨again, rfl⟩ := calm.fetch_eq calm' shared.log fetched
    exact ⟨_, .lose (bare_phase phase) running again, rfl, by simp [List.filterMap_cons], shared⟩
  | falter phase running fetched =>
    have fault := (Ledger.fetch_transient fetched).2.2
    exact absurd calm.fetches fault
  | @accept _ _ m due r phase elapsed committed =>
    have committed : Ledger.commit l.reader m b = _ := committed
    rw [calm.commit_eq] at committed
    obtain ⟨rfl, rfl, rfl⟩ : _ = r ∧ _ ∧ _ := by simpa using committed
    have again := calm'.commit_eq l.reader m
    refine ⟨_, .accept (bare_phase phase) elapsed again, rfl, by simp, shared.log, ?_⟩
    simp [Ledger.committed_setCommitted]
  | @reject _ _ m due r phase elapsed withheld =>
    obtain ⟨rfl, rfl, rfl⟩ := Ledger.withhold_eq withheld
    exact ⟨_, .reject (bare_phase phase) elapsed rfl, rfl, by simp; rfl, shared⟩
  | leave phase cancelled => exact ⟨_, .leave (bare_phase phase) cancelled, rfl, by simp, shared⟩
  | rise phase running elapsed =>
    exact ⟨_, .rise (bare_phase phase) running elapsed, rfl, rfl, shared⟩
  | fail phase elapsed => exact ⟨_, .fail (bare_phase phase) elapsed, rfl, rfl, shared⟩

end

def ReadLoop.heard (l : ReadLoop Ledger α) (accept : Bool) (now : Nat) : ReadLoop Ledger α :=
  match l.phase with
  | .handling m .offered => { l with phase := .handling m (.answered accept now) }
  | _ => l

theorem heard_bare (l : ReadLoop Ledger α) (accept : Bool) (now : Nat) :
    (l.heard accept now).bare = l.bare.heard accept now := by
  obtain ⟨label, queue, topic, group, isDebug, reader, subscriber, calls, failures, rejections,
    cancelled, phase⟩ := l
  cases phase with
  | handling m stage => cases stage <;> rfl
  | ready | parked | resting | ended | failed => rfl

theorem World.answerOffer_loop (w : World Ledger α) (k : Nat) (accept : Bool) (j : Nat) :
    (w.answerOffer k accept).loops[j]? =
      w.loops[j]?.map fun l => if j = k then l.heard accept w.now else l := by
  unfold answerOffer
  split
  · next l here =>
    split
    · next m offered =>
      have set (u : World Ledger α) (same : u.loops = w.loops) :
          (u.setLoop k { l with phase := .handling m (.answered accept u.now) }).loops[j]? =
            w.loops[j]?.map fun l => if j = k then l.heard accept u.now else l := by
        simp only [setLoop, same]
        by_cases mine : k = j
        · subst mine
          have bound := (List.getElem?_eq_some_iff.mp here).1
          simp [List.getElem?_set_self bound, here, ReadLoop.heard, offered]
        · simp [List.getElem?_set_ne mine, Ne.symm mine]
      cases accept with
      | true => exact set w rfl
      | false =>
        simp only [Bool.false_eq_true, ↓reduceIte, report, utter_eq_note]
        exact set _ rfl
    · next other =>
      have deaf : l.heard accept w.now = l := by
        unfold ReadLoop.heard
        split
        · next m offered => exact (other m offered).elim
        · rfl
      by_cases mine : j = k
      · simp [mine, here, deaf]
      · simp [mine]
  · next absent =>
    by_cases mine : j = k
    · simp [mine, absent]
    · simp [mine]

namespace World

/-- A world to which a matter of a topic and a group happens, and nothing else. -/
def meet (topic : Topic) (group : String) (v : World Ledger α) : Nat × Matter α → World Ledger α
  | (now, .written r) => { v with now }.appended r
  | (_, .joined subscriber) =>
    { v with loops := v.loops ++ [{
        label := "", queue := 0, topic, group, isDebug := false
        reader := v.broker.openReader topic group, subscriber }] }
  | (now, .turn i) => ({ v with now }.loopStep i).getD v
  | (now, .answered i accept) => { v with now }.answerOffer i accept
  | (_, .cancelled those) =>
    { v with loops := v.loops.mapIdx fun i l =>
        if i ∈ those then { l with cancelled := true } else l }

/-- The world when what there was for them has happened, if there was anything. -/
def met (topic : Topic) (group : String) (v : World Ledger α) (now : Nat) :
    Option (Matter α) → World Ledger α
  | none => v
  | some m => v.meet topic group (now, m)

/-- What a topic and a group have of the world `w` is all there is in the world `v`. -/
structure Alone (topic : Topic) (group : String) (w v : World Ledger α) : Prop where
  calm : w.broker.Calm
  calm' : v.broker.Calm
  shared : w.broker.Shared topic.name group v.broker
  length_eq : v.loops.length = (w.own topic group).length
  loops : ∀ i k : Nat, (w.own topic group)[i]? = some k →
    v.loops[i]? = w.loops[k]?.map ReadLoop.bare
  acts : ∀ i k : Nat, (w.own topic group)[i]? = some k → v.acts i = w.acts k
  fresh : ∀ i, v.loops.length ≤ i → v.acts i = []

theorem alone_empty (topic : Topic) (group : String) :
    Alone topic group ({ broker := {} } : World Ledger α) { broker := {} } :=
  ⟨Ledger.calm_empty, Ledger.calm_empty, ⟨rfl, rfl⟩, rfl, nofun, nofun, fun _ _ => rfl⟩

/-! ## What happens to both -/

section
variable {w w' v v' : World Ledger α} {topic : Topic} {group : String} {k : Nat}
  {l : ReadLoop Ledger α} {t : Turn Ledger α}

theorem Alone.moved (h : Alone topic group w v) (kept : w'.own topic group = w.own topic group)
    (calm : w'.broker.Calm) (calm' : v'.broker.Calm)
    (shared : w'.broker.Shared topic.name group v'.broker)
    (length_eq : v'.loops.length = v.loops.length)
    (loops : ∀ i k : Nat, (w.own topic group)[i]? = some k →
      v.loops[i]? = w.loops[k]?.map ReadLoop.bare → v'.loops[i]? = w'.loops[k]?.map ReadLoop.bare)
    (acts : ∀ k ∈ w.own topic group, w'.acts k = w.acts k) (acts' : ∀ i, v'.acts i = v.acts i) :
    Alone topic group w' v' := by
  refine ⟨calm, calm', shared, ?_, ?_, ?_, ?_⟩
  · rw [length_eq, h.length_eq, kept]
  · intro i k mine
    rw [kept] at mine
    exact loops i k mine (h.loops i k mine)
  · intro i k mine
    rw [kept] at mine
    rw [acts', acts k (List.mem_of_getElem? mine), h.acts i k mine]
  · intro i past
    rw [length_eq] at past
    rw [acts', h.fresh i past]

/-- Something that changes nothing they have. -/
theorem Alone.aside (h : Alone topic group w v) (kept : w'.own topic group = w.own topic group)
    (calm : w'.broker.Calm) (log : w'.broker.log topic.name = w.broker.log topic.name)
    (committed : w'.broker.committed topic.name group = w.broker.committed topic.name group)
    (loops : ∀ k ∈ w.own topic group,
      w'.loops[k]?.map ReadLoop.bare = w.loops[k]?.map ReadLoop.bare)
    (acts : ∀ k ∈ w.own topic group, w'.acts k = w.acts k) : Alone topic group w' v := by
  refine h.moved kept calm h.calm' ?_ rfl ?_ acts fun _ => rfl
  · exact ⟨h.shared.log.trans log.symm, h.shared.committed.trans committed.symm⟩
  · intro i k mine there
    rw [there, loops k (List.mem_of_getElem? mine)]

theorem own_turned (here : w.loops[k]? = some l) (takes : l.Takes k w.now w.broker t) :
    (w.turned k t).own topic group = w.own topic group := by
  obtain ⟨same, same'⟩ := takes_identity takes
  exact own_congr (map_set_of_eq here (by rw [same, same']))

theorem Alone.turn_elsewhere (h : Alone topic group w v) (here : w.loops[k]? = some l)
    (takes : l.Takes k w.now w.broker t) (reads : l.reader.topic = l.topic.name)
    (serves : l.reader.group = l.group) (foreign : ¬ l.Serves topic group) :
    Alone topic group (w.turned k t) v := by
  have other : ∀ j ∈ w.own topic group, k ≠ j := by
    rintro j member rfl
    obtain ⟨l', here', mine⟩ := mem_own.mp member
    obtain rfl : l = l' := Option.some.inj (here.symm.trans here')
    exact foreign mine
  refine h.aside (own_turned here takes) (takes_calm h.calm takes)
    (congrFun (takes_log takes) _) (takes_committed takes reads serves foreign) ?_ ?_
  · intro j member
    rw [turned_ne t (other j member)]
  · intro j member
    exact acts_turned_ne takes (other j member)

theorem Alone.turn_parked (h : Alone topic group w v) (here : w.loops[k]? = some l)
    (takes : l.Takes k w.now w.broker t) (parked : t.loop.phase = .parked) :
    Alone topic group (w.turned k t) v := by
  obtain ⟨bare, broker, notes⟩ := takes_parked takes parked
  have broker : (w.turned k t).broker = w.broker := broker
  refine h.aside (own_turned here takes) (takes_calm h.calm takes) (by rw [broker])
    (by rw [broker]) ?_ ?_
  · intro j _
    by_cases mine : k = j
    · subst mine
      rw [turned_self here, here, Option.map_some, bare, Option.map_some]
    · rw [turned_ne t mine]
  · intro j _
    rw [acts_turned, notes, List.filterMap_nil, List.append_nil]

/-- The turn of one of the loops is also the turn of the loop that stands for it. -/
theorem Alone.turn_own (h : Alone topic group w v) (here : w.loops[k]? = some l)
    (takes : l.Takes k w.now w.broker t) (reads : l.reader.topic = l.topic.name)
    (serves : l.reader.group = l.group) (found : t.loop.phase ≠ .parked) {i : Nat}
    (mine : (w.own topic group)[i]? = some k) :
    Alone topic group (w.turned k t) (v.meet topic group (w.now, .turn i)) := by
  obtain ⟨l', here', rfl, rfl⟩ := mem_own.mp (List.mem_of_getElem? mine)
  obtain rfl : l = l' := Option.some.inj (here.symm.trans here')
  have there : v.loops[i]? = some l.bare := by rw [h.loops i k mine, here, Option.map_some]
  have bound := (List.getElem?_eq_some_iff.mp there).1
  obtain ⟨t', takes', loop, acts, shared⟩ :=
    takes_bare takes found h.calm h.calm' h.shared reads serves i
  -- The other side is brought to the same time before its loop takes the turn.
  let u : World Ledger α := { v with now := w.now }
  have met : v.meet l.topic l.group (w.now, .turn i) = u.turned i t' :=
    congrArg (·.getD v) (takes_loopStep (w := u) there takes')
  have apart {j k' : Nat} (mine' : (w.own l.topic l.group)[j]? = some k') (other : i ≠ j) :
      k ≠ k' := by
    rintro rfl
    exact other (own_inj mine mine')
  rw [met]
  refine ⟨takes_calm h.calm takes, takes_calm h.calm' takes', shared, ?_, ?_, ?_, ?_⟩
  · rw [own_turned here takes, ← h.length_eq]
    exact List.length_set ..
  · intro j k' mine'
    rw [own_turned here takes] at mine'
    by_cases same : i = j
    · subst same
      obtain rfl : k = k' := Option.some.inj (mine.symm.trans mine')
      rw [turned_self (w := u) there, turned_self here, loop, Option.map_some]
    · rw [turned_ne t' same, turned_ne t (apart mine' same)]
      exact h.loops j k' mine'
  · intro j k' mine'
    rw [own_turned here takes] at mine'
    by_cases same : i = j
    · subst same
      obtain rfl : k = k' := Option.some.inj (mine.symm.trans mine')
      rw [acts_turned, acts_turned, acts]
      exact congrArg (· ++ _) (h.acts i k mine)
    · rw [acts_turned_ne takes' same, acts_turned_ne takes (apart mine' same)]
      exact h.acts j k' mine'
  · intro j past
    have past : v.loops.length ≤ j := by simpa [turned] using past
    rw [acts_turned_ne takes' (by omega)]
    exact h.fresh j past

theorem fares_iff (here : w.loops[k]? = some l) (takes : l.Takes k w.now w.broker t) :
    w.fares k = true ↔ t.loop.phase ≠ .parked := by
  rw [fares, takes_loopStep here takes]
  simp only [turned_self here, Option.all_some]
  cases t.loop.phase <;> simp

theorem Alone.answer (h : Alone topic group w v) (k : Nat) (accept : Bool) :
    Alone topic group (w.answerOffer k accept)
      (v.met topic group w.now ((w.place topic group k).map (.answered · accept))) := by
  have apart := answerOffer_apart w k accept
  have calm : (w.answerOffer k accept).broker.Calm := apart.broker ▸ h.calm
  cases place : w.place topic group k with
  | none =>
    refine h.aside (own_kept apart.loops) calm (by rw [apart.broker]) (by rw [apart.broker]) ?_
      fun j _ => apart.acts j
    intro j member
    have other : j ≠ k := by
      rintro rfl
      exact place_eq_none.mp place member
    simp [answerOffer_loop, other]
  | some i =>
    have mine := place_eq_some.mp place
    let u : World Ledger α := { v with now := w.now }
    have apart' := answerOffer_apart u i accept
    refine h.moved (own_kept apart.loops) calm (apart'.broker ▸ h.calm') ?_ apart'.loops.length_eq
      ?_ (fun j _ => apart.acts j) apart'.acts
    · change (w.answerOffer k accept).broker.Shared _ _ (u.answerOffer i accept).broker
      rw [apart.broker, apart'.broker]
      exact h.shared
    · intro j k' mine' there
      have same : j = i ↔ k' = k := by
        constructor
        · rintro rfl
          exact Option.some.inj (mine'.symm.trans mine)
        · rintro rfl
          exact own_inj mine' mine
      change (u.answerOffer i accept).loops[j]? = _
      rw [answerOffer_loop, answerOffer_loop, show u.loops[j]? = _ from there, Option.map_map,
        Option.map_map]
      refine congrArg (Option.map · _) (funext fun l => ?_)
      by_cases here : k' = k
      · simp [same.mpr here, here, heard_bare, u]
      · simp [mt same.mp here, here]

theorem wake_bare (w : World Ledger α) (k : Nat) :
    w.wake.loops[k]?.map ReadLoop.bare = w.loops[k]?.map ReadLoop.bare := by
  simp only [wake, List.getElem?_map, Option.map_map]
  refine congrArg (Option.map · _) (funext fun l => ?_)
  simp only [Function.comp_apply]
  split
  · next parked => simp [ReadLoop.bare, parked, Phase.roused]
  · rfl

/-- Loops that are alone never wait to be woken. -/
theorem wake_of_bare {w v : World Ledger α} {i k : Nat}
    (there : v.loops[i]? = w.loops[k]?.map ReadLoop.bare) :
    v.wake.loops[i]? = w.loops[k]?.map ReadLoop.bare := by
  simp only [wake, List.getElem?_map, there, Option.map_map]
  refine congrArg (Option.map · _) (funext fun l => ?_)
  simp only [Function.comp_apply]
  split
  · next parked => cases phase : l.phase <;> simp [ReadLoop.bare, phase, Phase.roused] at parked
  · rfl

theorem Alone.append (h : Alone topic group w v) {r : Record} (mine : r.topic = topic) :
    Alone topic group (w.appended r) (v.meet topic group (w.now, .written r)) := by
  subst mine
  have calm (u : World Ledger α) (calm : u.broker.Calm) : (u.appended r).broker.Calm :=
    ⟨calm.fetches, calm.commits, calm.epoch⟩
  let u : World Ledger α := { v with now := w.now }
  have entry : v.broker.entry w.now r = w.broker.entry w.now r := by
    simp [Ledger.entry, h.shared.log]
  refine h.moved (own_kept (wake_kept _)) (calm w h.calm) (calm u h.calm') ⟨?_, h.shared.committed⟩
    ((wake_kept u).length_eq) ?_ (fun _ _ => acts_note_of_none rfl) fun _ => acts_note_of_none rfl
  · change (v.broker.append _ _).log _ = (w.broker.append _ _).log _
    rw [Ledger.log_append, Ledger.log_append, h.shared.log, entry]
  · intro i k _ there
    exact (wake_of_bare (v := u) there).trans (wake_bare w k).symm

theorem Alone.append_elsewhere (h : Alone topic group w v) {r : Record} (other : r.topic ≠ topic) :
    Alone topic group (w.appended r) v := by
  refine h.aside (own_kept (wake_kept _)) ⟨h.calm.fetches, h.calm.commits, h.calm.epoch⟩ ?_ rfl
    (fun k _ => wake_bare w k) fun _ _ => acts_note_of_none rfl
  change (w.broker.append _ _).log _ = _
  rw [Ledger.log_append, if_neg fun same => other (Topic.name_inj.mp same).symm, List.append_nil]

/-- The world is woken either way, and only what is written to the topic is to be seen. -/
theorem Alone.publish (h : Alone topic group w v) (q : Nat) (t : Topic) (payload : Payload) :
    Alone topic group (w.publish q t payload).2
      (v.met topic group w.now ((w.posted topic q t payload).map .written)) := by
  obtain ⟨r, record, rfl, eq⟩ | ⟨e, u, eq, broker, loops, acts⟩ := publish_outcome w q t payload
  · rw [posted, eq, record]
    by_cases mine : r.topic = topic
    · rw [if_pos ⟨mine, rfl⟩]
      exact h.append mine
    · rw [if_neg fun both => mine both.1]
      exact h.append_elsewhere mine
  · have silent : w.posted topic q t payload = none := by
      rw [posted, eq, if_neg (by simp [Except.toOption])]
    rw [silent, eq]
    exact h.aside (own_congr (by rw [loops])) (broker ▸ h.calm) (by rw [broker]) (by rw [broker])
      (fun _ _ => by rw [loops]) fun k _ => acts k

theorem Alone.join (h : Alone topic group w v) (orderly : Orderly w) (serves : l.Serves topic group)
    (broker : w'.broker = w.broker) (loops : w'.loops = w.loops ++ [l])
    (acts : ∀ k, w'.acts k = w.acts k) (reader : l.reader = w.broker.openReader topic group)
    (untried : l.bare = {
      label := "", queue := 0, topic, group, isDebug := false, reader := l.reader
      subscriber := l.subscriber }) :
    Alone topic group w' (v.meet topic group (w.now, .joined l.subscriber)) := by
  have own : w'.own topic group = w.own topic group ++ [w.loops.length] := by
    rw [own_concat loops, if_pos serves]
  have reader' : v.broker.openReader topic group = l.reader := by
    simp [reader, Ledger.openReader, h.shared.committed, h.calm.epoch, h.calm'.epoch]
  have joined : (v.meet topic group (w.now, .joined l.subscriber)).loops = v.loops ++ [l.bare] := by
    rw [untried, ← reader']
    rfl
  refine ⟨broker ▸ h.calm, h.calm', broker ▸ h.shared, ?_, ?_, ?_, ?_⟩
  · simp [joined, own, h.length_eq]
  · intro i k mine
    rw [own] at mine
    rw [joined, loops]
    obtain old | ⟨rfl, rfl⟩ := getElem?_concat_some mine
    · have bound := (List.getElem?_eq_some_iff.mp old).1
      rw [List.getElem?_append_left (h.length_eq ▸ bound),
        List.getElem?_append_left (lt_of_own (List.mem_of_getElem? old)), h.loops i k old]
    · rw [← h.length_eq, List.getElem?_concat_length, List.getElem?_concat_length, Option.map_some]
  · intro i k mine
    rw [own] at mine
    rw [acts]
    obtain old | ⟨rfl, rfl⟩ := getElem?_concat_some mine
    · exact h.acts i k old
    · rw [orderly.fresh _ (Nat.le_refl _)]
      exact h.fresh _ (Nat.le_of_eq h.length_eq)
  · intro i past
    rw [joined, List.length_append, List.length_singleton] at past
    exact h.fresh i (by omega)

theorem Alone.join_elsewhere (h : Alone topic group w v) (broker : w'.broker = w.broker)
    (loops : w'.loops = w.loops ++ [l]) (foreign : ¬ l.Serves topic group)
    (acts : ∀ k, w'.acts k = w.acts k) : Alone topic group w' v := by
  refine h.aside ?_ (broker ▸ h.calm) (by rw [broker]) (by rw [broker]) ?_ fun k _ => acts k
  · rw [own_concat loops, if_neg foreign, List.append_nil]
  · intro k mine
    rw [loops, List.getElem?_append_left (lt_of_own mine)]

theorem Alone.subscribe (h : Alone topic group w v) (orderly : Orderly w) (q : Nat) (t : Topic)
    (g label : String) (s : Subscriber α) :
    Alone topic group (w.subscribe q t g label s).2
      (v.met topic group w.now
        (if t = topic ∧ g = group ∧ (w.subscribe q t g label s).1.toOption.isSome then
          some (.joined s) else none)) := by
  rcases answer : w.subscribe q t g label s with ⟨result, w'⟩
  cases result with
  | error e =>
    obtain rfl := subscribe_error answer
    simpa [Except.toOption, met] using h
  | ok id =>
    obtain ⟨isDebug, broker, loops, acts⟩ := subscribe_ok answer
    by_cases mine : t = topic ∧ g = group
    · obtain ⟨rfl, rfl⟩ := mine
      rw [if_pos ⟨rfl, rfl, rfl⟩]
      exact h.join orderly ⟨rfl, rfl⟩ broker loops acts rfl rfl
    · rw [if_neg fun all => mine ⟨all.1, all.2.1⟩]
      exact h.join_elsewhere broker loops mine acts

theorem met_ofCancelled (v : World Ledger α) (topic : Topic) (group : String) (now : Nat)
    (those : List Nat) :
    let v' := v.met topic group now (Matter.ofCancelled those)
    v'.broker = v.broker ∧ v'.loops.length = v.loops.length ∧ (∀ i, v'.acts i = v.acts i) ∧
      ∀ i : Nat, v'.loops[i]? = v.loops[i]?.map fun l =>
        if i ∈ those then { l with cancelled := true } else l := by
  cases those with
  | nil => exact ⟨rfl, rfl, fun _ => rfl, by simp [Matter.ofCancelled, met]⟩
  | cons =>
    refine ⟨rfl, List.length_mapIdx, fun _ => rfl, ?_⟩
    simp [Matter.ofCancelled, met, meet, List.getElem?_mapIdx]

/-- Of the loops that are cancelled only their own count. -/
theorem Alone.hush (h : Alone topic group w v) (hushes : Hushes w w') :
    Alone topic group w'
      (v.met topic group w.now (Matter.ofCancelled (w.cancelledBy w' topic group))) := by
  obtain ⟨broker, length_eq, acts, loops⟩ :=
    met_ofCancelled v topic group w.now (w.cancelledBy w' topic group)
  have calm : w'.broker.Calm := by
    rw [hushes.broker]
    exact ⟨h.calm.fetches, h.calm.commits, h.calm.epoch⟩
  refine h.moved (own_kept hushes.kept) calm (broker ▸ h.calm') ?_ length_eq ?_
    (fun k _ => hushes.acts k) acts
  · rw [broker, hushes.broker]
    exact ⟨h.shared.log, h.shared.committed⟩
  · intro i k mine there
    have bound := (List.getElem?_eq_some_iff.mp mine).1
    have cancels : i ∈ w.cancelledBy w' topic group ↔
        w.loops[k]?.any (·.cancelled) = false ∧ w'.loops[k]?.any (·.cancelled) = true := by
      simp only [cancelledBy, List.mem_filter, List.mem_range, bound, true_and, mine,
        Option.any_some, Bool.and_eq_true, Bool.not_eq_true']
    rw [loops, there]
    have rel := hushes.loops k
    generalize w.loops[k]? = a at rel cancels ⊢
    generalize w'.loops[k]? = b at rel cancels ⊢
    cases rel with
    | none => rfl
    | @some l l' same =>
      simp only [Option.any_some] at cancels
      simp only [Option.map_some, cancels]
      obtain rfl | rfl := same
      · cases l'.cancelled <;> simp
      · cases cancelled : l.cancelled <;> simp [ReadLoop.bare, cancelled]

end

section
variable [DecidableEq α] {w v : World Ledger α} {topic : Topic} {group : String}

theorem Alone.loop (h : Alone topic group w v) (covered : Covered w) (k : Nat) :
    Alone topic group (w.attempt (.step (.loop k)))
      (v.met topic group w.now (w.matter topic group (.step (.loop k)))) := by
  simp only [attempt, step, matter]
  cases step : w.loopStep k with
  | none => simpa [fares, step, met] using h
  | some w' =>
    obtain ⟨l, t, here, takes, rfl⟩ := loopStep_takes step
    obtain ⟨c, steady⟩ := covered.steady here
    rw [Option.getD_some]
    by_cases found : t.loop.phase = .parked
    · rw [if_neg (by rw [fares_iff here takes]; exact not_not_intro found)]
      exact h.turn_parked here takes found
    · rw [if_pos ((fares_iff here takes).mpr found)]
      cases place : w.place topic group k with
      | none =>
        refine h.turn_elsewhere here takes steady.topic steady.group ?_
        intro serves
        exact place_eq_none.mp place (mem_own.mpr ⟨l, here, serves⟩)
      | some i =>
        exact h.turn_own here takes steady.topic steady.group found (place_eq_some.mp place)

theorem Alone.pool (h : Alone topic group w v) (p : Nat) (s : Pool.Step) :
    Alone topic group (w.attempt (.step (.pool p s)))
      (v.met topic group w.now (w.matter topic group (.step (.pool p s)))) := by
  cases possible : w.poolStep p s with
  | none =>
    have idle : w.poolEffect p s = none := by
      unfold poolStep at possible
      unfold poolEffect
      cases here : w.pools[p]? with
      | none => rfl
      | some pool =>
        cases stepped : pool.step w.now w.released s with
        | none => simp [stepped]
        | some made => simp [here, stepped] at possible
    simpa [attempt, step, possible, matter, idle, met] using h
  | some w' =>
    obtain ⟨pool, pool', effect, here, stepped, rfl⟩ := poolStep_worked possible
    have seen : w.poolEffect p s = some effect := by simp [poolEffect, here, stepped]
    have still : Alone topic group { w with pools := w.pools.set p pool' } v :=
      h.aside rfl h.calm rfl rfl (fun _ _ => rfl) fun _ _ => rfl
    have noted (e : Event α) :
        Alone topic group ({ w with pools := w.pools.set p pool' }.note (.heard pool'.label e)) v :=
      h.aside rfl h.calm rfl rfl (fun _ _ => rfl) fun _ _ => acts_note_of_none rfl
    simp only [attempt, step, possible, Option.getD_some, matter, seen]
    cases effect with
    | accepted k => exact still.answer k true
    | refused k => exact still.answer k false
    | started value => exact noted (.started value)
    | finished value released =>
      cases released with
      | true =>
        exact (noted (.finished value)).aside rfl (noted (.finished value)).calm rfl rfl
          (fun _ _ => rfl) fun _ _ => rfl
      | false => exact noted (.finished value)
    | none => exact still

theorem Alone.call (h : Alone topic group w v) (c : Nat) :
    Alone topic group (w.attempt (.step (.call c)))
      (v.met topic group w.now (w.matter topic group (.step (.call c)))) := by
  cases possible : w.callStep c with
  | none =>
    simp only [attempt, step, possible, Option.getD_none]
    exact h
  | some w' =>
    obtain ⟨broker, -, loops, -⟩ := callStep_still possible
    have acts := (callStep_apart possible).acts
    simp only [attempt, step, possible, Option.getD_some]
    refine h.aside ?_ (broker ▸ h.calm) (by rw [broker]) (by rw [broker]) ?_ fun k _ => acts k
    · exact own_congr (by rw [loops])
    · intro k _
      rw [loops]

theorem Alone.command (h : Alone topic group w v) (orderly : Orderly w) {c : Command Ledger α}
    (undisturbed : c.controls = none) :
    Alone topic group (w.attempt (.command c))
      (v.met topic group w.now (w.matter topic group (.command c))) := by
  cases c with
  | publish q t payload => exact h.publish q t payload
  | publishJson q t value =>
    cases value with
    | ok json => exact h.publish q t _
    | error reason => exact h.hush (.refl w)
  | subscribe q t g label s => exact h.subscribe orderly q t g label s
  | connect files config => exact h.hush (connect_hushes w files config)
  | unsubscribe q id => exact h.hush (unsubscribe_hushes w q id)
  | close q => exact h.hush (close_hushes w q)
  | drop q => exact h.hush (cancelAll_hushes w q)
  | startPool | closePool | shutdownPool | release =>
    exact h.hush (.of_loops rfl rfl fun _ => rfl)
  | control => cases undisturbed

/-- What an attempt is to a topic and a group is all that changes what they have of the world. -/
theorem alone_attempt (h : Alone topic group w v) (reach : Reachable {} w)
    {a : Attempt Ledger α} (undisturbed : a.controls = none) :
    Alone topic group (w.attempt a) (v.met topic group w.now (w.matter topic group a)) := by
  cases a with
  | command c => exact h.command (reachable_orderly reach) undisturbed
  | step s =>
    cases s with
    | loop k => exact h.loop (reachable_covered reach) k
    | pool p s => exact h.pool p s
    | call c => exact h.call c
    | wait ms => exact h.aside rfl h.calm rfl rfl (fun _ _ => rfl) fun _ _ => rfl

/-- After a run, a topic and a group have what they would have had alone. -/
theorem alone_after (h : Alone topic group w v) (reach : Reachable {} w)
    {attempts : List (Attempt Ledger α)} (undisturbed : ∀ a ∈ attempts, a.controls = none) :
    Alone topic group (w.after attempts)
      ((traffic topic group w attempts).foldl (meet topic group) v) := by
  induction attempts generalizing w v with
  | nil => exact h
  | cons a rest ih =>
    have next := alone_attempt h reach (undisturbed a List.mem_cons_self)
    have later := ih next (reach.leads (leads_attempt w a)) fun a' member =>
      undisturbed a' (List.mem_cons_of_mem _ member)
    rw [traffic, List.foldl_append]
    cases noted : w.matter topic group a with
    | none =>
      rw [noted] at later
      exact later
    | some m =>
      rw [noted] at later
      exact later

end

end World

end Queue

end Courier
