import Courier.Proofs.Queue.Books
import Courier.Proofs.Queue.Crew
import Mathlib.Data.List.Nodup

/-!
# What calls wait for

A call that waits for loops and workers returns when all of them have ended, and
what has ended does not come back:

* `Known` and `Over`: what a call may wait for is there, and it has ended;
* `Listed`: what stands in a registry or is waited for is there;
* `Goes`: a move as the calls see it;
* `Awaits.returned`: when a call has returned, all that it was made to wait for
  has ended.
-/

namespace Courier

namespace Pool

variable {α : Type}

/-- The pool has kept its workers, and those that have ended are as they were. -/
structure Lasts (p q : Pool α) : Prop where
  size : q.size = p.size
  ended : ∀ (i : Nat) (worker : Worker α), p.workers[i]? = some worker → worker.isAlive = false →
    q.workers[i]? = some worker

variable {p q : Pool α}

theorem Lasts.of_workers (same : q.workers = p.workers) : Lasts p q := by
  refine ⟨congrArg List.length same, ?_⟩
  intro i worker here _
  rwa [same]

theorem Lasts.setWorker {i : Nat} {a : Worker α} (same : q.workers = p.workers)
    (here : p.workers[i]? = some a) (alive : a.isAlive = true) (b : Worker α) :
    Lasts p (q.setWorker i b) := by
  constructor
  case size =>
    rw [Pool.size, setWorker_workers, same, List.length_set]
    rfl
  case ended =>
    intro j worker there dead
    rw [setWorker_workers, same]
    by_cases mine : i = j
    · subst mine
      obtain rfl : a = worker := Option.some.inj (here.symm.trans there)
      simp [alive] at dead
    · rwa [List.getElem?_set_ne mine]

theorem step_lasts [DecidableEq α] {now : Nat} {released : List α} {s : Step} {effect : Effect α}
    (possible : p.step now released s = some (q, effect)) : Lasts p q := by
  cases s with
  | accept =>
    simp only [step, accept] at possible
    split at possible
    · cases possible
    · split at possible
      · obtain ⟨rfl, -⟩ := Prod.mk.inj (Option.some.inj possible)
        exact .of_workers rfl
      · split at possible
        · cases possible
        · obtain ⟨rfl, -⟩ := Prod.mk.inj (Option.some.inj possible)
          exact .of_workers rfl
  | take i =>
    simp only [step, take] at possible
    split at possible
    · next idle _ =>
      obtain ⟨rfl, -⟩ := Prod.mk.inj (Option.some.inj possible)
      split <;> exact .setWorker (by rfl) idle rfl _
    · cases possible
  | finish i =>
    simp only [step, finish] at possible
    split at possible
    · next busy =>
      split at possible
      · obtain ⟨rfl, -⟩ := Prod.mk.inj (Option.some.inj possible)
        exact .setWorker (by rfl) busy rfl _
      · cases possible
    · next busy =>
      split at possible
      · obtain ⟨rfl, -⟩ := Prod.mk.inj (Option.some.inj possible)
        exact .setWorker (by rfl) busy rfl _
      · cases possible
    · cases possible
  | halt i =>
    simp only [step, halt] at possible
    split at possible
    · next idle =>
      split at possible
      · obtain ⟨rfl, -⟩ := Prod.mk.inj (Option.some.inj possible)
        exact .setWorker (by rfl) idle rfl _
      · cases possible
    · cases possible

def LastAll (a b : List (Pool α)) : Prop :=
  ∀ (k : Nat) (p : Pool α), a[k]? = some p → ∃ q, b[k]? = some q ∧ Lasts p q

namespace LastAll

variable {a b : List (Pool α)}

theorem refl (a : List (Pool α)) : LastAll a a := fun _ p here => ⟨p, here, .of_workers rfl⟩

theorem append (a more : List (Pool α)) : LastAll a (a ++ more) := by
  intro k p here
  have bound := (List.getElem?_eq_some_iff.mp here).1
  exact ⟨p, by rw [List.getElem?_append_left bound, here], .of_workers rfl⟩

theorem modify {f : Pool α → Pool α} (same : ∀ p, (f p).workers = p.workers)
    (a : List (Pool α)) (j : Nat) : LastAll a (a.modify j f) := by
  intro k p here
  rw [List.getElem?_modify, here]
  by_cases mine : j = k
  · exact ⟨f p, by simp [mine], .of_workers (same p)⟩
  · exact ⟨p, by simp [mine], .of_workers rfl⟩

theorem set {j : Nat} {p q : Pool α} (here : a[j]? = some p) (lasts : Lasts p q) :
    LastAll a (a.set j q) := by
  intro k p' there
  by_cases mine : j = k
  · subst mine
    obtain rfl : p = p' := Option.some.inj (here.symm.trans there)
    have bound := (List.getElem?_eq_some_iff.mp here).1
    exact ⟨q, List.getElem?_set_self bound, lasts⟩
  · exact ⟨p', by rw [List.getElem?_set_ne mine, there], .of_workers rfl⟩

end LastAll

end Pool

namespace Queue

open Broker (Transport Ledger)

/-- Subscriptions have numbers of their own below the next one, and their loops are there. -/
structure Registry.Sound (r : Registry) (loops : Nat) : Prop where
  entries : ∀ e ∈ r.entries, e.1.number < r.next ∧ e.2 < loops
  distinct : (r.entries.map (·.1)).Nodup

namespace Registry.Sound

variable {r : Registry} {m n : Nat}

theorem of_empty (empty : r.entries = []) : r.Sound n := by
  constructor <;> simp [empty]

theorem mono (h : r.Sound m) (more : m ≤ n) : r.Sound n := by
  refine ⟨?_, h.distinct⟩
  intro e member
  obtain ⟨number, loop⟩ := h.entries e member
  exact ⟨number, by omega⟩

theorem without (h : r.Sound n) (id : SubscriptionId) : (r.without id).Sound n := by
  constructor
  case entries =>
    intro e member
    exact h.entries e (List.mem_of_mem_filter member)
  case distinct => exact h.distinct.sublist (List.filter_sublist.map _)

theorem subscribe (h : r.Sound n) (keep : SubscriptionId × Nat → Bool) :
    Sound { next := r.next + 1, entries := r.entries.filter keep ++ [(⟨r.next⟩, n)] } (n + 1) := by
  have old (e) (member : e ∈ r.entries.filter keep) := h.entries e (List.mem_of_mem_filter member)
  constructor
  case entries =>
    intro e member
    obtain before | new := List.mem_append.mp member
    · obtain ⟨number, loop⟩ := old e before
      exact ⟨Nat.lt_succ_of_lt number, Nat.lt_succ_of_lt loop⟩
    · obtain rfl := List.mem_singleton.mp new
      exact ⟨Nat.lt_succ_self _, Nat.lt_succ_self _⟩
  case distinct =>
    simp only [List.map_append, List.map_cons, List.map_nil, List.nodup_append]
    refine ⟨h.distinct.sublist (List.filter_sublist.map _), List.nodup_singleton _, ?_⟩
    intro id taken last new
    obtain rfl := List.mem_singleton.mp new
    obtain ⟨e, member, rfl⟩ := List.mem_map.mp taken
    intro same
    have number := (old e member).1
    rw [same] at number
    exact Nat.lt_irrefl _ number

theorem entry (h : r.Sound n) {id : SubscriptionId} {j k : Nat} (first : (id, j) ∈ r.entries)
    (second : (id, k) ∈ r.entries) : j = k := by
  have same := List.inj_on_of_nodup_map h.distinct first second rfl
  exact (Prod.mk.inj same).2

theorem find (h : r.Sound n) {id : SubscriptionId} {k : Nat} (entry : (id, k) ∈ r.entries) :
    r.entries.find? (·.1 = id) = some (id, k) := by
  obtain ⟨⟨id', j⟩, first⟩ : ∃ e, r.entries.find? (·.1 = id) = some e := by
    rw [← Option.isSome_iff_exists, List.find?_isSome]
    exact ⟨_, entry, by simp⟩
  obtain rfl : id' = id := by simpa using List.find?_some first
  obtain rfl : j = k := h.entry (List.mem_of_find?_eq_some first) entry
  exact first

end Registry.Sound

namespace World

section
variable {T α : Type} [Transport T]

/-- What a call may wait for is there. -/
def Known (w : World T α) : Awaited → Prop
  | .loop k => k < w.loops.length
  | .worker p i => ∃ pool, w.pools[p]? = some pool ∧ i < pool.size

/-- What a call may wait for has ended. -/
def Over (w : World T α) : Awaited → Prop
  | .loop k => ∃ l, w.loops[k]? = some l ∧ l.phase.isFinished = true
  | .worker p i => ∃ pool worker, w.pools[p]? = some pool ∧ pool.workers[i]? = some worker ∧
    worker.isAlive = false

variable {w v : World T α}

theorem over_of_ended {a : Awaited} {abnormal : Bool} (known : w.Known a)
    (heard : w.ended a = some abnormal) : w.Over a := by
  cases a with
  | loop k =>
    have here := List.getElem?_eq_getElem known
    simp only [ended, here] at heard
    split at heard
    · next finished => exact ⟨_, here, finished⟩
    · cases heard
  | worker p i =>
    obtain ⟨pool, here, bound⟩ := known
    have there : pool.workers[i]? = some pool.workers[i] := List.getElem?_eq_getElem bound
    refine ⟨pool, _, here, there, ?_⟩
    simp only [ended, here, Option.bind_some, there] at heard
    split at heard
    · next stopped => rw [Option.some.inj stopped]; rfl
    · next dead => rw [Option.some.inj dead]; rfl
    · cases heard
    · next absent => cases absent

/-- What is there stays there, and what has ended has ended for good. -/
structure Lasting (w v : World T α) : Prop where
  known : ∀ a, w.Known a → v.Known a
  ceased : ∀ a, w.Over a → v.Over a

theorem Lasting.length_le (h : Lasting w v) : w.loops.length ≤ v.loops.length := by
  by_contra fewer
  have known : v.Known (.loop v.loops.length) := h.known _ (by simpa [Known] using fewer)
  exact Nat.lt_irrefl _ known

theorem Lasting.of_each
    (loops : ∀ (k : Nat) (l : ReadLoop T α), w.loops[k]? = some l →
      ∃ l', v.loops[k]? = some l' ∧ (l.phase.isFinished = true → l'.phase.isFinished = true))
    (pools : Pool.LastAll w.pools v.pools) : Lasting w v := by
  constructor
  case known =>
    intro a known
    cases a with
    | loop k =>
      obtain ⟨l', there, -⟩ := loops k _ (List.getElem?_eq_getElem known)
      exact (List.getElem?_eq_some_iff.mp there).1
    | worker p i =>
      obtain ⟨pool, here, bound⟩ := known
      obtain ⟨pool', there, lasts⟩ := pools p pool here
      exact ⟨pool', there, lasts.size ▸ bound⟩
  case ceased =>
    intro a ceased
    cases a with
    | loop k =>
      obtain ⟨l, here, finished⟩ := ceased
      obtain ⟨l', there, stays⟩ := loops k l here
      exact ⟨l', there, stays finished⟩
    | worker p i =>
      obtain ⟨pool, worker, here, found, dead⟩ := ceased
      obtain ⟨pool', there, lasts⟩ := pools p pool here
      exact ⟨pool', worker, there, lasts.ended i worker found dead, dead⟩

/-- What is listed is there: the loops in the registries, and all that calls wait for. -/
structure Listed (w : World T α) : Prop where
  registries : ∀ queue ∈ w.queues, queue.registry.Sound w.loops.length
  awaited : ∀ p ∈ w.pending, ∀ a ∈ p.awaiting, w.Known a

/-- A move as the calls see it. -/
structure Goes (w v : World T α) : Prop where
  books : ∃ half, Books w v half
  lasting : Lasting w v

theorem Listed.goes (listed : Listed w) (goes : Goes w v) : Listed v := by
  obtain ⟨registries, awaited⟩ := listed
  obtain ⟨⟨half, books⟩, lasting⟩ := goes
  have more := lasting.length_le
  -- Loops only become more, so that what is registered stays known.
  have old : ∀ queue ∈ w.queues, queue.registry.Sound v.loops.length := by
    intro queue member
    exact (registries queue member).mono more
  have set {q : Nat} {queue : MessageQueue T} (sound : queue.registry.Sound v.loops.length) :
      ∀ queue' ∈ w.queues.set q queue, queue'.registry.Sound v.loops.length := by
    intro queue' member
    obtain before | rfl := List.mem_or_eq_of_mem_set member
    · exact old queue' before
    · exact sound
  have known : ∀ p ∈ w.pending, ∀ a ∈ p.awaiting, v.Known a := by
    intro p member a waits
    exact lasting.known a (awaited p member a waits)
  have made {p : Pending} (new : ∀ a ∈ p.awaiting, v.Known a) :
      ∀ p' ∈ w.pending ++ [p], ∀ a ∈ p'.awaiting, v.Known a := by
    intro p' member
    obtain before | last := List.mem_append.mp member
    · exact known p' before
    · exact List.mem_singleton.mp last ▸ new
  have on {c : Nat} {p p' : Pending} (here : w.pending[c]? = some p)
      (fewer : ∀ a ∈ p'.awaiting, a ∈ p.awaiting) :
      ∀ p₁ ∈ w.pending.set c p', ∀ a ∈ p₁.awaiting, v.Known a := by
    intro p₁ member a waits
    obtain before | rfl := List.mem_or_eq_of_mem_set member
    · exact known p₁ before a waits
    · exact known p (List.mem_of_getElem? here) a (fewer a waits)
  cases books with
  | keep queues loops pending => exact ⟨queues ▸ old, pending ▸ known⟩
  | @connect queue empty _ queues loops pending =>
    refine ⟨?_, pending ▸ known⟩
    intro queue' member
    rw [queues] at member
    obtain before | new := List.mem_append.mp member
    · exact old queue' before
    · obtain rfl := List.mem_singleton.mp new
      exact .of_empty empty
  | @subscribe q queue l here isOpen queues loops owner _ pending =>
    refine ⟨?_, pending ▸ known⟩
    have sound := (registries queue (List.mem_of_getElem? here)).subscribe
      fun entry => !w.loopFinished entry.2
    have length : v.loops.length = w.loops.length + 1 := by
      rw [loops, List.length_append, List.length_singleton]
    exact queues ▸ set (length ▸ sound)
  | @unsubscribe q queue id k here entry queues loops pending =>
    have sound := old queue (List.mem_of_getElem? here)
    refine ⟨queues ▸ set (sound.without id), pending ▸ made ?_⟩
    simpa [Known] using (sound.entries _ entry).2
  | @take q queue here queues loops pending =>
    exact ⟨queues ▸ set (old queue (List.mem_of_getElem? here)), pending ▸ known⟩
  | @drain q queue result here queues loops pending =>
    refine ⟨queues ▸ set (.of_empty rfl), pending ▸ made ?_⟩
    intro a waits
    obtain ⟨e, member, rfl⟩ := List.mem_map.mp waits
    exact ((old queue (List.mem_of_getElem? here)).entries e member).2
  | @shutdown p pool here queues loops pending =>
    refine ⟨queues ▸ old, pending ▸ made ?_⟩
    intro a waits
    obtain ⟨i, member, rfl⟩ := List.mem_map.mp waits
    exact lasting.known _ ⟨pool, here, List.mem_range.mp member⟩
  | idle queues loops pending => exact ⟨queues ▸ old, pending ▸ made (by simp)⟩
  | hear here unanswered awaiting ended queues loops pending =>
    refine ⟨queues ▸ old, pending ▸ on here ?_⟩
    intro a waits
    rw [awaiting]
    exact List.mem_cons_of_mem _ waits
  | answer here unanswered awaiting queues loops pending =>
    exact ⟨queues ▸ old, pending ▸ on here fun _ => id⟩

/-- Call `c` was made to wait for some things, one after the other. It has heard of the first few
of them, and it answers when it has heard of all. -/
def Awaits (w : World T α) (c : Nat) (purpose : Purpose) (awaited : List Awaited) : Prop :=
  ∃ p heard, w.pending[c]? = some p ∧ p.purpose = purpose ∧ awaited = heard ++ p.awaiting ∧
    (∀ a ∈ heard, w.Over a) ∧
    (p.result = none ∨ p.awaiting = [] ∧ p.result = some purpose.answer)

variable {c : Nat} {purpose : Purpose} {awaited : List Awaited}

theorem Awaits.new {p : Pending} (pending : v.pending = w.pending ++ [p])
    (unanswered : p.result = none) : Awaits v w.pending.length p.purpose p.awaiting := by
  refine ⟨p, [], ?_, rfl, rfl, nofun, .inl unanswered⟩
  rw [pending]
  exact List.getElem?_concat_length

/-- How a call goes on. -/
inductive Advances (w : World T α) (p : Pending) : Pending → Prop where
  | stay : Advances w p p
  | hear {a : Awaited} {rest : List Awaited} {abnormal : Bool} (unanswered : p.result = none)
    (awaiting : p.awaiting = a :: rest) (ended : w.ended a = some abnormal) :
    Advances w p { p with awaiting := rest }
  | answer (unanswered : p.result = none) (awaiting : p.awaiting = []) :
    Advances w p { p with result := some p.purpose.answer }

theorem Books.advances {half : Bool} (books : Books w v half) {p : Pending}
    (here : w.pending[c]? = some p) : ∃ p', v.pending[c]? = some p' ∧ Advances w p p' := by
  have bound := (List.getElem?_eq_some_iff.mp here).1
  have more (made : List Pending) (pending : v.pending = w.pending ++ made) :
      ∃ p', v.pending[c]? = some p' ∧ Advances w p p' :=
    ⟨p, by rw [pending, List.getElem?_append_left bound, here], .stay⟩
  have set {c' : Nat} {p₁ p' : Pending} (there : w.pending[c']? = some p₁)
      (pending : v.pending = w.pending.set c' p') (advances : Advances w p₁ p') :
      ∃ p', v.pending[c]? = some p' ∧ Advances w p p' := by
    by_cases mine : c' = c
    · subst mine
      obtain rfl : p = p₁ := Option.some.inj (here.symm.trans there)
      exact ⟨p', by rw [pending, List.getElem?_set_self bound], advances⟩
    · exact ⟨p, by rw [pending, List.getElem?_set_ne mine, here], .stay⟩
  cases books with
  | keep _ _ pending | connect _ _ _ _ pending | subscribe _ _ _ _ _ _ pending
  | take _ _ _ pending =>
    exact more [] (by rw [pending, List.append_nil])
  | unsubscribe _ _ _ _ pending | drain _ _ _ pending | shutdown _ _ _ pending
  | idle _ _ pending => exact more _ pending
  | hear there unanswered awaiting ended _ _ pending =>
    exact set there pending (.hear unanswered awaiting ended)
  | answer there unanswered awaiting _ _ pending =>
    exact set there pending (.answer unanswered awaiting)

theorem Awaits.goes (h : Awaits w c purpose awaited) (listed : Listed w) (goes : Goes w v) :
    Awaits v c purpose awaited := by
  obtain ⟨p, heard, here, same, split, ceased, answered⟩ := h
  obtain ⟨⟨half, books⟩, lasting⟩ := goes
  have ceased : ∀ a ∈ heard, v.Over a := by
    intro a member
    exact lasting.ceased a (ceased a member)
  obtain ⟨p', there, advances⟩ := books.advances here
  cases advances with
  | stay => exact ⟨p, heard, there, same, split, ceased, answered⟩
  | @hear a rest abnormal unanswered awaiting ended =>
    have known : w.Known a :=
      listed.awaited p (List.mem_of_getElem? here) a (awaiting ▸ List.mem_cons_self)
    refine ⟨_, heard ++ [a], there, same, ?_, ?_, .inl unanswered⟩
    · rw [split, awaiting, List.append_assoc]
      rfl
    · intro b member
      obtain before | last := List.mem_append.mp member
      · exact ceased b before
      · rw [List.mem_singleton.mp last]
        exact lasting.ceased a (over_of_ended known ended)
  | answer unanswered awaiting =>
    exact ⟨_, heard, there, same, split, ceased, .inr ⟨awaiting, congrArg (some ·.answer) same⟩⟩

/-- When a call has returned, all that it was made to wait for has ended. -/
theorem Awaits.returned (h : Awaits w c purpose awaited) {p : Pending}
    (here : w.pending[c]? = some p) {result : Except Error Unit}
    (returned : p.result = some result) : result = purpose.answer ∧ ∀ a ∈ awaited, w.Over a := by
  obtain ⟨p', heard, here', -, split, ceased, answered⟩ := h
  obtain rfl : p' = p := Option.some.inj (here'.symm.trans here)
  obtain unanswered | ⟨awaiting, answer⟩ := answered
  · simp [unanswered] at returned
  · rw [split, awaiting, List.append_nil]
    exact ⟨Option.some.inj (returned.symm.trans answer), ceased⟩

/-- What the calls see of a run. -/
abbrev Passes : World T α → World T α → Prop := Relation.ReflTransGen Goes

theorem Passes.listed (later : Passes w v) (listed : Listed w) : Listed v := by
  induction later with
  | refl => exact listed
  | tail _ goes ih => exact ih.goes goes

theorem Passes.awaits (later : Passes w v) (listed : Listed w) (h : Awaits w c purpose awaited) :
    Awaits v c purpose awaited := by
  induction later with
  | refl => exact h
  | tail before goes ih => exact ih.goes (Passes.listed before listed) goes

theorem worked_pools [DecidableEq α] {p : Nat} {pool pool' : Pool α}
    (here : w.pools[p]? = some pool) (lasts : Pool.Lasts pool pool') (effect : Pool.Effect α) :
    Pool.LastAll w.pools (w.worked p pool' effect).pools := by
  rw [(worked_still w p pool' effect).2]
  exact .set here lasts

theorem callStep_still (possible : w.callStep c = some v) :
    v.broker = w.broker ∧ v.queues = w.queues ∧ v.loops = w.loops ∧ v.pools = w.pools := by
  unfold callStep at possible
  split at possible
  · cases possible
  · next p _ =>
    split at possible
    · cases possible
    · split at possible
      · obtain rfl := Option.some.inj possible
        cases p.purpose <;> exact ⟨rfl, rfl, rfl, rfl⟩
      · split at possible
        · cases possible
        · next abnormal _ =>
          obtain rfl := Option.some.inj possible
          cases abnormal <;> exact ⟨rfl, rfl, rfl, rfl⟩

theorem ended_of_over {a : Awaited} (ceased : w.Over a) :
    ∃ abnormal, w.ended a = some abnormal := by
  cases a with
  | loop k =>
    obtain ⟨l, here, finished⟩ := ceased
    simp only [ended, here, finished, ↓reduceIte]
    exact ⟨_, rfl⟩
  | worker p i =>
    obtain ⟨pool, worker, here, there, dead⟩ := ceased
    cases worker with
    | idle | busy => cases dead
    | stopped => exact ⟨false, by simp [ended, here, there]⟩
    | dead => exact ⟨true, by simp [ended, here, there]⟩

/-- A call goes on when what it waits for has ended. -/
theorem callStep_over {p : Pending} (here : w.pending[c]? = some p) (unanswered : p.result = none)
    (ceased : ∀ a ∈ p.awaiting, w.Over a) : ∃ u, w.callStep c = some u := by
  unfold callStep
  simp only [here, unanswered, Option.isSome_none, Bool.false_eq_true, ↓reduceIte]
  split
  · exact ⟨_, rfl⟩
  · next a rest awaiting =>
    obtain ⟨abnormal, ended⟩ := ended_of_over (ceased a (awaiting ▸ List.mem_cons_self))
    exact ⟨_, by rw [ended]⟩

theorem step_pools [DecidableEq α] {s : Step} (possible : w.step s = some v) :
    Pool.LastAll w.pools v.pools := by
  cases s with
  | loop k =>
    obtain ⟨l, t, -, -, rfl⟩ := loopStep_takes possible
    unfold turned
    cases t.offer with
    | none => exact .refl _
    | some made =>
      apply Pool.LastAll.modify
      intro p
      rfl
  | pool p s =>
    obtain ⟨pool, pool', effect, here, stepped, rfl⟩ := poolStep_worked possible
    exact worked_pools here (Pool.step_lasts stepped) effect
  | call c =>
    obtain ⟨-, -, -, pools⟩ := callStep_still possible
    exact pools ▸ .refl _
  | wait ms =>
    obtain rfl := Option.some.inj possible
    exact .refl _

theorem command_pools (w : World T α) (command : Command T α) :
    Pool.LastAll w.pools (w.obey command).pools := by
  obtain same | ⟨label, work, n, more⟩ | ⟨p, shut⟩ := obey_pools w command
  · exact same ▸ .refl _
  · rw [more]
    exact .append w.pools _
  · rw [shut]
    apply Pool.LastAll.modify
    intro p
    rfl

end

section
variable {α : Type} {w v : World Ledger α} {published : Option Record}

theorem Change.stays (h : Change w v published) {k : Nat} {l : ReadLoop Ledger α}
    (here : w.loops[k]? = some l) :
    ∃ l', v.loops[k]? = some l' ∧ (l.phase.isFinished = true →
      l'.phase = l.phase ∧ l'.reader = l.reader ∧ v.acts k = w.acts k) := by
  have kept {l l' : ReadLoop Ledger α} (kept : Kept l l') (finished : l.phase.isFinished = true) :
      l'.phase = l.phase ∧ l'.reader = l.reader := by
    refine ⟨?_, kept.reader⟩
    obtain same | ⟨parked, -⟩ | ⟨m, accept, due, offered, -⟩ := kept.phase
    · exact same
    · rw [parked] at finished
      cases finished
    · rw [offered] at finished
      cases finished
  cases h with
  | @turn j l₀ t there takes eq =>
    subst eq
    by_cases mine : j = k
    · subst mine
      obtain rfl : l = l₀ := Option.some.inj (here.symm.trans there)
      have running : l.phase.isFinished = false := takes_running takes
      refine ⟨t.loop, turned_self here t, ?_⟩
      intro finished
      simp [running] at finished
    · refine ⟨l, (turned_ne t mine).trans here, ?_⟩
      intro _
      rw [acts_turned_ne takes mine]
      exact ⟨rfl, rfl, rfl⟩
  | keep _ loops acts | publish _ _ loops _ acts =>
    obtain ⟨l', there, stays⟩ := loops.of_some here
    refine ⟨l', there, ?_⟩
    intro finished
    obtain ⟨phase, reader⟩ := kept stays finished
    exact ⟨phase, reader, acts k⟩
  | subscribe _ _ _ _ _ _ _ loops acts =>
    have bound := (List.getElem?_eq_some_iff.mp here).1
    refine ⟨l, ?_, fun _ => ⟨rfl, rfl, acts k⟩⟩
    rw [loops, List.getElem?_append_left bound, here]

theorem Change.lasting (h : Change w v published) (pools : Pool.LastAll w.pools v.pools) :
    Lasting w v := by
  refine .of_each ?_ pools
  intro k l here
  obtain ⟨l', there, stays⟩ := h.stays here
  refine ⟨l', there, ?_⟩
  intro finished
  rw [(stays finished).1]
  exact finished

/-- In any run, a loop that has ended is as it was and does nothing more. -/
theorem Changes.stays (later : Changes w v) {k : Nat} {l : ReadLoop Ledger α}
    (here : w.loops[k]? = some l) :
    ∃ l', v.loops[k]? = some l' ∧ (l.phase.isFinished = true →
      l'.phase = l.phase ∧ l'.reader = l.reader ∧ v.acts k = w.acts k) := by
  induction later with
  | refl => exact ⟨l, here, fun _ => ⟨rfl, rfl, rfl⟩⟩
  | tail _ change ih =>
    obtain ⟨l₁, between, stays₁⟩ := ih
    obtain ⟨published, change⟩ := change
    obtain ⟨l₂, there, stays₂⟩ := change.stays between
    refine ⟨l₂, there, ?_⟩
    intro finished
    obtain ⟨phase₁, reader₁, acts₁⟩ := stays₁ finished
    obtain ⟨phase₂, reader₂, acts₂⟩ := stays₂ (phase₁ ▸ finished)
    exact ⟨phase₂.trans phase₁, reader₂.trans reader₁, acts₂.trans acts₁⟩

theorem takeWriter_change {q : Nat} {result : Except Error Unit}
    (taken : w.takeWriter q = some (result, v)) : Change w v none ∧ v.pools = w.pools := by
  unfold takeWriter at taken
  split at taken
  · cases taken
  · split at taken
    · cases taken
    · obtain ⟨-, rfl⟩ := Prod.mk.inj (Option.some.inj taken)
      exact ⟨.keep (.refl _) (.refl _) fun _ => rfl, rfl⟩

theorem drain_change (w : World Ledger α) (q : Nat) (queue : MessageQueue Ledger)
    (result : Except Error Unit) :
    Change w (w.drain q queue result).2 none ∧ (w.drain q queue result).2.pools = w.pools := by
  cases result with
  | ok => exact ⟨.keep (.refl _) (cancelAll_kept _ q) fun _ => rfl, rfl⟩
  | error e => exact ⟨.keep (.refl _) (cancelAll_kept _ q) fun k => acts_note_of_none rfl, rfl⟩

theorem step_goes [DecidableEq α] {s : Step} (possible : w.step s = some v) : Goes w v :=
  ⟨⟨_, step_books possible⟩, (step_change possible).lasting (step_pools possible)⟩

theorem command_goes [DecidableEq α] {command : Command Ledger α} (other : command.closes = false) :
    Goes w (w.obey command) := by
  obtain ⟨published, change⟩ := move_change (Move.command (w := w) command)
  exact ⟨⟨_, obey_books other⟩, change.lasting (command_pools w command)⟩

theorem takeWriter_goes {q : Nat} {result : Except Error Unit}
    (taken : w.takeWriter q = some (result, v)) : Goes w v := by
  obtain ⟨change, pools⟩ := takeWriter_change taken
  exact ⟨⟨_, takeWriter_books taken⟩, change.lasting (pools ▸ .refl _)⟩

theorem drain_goes {q : Nat} {queue : MessageQueue Ledger} (here : w.queues[q]? = some queue)
    (result : Except Error Unit) : Goes w (w.drain q queue result).2 := by
  obtain ⟨change, pools⟩ := drain_change w q queue result
  exact ⟨⟨_, drain_books here result⟩, change.lasting (pools ▸ .refl _)⟩

/-- To close a queue is two moves, as the calls see it. -/
theorem close_passes (w : World Ledger α) (q : Nat) : Passes w (w.close q).2 := by
  rw [close_eq]
  cases taken : w.takeWriter q with
  | none => exact .refl
  | some half =>
    obtain ⟨result, v⟩ := half
    have first := takeWriter_goes taken
    cases here : v.queues[q]? with
    | none => simpa only [here] using .single first
    | some queue =>
      have second := drain_goes here result
      simpa only [here] using (Relation.ReflTransGen.single first).tail second

variable [DecidableEq α]

theorem move_passes (move : Move w v) : Passes w v := by
  cases move with
  | step s possible => exact .single (step_goes possible)
  | command command =>
    cases other : command.closes with
    | false => exact .single (command_goes other)
    | true =>
      obtain ⟨q, rfl⟩ : ∃ q, command = .close q := by
        cases command <;> simp [Command.closes] at other ⊢
      exact close_passes w q

theorem Leads.passes (later : w.Leads v) : Passes w v := by
  induction later with
  | refl => exact .refl
  | tail _ move ih => exact ih.trans (move_passes move)

theorem reachable_listed (reach : Reachable {} w) : Listed w := by
  have start : Listed ({ broker := {} } : World Ledger α) := ⟨nofun, nofun⟩
  induction reach with
  | start => exact start
  | next _ move ih => exact (move_passes move).listed ih

end

end World

end Queue

end Courier
