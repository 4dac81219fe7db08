import Courier.Proofs.Queue.Waiting

/-!
# Queues that are closed

A call to close takes the writer of its queue first and gives up the
subscriptions then, and other calls come in between:

* `Closing`: a world with the calls to close that are between their halves, and
  those that wait for what was in the registry;
* `Whole`, `Runs`: what becomes of it when nothing comes between the halves of a
  call, as `runs_of_reachable` says of every world that can be reached;
* `Minded`: a loop that runs is in the registry of its queue, or some call waits
  for it;
* `closing_law`: when the call has returned, no loop of the queue runs but those
  that a call to unsubscribe had taken out of the registry and still waits for;
* `close_waits`: the same of calls to close that are made as a whole;
* `closed_early`: there may be one of those, and it goes on to commit.
-/

namespace Courier.Queue

open Broker (Ledger)

variable {α : Type}

/-- A world with queues that are being closed. -/
structure Closing (α : Type) where
  world : World Ledger α
  /-- Queues that have given up their writer, and what it came to to close it. -/
  leaving : List (Nat × Except Error Unit) := []
  /-- Queues that have given up their subscriptions, and the calls that wait for these. -/
  left : List (Nat × Nat) := []

namespace Closing

/-- Whatever can be done to a world, with each call to close in two halves. A record may be written
at any time, by whoever has the writer in hand. -/
inductive Move [DecidableEq α] (s : Closing α) : Closing α → Prop where
  | step {v : World Ledger α} (st : Step) (possible : s.world.step st = some v) :
    Move s { s with world := v }
  | command (c : World.Command Ledger α) (other : c.closes = false) :
    Move s { s with world := s.world.obey c }
  | put (q : Nat) (r : Record) : Move s { s with world := (s.world.put q r).2 }
  | take {q : Nat} {result : Except Error Unit} {v : World Ledger α}
    (taken : s.world.takeWriter q = some (result, v)) :
    Move s { s with world := v, leaving := s.leaving ++ [(q, result)] }
  /-- Whoever has taken a writer may come first. -/
  | drain {before after : List (Nat × Except Error Unit)} {q : Nat} {result : Except Error Unit}
    {queue : MessageQueue Ledger} (has : s.leaving = before ++ (q, result) :: after)
    (here : s.world.queues[q]? = some queue) :
    Move s {
      world := (s.world.drain q queue result).2
      leaving := before ++ after
      left := s.left ++ [(q, s.world.pending.length)] }

abbrev Leads [DecidableEq α] : Closing α → Closing α → Prop := Relation.ReflTransGen Move

/-- After a call to close that nothing came between. A queue without writer gives up nothing. -/
def closed (s : Closing α) (q : Nat) : Closing α :=
  { s with
    world := (s.world.close q).2
    left := s.left ++ ((s.world.close q).1.map fun n => (q, n)).toList }

/-- What happens when nothing comes between the halves of a call to close. -/
inductive Whole [DecidableEq α] (s : Closing α) : Closing α → Prop where
  | step {v : World Ledger α} (st : Step) (possible : s.world.step st = some v) :
    Whole s { s with world := v }
  | command (c : World.Command Ledger α) (other : c.closes = false) :
    Whole s { s with world := s.world.obey c }
  | close (q : Nat) : Whole s (s.closed q)

/-- A run in which nothing ever does. -/
abbrev Runs [DecidableEq α] : Closing α → Prop :=
  Relation.ReflTransGen Whole { world := { broker := {} } }

/-- The queues that a call to close has come to. -/
def parted (s : Closing α) : List Nat := s.leaving.map (·.1) ++ s.left.map (·.1)

end Closing

namespace World

variable {w v : World Ledger α}

theorem put_books (w : World Ledger α) (q : Nat) (r : Record) : Books w (w.put q r).2 false := by
  obtain eq | ⟨e, eq⟩ := put_eq w q r
  · rw [eq]
    exact .keep rfl (wake_kept _).length_eq rfl
  · rw [eq]
    exact .keep rfl rfl rfl

theorem put_pools (w : World Ledger α) (q : Nat) (r : Record) :
    (w.put q r).2.pools = w.pools := by
  obtain eq | ⟨e, eq⟩ := put_eq w q r <;> rw [eq] <;> rfl

/-- Where a loop comes from: it was made last, or it was there. -/
theorem Change.origin {published : Option Record} (h : Change w v published) {k : Nat}
    {l' : ReadLoop Ledger α} (there : v.loops[k]? = some l') :
    (k = w.loops.length ∧ v.loops = w.loops ++ [l']) ∨
      ∃ l, w.loops[k]? = some l ∧ l'.queue = l.queue ∧ (l.cancelled = true → l'.cancelled = true) ∧
        (l'.Running → l.Running) := by
  cases h with
  | @turn j l t here takes eq =>
    subst eq
    by_cases mine : j = k
    · subst mine
      obtain rfl : t.loop = l' := Option.some.inj ((turned_self here t).symm.trans there)
      refine .inr ⟨l, here, ?_, ?_, fun _ => takes_running takes⟩
      · cases takes <;> rfl
      · cases takes <;> exact id
    · exact .inr ⟨l', (turned_ne t mine).symm.trans there, rfl, id, id⟩
  | keep _ loops | publish _ _ loops =>
    have bound := (List.getElem?_eq_some_iff.mp there).1
    rw [loops.length_eq] at bound
    obtain ⟨l₁, there₁, kept⟩ := loops.of_some (List.getElem?_eq_getElem bound)
    obtain rfl : l₁ = l' := Option.some.inj (there₁.symm.trans there)
    exact .inr ⟨_, List.getElem?_eq_getElem bound, by rw [kept.rest], kept.cancelled,
      kept.running.mp⟩
  | subscribe _ _ _ _ _ _ _ loops =>
    rw [loops] at there
    obtain here | ⟨last, rfl⟩ := getElem?_concat_some there
    · exact .inr ⟨l', here, rfl, id, id⟩
    · exact .inl ⟨last, loops⟩

/-- A loop that is made is put into the registry of its queue, and the queue is open. -/
theorem Books.made {half : Bool} (books : Books w v half) {l : ReadLoop Ledger α}
    (made : v.loops = w.loops ++ [l]) :
    (∃ queue, w.queues[l.queue]? = some queue ∧ queue.writer ≠ none) ∧
      ∃ queue id, v.queues[l.queue]? = some queue ∧
        (id, w.loops.length) ∈ queue.registry.entries := by
  have grown : v.loops.length ≠ w.loops.length := by simp [made]
  cases books with
  | @subscribe q queue l₁ here isOpen queues loops owner =>
    obtain rfl : l₁ = l := by simpa [loops] using made
    subst owner
    have bound := (List.getElem?_eq_some_iff.mp here).1
    have there : v.queues[l₁.queue]? = _ := congrArg (·[l₁.queue]?) queues
    rw [List.getElem?_set_self bound] at there
    exact ⟨⟨queue, here, isOpen⟩, _, ⟨queue.registry.next⟩, there,
      List.mem_append_right _ (List.mem_singleton_self _)⟩
  | keep _ loops | connect _ _ _ loops | unsubscribe _ _ _ loops | take _ _ loops
  | drain _ _ loops | shutdown _ _ loops | idle _ loops | hear _ _ _ _ _ loops
  | answer _ _ _ _ loops => exact absurd loops grown

/-- A call to unsubscribe that has not returned waits for loop `k`. -/
def Forsaken (w : World Ledger α) (k c : Nat) : Prop :=
  ∃ p, w.pending[c]? = some p ∧ p.result = none ∧ .loop k ∈ p.awaiting ∧
    ∃ id, p.purpose = .unsubscribe id

/-- Somebody minds loop `k` of queue `q`: its registry, or a call that had taken it out of there
before the queue was closed, or the call that has closed the queue. -/
inductive Minded (w : World Ledger α) (left : List (Nat × Nat)) (k q : Nat) : Prop where
  | registered {queue : MessageQueue Ledger} {id : SubscriptionId}
    (here : w.queues[q]? = some queue) (entry : (id, k) ∈ queue.registry.entries)
  | forsaken {c : Nat} (waits : Forsaken w k c) (before : ∀ n, (q, n) ∈ left → c < n)
  | awaited {c : Nat} {p : Pending} (here : w.pending[c]? = some p) (unanswered : p.result = none)
    (waits : .loop k ∈ p.awaiting) (closed : (q, c) ∈ left)

theorem Books.waits {half : Bool} (books : Books w v half) {c k : Nat} {p : Pending}
    {l : ReadLoop Ledger α} (here : w.pending[c]? = some p) (unanswered : p.result = none)
    (waits : .loop k ∈ p.awaiting) (loop : w.loops[k]? = some l) (running : l.Running) :
    ∃ p', v.pending[c]? = some p' ∧ p'.purpose = p.purpose ∧ p'.result = none ∧
      .loop k ∈ p'.awaiting := by
  obtain ⟨p', there, advances⟩ := books.advances here
  cases advances with
  | stay => exact ⟨p, there, rfl, unanswered, waits⟩
  | @hear a rest abnormal _ awaiting ended =>
    refine ⟨_, there, rfl, unanswered, ?_⟩
    rw [awaiting] at waits
    obtain first | later := List.mem_cons.mp waits
    · -- What the call has heard of has ended.
      subst first
      have running : l.phase.isFinished = false := running
      simp [World.ended, loop, running] at ended
    · exact later
  | answer _ awaiting =>
    rw [awaiting] at waits
    cases waits

theorem takeWriter_eq {q : Nat} {result : Except Error Unit}
    (taken : w.takeWriter q = some (result, v)) : ∃ queue, w.queues[q]? = some queue ∧
      queue.writer ≠ none ∧ v.queues = w.queues.set q { queue with writer := none } ∧
      v.loops = w.loops ∧ v.pending = w.pending := by
  unfold takeWriter at taken
  split at taken
  · cases taken
  · next queue here =>
    split at taken
    · cases taken
    · next writer held =>
      obtain ⟨-, rfl⟩ := Prod.mk.inj (Option.some.inj taken)
      exact ⟨queue, here, by simp [held], rfl, rfl, rfl⟩

theorem close_cases (w : World Ledger α) (q : Nat) :
    (w.takeWriter q = none ∧ w.close q = (none, w)) ∨
      ∃ result v queue, w.takeWriter q = some (result, v) ∧ v.queues[q]? = some queue ∧
        w.close q = (some v.pending.length, (v.drain q queue result).2) := by
  have eq := close_eq w q
  cases taken : w.takeWriter q with
  | none =>
    rw [taken] at eq
    exact .inl ⟨rfl, eq⟩
  | some half =>
    obtain ⟨result, v⟩ := half
    obtain ⟨queue, here, -, queues, -⟩ := takeWriter_eq taken
    have bound := (List.getElem?_eq_some_iff.mp here).1
    have found : v.queues[q]? = some { queue with writer := none } := by
      rw [queues, List.getElem?_set_self bound]
    rw [taken] at eq
    simp only [found] at eq
    refine .inr ⟨result, v, _, rfl, found, eq.trans ?_⟩
    cases result <;> rfl

theorem close_shuts {q : Nat} {queue : MessageQueue Ledger} (here : w.queues[q]? = some queue) :
    ∃ queue', (w.close q).2.queues[q]? = some queue' ∧ queue'.writer = none := by
  have bound := (List.getElem?_eq_some_iff.mp here).1
  unfold close
  simp only [here]
  split
  · next none => exact ⟨queue, here, none⟩
  · exact ⟨_, List.getElem?_set_self bound, rfl⟩

theorem drain_eq (w : World Ledger α) (q : Nat) (queue : MessageQueue Ledger)
    (result : Except Error Unit) :
    (w.drain q queue result).2.queues =
        w.queues.set q { queue with registry := queue.registry.emptied } ∧
      (w.drain q queue result).2.loops = (w.cancelAll q).loops ∧
      (w.drain q queue result).2.pending = w.pending ++ [closing queue result] := by
  cases result <;> exact ⟨rfl, rfl, rfl⟩

section
variable {left : List (Nat × Nat)} {k q : Nat}

theorem Minded.set {a b queue : MessageQueue Ledger} {j : Nat} {id : SubscriptionId}
    (there : w.queues[j]? = some a) (queues : v.queues = w.queues.set j b)
    (here : w.queues[q]? = some queue) (entry : (id, k) ∈ queue.registry.entries)
    (stays : j = q → (id, k) ∈ a.registry.entries → (id, k) ∈ b.registry.entries) :
    Minded v left k q := by
  by_cases mine : j = q
  · subst mine
    obtain rfl : a = queue := Option.some.inj (there.symm.trans here)
    have bound := (List.getElem?_eq_some_iff.mp here).1
    have found : v.queues[j]? = some b := by rw [queues, List.getElem?_set_self bound]
    exact .registered found (stays rfl entry)
  · have found : v.queues[q]? = some queue := by rw [queues, List.getElem?_set_ne mine, here]
    exact .registered found entry

/-- A loop that runs is minded from one move to the next. -/
theorem Minded.books (minded : Minded w left k q) (books : Books w v false) (listed : Listed w)
    {l : ReadLoop Ledger α} (loop : w.loops[k]? = some l) (running : l.Running)
    (emptied : ∀ n, (q, n) ∈ left →
      ∃ queue, w.queues[q]? = some queue ∧ queue.registry.entries = []) :
    Minded v left k q := by
  cases minded with
  | forsaken waits before =>
    obtain ⟨p, here, unanswered, waits, id, purpose⟩ := waits
    obtain ⟨p', there, same, unanswered', waits'⟩ :=
      books.waits here unanswered waits loop running
    exact .forsaken ⟨p', there, unanswered', waits', id, same.trans purpose⟩ before
  | awaited here unanswered waits closed =>
    obtain ⟨p', there, -, unanswered', waits'⟩ := books.waits here unanswered waits loop running
    exact .awaited there unanswered' waits' closed
  | @registered queue id here entry =>
    cases books with
    | keep queues | shutdown _ queues | idle queues | hear _ _ _ _ queues | answer _ _ _ queues =>
      exact .registered (queues ▸ here) entry
    | connect _ _ queues =>
      have bound := (List.getElem?_eq_some_iff.mp here).1
      have found : v.queues[q]? = some queue := by
        rw [queues, List.getElem?_append_left bound, here]
      exact .registered found entry
    | subscribe there _ queues =>
      have finished : w.loopFinished k = false := by
        have running : l.phase.isFinished = false := running
        simp [loopFinished, loop, running]
      refine .set there queues here entry fun _ old => List.mem_append_left _ ?_
      exact List.mem_filter.mpr ⟨old, by simp [finished]⟩
    | @unsubscribe j a id' k' there entry' queues _ pending =>
      -- The call that takes this entry out waits for the loop in its place.
      by_cases this : j = q ∧ id' = id
      · obtain ⟨rfl, rfl⟩ := this
        obtain rfl : a = queue := Option.some.inj (there.symm.trans here)
        have sound := listed.registries a (List.mem_of_getElem? here)
        obtain rfl : k' = k := sound.entry entry' entry
        have last := List.getElem?_concat_length (l := w.pending)
          (a := { purpose := .unsubscribe id', awaiting := [.loop k'] })
        rw [← pending] at last
        refine .forsaken ⟨_, last, rfl, List.mem_singleton_self _, id', rfl⟩ ?_
        intro n closed
        obtain ⟨queue', here', empty⟩ := emptied n closed
        obtain rfl : a = queue' := Option.some.inj (here.symm.trans here')
        rw [empty] at entry
        cases entry
      · refine .set there queues here entry fun mine old => List.mem_filter.mpr ⟨old, ?_⟩
        simp only [ne_eq, decide_not, Bool.not_eq_eq_eq_not, Bool.not_true, decide_eq_false_iff_not]
        intro same
        exact this ⟨mine, same.symm⟩

theorem Minded.take (minded : Minded w left k q) {j : Nat} {result : Except Error Unit}
    (taken : w.takeWriter j = some (result, v)) : Minded v left k q := by
  obtain ⟨queue, there, -, queues, -, pending⟩ := takeWriter_eq taken
  cases minded with
  | registered here entry => exact .set there queues here entry fun _ => id
  | forsaken waits before =>
    refine .forsaken ?_ before
    unfold Forsaken
    rwa [pending]
  | awaited here unanswered waits closed =>
    exact .awaited (pending ▸ here) unanswered waits closed

theorem Minded.drain (minded : Minded w left k q) {j : Nat} {queue : MessageQueue Ledger}
    (there : w.queues[j]? = some queue) (result : Except Error Unit) :
    Minded (w.drain j queue result).2 (left ++ [(j, w.pending.length)]) k q := by
  obtain ⟨queues, -, pending⟩ := drain_eq w j queue result
  have old {c : Nat} {p : Pending} (here : w.pending[c]? = some p) :
      (w.drain j queue result).2.pending[c]? = some p := by
    have bound := (List.getElem?_eq_some_iff.mp here).1
    rw [pending, List.getElem?_append_left bound, here]
  cases minded with
  | @registered queue' id here entry =>
    by_cases mine : j = q
    · subst mine
      obtain rfl : queue = queue' := Option.some.inj (there.symm.trans here)
      have last := List.getElem?_concat_length (l := w.pending) (a := closing queue result)
      rw [← pending] at last
      have waits : Awaited.loop k ∈ (closing queue result).awaiting :=
        List.mem_map.mpr ⟨(id, k), entry, rfl⟩
      exact .awaited last rfl waits (List.mem_append_right _ (List.mem_singleton_self _))
    · exact .set there queues here entry fun same => absurd same mine
  | @forsaken c waits before =>
    obtain ⟨p, here, waits⟩ := waits
    refine .forsaken ⟨p, old here, waits⟩ ?_
    intro n closed
    obtain earlier | last := List.mem_append.mp closed
    · exact before n earlier
    · obtain ⟨-, rfl⟩ := Prod.mk.inj (List.mem_singleton.mp last)
      exact (List.getElem?_eq_some_iff.mp here).1
  | awaited here unanswered waits closed =>
    exact .awaited (old here) unanswered waits (List.mem_append_left _ closed)

end

end World

namespace Closing

open World (Change Books Goes Listed Lasting Minded Forsaken)

/-- Every loop that runs is minded, and a queue is given up once and for good. -/
structure Attended (s : Closing α) : Prop where
  listed : Listed s.world
  once : s.parted.Nodup
  shut : ∀ q ∈ s.parted, ∃ queue, s.world.queues[q]? = some queue ∧ queue.writer = none
  emptied : ∀ q n, (q, n) ∈ s.left →
    ∃ queue, s.world.queues[q]? = some queue ∧ queue.registry.entries = []
  called : ∀ q n, (q, n) ∈ s.left →
    ∃ p result, s.world.pending[n]? = some p ∧ p.purpose = .close result
  minded : ∀ (k : Nat) (l : ReadLoop Ledger α), s.world.loops[k]? = some l → l.Running →
    Minded s.world s.left k l.queue
  cancelled : ∀ q n, (q, n) ∈ s.left → ∀ (k : Nat) (l : ReadLoop Ledger α),
    s.world.loops[k]? = some l → l.queue = q → l.cancelled = true

theorem mem_parted {s : Closing α} {q n : Nat} (left : (q, n) ∈ s.left) : q ∈ s.parted :=
  List.mem_append_right _ (List.mem_map.mpr ⟨(q, n), left, rfl⟩)

section
variable {s t : Closing α} {w v u : World Ledger α} {published : Option Record}

theorem Attended.open_of_made (h : Attended s) {half : Bool} (books : Books s.world v half)
    {l : ReadLoop Ledger α} (made : v.loops = s.world.loops ++ [l]) : l.queue ∉ s.parted := by
  intro parted
  obtain ⟨⟨queue, here, isOpen⟩, -⟩ := books.made made
  obtain ⟨queue', here', closed⟩ := h.shut _ parted
  obtain rfl : queue = queue' := Option.some.inj (here.symm.trans here')
  exact isOpen closed

/-- A closed queue stays closed, and its registry stays empty. -/
theorem Attended.ages (h : Attended s) {half : Bool} (books : Books s.world v half) :
    (∀ q ∈ s.parted, ∃ queue, v.queues[q]? = some queue ∧ queue.writer = none) ∧
      ∀ q n, (q, n) ∈ s.left →
        ∃ queue, v.queues[q]? = some queue ∧ queue.registry.entries = [] := by
  constructor
  · intro q parted
    obtain ⟨queue, here, closed⟩ := h.shut q parted
    obtain ⟨queue', there, ages⟩ := books.ages here
    exact ⟨queue', there, ages.closed closed⟩
  · intro q n left
    obtain ⟨queue, here, closed⟩ := h.shut q (mem_parted left)
    obtain ⟨queue₁, here₁, empty⟩ := h.emptied q n left
    obtain rfl : queue = queue₁ := Option.some.inj (here.symm.trans here₁)
    obtain ⟨queue', there, ages⟩ := books.ages here
    refine ⟨queue', there, List.eq_nil_iff_forall_not_mem.mpr ?_⟩
    intro e member
    obtain old | ⟨isOpen, -⟩ := ages.entries e member
    · rw [empty] at old
      cases old
    · exact isOpen closed

/-- The call that has closed a queue is still that call. -/
theorem Attended.call (h : Attended s) {half : Bool} (books : Books s.world v half) {q n : Nat}
    (left : (q, n) ∈ s.left) : ∃ p result, v.pending[n]? = some p ∧ p.purpose = .close result := by
  obtain ⟨p, result, here, purpose⟩ := h.called q n left
  obtain ⟨p', there, advances⟩ := books.advances here
  exact ⟨p', result, there, by cases advances <;> exact purpose⟩

/-- The loops of a queue that was given up stay cancelled. -/
theorem Attended.cancel (h : Attended s) {half : Bool} (books : Books s.world v half)
    (change : Change s.world v published) {q n : Nat} (left : (q, n) ∈ s.left) {k : Nat}
    {l : ReadLoop Ledger α} (there : v.loops[k]? = some l) (owner : l.queue = q) :
    l.cancelled = true := by
  obtain ⟨-, made⟩ | ⟨l₀, here, same, stays, -⟩ := change.origin there
  · exact absurd (owner ▸ mem_parted left) (h.open_of_made books made)
  · exact stays (h.cancelled q n left k l₀ here (same.symm.trans owner))

theorem Attended.quiet (h : Attended s) (books : Books s.world v false)
    (change : Change s.world v published) (lasting : Lasting s.world v) :
    Attended { s with world := v } := by
  have ⟨shut, emptied⟩ := h.ages books
  constructor
  case listed => exact h.listed.goes ⟨⟨_, books⟩, lasting⟩
  case once => exact h.once
  case shut => exact shut
  case emptied => exact emptied
  case called => exact fun q n => h.call books
  case minded =>
    intro k l there running
    obtain ⟨last, made⟩ | ⟨l₀, here, same, -, ran⟩ := change.origin there
    · obtain ⟨-, queue, id, found, entry⟩ := books.made made
      exact .registered found (last ▸ entry)
    · have minded := h.minded k l₀ here (ran running)
      rw [same]
      exact minded.books books h.listed here (ran running) (h.emptied l₀.queue)
  case cancelled => exact fun q n left k l => h.cancel books change left

theorem attended_start : Attended ({ world := { broker := {} } } : Closing α) := by
  constructor
  case listed => exact ⟨nofun, nofun⟩
  case once => exact List.nodup_nil
  case minded =>
    intro k l here
    cases here
  case shut | emptied | called | cancelled => nofun

theorem Attended.take (h : Attended s) {q : Nat} {result : Except Error Unit}
    (taken : s.world.takeWriter q = some (result, v)) :
    Attended { s with world := v, leaving := s.leaving ++ [(q, result)] } := by
  have books := World.takeWriter_books taken
  have goes := World.takeWriter_goes taken
  obtain ⟨change, -⟩ := World.takeWriter_change taken
  obtain ⟨queue, here, isOpen, queues, loops, -⟩ := World.takeWriter_eq taken
  have ⟨shut, emptied⟩ := h.ages books
  have fresh : q ∉ s.parted := by
    intro parted
    obtain ⟨queue', here', closed⟩ := h.shut q parted
    obtain rfl : queue = queue' := Option.some.inj (here.symm.trans here')
    exact isOpen closed
  have perm : (s.leaving ++ [(q, result)]).map (·.1) ++ s.left.map (·.1) |>.Perm
      (q :: s.parted) := by
    simp [parted]
  constructor
  case listed => exact h.listed.goes goes
  case once => exact perm.nodup_iff.mpr (List.nodup_cons.mpr ⟨fresh, h.once⟩)
  case shut =>
    intro q' parted
    obtain rfl | old := List.mem_cons.mp (perm.mem_iff.mp parted)
    · have bound := (List.getElem?_eq_some_iff.mp here).1
      have found : v.queues[q']? = some { queue with writer := none } := by
        rw [queues, List.getElem?_set_self bound]
      exact ⟨_, found, rfl⟩
    · exact shut q' old
  case emptied => exact emptied
  case called => exact fun q n => h.call books
  case minded =>
    intro k l there running
    exact (h.minded k l (loops ▸ there) running).take taken
  case cancelled => exact fun q n left k l => h.cancel books change left

theorem Attended.drain (h : Attended s) {before after : List (Nat × Except Error Unit)} {q : Nat}
    {result : Except Error Unit} {queue : MessageQueue Ledger}
    (has : s.leaving = before ++ (q, result) :: after) (here : s.world.queues[q]? = some queue) :
    Attended {
      world := (s.world.drain q queue result).2
      leaving := before ++ after
      left := s.left ++ [(q, s.world.pending.length)] } := by
  have books := World.drain_books here result
  have goes := World.drain_goes here result
  obtain ⟨change, -⟩ := World.drain_change s.world q queue result
  obtain ⟨queues, loops, pending⟩ := World.drain_eq s.world q queue result
  have ⟨shut, emptied⟩ := h.ages books
  have perm : (before ++ after).map (·.1) ++
      (s.left ++ [(q, s.world.pending.length)]).map (·.1) |>.Perm s.parted := by
    simp only [parted, has, List.map_append, List.map_cons, List.map_nil, List.append_assoc]
    apply List.Perm.append_left
    simp only [← List.append_assoc]
    exact List.perm_append_singleton ..
  constructor
  case listed => exact h.listed.goes goes
  case once => exact perm.nodup_iff.mpr h.once
  case shut => exact fun q' parted => shut q' (perm.mem_iff.mp parted)
  case emptied =>
    intro q' n left
    obtain old | last := List.mem_append.mp left
    · exact emptied q' n old
    · obtain ⟨rfl, -⟩ := Prod.mk.inj (List.mem_singleton.mp last)
      have bound := (List.getElem?_eq_some_iff.mp here).1
      have found := List.getElem?_set_self (a := { queue with registry :=
        queue.registry.emptied }) bound
      rw [← queues] at found
      exact ⟨_, found, rfl⟩
  case called =>
    intro q' n left
    obtain old | last := List.mem_append.mp left
    · exact h.call books old
    · obtain ⟨-, rfl⟩ := Prod.mk.inj (List.mem_singleton.mp last)
      have made := List.getElem?_concat_length (l := s.world.pending)
        (a := World.closing queue result)
      rw [← pending] at made
      exact ⟨_, result, made, rfl⟩
  case minded =>
    intro k l there running
    -- A drain makes no loop, and awaits those that the queue had.
    obtain ⟨-, made⟩ | ⟨l₀, here₀, same, -, ran⟩ := change.origin there
    · have length := congrArg List.length made
      rw [loops] at length
      simp [World.cancelAll] at length
    · rw [same]
      exact (h.minded k l₀ here₀ (ran running)).drain here result
  case cancelled =>
    intro q' n left k l there owner
    obtain old | last := List.mem_append.mp left
    · exact h.cancel books change old there owner
    · obtain ⟨rfl, -⟩ := Prod.mk.inj (List.mem_singleton.mp last)
      rw [loops] at there
      obtain ⟨l₀, -, rfl⟩ := Option.map_eq_some_iff.mp ((List.getElem?_map ..).symm.trans there)
      split at owner
      · next mine => simp [mine]
      · next other => exact absurd owner other

/-- A queue is given up by one call. -/
theorem Attended.only (h : Attended s) {q n n' : Nat} (left' : (q, n') ∈ s.left)
    (left : (q, n) ∈ s.left) : n' = n := by
  have distinct := (List.nodup_append.mp h.once).2.1
  have same := List.inj_on_of_nodup_map distinct left' left rfl
  exact (Prod.mk.inj same).2

/-- When the call that has closed a queue has returned, a loop of the queue has ended, or an earlier
call to unsubscribe still waits for it. -/
theorem Attended.ended (h : Attended s) {q n : Nat} (left : (q, n) ∈ s.left) {p : Pending}
    (call : s.world.pending[n]? = some p) {r : Except Error Unit} (returned : p.result = some r)
    {k : Nat} {l : ReadLoop Ledger α} (here : s.world.loops[k]? = some l) (owner : l.queue = q) :
    l.phase.isFinished = true ∨ ∃ c, c < n ∧ Forsaken s.world k c := by
  by_cases running : l.Running
  · right
    subst owner
    cases h.minded k l here running with
    | registered found entry =>
      obtain ⟨queue, found', empty⟩ := h.emptied _ n left
      obtain rfl := Option.some.inj (found.symm.trans found')
      rw [empty] at entry
      cases entry
    | forsaken waits before => exact ⟨_, before n left, waits⟩
    | awaited found unanswered _ closed =>
      obtain rfl := h.only closed left
      obtain rfl := Option.some.inj (found.symm.trans call)
      simp [returned] at unanswered
  · left
    simpa [ReadLoop.Running] using running

/-- A queue that was given up has no subscription, and none that could be given up. -/
theorem Attended.none (h : Attended s) {q n : Nat} (left : (q, n) ∈ s.left) :
    s.world.subscriptions q = 0 ∧
      ∀ id, s.world.unsubscribe q id = (.error (unknownSubscription id), s.world) := by
  obtain ⟨queue, here, empty⟩ := h.emptied q n left
  constructor
  · simp [World.subscriptions, here, empty]
  · intro id
    apply World.unsubscribe_none
    intro queue' k here' entry
    obtain rfl : queue = queue' := Option.some.inj (here.symm.trans here')
    rw [empty] at entry
    cases entry

variable [DecidableEq α]

theorem Attended.move (h : Attended s) (move : Move s t) : Attended t := by
  cases move with
  | step st possible =>
    have goes := World.step_goes possible
    exact h.quiet (World.step_books possible) (World.step_change possible) goes.lasting
  | command c other =>
    have goes := World.command_goes (w := s.world) other
    obtain ⟨published, change⟩ := World.move_change (World.Move.command (w := s.world) c)
    exact h.quiet (World.obey_books other) change goes.lasting
  | put q r =>
    obtain ⟨result, v, eq, change⟩ := World.put_change s.world q r
    have books := World.put_books s.world q r
    have pools := World.put_pools s.world q r
    rw [eq] at books pools ⊢
    cases result with
    | ok => exact h.quiet books change (change.lasting (pools ▸ .refl _))
    | error e => exact h.quiet books change (change.lasting (pools ▸ .refl _))
  | take taken => exact h.take taken
  | drain has here => exact h.drain has here

theorem Leads.attended (run : Leads { world := { broker := {} } } s) : Attended s := by
  induction run with
  | refl => exact attended_start
  | tail _ move ih => exact ih.move move

theorem Move.change (move : Move s t) : ∃ published, Change s.world t.world published := by
  cases move with
  | step st possible => exact ⟨none, World.step_change possible⟩
  | command c => exact World.move_change (.command c)
  | put q r =>
    obtain ⟨result, v, eq, change⟩ := World.put_change s.world q r
    rw [eq]
    cases result <;> exact ⟨_, change⟩
  | take taken => exact ⟨none, (World.takeWriter_change taken).1⟩
  | @drain _ _ q result queue => exact ⟨none, (World.drain_change s.world q queue result).1⟩

theorem Move.left_grows (move : Move s t) : s.left ⊆ t.left := by
  cases move with
  | step | command | put | take => exact List.Subset.refl _
  | drain => exact List.subset_append_left ..

theorem Move.books (move : Move s t) : ∃ half, Books s.world t.world half := by
  cases move with
  | step st possible => exact ⟨_, World.step_books possible⟩
  | command c other => exact ⟨_, World.obey_books other⟩
  | put q r => exact ⟨_, World.put_books s.world q r⟩
  | take taken => exact ⟨_, World.takeWriter_books taken⟩
  | @drain _ _ _ result _ _ here => exact ⟨_, World.drain_books here result⟩

/-- After a queue was given up, it gets no loop any more, and a loop that has ended does nothing
more. -/
theorem Attended.final (h : Attended s) {q n : Nat} (left : (q, n) ∈ s.left) (later : Leads s t) :
    Attended t ∧ (q, n) ∈ t.left ∧ ∀ (k : Nat) (l' : ReadLoop Ledger α),
      t.world.loops[k]? = some l' → l'.queue = q →
        ∃ l, s.world.loops[k]? = some l ∧ l.queue = q ∧ (l.phase.isFinished = true →
          l'.phase = l.phase ∧ t.world.acts k = s.world.acts k) := by
  induction later with
  | refl => exact ⟨h, left, fun k l there owner => ⟨l, there, owner, fun _ => ⟨rfl, rfl⟩⟩⟩
  | tail _ move ih =>
    obtain ⟨attended, left₁, earlier⟩ := ih
    obtain ⟨published, change⟩ := move.change
    obtain ⟨half, books⟩ := move.books
    refine ⟨attended.move move, move.left_grows left₁, ?_⟩
    intro k l' there owner
    obtain ⟨-, made⟩ | ⟨l₁, here, same, -, -⟩ := change.origin there
    · exact absurd (owner ▸ mem_parted left₁) (attended.open_of_made books made)
    · obtain ⟨l, found, mine, stays⟩ := earlier k l₁ here (same.symm.trans owner)
      refine ⟨l, found, mine, ?_⟩
      intro finished
      obtain ⟨phase, acts⟩ := stays finished
      obtain ⟨l₂, there₂, stays₂⟩ := change.stays here
      obtain rfl : l₂ = l' := Option.some.inj (there₂.symm.trans there)
      obtain ⟨phase₂, -, acts₂⟩ := stays₂ (phase ▸ finished)
      exact ⟨phase₂.trans phase, acts₂.trans acts⟩

/-- A call to close as a whole is its two halves. -/
theorem leads_closed (quiet : s.leaving = []) (q : Nat) : Leads s (s.closed q) := by
  obtain ⟨-, eq⟩ | ⟨result, v, queue, taken, found, eq⟩ := World.close_cases s.world q
  · have same : s.closed q = s := by simp [closed, eq]
    rw [same]
  · have first : Move s { s with world := v, leaving := s.leaving ++ [(q, result)] } := .take taken
    have has : s.leaving ++ [(q, result)] = [] ++ (q, result) :: [] := by rw [quiet]
    have second := Move.drain
      (s := { s with world := v, leaving := s.leaving ++ [(q, result)] }) has found
    have both : s.closed q = {
        world := (v.drain q queue result).2
        leaving := [] ++ []
        left := s.left ++ [(q, v.pending.length)] } := by
      simp [closed, eq, quiet]
    exact both ▸ .tail (.single first) second

theorem Whole.leads (whole : Whole s t) (quiet : s.leaving = []) :
    Leads s t ∧ t.leaving = [] := by
  cases whole with
  | step st possible => exact ⟨.single (.step st possible), quiet⟩
  | command c other => exact ⟨.single (.command c other), quiet⟩
  | close q => exact ⟨leads_closed quiet q, quiet⟩

theorem leads_of_whole (quiet : s.leaving = []) (later : Relation.ReflTransGen Whole s t) :
    Leads s t ∧ t.leaving = [] := by
  induction later with
  | refl => exact ⟨.refl, quiet⟩
  | tail _ whole ih =>
    obtain ⟨leads, quiet⟩ := ih
    obtain ⟨leads', quiet⟩ := whole.leads quiet
    exact ⟨leads.trans leads', quiet⟩

theorem whole_of_leads (later : s.world.Leads v) :
    ∃ t, Relation.ReflTransGen Whole s t ∧ t.world = v := by
  induction later with
  | refl => exact ⟨s, .refl, rfl⟩
  | tail _ move ih =>
    obtain ⟨t, later, rfl⟩ := ih
    cases move with
    | step st possible => exact ⟨_, later.tail (.step st possible), rfl⟩
    | command c =>
      cases other : c.closes with
      | false => exact ⟨_, later.tail (.command c other), rfl⟩
      | true =>
        obtain ⟨q, rfl⟩ : ∃ q, c = .close q := by
          cases c <;> simp [World.Command.closes] at other ⊢
        exact ⟨_, later.tail (.close q), rfl⟩

/-- Every world that can be reached is one in which nobody is between the halves of a call. -/
theorem runs_of_reachable (reach : World.Reachable {} v) :
    ∃ s : Closing α, Runs s ∧ s.world = v := by
  refine whole_of_leads (s := { world := { broker := {} } }) ?_
  induction reach with
  | start => exact .refl
  | next _ move ih => exact ih.tail move

/-- A queue is without its writer when a call to close has given up its subscriptions. -/
theorem Runs.left_iff (runs : Runs s) {q : Nat} : (∃ n, (q, n) ∈ s.left) ↔
    ∃ queue, s.world.queues[q]? = some queue ∧ queue.writer = none := by
  constructor
  · rintro ⟨n, left⟩
    exact (leads_of_whole rfl runs).1.attended.shut q (mem_parted left)
  induction runs with
  | refl => nofun
  | @tail s _ _ whole ih =>
    rintro ⟨queue, there, shut⟩
    cases whole with
    | step st possible => exact ih ((World.step_books possible).closed there shut)
    | command c other => exact ih ((World.obey_books other).closed there shut)
    | close j =>
      obtain ⟨-, eq⟩ | ⟨result, v, queue', taken, -, eq⟩ := World.close_cases s.world j
      · simp only [closed, eq] at there ⊢
        simpa using ih ⟨queue, there, shut⟩
      · simp only [closed, eq] at there ⊢
        by_cases mine : q = j
        · exact ⟨v.pending.length, by simp [mine]⟩
        · obtain ⟨_, -, -, queues, -⟩ := World.takeWriter_eq taken
          rw [(World.drain_eq v j queue' result).1, List.getElem?_set_ne (Ne.symm mine), queues,
            List.getElem?_set_ne (Ne.symm mine)] at there
          obtain ⟨n, left⟩ := ih ⟨queue, there, shut⟩
          exact ⟨n, List.mem_append_left _ left⟩

/-- The law of queue `q`, which call `n` has closed. -/
structure ClosingLaw (s : Closing α) (q n : Nat) : Prop where
  call : ∃ p result, s.world.pending[n]? = some p ∧ p.purpose = .close result
  /-- No other call waits for what was in the registry. -/
  only : ∀ n', (q, n') ∈ s.left → n' = n
  /-- A loop has ended, or an earlier call to unsubscribe still waits for it. -/
  ended : ∀ (k : Nat) (l : ReadLoop Ledger α), s.world.loops[k]? = some l → l.queue = q →
    l.phase.isFinished = true ∨ ∃ c, c < n ∧ Forsaken s.world k c
  cancelled : ∀ (k : Nat) (l : ReadLoop Ledger α), s.world.loops[k]? = some l → l.queue = q →
    l.cancelled = true
  /-- No loop is made any more, and one that has ended does nothing more. -/
  final : ∀ t, Leads s t → ∀ (k : Nat) (l' : ReadLoop Ledger α),
    t.world.loops[k]? = some l' → l'.queue = q →
      ∃ l, s.world.loops[k]? = some l ∧ l.queue = q ∧ (l.phase.isFinished = true →
        l'.phase = l.phase ∧ t.world.acts k = s.world.acts k)
  /-- Where nobody is between two halves, a call to close may be made as a whole. -/
  whole : s.leaving = [] → ∀ t, Whole s t → Leads s t

/-- **A call to close waits for the loops it finds.** When it has returned, every loop that its
queue ever had was cancelled, and has ended unless a call to unsubscribe, made before the
subscriptions were given up, still waits for it. -/
theorem closing_law (run : Leads { world := { broker := {} } } s) {q n : Nat}
    (left : (q, n) ∈ s.left) {p : Pending} (call : s.world.pending[n]? = some p)
    {r : Except Error Unit} (returned : p.result = some r) : ClosingLaw s q n := by
  have attended := run.attended
  constructor
  case call => exact attended.called q n left
  case only => exact fun n' left' => attended.only left' left
  case ended => exact fun k l here owner => attended.ended left call returned here owner
  case cancelled => exact attended.cancelled q n left
  case final => exact fun t later => (attended.final left later).2.2
  case whole => exact fun quiet _ whole => (whole.leads quiet).1

/-- The same of a call to close that is made as a whole, in any world that can be reached. -/
theorem close_waits (reach : World.Reachable {} w) {q n : Nat} (closes : w.close q = (some n, v))
    (later : v.Leads u) {p : Pending} (call : u.pending[n]? = some p) {r : Except Error Unit}
    (returned : p.result = some r) :
    (∀ (k : Nat) (l : ReadLoop Ledger α), u.loops[k]? = some l → l.queue = q →
      l.cancelled = true ∧ (l.phase.isFinished = true ∨ ∃ c, c < n ∧ Forsaken u k c)) ∧
    ∀ x, u.Leads x → ∀ (k : Nat) (l' : ReadLoop Ledger α), x.loops[k]? = some l' → l'.queue = q →
      ∃ l, u.loops[k]? = some l ∧ l.queue = q ∧ (l.phase.isFinished = true →
        l'.phase = l.phase ∧ x.acts k = u.acts k) := by
  obtain ⟨s, runs, rfl⟩ := runs_of_reachable reach
  have left : (q, n) ∈ (s.closed q).left := by simp [closed, closes]
  have world : (s.closed q).world = v := congrArg Prod.snd closes
  obtain ⟨t, between, rfl⟩ := whole_of_leads (s := s.closed q) (world ▸ later)
  have ⟨run, quiet⟩ := leads_of_whole rfl (runs.tail (.close q))
  have ⟨leads, quiet⟩ := leads_of_whole quiet between
  obtain ⟨attended, left, -⟩ := run.attended.final left leads
  constructor
  · intro k l here owner
    exact ⟨attended.cancelled q n left k l here owner,
      attended.ended left call returned here owner⟩
  · intro x later
    obtain ⟨y, between, rfl⟩ := whole_of_leads later
    exact (attended.final left (leads_of_whole quiet between).1).2.2

theorem leads_after (s : Closing α) (attempts : List (World.Attempt Ledger α))
    (others : ∀ c, .command c ∈ attempts → c.closes = false) :
    Leads s { s with world := s.world.after attempts } := by
  induction attempts using List.reverseRecOn with
  | nil => exact .refl
  | append_singleton attempts a ih =>
    have before := ih fun c member => others c (List.mem_append_left _ member)
    rw [World.after_concat]
    cases a with
    | command c =>
      have other := others c (List.mem_append_right _ (List.mem_singleton_self _))
      exact before.tail (.command c other)
    | step st =>
      cases possible : (s.world.after attempts).step st with
      | none => simpa [World.attempt, possible] using before
      | some v => simpa [World.attempt, possible] using before.tail (.step st possible)

end

end Closing

namespace World

/-- A subscription whose subscriber is busy is given up. -/
def forsaking : List (Attempt Ledger String) :=
  [.command (.connect ⟨[]⟩ {
      brokers := "memory:9092", username := "develop", password := "secret", mechanisms := "PLAIN"
      protocol := "PLAINTEXT" }),
    .command (.subscribe 0 orders "audit" "auditor"
      (.direct ⟨fun _ _ => { accept := true, delay := 50 }⟩)),
    .command (.publish 0 orders (.text "first")),
    .step (.loop 0), .command (.unsubscribe 0 ⟨1⟩)]

end World

namespace Closing

/-- A call to close overtakes the call that gives up the only subscription. -/
theorem closing_law_forsaking : ∃ s : Closing String,
    Leads { world := { broker := {} } } s ∧ s.left = [(0, 1)] ∧
      s.world.pending.map (·.result.isSome) = [false, true] ∧
      s.world.loops.map (·.phase.isFinished) = [false] ∧ ClosingLaw s 0 1 := by
  have forsaken := leads_after (α := String) { world := { broker := {} } } World.forsaking (by
    intro c member
    simp only [World.forsaking, List.mem_cons, World.Attempt.command.injEq, reduceCtorEq,
      List.not_mem_nil, or_false, false_or] at member
    obtain rfl | rfl | rfl | rfl := member <;> rfl)
  have taken := forsaken.tail (.take (q := 0) rfl)
  have drained := taken.tail (.drain (show _ = [] ++ (0, .ok ()) :: [] from rfl) rfl)
  have run := drained.tail (.step (.call 1) rfl)
  exact ⟨_, run, rfl, rfl, rfl, closing_law run (List.mem_singleton_self _) rfl rfl⟩

end Closing

namespace World

/-- A queue is closed, and the call returns. A loop of the queue still has a message in hand then,
and commits it. -/
theorem closed_early : ∃ w v : World Ledger String, Reachable {} w ∧ w.Leads v ∧
    (∃ p, w.pending[1]? = some p ∧ p.purpose = .close (.ok ()) ∧ p.result = some (.ok ())) ∧
    (∃ l m stage, w.loops[0]? = some l ∧ l.queue = 0 ∧ l.phase = .handling m stage) ∧
    w.broker.committed "orders" "audit" = none ∧ v.broker.committed "orders" "audit" = some 1 := by
  refine ⟨after { broker := {} } (forsaking ++ [.command (.close 0), .step (.call 1)]), _,
    reachable_after .., leads_iff_after.mpr ⟨[.step (.wait 50), .step (.loop 0)], rfl⟩,
    ⟨_, rfl, rfl, rfl⟩, ⟨_, _, _, rfl, rfl, rfl⟩, by decide, by decide⟩

end World

end Courier.Queue
