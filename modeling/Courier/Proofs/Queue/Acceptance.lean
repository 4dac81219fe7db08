import Courier.Proofs.Queue.Delivery

/-!
# What a committed offset vouches for

A commit names one message and stands for all before it:

* `Vouched`: a subscriber of the group was given an entry and accepted it;
* `Covered`: all below a committed offset is vouched for, and so is all below
  the offset a loop started from;
* `committed_accepted`: no message is skipped.
-/

namespace Courier.Queue

open Broker (Ledger)

/-- The entries that a course has gone past were accepted on the way. -/
theorem Course.accepted {b : Ledger} {topic : String} {c : Int} {acts : List Act} {p : Point}
    (h : Course b topic c acts p) {o : Int} (from_ : c ≤ o) (past : o < p.offset) :
    ∃ m, b.at? topic o = some m ∧ [.delivered m, .answered m true] <:+: acts := by
  induction h with
  | start => simp only at past; omega
  | falter _ e ih =>
    obtain ⟨m, entry, given⟩ := ih past
    exact ⟨m, entry, given.trans (List.infix_append' [] _ _)⟩
  | @accept acts p before m entry place r ih =>
    by_cases last : o = p.offset
    · subst last
      exact ⟨m, entry, acts, [.committed m r], by simp⟩
    · have earlier : o < p.offset := by
        simp only at past
        omega
      obtain ⟨m, entry, given⟩ := ih earlier
      exact ⟨m, entry, given.trans (List.infix_append' [] _ _)⟩
  | reject _ _ _ r ih =>
    obtain ⟨m, entry, given⟩ := ih past
    exact ⟨m, entry, given.trans (List.infix_append' [] _ _)⟩

namespace World

variable {α : Type}

/-- A subscriber of the group was handed the entry at offset `o` and accepted it. -/
def Vouched (w : World Ledger α) (topic group : String) (o : Int) : Prop :=
  ∃ k l m, w.loops[k]? = some l ∧ l.topic.name = topic ∧ l.group = group ∧
    w.broker.at? topic o = some m ∧ [.delivered m, .answered m true] <:+: w.acts k

def VouchedBelow (w : World Ledger α) (topic group : String) (c : Int) : Prop :=
  ∀ o, 0 ≤ o → o < c → Vouched w topic group o

/-- All below a committed offset is vouched for, and all below the start of a loop. -/
structure Covered (w : World Ledger α) : Prop where
  committed : ∀ topic group c, w.broker.committed topic group = some c →
    VouchedBelow w topic group c
  loops : ∀ k < w.loops.length, ∃ topic group c, Follows w k topic group c ∧
    VouchedBelow w topic.name group c

section
variable {w v : World Ledger α} {published : Option Record}

theorem Change.vouched (h : Change w v published) {topic group : String} {o : Int}
    (vouched : Vouched w topic group o) : Vouched v topic group o := by
  obtain ⟨k, l, m, here, serves, member, entry, given⟩ := vouched
  obtain ⟨l', here', topic, group⟩ := h.serves here
  have entry := Ledger.at?_of_prefix (h.grows _) entry
  have given := given.trans (h.acts_grow k).isInfix
  exact ⟨k, l', m, here', topic ▸ serves, group ▸ member, entry, given⟩

theorem Change.vouchedBelow (h : Change w v published) {topic group : String} {c : Int}
    (below : VouchedBelow w topic group c) : VouchedBelow v topic group c := by
  intro o nonneg less
  exact h.vouched (below o nonneg less)

/-- A loop vouches for what its rounds have gone past. -/
theorem vouched_of_course {k : Nat} {l : ReadLoop Ledger α} {c : Int}
    (here : w.loops[k]? = some l) {done : List Act} {p : Point}
    (course : Course w.broker l.topic.name c done p) (acts : done <+: w.acts k) {o : Int}
    (start : c ≤ o) (past : o < p.offset) : Vouched w l.topic.name l.group o := by
  obtain ⟨m, entry, given⟩ := course.accepted start past
  exact ⟨k, l, m, here, rfl, rfl, entry, given.trans acts.isInfix⟩

/-- A turn that commits has its message accepted, and all before it is vouched for already. -/
theorem Covered.commit {k : Nat} {l : ReadLoop Ledger α} {t : Turn Ledger α} (covered : Covered w)
    (here : w.loops[k]? = some l) (takes : l.Takes k w.now w.broker t) {m : Message} {due : Nat}
    (phase : l.phase = .handling m (.answered true due)) :
    VouchedBelow (w.turned k t) l.reader.topic l.reader.group (m.offset + 1) := by
  intro o nonneg below
  have change : Change w (w.turned k t) none := .turn here takes rfl
  obtain ⟨topic, group, c, ⟨l', here', rfl, rfl, steady⟩, before⟩ :=
    covered.loops k (List.getElem?_eq_some_iff.mp here).1
  obtain rfl : l = l' := Option.some.inj (here.symm.trans here')
  obtain ⟨done, p, acts, course, entry, place, -⟩ := steady.course.held phase
  rw [steady.topic, steady.group]
  by_cases old : o < c
  · exact change.vouched (before o nonneg old)
  · by_cases last : o = p.offset
    · subst last
      obtain ⟨l', there, topic, group⟩ := change.serves here
      obtain ⟨a, rest, notes, -⟩ := takes_settles takes phase
      have entry := Ledger.at?_of_prefix (change.grows _) entry
      have given : [.delivered m, .answered m true] <:+: (w.turned k t).acts k := by
        refine ⟨done, a :: rest, ?_⟩
        rw [acts_turned, notes, acts]
        simp
      exact ⟨k, l', m, there, by rw [topic], group, entry, given⟩
    · have grown : done <+: w.acts k := by
        rw [acts]
        exact List.prefix_append ..
      have start : c ≤ o := by omega
      have past : o < p.offset := by omega
      have given := vouched_of_course here course grown start past
      exact change.vouched given

/-- Offsets change by commits alone, and what is committed then is vouched for. -/
theorem Change.committed (h : Change w v published) (covered : Covered w) (topic group : String)
    (c : Int) (committed : v.broker.committed topic group = some c) :
    VouchedBelow v topic group c := by
  have old (same : v.broker.committed topic group = w.broker.committed topic group) :
      VouchedBelow v topic group c :=
    h.vouchedBelow (covered.committed _ _ _ (same ▸ committed))
  cases h with
  | @turn k l t here takes eq =>
    subst eq
    obtain ⟨same, -⟩ | ⟨m, due, phase, commits, -⟩ := takes_commits takes
    · exact old (congrFun (congrFun same topic) group)
    · have commits : (w.turned k t).broker.committed topic group = _ :=
        congrFun (congrFun commits topic) group
      rw [Ledger.committed_setCommitted] at commits
      split at commits
      · next mine =>
        obtain ⟨rfl, rfl⟩ := mine
        obtain rfl := Option.some.inj (commits.symm.trans committed)
        exact covered.commit here takes phase
      · exact old commits
  | keep ledger => exact old (by rw [ledger.committed])
  | publish r ledger => exact old (by rw [ledger]; rfl)
  | subscribe _ _ _ _ _ _ ledger => exact old (by rw [ledger])

theorem Change.covered (h : Change w v published) (orderly : Orderly w) (covered : Covered w) :
    Covered v := by
  have kept := h.committed covered
  refine ⟨kept, ?_⟩
  intro k bound
  by_cases before : k < w.loops.length
  · obtain ⟨topic, group, c, follows, below⟩ := covered.loops k before
    exact ⟨topic, group, c, h.follows orderly follows, h.vouchedBelow below⟩
  · cases h with
    | turn _ _ eq => simp [eq, turned, before] at bound
    | keep _ loops | publish _ _ loops => exact absurd (loops.length_eq ▸ bound) before
    | subscribe q topic group label isDebug subscriber ledger loops acts =>
      -- The loop that was just made starts at an offset that the group had committed.
      obtain rfl : k = w.loops.length := by
        simp only [loops, List.length_append, List.length_singleton] at bound
        omega
      have follows := follows_new orderly loops acts ⟨rfl, rfl⟩ rfl rfl ⟨rfl, rfl⟩
      refine ⟨topic, group, _, follows, ?_⟩
      cases start : w.broker.committed topic.name group with
      | none =>
        intro o nonneg below
        rw [Option.getD_none] at below
        omega
      | some c => exact kept _ _ c (ledger ▸ start)

end

variable [DecidableEq α] {w : World Ledger α}

theorem reachable_covered (h : Reachable {} w) : Covered w := by
  induction h with
  | start => exact ⟨by simp, by simp⟩
  | next before move ih =>
    obtain ⟨published, change⟩ := move_change move
    exact change.covered (reachable_orderly before) ih

/-- **No message is skipped.** Whatever stands below a committed offset was handed to a subscriber
of the group and accepted by it, whichever subscription moved the offset there. -/
theorem committed_accepted {topic group : String} {c : Int} (reach : Reachable {} w)
    (committed : w.broker.committed topic group = some c) (o : Nat) (below : o < c) :
    ∃ k l m, w.loops[k]? = some l ∧ l.topic.name = topic ∧ l.group = group ∧
      (w.broker.log topic)[o]? = some m ∧ [.delivered m, .answered m true] <:+: w.acts k := by
  obtain ⟨k, l, m, here, serves, member, entry, given⟩ :=
    (reachable_covered reach).committed topic group c committed o (by omega) below
  obtain ⟨i, same, found⟩ := Ledger.at?_eq_some.mp entry
  obtain rfl : o = i := by omega
  exact ⟨k, l, m, here, serves, member, found, given⟩

/-- The commit of the first message fails; that of the second stands for both. -/
theorem committed_accepted_disturbed :
    let w := opened.after (.command (.subscribe 0 orders "audit" "auditor"
      (.direct ⟨fun calls _ => { accept := calls != 0 }⟩)) :: disturbed)
    w.broker.committed "orders" "audit" = some 2 ∧
      ∃ k l m, w.loops[k]? = some l ∧ l.topic.name = "orders" ∧ l.group = "audit" ∧
        (w.broker.log "orders")[0]? = some m ∧ [.delivered m, .answered m true] <:+: w.acts k := by
  intro w
  have committed : w.broker.committed "orders" "audit" = some 2 := by decide
  have reach : Reachable {} w := reachable_opened.leads (leads_iff_after.mpr ⟨_, rfl⟩)
  exact ⟨committed, committed_accepted reach committed 0 (by decide)⟩

end World

end Courier.Queue
