import Courier.Proofs.Pool.Life

/-!
# A pool that has been closed

From the moment a pool is closed nothing gets a slot any more:

* `Since`: what has become of all that was sent, from that moment on;
* `Leads.quiet`: a pool without workers stays as it is;
* `Sound.stopped`: what waits goes back as it was sent, and what was accepted
  is taken up once or dropped.
-/

namespace Courier.Pool.Life

open scoped List

variable {α : Type} {f s t : Life α} {size : Nat} {effect : Effect α}

/-- What has become of a pool since it was closed as `f`: what had a slot then has entered late,
has bounced off, or still has it; what waited then and what was sent since has gone back or still
waits. -/
structure Since (f s : Life α) (late bounced more : List (Nat × α)) : Prop where
  closed : s.pool.closed = true
  entered : s.entered = f.entered ++ late
  granted : f.granted ~ late ++ (bounced ++ s.granted)
  sent : s.sent = f.sent ++ more
  returned : s.returned ++ s.pool.offers ~ f.returned ++ (f.pool.offers ++ more) ++ bounced

theorem Since.refl (closed : f.pool.closed = true) : Since f f [] [] [] := by
  constructor
  case closed => exact closed
  case entered => exact (List.append_nil _).symm
  case granted => rfl
  case sent => exact (List.append_nil _).symm
  case returned => simp

theorem Since.work {late bounced more : List (Nat × α)} (h : Since f s late bounced more)
    (works : Work s effect t) : ∃ late' bounced', Since f t late' bounced' more := by
  obtain ⟨closed, entered, granted, sent, returned⟩ := h
  -- Nothing is granted any more: what enters or bounces had its slot when the pool closed.
  cases works with
  | grant _ unclosed => simp [closed] at unclosed
  | @refuse before after offer offers =>
    refine ⟨late, bounced, closed, entered, granted, sent, ?_⟩
    rw [offers] at returned
    calc s.returned ++ [offer] ++ (before ++ after)
        _ = s.returned ++ (offer :: (before ++ after)) := by simp
        _ ~ s.returned ++ (before ++ offer :: after) := List.perm_middle.symm.append_left _
        _ ~ f.returned ++ (f.pool.offers ++ more) ++ bounced := returned
  | @enter before after offer p has _ enters =>
    obtain rfl := enter_some enters
    refine ⟨late ++ [offer], bounced, closed, ?_, ?_, sent, returned⟩
    · show s.entered ++ [offer] = f.entered ++ (late ++ [offer])
      rw [entered, List.append_assoc]
    · rw [has] at granted
      calc f.granted
          _ ~ late ++ (bounced ++ (before ++ offer :: after)) := granted
          _ ~ late ++ (bounced ++ (offer :: (before ++ after))) :=
            (List.perm_middle.append_left _).append_left _
          _ ~ late ++ (offer :: (bounced ++ (before ++ after))) :=
            List.perm_middle.append_left _
          _ = late ++ [offer] ++ (bounced ++ (before ++ after)) := by simp
  | @bounce before after offer has =>
    refine ⟨late, bounced ++ [offer], closed, entered, ?_, sent, ?_⟩
    · rw [has] at granted
      calc f.granted
          _ ~ late ++ (bounced ++ (before ++ offer :: after)) := granted
          _ ~ late ++ (bounced ++ (offer :: (before ++ after))) :=
            (List.perm_middle.append_left _).append_left _
          _ = late ++ (bounced ++ [offer] ++ (before ++ after)) := by simp
    · calc s.returned ++ [offer] ++ s.pool.offers
          _ = s.returned ++ ([offer] ++ s.pool.offers) := List.append_assoc ..
          _ ~ s.returned ++ (s.pool.offers ++ [offer]) := List.perm_append_comm.append_left _
          _ = s.returned ++ s.pool.offers ++ [offer] := (List.append_assoc ..).symm
          _ ~ f.returned ++ (f.pool.offers ++ more) ++ bounced ++ [offer] :=
            returned.append_right _
          _ = f.returned ++ (f.pool.offers ++ more) ++ (bounced ++ [offer]) :=
            List.append_assoc ..
  | @pick i v rest ending =>
    obtain ⟨offers, same, -⟩ :=
      setWorker_rest { s.pool with accepted := rest } i (.busy v ending)
    exact ⟨late, bounced, same.trans closed, entered, granted, sent, offers ▸ returned⟩
  | complete _ completes =>
    obtain ⟨-, -, rfl⟩ := complete_busy completes
    obtain ⟨offers, same, -⟩ := setWorker_rest s.pool _ .idle
    exact ⟨late, bounced, same.trans closed, entered, granted, sent, offers ▸ returned⟩
  | release => exact ⟨late, bounced, closed, entered, granted, sent, returned⟩
  | @crash i v ending busy =>
    obtain ⟨offers, same, -⟩ := setWorker_rest s.pool.release i .dead
    exact ⟨late, bounced, same.trans closed, entered, granted, sent, offers ▸ returned⟩
  | @halt i idle =>
    obtain ⟨offers, same, -⟩ := setWorker_rest s.pool i .stopped
    exact ⟨late, bounced, same.trans closed, entered, granted, sent, offers ▸ returned⟩

theorem Since.move {late bounced more : List (Nat × α)} (h : Since f s late bounced more)
    (move : Move s t) : ∃ late' bounced' more', Since f t late' bounced' more' := by
  cases move with
  | send ticket value =>
    obtain ⟨closed, entered, granted, sent, returned⟩ := h
    refine ⟨late, bounced, more ++ [(ticket, value)], closed, entered, granted, ?_, ?_⟩
    · show s.sent ++ [(ticket, value)] = f.sent ++ (more ++ [(ticket, value)])
      rw [sent, List.append_assoc]
    · calc s.returned ++ (s.pool.offers ++ [(ticket, value)])
          _ = s.returned ++ s.pool.offers ++ [(ticket, value)] := (List.append_assoc ..).symm
          _ ~ f.returned ++ (f.pool.offers ++ more) ++ bounced ++ [(ticket, value)] :=
            returned.append_right _
          _ = f.returned ++ (f.pool.offers ++ more) ++ (bounced ++ [(ticket, value)]) :=
            List.append_assoc ..
          _ ~ f.returned ++ (f.pool.offers ++ more) ++ ([(ticket, value)] ++ bounced) :=
            List.perm_append_comm.append_left _
          _ = f.returned ++ (f.pool.offers ++ (more ++ [(ticket, value)])) ++ bounced := by simp
  | close =>
    obtain ⟨-, entered, granted, sent, returned⟩ := h
    exact ⟨late, bounced, more, rfl, entered, granted, sent, returned⟩
  | work works =>
    obtain ⟨late', bounced', since⟩ := h.work works
    exact ⟨late', bounced', more, since⟩

theorem Leads.since (later : f.Leads s) (closed : f.pool.closed = true) :
    ∃ late bounced more, Since f s late bounced more := by
  induction later with
  | refl => exact ⟨[], [], [], .refl closed⟩
  | tail _ move ih =>
    obtain ⟨late, bounced, more, since⟩ := ih
    exact since.move move

/-- A pool without workers starts nothing and completes nothing. -/
theorem Move.quiet (move : Move s t) (deserted : s.pool.isAlive = false) :
    t.pool.isAlive = false ∧ t.history = s.history := by
  have nobody {i : Nat} {w : Worker α} (here : s.pool.workers[i]? = some w)
      (alive : w.isAlive = true) : False := by
    rw [isAlive_of_worker here alive] at deserted
    cases deserted
  cases move with
  | send | close => exact ⟨deserted, rfl⟩
  | work works =>
    cases works with
    | grant | refuse | bounce | release => exact ⟨deserted, rfl⟩
    | enter _ alive => simp [deserted] at alive
    | pick _ idle => exact (nobody idle rfl).elim
    | complete _ completes =>
      obtain ⟨_, busy, -⟩ := complete_busy completes
      exact (nobody busy rfl).elim
    | crash busy => exact (nobody busy rfl).elim
    | halt idle => exact (nobody idle rfl).elim

theorem Leads.quiet (later : s.Leads t) (deserted : s.pool.isAlive = false) :
    t.pool.isAlive = false ∧ t.history = s.history := by
  induction later with
  | refl => exact ⟨deserted, rfl⟩
  | tail _ move ih =>
    obtain ⟨gone, history⟩ := ih
    obtain ⟨still, same⟩ := move.quiet gone
    exact ⟨still, same.trans history⟩

/-- The law of a pool that was closed as `f`. -/
structure StopLaw (f s : Life α) : Prop where
  since : ∃ late bounced more, Since f s late bounced more
  /-- Whoever waits can be given its value back at once. -/
  refusable : ∀ offer ∈ s.pool.offers, ∃ t, Work s (.refused offer.1) t ∧
    t.returned = s.returned ++ [offer] ∧ t.entered = s.entered
  /-- What has entered was taken up in that order, or it was dropped, or it is still in the
  channel. -/
  order : s.entered.map (·.2) = started s.history ++ (s.dropped ++ s.pool.accepted)
  /-- What was taken up has completed, or its callback has failed, or it is still running. -/
  running : started s.history ~ finished s.history ++ (s.failed ++ s.pool.running)
  /-- When no worker is left, nothing is in the channel, no callback is running, and none ever
  starts. -/
  ceased : s.pool.isAlive = false → s.pool.accepted = [] ∧ s.pool.running = [] ∧
    ∀ t, s.Leads t → t.history = s.history ∧ t.pool.running = []

theorem Sound.stopped (h : Sound f size) (closed : f.pool.closed = true) (later : f.Leads s) :
    StopLaw f s := by
  have sound := later.sound h
  have ⟨late, bounced, more, since⟩ := later.since closed
  constructor
  case since => exact ⟨late, bounced, more, since⟩
  case refusable =>
    intro offer waits
    obtain ⟨before, after, offers⟩ := List.append_of_mem waits
    exact ⟨_, .refuse offers since.closed, rfl, rfl⟩
  case order => exact sound.order
  case running => exact sound.running
  case ceased =>
    intro deserted
    refine ⟨sound.deserted deserted, running_of_deserted deserted, ?_⟩
    intro t after
    obtain ⟨gone, history⟩ := after.quiet deserted
    exact ⟨history, running_of_deserted gone⟩

/-- A pool that was closed while its only worker, whose callbacks fail, had yet to take up a
value. -/
def unlucky : Life String where
  pool :=
    { label := "jobs", work := fun _ => .fails, free := 0, accepted := ["first"],
      workers := [.idle], closed := true }
  sent := [(0, "first")]
  entered := [(0, "first")]

/-- A callback that fails is not completed, and its value is not dropped either. -/
theorem stopped_failing : (opening "jobs" (fun _ => .fails) 1).Leads unlucky ∧ ∃ s,
    unlucky.Leads s ∧ s.dropped = [] ∧ s.history = [.started "first"] ∧
      ∀ t, s.Leads t → t.history = s.history := by
  constructor
  · have sent : (opening "jobs" (fun _ => .fails) 1).Leads _ := .single (.send 0 "first")
    have granted := sent.tail (.work (.grant rfl rfl nofun))
    have has : [((0 : Nat), "first")] = [] ++ (0, "first") :: [] := rfl
    have entered := granted.tail (.work (.enter has rfl rfl))
    exact entered.tail .close
  · have picked : unlucky.Leads _ := .single (.work (.pick .onRelease (i := 0) rfl rfl))
    have crashed := picked.tail (.work (.crash (i := 0) rfl))
    exact ⟨_, crashed, rfl, rfl, fun t later => (later.quiet rfl).2⟩

end Courier.Pool.Life
