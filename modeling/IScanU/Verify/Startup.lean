import IScanU.Startup
import IScanU.Theory.Machine

/-! # Lost start signals

A SIGUSR1 is sent once. Under the memory cage method its delivery starts the worker wherever it is.
Under ptrace the handler is empty, so a SIGUSR1 that is delivered between `isReady = true` and
`pause()` is lost, and the worker sleeps for ever. -/

namespace IScanU

/-! ## Steps, as one worker sees them -/

/-- What a step can be for the `i`-th worker: how the manager moves on and what happens to it. -/
inductive StartStep (cfg : Config) (method : Method) (i : Nat) :
    StartEvent → RunScanners → Starter → RunScanners → Starter → Prop
  /-- Some worker is not ready. -/
  | restart : StartStep cfg method i .manager (.polling k) w (.polling 0) w
  | ready : (i = k → w.data.isReady = true) →
    StartStep cfg method i .manager (.polling k) w (.polling (k + 1)) w
  | allReady : i < k → StartStep cfg method i .manager (.polling k) w (.sending 0) w
  | send : StartStep cfg method i .manager (.sending i) w (.sending (i + 1))
      { w with startPending := true }
  | sendOther : i ≠ k → StartStep cfg method i .manager (.sending k) w (.sending (k + 1)) w
  | return : i < k → StartStep cfg method i .manager (.sending k) w .returned w
  | init : w.point = .initialising → StartStep cfg method i (.init i) m w m
      { w with data := Starter.initialised cfg method w.page w.data, point := .ready }
  | pause : w.point = .ready →
    StartStep cfg method i (.pause i) m w m { w with point := .pausing }
  | deliver : w.startPending = true →
    StartStep cfg method i (.deliver i) m w m (w.deliver cfg method)
  /-- A step of another worker. -/
  | other : StartStep cfg method i e m w m w

variable {cfg : Config} {method : Method} {e : StartEvent} {s t : Startup}

/-- The worker at `i` after the worker at `j` was set. -/
theorem Startup.workers_set {s : Startup} {v w' : Starter}
    (h : (s.set j v).workers[i]? = some w') :
    (i = j ∧ w' = v) ∨ (i ≠ j ∧ s.workers[i]? = some w') := by
  rw [Startup.set_workers, List.getElem?_set] at h
  split at h
  · split at h
    · exact .inl ⟨Eq.symm ‹_›, (Option.some.inj h).symm⟩
    · cases h
  · exact .inr ⟨Ne.symm ‹_›, h⟩

theorem lt_of_getElem?_eq_none {l : List α} {a : α} {i k : Nat} (hk : l[k]? = none) (hi : l[i]? = some a) :
    i < k :=
  (List.getElem?_eq_some_iff.mp hi).1.trans_le (List.getElem?_eq_none_iff.mp hk)

/-- A start signal starts the worker, unless it is lost. -/
theorem Starter.deliver_cases (cfg : Config) (method : Method) (w : Starter) :
    w.deliver cfg method = { w.enter cfg method with startPending := false } ∨
      (method = .ptrace ∧ w.point ≠ .pausing) ∧
        w.deliver cfg method = { w with startPending := false } := by
  unfold Starter.deliver
  split
  · exact .inl rfl
  · exact .inl rfl
  · exact .inl rfl
  · exact .inr ⟨⟨rfl, ‹_›⟩, rfl⟩

theorem Starter.deliver_awake (cfg : Config) {w : Starter} (h : w.point ≠ .pausing) :
    w.deliver cfg .ptrace = { w with startPending := false } := by
  cases hpoint : w.point with
  | pausing => exact absurd hpoint h
  | initialising | ready | started => simp only [Starter.deliver, hpoint]

theorem Startup.next_cases (h : s.next = some t) (hw' : t.workers[i]? = some w') :
    ∃ w, s.workers[i]? = some w ∧ StartStep cfg method i .manager s.manager w t.manager w' := by
  unfold Startup.next at h
  split at h
  · rename_i k hm
    rw [hm]
    split at h
    · cases h
      exact ⟨w', hw', .allReady (lt_of_getElem?_eq_none ‹_› hw')⟩
    · rename_i w hw
      cases h
      refine ⟨w', hw', ?_⟩
      cases hready : w.data.isReady with
      | false => exact .restart
      | true =>
        refine .ready ?_
        rintro rfl
        cases hw.symm.trans hw'
        exact hready
  · rename_i k hm
    rw [hm]
    split at h
    · cases h
      exact ⟨w', hw', .return (lt_of_getElem?_eq_none ‹_› hw')⟩
    · rename_i w hw
      cases h
      rcases Startup.workers_set hw' with ⟨rfl, rfl⟩ | ⟨hne, hi⟩
      · exact ⟨w, hw, .send⟩
      · exact ⟨w', hi, .sendOther hne⟩
  · cases h

/-- Everything that a step can do. -/
theorem Startup.step_cases (h : s.step cfg method e = some t) (hw' : t.workers[i]? = some w') :
    ∃ w, s.workers[i]? = some w ∧ StartStep cfg method i e s.manager w t.manager w' := by
  cases e with
  | manager => exact Startup.next_cases h hw'
  | init j =>
    obtain ⟨w, hw, h⟩ := Option.bind_eq_some_iff.mp h
    obtain ⟨hpoint, h⟩ := Option.ite_none_right_eq_some.mp h
    cases h
    rcases Startup.workers_set hw' with ⟨rfl, rfl⟩ | ⟨-, hi⟩
    · exact ⟨w, hw, .init hpoint⟩
    · exact ⟨w', hi, .other⟩
  | pause j =>
    obtain ⟨w, hw, h⟩ := Option.bind_eq_some_iff.mp h
    obtain ⟨hpoint, h⟩ := Option.ite_none_right_eq_some.mp h
    cases h
    rcases Startup.workers_set hw' with ⟨rfl, rfl⟩ | ⟨-, hi⟩
    · exact ⟨w, hw, .pause hpoint⟩
    · exact ⟨w', hi, .other⟩
  | deliver j =>
    obtain ⟨w, hw, h⟩ := Option.bind_eq_some_iff.mp h
    obtain ⟨hpending, h⟩ := Option.ite_none_right_eq_some.mp h
    cases h
    rcases Startup.workers_set hw' with ⟨rfl, rfl⟩ | ⟨-, hi⟩
    · exact ⟨w, hw, .deliver hpending⟩
    · exact ⟨w', hi, .other⟩

/-- What steps preserve of the manager and one worker, whole runs preserve. -/
theorem Startup.reach_worker {ok : StartEvent → Startup → Prop} {I : RunScanners → Starter → Prop}
    {i : Nat}
    (hstep : ∀ e s w m' w', ok e s → s.workers[i]? = some w → I s.manager w →
      StartStep cfg method i e s.manager w m' w' → I m' w')
    (h : Transition.Reach (Startup.step cfg method) ok s t)
    (hs : ∀ w, s.workers[i]? = some w → I s.manager w) :
    ∀ w, t.workers[i]? = some w → I t.manager w := by
  refine h.invariant (I := fun s => ∀ w, s.workers[i]? = some w → I s.manager w)
    (fun e s t hok hs hst w' hw' => ?_) hs
  obtain ⟨w, hw, hview⟩ := Startup.step_cases hst hw'
  exact hstep e s w _ w' hok hw (hs w hw) hview

/-! ## The protocol -/

/-- The last round of the loop on `allReady` has seen the worker. -/
def RunScanners.Seen : RunScanners → Nat → Prop
  | .polling k, i => i < k
  | .sending _, _ | .returned, _ => True

/-- The worker has been sent its SIGUSR1. -/
def RunScanners.Sent : RunScanners → Nat → Prop
  | .polling _, _ => False
  | .sending k, i => i < k
  | .returned, _ => True

/-- The data of a worker, by the point it has come to. -/
def Starter.dataAt (cfg : Config) (method : Method) (w : Starter) : StartPoint → Scanner
  | .initialising => Starter.forked cfg method w.range
  | .ready | .pausing =>
    Starter.initialised cfg method w.page (Starter.forked cfg method w.range)
  | .started =>
    (Starter.entry cfg method
      (Starter.initialised cfg method w.page (Starter.forked cfg method w.range))).state

/-- What holds of a worker throughout the start-up, whenever its signal is delivered. -/
structure Starting (cfg : Config) (method : Method) (m : RunScanners) (i : Nat) (w : Starter) :
    Prop where
  data : w.data = w.dataAt cfg method w.point
  initialised : m.Seen i → w.point ≠ .initialising
  unsent : ¬m.Sent i → w.startPending = false ∧ w.point ≠ .started
  once : w.startPending = true → w.point ≠ .started

theorem RunScanners.Sent.seen {m : RunScanners} (h : m.Sent i) : m.Seen i := by
  cases m with
  | polling k => exact h.elim
  | sending k => trivial
  | returned => trivial

theorem Starting.init (page : Nat) (r : WorkRange) :
    Starting cfg method (.polling 0) i (.init cfg method page r) := by
  exact ⟨rfl, nofun, fun _ => ⟨rfl, nofun⟩, nofun⟩

theorem Starter.isReady_forked (r : WorkRange) : (Starter.forked cfg method r).isReady = false := by
  cases method <;> rfl

theorem Starting.step {m m' : RunScanners} {w w' : Starter} (h : Starting cfg method m i w)
    (hstep : StartStep cfg method i e m w m' w') : Starting cfg method m' i w' := by
  obtain ⟨hdata, hinit, hunsent, honce⟩ := h
  cases hstep with
  | restart => exact ⟨hdata, nofun, fun _ => hunsent id, honce⟩
  | @ready k _ hready =>
    refine ⟨hdata, fun hseen hpoint => ?_, fun _ => hunsent id, honce⟩
    rcases Nat.lt_succ_iff_lt_or_eq.mp hseen with hlt | rfl
    · exact hinit hlt hpoint
    · rw [hdata, hpoint] at hready
      exact absurd ((Starter.isReady_forked w.range).symm.trans (hready rfl)) nofun
  | allReady hlt => exact ⟨hdata, fun _ => hinit hlt, fun _ => hunsent id, honce⟩
  | send =>
    exact ⟨hdata, hinit, fun hsent => absurd (Nat.lt_succ_self i) hsent,
      fun _ => (hunsent (Nat.lt_irrefl i)).2⟩
  | sendOther =>
    exact ⟨hdata, hinit, fun hsent => hunsent fun hlt => hsent (Nat.lt_succ_of_lt hlt), honce⟩
  | «return» => exact ⟨hdata, hinit, fun hsent => absurd trivial hsent, honce⟩
  | init hpoint =>
    rw [hpoint] at hdata
    exact ⟨congrArg (Starter.initialised cfg method w.page) hdata, nofun,
      fun hsent => ⟨(hunsent hsent).1, nofun⟩, nofun⟩
  | pause hpoint =>
    rw [hpoint] at hdata
    exact ⟨hdata, nofun, fun hsent => ⟨(hunsent hsent).1, nofun⟩, nofun⟩
  | deliver hpending =>
    have hsent : m.Sent i := by
      by_contra hsent
      cases (hunsent hsent).1.symm.trans hpending
    have hready : w.dataAt cfg method w.point = w.dataAt cfg method .ready := by
      cases hpoint : w.point with
      | initialising => exact absurd hpoint (hinit hsent.seen)
      | ready | pausing => rfl
      | started => exact absurd hpoint (honce hpending)
    rcases Starter.deliver_cases cfg method w with hw | ⟨-, hw⟩
    · rw [hw]
      refine ⟨?_, nofun, fun hnot => absurd hsent hnot, nofun⟩
      rw [hready] at hdata
      exact congrArg (fun data => (Starter.entry cfg method data).state) hdata
    · rw [hw]
      exact ⟨hdata, hinit, fun hnot => absurd hsent hnot, nofun⟩
  | other => exact ⟨hdata, hinit, hunsent, honce⟩

theorem Startup.init_worker {workers : List (Nat × WorkRange)} {i : Nat} {w : Starter}
    (h : (Startup.init cfg method workers).workers[i]? = some w) :
    ∃ page r, w = .init cfg method page r := by
  obtain ⟨v, -, rfl⟩ := List.mem_map.mp (List.mem_of_getElem? h)
  exact ⟨v.1, v.2, rfl⟩

theorem reach_starting {ok : StartEvent → Startup → Prop} {workers : List (Nat × WorkRange)}
    {i : Nat} (h : Transition.Reach (Startup.step cfg method) ok (.init cfg method workers) s) :
    ∀ w, s.workers[i]? = some w → Starting cfg method s.manager i w := by
  refine Startup.reach_worker (I := fun m w => Starting cfg method m i w)
    (fun _ _ _ _ _ _ _ hw hstep => hw.step hstep) h fun w hw => ?_
  obtain ⟨page, r, rfl⟩ := Startup.init_worker hw
  exact .init page r

/-- A memory cage worker enters its scan with everything that `initScanner` sets up. -/
theorem started_memcage {ok : StartEvent → Startup → Prop} {workers : List (Nat × WorkRange)}
    (h : Transition.Reach (Startup.step cfg .memcage) ok (.init cfg .memcage workers) s)
    {i : Nat} {w : Starter} (hw : s.workers[i]? = some w) (hpoint : w.point = .started) :
    w.data = (entryHandler cfg (workerMC cfg.arch w.page w.range.start w.range.final)).state := by
  have hdata := (reach_starting h w hw).data
  rwa [hpoint] at hdata

/-- A ptrace worker enters its scan with everything that `initScannerPtrace` sets up. -/
theorem started_ptrace {ok : StartEvent → Startup → Prop} {workers : List (Nat × WorkRange)}
    (h : Transition.Reach (Startup.step cfg .ptrace) ok (.init cfg .ptrace workers) s)
    {i : Nat} {w : Starter} (hw : s.workers[i]? = some w) (hpoint : w.point = .started) :
    w.data = (ptraceEntry cfg (workerPtrace w.page w.range.start w.range.final)).state := by
  have hdata := (reach_starting h w hw).data
  rwa [hpoint] at hdata

/-! ## Lost signals -/

/-- Under ptrace, a SIGUSR1 is delivered only to a worker in `pause()`. -/
def Asleep (method : Method) : StartEvent → Startup → Prop
  | .deliver i, s => method = .ptrace → ∀ w ∈ s.workers[i]?, w.point = .pausing
  | _, _ => True

instance : ∀ e s, Decidable (Asleep method e s)
  | .deliver i, s =>
    inferInstanceAs (Decidable (method = .ptrace → ∀ w ∈ s.workers[i]?, w.point = .pausing))
  | .manager, _ | .init _, _ | .pause _, _ => inferInstanceAs (Decidable True)

/-- `runScanners` has returned, no SIGUSR1 is in flight, and a worker sleeps. -/
structure Stuck (s : Startup) : Prop where
  returned : s.manager = .returned
  delivered : ∀ w ∈ s.workers, w.startPending = false
  sleeps : ∃ w ∈ s.workers, w.point = .pausing

/-- A worker that has been sent its signal will get it or has started. -/
def Roused (m : RunScanners) (i : Nat) (w : Starter) : Prop :=
  m.Sent i → w.startPending = true ∨ w.point = .started

theorem Roused.step {m m' : RunScanners} {w w' : Starter} (h : Roused m i w)
    (hasleep : e = .deliver i → method = .ptrace → w.point = .pausing)
    (hstep : StartStep cfg method i e m w m' w') : Roused m' i w' := by
  intro hsent
  cases hstep with
  | restart | ready => exact hsent.elim
  | allReady => exact absurd hsent (Nat.not_lt_zero i)
  | send => exact .inl rfl
  | sendOther hne => exact h (Nat.lt_of_le_of_ne (Nat.le_of_lt_succ hsent) hne)
  | «return» hlt => exact h hlt
  | init hpoint | pause hpoint =>
    refine .inl ((h hsent).resolve_right fun hstarted => ?_)
    cases hpoint.symm.trans hstarted
  | deliver =>
    rcases Starter.deliver_cases cfg method w with hdeliver | ⟨⟨hptrace, hawake⟩, -⟩
    · rw [hdeliver]
      exact .inr rfl
    · exact absurd (hasleep rfl hptrace) hawake
  | other => exact h hsent

theorem reach_roused {workers : List (Nat × WorkRange)} {i : Nat}
    (h : Transition.Reach (Startup.step cfg method) (Asleep method) (.init cfg method workers) s) :
    ∀ w, s.workers[i]? = some w → Roused s.manager i w := by
  refine Startup.reach_worker (I := fun m w => Roused m i w)
    (fun e s w m' w' hok hw hroused hstep => ?_) h fun _ _ => False.elim
  refine hroused.step ?_ hstep
  rintro rfl hptrace
  exact hok hptrace w hw

theorem not_stuck (h : ∀ i w, s.workers[i]? = some w → Roused s.manager i w) : ¬Stuck s := by
  rintro ⟨hreturned, hdelivered, w, hw, hpausing⟩
  obtain ⟨i, hi⟩ := List.getElem?_of_mem hw
  rcases h i w hi (hreturned ▸ trivial) with hpending | hstarted
  · cases (hdelivered w hw).symm.trans hpending
  · cases hpausing.symm.trans hstarted

/-- Under the memory cage methods no worker sleeps through its start. -/
theorem memcage_not_stuck (hmethod : method ≠ .ptrace) {workers : List (Nat × WorkRange)}
    (h : Transition.Reach (Startup.step cfg method) (fun _ _ => True)
      (.init cfg method workers) s) : ¬Stuck s := by
  have hasleep : ∀ e s, True → Asleep method e s := by
    rintro (_ | _ | _ | i) s -
    case deliver => exact fun hptrace => absurd hptrace hmethod
    all_goals trivial
  exact not_stuck fun _ => reach_roused (h.mono hasleep)

/-- Under ptrace none does if it gets its SIGUSR1 in `pause()`. -/
theorem no_lost_start (cfg : Config) (method : Method) (workers : List (Nat × WorkRange))
    {s : Startup}
    (h : Transition.Reach (Startup.step cfg method) (Asleep method) (.init cfg method workers) s) :
    ¬Stuck s :=
  not_stuck fun _ => reach_roused h

theorem no_lost_start_one : ∃ s : Startup,
    (s.manager, s.workers.map (·.point)) = (.returned, [.started]) ∧ ¬Stuck s := by
  have hrun : (Transition.replay (Startup.step .plain .ptrace) (Asleep .ptrace)
      [.init 0, .pause 0, .manager, .manager, .manager, .deliver 0, .manager]
      (.init .plain .ptrace [(4096, .upTo 9)])).map
      (fun s => (s.manager, s.workers.map (·.point))) = some (.returned, [.started]) := by
    decide +kernel
  obtain ⟨s, hs, hvalue⟩ := Option.map_eq_some_iff.mp hrun
  exact ⟨s, hvalue, no_lost_start .plain .ptrace [(4096, .upTo 9)]
    (Transition.reach_of_replay hs)⟩

/-- A ptrace worker that is not yet in `pause()` when its SIGUSR1 arrives. -/
theorem start_lost : ∃ s,
    Transition.replay (Startup.step .plain .ptrace) (fun _ _ => True)
      [.init 0, .manager, .manager, .manager, .deliver 0, .manager, .pause 0]
      (.init .plain .ptrace [(4096, .upTo 9)]) = some s ∧ Stuck s := by
  have hrun : (Transition.replay (Startup.step .plain .ptrace) (fun _ _ => True)
      [.init 0, .manager, .manager, .manager, .deliver 0, .manager, .pause 0]
      (.init .plain .ptrace [(4096, .upTo 9)])).map
      (fun s => (s.manager, s.workers.map fun w => (w.startPending, w.point))) =
      some (.returned, [(false, .pausing)]) := by
    decide +kernel
  obtain ⟨s, hs, hvalue⟩ := Option.map_eq_some_iff.mp hrun
  obtain ⟨hmanager, hworkers⟩ := Prod.mk.inj hvalue
  obtain ⟨w, hw, hpoint⟩ := List.map_eq_singleton_iff.mp hworkers
  obtain ⟨hpending, hpausing⟩ := Prod.mk.inj hpoint
  refine ⟨s, hs, hmanager, ?_, w, by simp [hw], hpausing⟩
  rw [hw]
  exact List.forall_mem_singleton.mpr hpending

/-- A worker that has had its signal and has not started. -/
def Lost (m : RunScanners) (i : Nat) (w : Starter) : Prop :=
  m.Sent i ∧ w.startPending = false ∧ w.point ≠ .started

theorem Lost.step {m m' : RunScanners} {w w' : Starter} (h : Lost m i w)
    (hstep : StartStep cfg method i e m w m' w') : Lost m' i w' := by
  obtain ⟨hsent, hpending, hpoint⟩ := h
  cases hstep with
  | restart | ready | allReady => exact hsent.elim
  | send => exact absurd hsent (Nat.lt_irrefl i)
  | sendOther => exact ⟨Nat.lt_succ_of_lt hsent, hpending, hpoint⟩
  | «return» => exact ⟨trivial, hpending, hpoint⟩
  | init | pause => exact ⟨hsent, hpending, nofun⟩
  | deliver hpending' => cases hpending.symm.trans hpending'
  | other => exact ⟨hsent, hpending, hpoint⟩

/-- A ptrace worker that gets its SIGUSR1 outside `pause()` never starts, since none follows. -/
theorem lost_start {workers : List (Nat × WorkRange)} {i : Nat} {w : Starter} {u : Startup}
    (h : Transition.Reach (Startup.step cfg .ptrace) (fun _ _ => True)
      (.init cfg .ptrace workers) s)
    (hw : s.workers[i]? = some w) (hawake : w.point ≠ .pausing)
    (hstep : s.step cfg .ptrace (.deliver i) = some t)
    (hlater : Transition.Reach (Startup.step cfg .ptrace) (fun _ _ => True) t u) :
    ∀ v, u.workers[i]? = some v → v.point ≠ .started := by
  have hstarting := reach_starting h w hw
  obtain ⟨w', hw', hstep⟩ := Option.bind_eq_some_iff.mp hstep
  cases hw.symm.trans hw'
  obtain ⟨hpending, hstep⟩ := Option.ite_none_right_eq_some.mp hstep
  cases hstep
  have hsent : s.manager.Sent i := by
    by_contra hsent
    cases (hstarting.unsent hsent).1.symm.trans hpending
  have hlost : ∀ v, (s.set i (w.deliver cfg .ptrace)).workers[i]? = some v →
      Lost s.manager i v := by
    intro v hv
    rcases Startup.workers_set hv with ⟨-, rfl⟩ | ⟨hne, -⟩
    · rw [Starter.deliver_awake cfg hawake]
      exact ⟨hsent, rfl, hstarting.once hpending⟩
    · exact absurd rfl hne
  exact fun v hv => (Startup.reach_worker (I := fun m w => Lost m i w)
    (fun _ _ _ _ _ _ _ hw hstep => hw.step hstep) hlater hlost v hv).2.2

end IScanU
