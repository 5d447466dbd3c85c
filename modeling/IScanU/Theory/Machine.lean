import Mathlib.Logic.Relation
import Mathlib.Data.Set.Basic
import Mathlib.Order.Basic

/-! # Machines that run until they halt

A step function `step : ι → σ → Control σ` consumes one input and either leaves a state to go on
from or halts. `exec` feeds it a list of inputs, `steps` is the record of the steps taken. The
rules below turn facts about one step into facts about whole runs; `ok` is a side condition that
every step of the run is known to meet.

The second part is about transition systems `step : ε → σ → Option σ` whose events are chosen by
a scheduler (`none` means that the event is not enabled): `Reach step ok` is reachability by steps
that all meet `ok`. -/

/-- What a step leaves: a state to go on from, or a final one. -/
inductive Control (σ : Type u) where
  | resume (s : σ)
  | halt (s : σ)

namespace Control

/-- The state, wherever the machine is. -/
def state : Control σ → σ
  | resume s | halt s => s

@[simp] theorem state_resume (s : σ) : (resume s).state = s := rfl
@[simp] theorem state_halt (s : σ) : (halt s).state = s := rfl

/-! ## Machines without input -/

/-- At most `n` steps of a machine that takes no input. -/
def run (next : σ → Control σ) : Nat → Control σ → Control σ
  | 0, c => c
  | _ + 1, halt s => halt s
  | n + 1, resume s => run next n (next s)

@[simp] theorem run_halt (next : σ → Control σ) (n : Nat) (s : σ) :
    run next n (halt s) = halt s := by
  cases n <;> rfl

@[simp] theorem run_resume_succ (next : σ → Control σ) (n : Nat) (s : σ) :
    run next (n + 1) (resume s) = run next n (next s) := rfl

/-- A machine whose invariant makes every step resume never halts. -/
theorem run_resumes {next : σ → Control σ} {I : σ → Prop}
    (hnext : ∀ s, I s → ∃ t, next s = resume t ∧ I t) (n : Nat) {s : σ} (hs : I s) :
    ∃ t, run next n (resume s) = resume t ∧ I t := by
  induction n generalizing s with
  | zero => exact ⟨s, rfl, hs⟩
  | succ n ih =>
    obtain ⟨t, ht, hI⟩ := hnext s hs
    rw [run_resume_succ, ht]
    exact ih hI

/-- What a step adds to a log is there when the machine halts. -/
theorem mem_log_of_run (log : σ → List α) (item : σ → α) {next : σ → Control σ}
    (hnext : ∀ s, log (next s).state = log s ++ [item s]) {n : Nat} {s t : σ}
    (h : run next n (resume s) = halt t) : item s ∈ log t := by
  suffices hgrow : ∀ n s, run next n (resume s) = halt t → ∃ l, log t = log s ++ item s :: l by
    obtain ⟨l, hl⟩ := hgrow n s h
    simp [hl]
  clear h
  intro n
  induction n with
  | zero => exact fun s h => nomatch h
  | succ n ih =>
    intro s h
    have hlog := hnext s
    rw [run_resume_succ] at h
    cases hs : next s with
    | halt t' =>
      rw [hs, run_halt] at h
      cases h
      rw [hs] at hlog
      exact ⟨[], hlog⟩
    | resume s' =>
      rw [hs] at h hlog
      obtain ⟨l, hl⟩ := ih s' h
      exact ⟨item s' :: l, by rw [hl, ← state_resume s', hlog, List.append_assoc]; rfl⟩

/-- A machine that works off a queue: `i s` is the item in work, `q s` holds the items after it,
and each step folds its item into the observation `o`. It halts after the last item. -/
theorem run_queue {next : σ → Control σ} {J Q : σ → Prop} {q : σ → List α} {i : σ → α}
    {o : σ → γ} {f : γ → α → γ}
    (hlast : ∀ s, J s → q s = [] → ∃ t, next s = halt t ∧ Q t ∧ o t = f (o s) (i s))
    (hnext : ∀ s w ws, J s → q s = w :: ws →
      ∃ t, next s = resume t ∧ J t ∧ i t = w ∧ q t = ws ∧ o t = f (o s) (i s))
    {s : σ} (hs : J s) :
    ∃ t, run next ((q s).length + 1) (resume s) = halt t ∧ Q t ∧
      o t = (i s :: q s).foldl f (o s) := by
  induction hq : q s generalizing s with
  | nil =>
    obtain ⟨t, ht, hQ, hobs⟩ := hlast s hs hq
    exact ⟨t, by simp [ht], hQ, hobs⟩
  | cons w ws ih =>
    obtain ⟨s', hs', hJ, hitem, hqueue, hobs⟩ := hnext s w ws hs hq
    obtain ⟨t, ht, hQ, hobs'⟩ := ih hJ hqueue
    refine ⟨t, ?_, hQ, ?_⟩
    · rw [List.length_cons, run_resume_succ, hs', ht]
    · rw [hobs', hobs, hitem]
      rfl

/-! ## Machines driven by a list of inputs -/

/-- Feed the inputs to `step` until they run out or the machine halts. -/
def exec (step : ι → σ → Control σ) : Control σ → List ι → Control σ
  | halt s, _ => halt s
  | resume s, [] => resume s
  | resume s, i :: is => exec step (step i s) is

/-- The steps taken: each input with the state it was applied to. -/
def steps (step : ι → σ → Control σ) : Control σ → List ι → List (ι × σ)
  | halt _, _ => []
  | resume _, [] => []
  | resume s, i :: is => (i, s) :: steps step (step i s) is

section
variable {step : ι → σ → Control σ} {ok : ι → σ → Prop} {I : σ → Prop}

@[simp] theorem exec_halt (s : σ) (is : List ι) : exec step (halt s) is = halt s := by
  cases is <;> rfl

@[simp] theorem steps_halt (s : σ) (is : List ι) : steps step (halt s) is = [] := by
  cases is <;> rfl

theorem steps_nil (c : Control σ) : steps step c [] = [] := by
  cases c <;> rfl

theorem steps_singleton (i : ι) (s : σ) : steps step (resume s) [i] = [(i, s)] :=
  congrArg ((i, s) :: ·) (steps_nil _)

/-- An invariant that may mention the steps taken so far holds wherever a step is taken. -/
theorem steps_history {J : List (ι × σ) → σ → Prop}
    (hstep : ∀ pre i s s', ok i s → J pre s → step i s = resume s' → J (pre ++ [(i, s)]) s')
    {c : Control σ} {is : List ι} (hok : ∀ p ∈ steps step c is, ok p.1 p.2) (past : List (ι × σ))
    (hc : ∀ s, c = resume s → J past s) :
    ∀ pre p post, steps step c is = pre ++ p :: post → J (past ++ pre) p.2 := by
  induction is generalizing c past with
  | nil =>
    intro pre p post h
    cases c <;> simp [steps] at h
  | cons i is ih =>
    intro pre p post h
    cases c with
    | halt s => simp at h
    | resume s =>
      simp only [steps, List.forall_mem_cons] at hok h
      have hs := hc s rfl
      cases pre with
      | nil =>
        obtain ⟨rfl, -⟩ := List.cons.inj h
        simpa using hs
      | cons q pre =>
        obtain ⟨rfl, hrest⟩ := List.cons.inj h
        have := ih hok.2 _ (fun s' h => hstep past i s s' hok.1 hs h) pre p post hrest
        rwa [List.append_assoc] at this

/-- An invariant of the steps holds wherever a step is taken. -/
theorem steps_invariant
    (hstep : ∀ i s s', ok i s → I s → step i s = resume s' → I s')
    {c : Control σ} {is : List ι} (hok : ∀ p ∈ steps step c is, ok p.1 p.2)
    (hc : ∀ s, c = resume s → I s) : ∀ p ∈ steps step c is, I p.2 := by
  intro p hp
  obtain ⟨pre, post, h⟩ := List.append_of_mem hp
  exact steps_history (J := fun _ s => I s) (fun _ => hstep) hok [] hc pre p post h

/-- A key that every step increases is strictly increasing along the run. -/
theorem steps_increasing [Preorder κ] {k : σ → κ}
    (hstep : ∀ i s s', ok i s → I s → step i s = resume s' → I s')
    (hk : ∀ i s s', ok i s → I s → step i s = resume s' → k s < k s')
    {c : Control σ} {is : List ι} (hok : ∀ p ∈ steps step c is, ok p.1 p.2)
    (hc : ∀ s, c = resume s → I s) :
    ((steps step c is).map fun p => k p.2).Pairwise (· < ·) := by
  suffices H : ∀ (c : Control σ), (∀ p ∈ steps step c is, ok p.1 p.2) →
      (∀ s, c = resume s → I s) →
      ((steps step c is).map fun p => k p.2).Pairwise (· < ·) ∧
        ∀ s, c = resume s → ∀ p ∈ steps step c is, k s ≤ k p.2 from (H c hok hc).1
  clear hok hc
  induction is with
  | nil => intro c _ _; cases c <;> simp [steps]
  | cons i is ih =>
    intro c hok hc
    cases c with
    | halt s => simp
    | resume s =>
      simp only [steps, List.forall_mem_cons] at hok
      have hs := hc s rfl
      obtain ⟨hsorted, hmin⟩ := ih (step i s) hok.2 fun s' h => hstep i s s' hok.1 hs h
      have hlt : ∀ p ∈ steps step (step i s) is, k s < k p.2 := by
        intro p hp
        cases hc' : step i s with
        | halt s' => rw [hc'] at hp; simp at hp
        | resume s' => exact (hk i s s' hok.1 hs hc').trans_le (hmin s' hc' p hp)
      refine ⟨?_, ?_⟩
      · simp only [steps, List.map_cons, List.pairwise_cons, List.mem_map]
        refine ⟨?_, hsorted⟩
        rintro _ ⟨p, hp, rfl⟩
        exact hlt p hp
      · rintro _ ⟨⟩ p hp
        rcases List.mem_cons.mp hp with rfl | hp
        · exact le_rfl
        · exact (hlt p hp).le

/-- A measure that every step decreases bounds the number of steps. -/
theorem exec_halts {m : σ → Nat}
    (hstep : ∀ i s s', ok i s → I s → step i s = resume s' → I s')
    (hm : ∀ i s s', ok i s → I s → step i s = resume s' → m s' < m s)
    {c : Control σ} {is : List ι} (hok : ∀ p ∈ steps step c is, ok p.1 p.2)
    (hc : ∀ s, c = resume s → I s ∧ m s < is.length) : ∃ t, exec step c is = halt t := by
  induction is generalizing c with
  | nil =>
    cases c with
    | halt s => exact ⟨s, rfl⟩
    | resume s => exact absurd (hc s rfl).2 (Nat.not_lt_zero _)
  | cons i is ih =>
    cases c with
    | halt s => exact ⟨s, rfl⟩
    | resume s =>
      simp only [steps, List.forall_mem_cons] at hok
      obtain ⟨hs, hlt⟩ := hc s rfl
      refine ih hok.2 fun s' h => ⟨hstep i s s' hok.1 hs h, ?_⟩
      have := hm i s s' hok.1 hs h
      simp only [List.length_cons] at hlt
      omega

/-- An invariant of the steps holds of the state that a run goes on from. -/
theorem exec_invariant
    (hstep : ∀ i s s', ok i s → I s → step i s = resume s' → I s')
    {c : Control σ} {is : List ι} {t : σ} (hok : ∀ p ∈ steps step c is, ok p.1 p.2)
    (hc : ∀ s, c = resume s → I s) (hrun : exec step c is = resume t) : I t := by
  induction is generalizing c with
  | nil => cases c <;> exact hc t hrun
  | cons i is ih =>
    cases c with
    | halt s =>
      rw [exec_halt] at hrun
      cases hrun
    | resume s =>
      simp only [steps, List.forall_mem_cons] at hok
      exact ih hok.2 (fun s' h => hstep i s s' hok.1 (hc s rfl) h) hrun

/-- What every halting step establishes holds of the state a run halts in. -/
theorem exec_post {Q : σ → Prop}
    (hstep : ∀ i s s', ok i s → I s → step i s = resume s' → I s')
    (hhalt : ∀ i s t, ok i s → I s → step i s = halt t → Q t)
    {c : Control σ} {is : List ι} {t : σ} (hok : ∀ p ∈ steps step c is, ok p.1 p.2)
    (hc : ∀ s, c = resume s → I s) (hc' : ∀ t, c = halt t → Q t) (hrun : exec step c is = halt t) :
    Q t := by
  induction is generalizing c with
  | nil => cases c <;> exact hc' t hrun
  | cons i is ih =>
    cases c with
    | halt s =>
      rw [exec_halt] at hrun
      exact hc' t hrun
    | resume s =>
      simp only [steps, List.forall_mem_cons] at hok
      have hs := hc s rfl
      exact ih hok.2 (fun s' h => hstep i s s' hok.1 hs h) (fun t h => hhalt i s t hok.1 hs h) hrun

/-- A log that every step adds its item to ends with the items of all steps. -/
theorem exec_log {log : σ → List α} {item : ι → σ → List α}
    (hstep : ∀ i s s', ok i s → I s → step i s = resume s' → I s')
    (hlog : ∀ i s, ok i s → I s → log (step i s).state = log s ++ item i s)
    {c : Control σ} {is : List ι} (hok : ∀ p ∈ steps step c is, ok p.1 p.2)
    (hc : ∀ s, c = resume s → I s) :
    log (exec step c is).state =
      log c.state ++ (steps step c is).flatMap fun p => item p.1 p.2 := by
  induction is generalizing c with
  | nil => cases c <;> simp [exec, steps]
  | cons i is ih =>
    cases c with
    | halt s => simp
    | resume s =>
      simp only [steps, List.forall_mem_cons] at hok
      have hs := hc s rfl
      rw [exec, ih hok.2 fun s' h => hstep i s s' hok.1 hs h, hlog i s hok.1 hs, steps,
        List.flatMap_cons, state_resume, List.append_assoc]

/-- A machine that works off a queue: `e s` is the item in work, `q s` holds the items after it, and
with enough inputs it halts when all of them have been worked on. -/
theorem exec_queue {e : σ → α} {q : σ → List α}
    (hstep : ∀ i s s', ok i s → I s → step i s = resume s' → I s')
    (hnext : ∀ i s s', ok i s → I s → step i s = resume s' → q s = e s' :: q s')
    (hlast : ∀ i s t, ok i s → I s → step i s = halt t → q s = [])
    {s : σ} {is : List ι} (hok : ∀ p ∈ steps step (resume s) is, ok p.1 p.2) (hs : I s)
    (hlen : (q s).length < is.length) :
    (∃ t, exec step (resume s) is = halt t) ∧
      (steps step (resume s) is).map (fun p => e p.2) = e s :: q s := by
  induction is generalizing s with
  | nil => exact absurd hlen (Nat.not_lt_zero _)
  | cons i is ih =>
    simp only [steps, List.forall_mem_cons] at hok
    simp only [exec, steps, List.map_cons]
    cases hc : step i s with
    | halt t => exact ⟨⟨t, exec_halt t is⟩, by rw [hlast i s t hok.1 hs hc, steps_halt]; rfl⟩
    | resume s' =>
      have hq := hnext i s s' hok.1 hs hc
      rw [hc] at hok
      rw [hq, List.length_cons, List.length_cons] at hlen
      obtain ⟨hhalt, hmap⟩ := ih hok.2 (hstep i s s' hok.1 hs hc) (Nat.lt_of_succ_lt_succ hlen)
      exact ⟨hhalt, by rw [hmap, hq]⟩

/-- `n` inputs, each chosen for the state that the ones before it lead to. -/
def follow (step : ι → σ → Control σ) (choose : σ → ι) : Nat → Control σ → List ι
  | 0, _ => []
  | n + 1, c => choose c.state :: follow step choose n (exec step c [choose c.state])

theorem length_follow (choose : σ → ι) (n : Nat) (c : Control σ) :
    (follow step choose n c).length = n := by
  induction n generalizing c with
  | zero => rfl
  | succ n ih => rw [follow, List.length_cons, ih]

theorem exec_singleton (i : ι) (s : σ) : exec step (resume s) [i] = step i s := by
  rw [exec]
  cases step i s <;> rfl

/-- Each step is taken with the input chosen for it. -/
theorem steps_follow (choose : σ → ι) (n : Nat) (c : Control σ) :
    ∀ p ∈ steps step c (follow step choose n c), p.1 = choose p.2 := by
  induction n generalizing c with
  | zero =>
    rw [follow, steps_nil]
    exact fun _ h => absurd h List.not_mem_nil
  | succ n ih =>
    cases c with
    | halt s =>
      rw [steps_halt]
      exact fun _ h => absurd h List.not_mem_nil
    | resume s =>
      rw [follow, steps, state_resume, List.forall_mem_cons, exec_singleton]
      exact ⟨rfl, ih _⟩

/-- What is still to do in a state is done by the time the machine halts, provided that each step
does its own item and hands on the rest. -/
theorem steps_complete {T : σ → Set α} {e : σ → α}
    (hstep : ∀ i s s', ok i s → I s → step i s = resume s' → I s')
    (hres : ∀ i s s', ok i s → I s → step i s = resume s' →
      ∀ x ∈ T s, x = e s ∨ x ∈ T s')
    (hhalt : ∀ i s s', ok i s → I s → step i s = halt s' → ∀ x ∈ T s, x = e s)
    {c : Control σ} {is : List ι} {t : σ} (hok : ∀ p ∈ steps step c is, ok p.1 p.2)
    (hc : ∀ s, c = resume s → I s) (hrun : exec step c is = halt t) :
    ∀ s, c = resume s → ∀ x ∈ T s, x ∈ (steps step c is).map fun p => e p.2 := by
  induction is generalizing c with
  | nil =>
    rintro s rfl
    cases hrun
  | cons i is ih =>
    rintro s rfl x hx
    simp only [steps, List.forall_mem_cons] at hok
    have hs := hc s rfl
    simp only [steps, List.map_cons, List.mem_cons]
    cases hnext : step i s with
    | halt s' => exact .inl (hhalt i s s' hok.1 hs hnext x hx)
    | resume s' =>
      rw [hnext] at hok
      simp only [exec, hnext] at hrun
      refine (hres i s s' hok.1 hs hnext x hx).imp id fun hx => ?_
      exact ih hok.2 (fun _ h => by cases h; exact hstep i s s' hok.1 hs hnext) hrun s' rfl x hx

end

end Control

namespace Transition

/-- Reachability by steps that all meet `ok`. -/
def Reach (step : ε → σ → Option σ) (ok : ε → σ → Prop) : σ → σ → Prop :=
  Relation.ReflTransGen fun s t => ∃ e, ok e s ∧ step e s = some t

/-- Play a list of events, as long as each is enabled and meets `ok`. -/
def replay (step : ε → σ → Option σ) (ok : ε → σ → Prop) [∀ e s, Decidable (ok e s)] :
    List ε → σ → Option σ
  | [], s => some s
  | e :: es, s => if ok e s then (step e s).bind (replay step ok es) else none

section
variable {step : ε → σ → Option σ} {ok : ε → σ → Prop} {I : σ → Prop} {s t : σ}

/-- What one step preserves, a whole run preserves. -/
theorem Reach.invariant (hstep : ∀ e s t, ok e s → I s → step e s = some t → I t)
    (h : Reach step ok s t) (hs : I s) : I t := by
  induction h with
  | refl => exact hs
  | tail _ h ih =>
    obtain ⟨e, hok, hst⟩ := h
    exact hstep e _ _ hok ih hst

theorem Reach.mono {ok' : ε → σ → Prop} (hok : ∀ e s, ok e s → ok' e s) (h : Reach step ok s t) :
    Reach step ok' s t := by
  induction h with
  | refl => exact .refl
  | tail _ h ih =>
    obtain ⟨e, he, hst⟩ := h
    exact ih.tail ⟨e, hok _ _ he, hst⟩

/-- Forward simulation: if every step is matched by a run of another system, every run is. -/
theorem Reach.simulated {step' : ε' → τ → Option τ} {ok' : ε' → τ → Prop} {R : σ → τ → Prop}
    {u : τ} (h : Reach step ok s t)
    (hstep : ∀ e s s' u, ok e s → R s u → step e s = some s' →
      ∃ u', Reach step' ok' u u' ∧ R s' u') (hs : R s u) :
    ∃ u', Reach step' ok' u u' ∧ R t u' := by
  induction h with
  | refl => exact ⟨u, .refl, hs⟩
  | tail _ h ih =>
    obtain ⟨e, hok, hst⟩ := h
    obtain ⟨v, hv, hR⟩ := ih
    obtain ⟨w, hw, hR⟩ := hstep e _ _ v hok hR hst
    exact ⟨w, hv.trans hw, hR⟩

theorem reach_of_replay [∀ e s, Decidable (ok e s)] {es : List ε}
    (h : replay step ok es s = some t) : Reach step ok s t := by
  induction es generalizing s with
  | nil =>
    cases h
    exact .refl
  | cons e es ih =>
    unfold replay at h
    split at h
    · rename_i hok
      obtain ⟨u, hu, h⟩ := Option.bind_eq_some_iff.mp h
      exact .head ⟨e, hok, hu⟩ (ih h)
    · cases h

/-- If the events in `p` decrease a measure that no event increases, a run from `s` has at most
`m s` of them before the measure is zero. -/
theorem measure_of_replay [∀ e s, Decidable (ok e s)] {m : σ → Nat} {p : ε → Bool}
    (hm : ∀ e s t, ok e s → step e s = some t → m t ≤ m s - if p e then 1 else 0)
    {es : List ε} (h : replay step ok es s = some t) : m t ≤ m s - es.countP p := by
  induction es generalizing s with
  | nil =>
    cases h
    exact Nat.le_refl _
  | cons e es ih =>
    unfold replay at h
    split at h
    · rename_i hok
      obtain ⟨u, hu, h⟩ := Option.bind_eq_some_iff.mp h
      have hstep := hm e s u hok hu
      have hrest := ih h
      rw [List.countP_cons]
      omega
    · cases h

end

end Transition
