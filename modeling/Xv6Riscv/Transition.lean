import Mathlib

/-!
# Runs of a step function that may stop

A step either reaches a next state, stops the whole system with a message,
or is not enabled. Runs follow a list of actions. The invariant rules below
are stated once for an arbitrary state type and action type; every reachable
state result of the kernel models is an instance of one of them.
-/

namespace Xv6Riscv.Transition

variable {σ τ α : Type*}

inductive Outcome (σ : Type*) where
  | next (s : σ)
  | panic (msg : String)
  | blocked

/-- Continue with the reached state, keeping a stop as it is. -/
def Outcome.bind (o : Outcome σ) (f : σ→Outcome τ) : Outcome τ :=
  match o with
  | .next s => f s
  | .panic msg => .panic msg
  | .blocked => .blocked

def Outcome.message : Outcome σ→Option String
  | .panic msg => some msg
  | _ => none

/-- The reached state, if the system neither stopped nor got stuck. -/
def Outcome.state? : Outcome σ→Option σ
  | .next s => some s
  | _ => none

variable {o : Outcome σ} {s t : σ} {step : σ→α→Outcome σ} {as : List α} {ok : σ→α→Prop}
  {inv : σ→Prop}

@[simp] lemma bind_next (s : σ) (f : σ→Outcome τ) : (Outcome.next s).bind f=f s := rfl

@[simp] lemma bind_panic (msg : String) (f : σ→Outcome τ) :
    (Outcome.panic msg).bind f=.panic msg := rfl

@[simp] lemma bind_blocked (f : σ→Outcome τ) : (Outcome.blocked).bind f=.blocked := rfl

/-- A composed computation reaches a state exactly through an intermediate one. -/
lemma bind_eq_next {f : σ→Outcome τ} {t : τ} :
    o.bind f=.next t ↔ ∃ s,o=.next s ∧ f s=.next t := by
  cases o with
  | next s => simp only [bind_next,Outcome.next.injEq,exists_eq_left']
  | panic msg => simp only [bind_panic,reduceCtorEq,false_and,exists_false]
  | blocked => simp only [bind_blocked,reduceCtorEq,false_and,exists_false]

/-- An outcome with a state-dependent observation has reached a state. -/
lemma exists_of_state? {f : σ→τ} {v : τ} (h : o.state?.map f=some v) : ∃ s,o=.next s ∧ f s=v := by
  cases o with
  | next s => exact ⟨s,rfl,Option.some.inj h⟩
  | panic | blocked => simp only [Outcome.state?,Option.map_none,reduceCtorEq] at h

/-- An outcome that shows a state has reached it. -/
lemma eq_next_of_state? (h : o.state?=some s) : o=.next s := by
  cases o with
  | next t => exact congrArg _ (Option.some.inj h)
  | panic | blocked => cases h

/-- Perform the actions in order; the first stop ends the run. -/
def run (step : σ→α→Outcome σ) : σ→List α→Outcome σ
  | s,[] => .next s
  | s,a::as => (step s a).bind fun t => run step t as

@[simp] lemma run_nil (step : σ→α→Outcome σ) (s : σ) : run step s []=.next s := rfl

lemma run_cons (step : σ→α→Outcome σ) (s : σ) (a : α) (as : List α) :
    run step s (a::as)=(step s a).bind fun t => run step t as := rfl

/-- Reaching a state splits at the first action. -/
lemma run_cons_next {a : α} :
    run step s (a::as)=.next t ↔ ∃ u,step s a=.next u ∧ run step u as=.next t := by
  rw [run_cons,bind_eq_next]

lemma run_append (step : σ→α→Outcome σ) (s : σ) (as bs : List α) :
    run step s (as++bs)=(run step s as).bind fun t => run step t bs := by
  induction as generalizing s with
  | nil => rfl
  | cons a as ih =>
    rw [List.cons_append,run_cons,run_cons]
    cases step s a with
    | next t => exact ih t
    | panic | blocked => rfl

/-- Every action of the run meets a condition on the state in which it is taken. -/
def Guarded (step : σ→α→Outcome σ) (ok : σ→α→Prop) : σ→List α→Prop
  | _,[] => True
  | s,a::as => ok s a ∧ ∀ t,step s a=.next t→Guarded step ok t as

/-- A condition that weaker steps also meet guards the same run. -/
lemma Guarded.mono {ok' : σ→α→Prop} (himp : ∀ s a,ok s a→ ok' s a) (h : Guarded step ok s as) :
    Guarded step ok' s as := by
  induction as generalizing s with
  | nil => trivial
  | cons a as ih => exact ⟨himp s a h.1,fun t ht => ih (h.2 t ht)⟩

/-- A condition that every step meets guards every run. -/
lemma guarded_of_forall (h : ∀ s a,ok s a) (s : σ) (as : List α) : Guarded step ok s as := by
  induction as generalizing s with
  | nil => trivial
  | cons a as ih => exact ⟨h s a,fun t _ => ih t⟩

/-- Executable form of a guarded run, for a decidable condition. -/
def guardedCheck (step : σ→α→Outcome σ) (ok : σ→α→Bool) : σ→List α→Bool
  | _,[] => true
  | s,a::as => ok s a && match step s a with
    | .next t => guardedCheck step ok t as
    | _ => true

/-- The executable check establishes the guard along the whole run. -/
lemma guarded_of_check {k : σ→α→Bool} (hok : ∀ s a,k s a=true→ ok s a)
    (h : guardedCheck step k s as=true) : Guarded step ok s as := by
  induction as generalizing s with
  | nil => trivial
  | cons a as ih =>
    rw [guardedCheck,Bool.and_eq_true] at h
    refine ⟨hok s a h.1,fun t ht => ih ?_⟩
    simpa only [ht] using h.2

/-- Invariant rule for guarded runs: what the guarded step preserves holds
wherever the run ends. -/
lemma run_invariant_guarded (hstep : ∀ s a t,inv s→ ok s a→step s a=.next t→inv t) (hs : inv s)
    (hg : Guarded step ok s as) (hrun : run step s as=.next t) : inv t := by
  induction as generalizing s with
  | nil =>
    rw [run_nil,Outcome.next.injEq] at hrun
    exact hrun ▸ hs
  | cons a as ih =>
    obtain ⟨u,hu,hrest⟩ := run_cons_next.mp hrun
    exact ih (hstep s a u hs hg.1 hu) (hg.2 u hu) hrest

/-- If every guarded step can be taken and keeps the invariant, so does every guarded
run. -/
lemma run_total_guarded (hstep : ∀ s a,inv s→ ok s a→∃ t,step s a=.next t ∧ inv t) (hs : inv s)
    (hguard : Guarded step ok s as) : ∃ t,run step s as=.next t ∧ inv t := by
  induction as generalizing s with
  | nil => exact ⟨s,rfl,hs⟩
  | cons a as ih =>
    obtain ⟨u,hu,hinv⟩ := hstep s a hs hguard.1
    obtain ⟨t,ht,htinv⟩ := ih hinv (hguard.2 u hu)
    exact ⟨t,run_cons_next.mpr ⟨u,hu,ht⟩,htinv⟩

/-- Invariant rule for all runs. -/
lemma run_invariant {step : σ→α→Outcome σ} {inv : σ→Prop}
    (hstep : ∀ s a t,inv s→step s a=.next t→inv t)
    {s t : σ} {as : List α} (hs : inv s) (hrun : run step s as=.next t) : inv t := by
  induction as generalizing s with
  | nil =>
    rw [run_nil,Outcome.next.injEq] at hrun
    exact hrun ▸ hs
  | cons a as ih =>
    obtain ⟨u,hu,hrest⟩ := run_cons_next.mp hrun
    exact ih (hstep s a u hs hu) hrest

/-- A guarded run stops with no message that a guarded step from an invariant
state cannot produce. -/
lemma run_message_guarded {step : σ→α→Outcome σ} {ok : σ→α→Prop} {inv : σ→Prop}
    {msg : String} (hstep : ∀ s a t,inv s→ ok s a→step s a=.next t→inv t)
    (hmsg : ∀ s a,inv s→ ok s a→step s a≠.panic msg)
    {s : σ} {as : List α} (hs : inv s) (hg : Guarded step ok s as) :
    run step s as≠.panic msg := by
  induction as generalizing s with
  | nil => simp only [run_nil,ne_eq,reduceCtorEq,not_false_eq_true]
  | cons a as ih =>
    rw [run_cons]
    cases hu : step s a with
    | next u =>
      rw [bind_next]
      exact ih (hstep s a u hs hg.1 hu) (hg.2 u hu)
    | panic m =>
      rw [bind_panic,←hu]
      exact hmsg s a hs hg.1
    | blocked => simp only [bind_blocked,ne_eq,reduceCtorEq,not_false_eq_true]

end Xv6Riscv.Transition
