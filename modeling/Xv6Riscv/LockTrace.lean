import Mathlib

/-!
# Traces of lock operations

A piece of code that takes and gives back locks leaves a trace. Replaying the
trace gives the locks that are held afterwards; it fails at an acquire of a lock
that is held and at a release of one that is not.
-/

namespace Xv6Riscv.LockTrace

inductive Event (L : Type*) where
  | acquire (l : L)
  | release (l : L)
  deriving DecidableEq, Repr

variable {L : Type*} [DecidableEq L]

def Event.apply (held : List L) : Event L→Option (List L)
  | .acquire l => if l∈held then none else some (l::held)
  | .release l => if l∈held then some (held.erase l) else none

def replay (held : List L) : List (Event L)→Option (List L)
  | [] => some held
  | e::es => (e.apply held).bind fun held' => replay held' es

/-- Every lock that the trace takes is given back, once for each time it is taken. -/
def Balanced (es : List (Event L)) : Prop := replay [] es=some []

variable {held : List L} {l : L} (es es' : List (Event L))

@[simp]
lemma replay_nil : replay held []=some held := rfl

lemma replay_append : replay held (es++es')=(replay held es).bind fun h => replay h es' := by
  induction es generalizing held with
  | nil => rfl
  | cons e es ih =>
    rw [List.cons_append,replay,replay,Option.bind_assoc]
    exact congrArg _ (funext fun h => ih)

lemma replay_acquire (h : l∉held) :
    replay held (.acquire l::es)=replay (l::held) es := by
  rw [replay,Event.apply,if_neg h,Option.bind_some]

lemma replay_acquire_held (h : l∈held) : replay held (.acquire l::es)=none := by
  rw [replay,Event.apply,if_pos h,Option.bind_none]

@[simp]
lemma replay_release : replay (l::held) (.release l::es)=replay held es := by
  rw [replay,Event.apply,if_pos List.mem_cons_self,List.erase_cons_head,Option.bind_some]

lemma replay_bracket (h : l∉held) :
    replay held (.acquire l::.release l::es)=replay held es := by
  rw [replay_acquire _ h,replay_release]

/-- The trace of n calls of sleep, each of which gives the lock back and takes it
again. -/
def sleeps (l : L) : ℕ→List (Event L)
  | 0 => []
  | n+1 => .release l::.acquire l::sleeps l n

lemma replay_sleeps (n : ℕ) (h : l∉held) : replay (l::held) (sleeps l n)=some (l::held) := by
  induction n with
  | zero => rfl
  | succ n ih => rw [sleeps,replay_release,replay_acquire _ h,ih]

end Xv6Riscv.LockTrace
