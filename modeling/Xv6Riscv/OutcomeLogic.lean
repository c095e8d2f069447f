import Xv6Riscv.Transition

/-!
# Pre- and postconditions for code that may stop

Code that returns an outcome composes as a monad: a stop skips the rest. A
specification names the messages with which the code may stop and what holds
of every value it returns. The rules follow the shape of the code, so that
the proof of a function is the chain of the specifications of its calls.
-/

namespace Xv6Riscv.OutcomeLogic

open Transition

universe u

variable {σ τ : Type u} {stop stop' : String→Prop} {msg : String}

instance : Monad Outcome where
  pure := Outcome.next
  bind := Outcome.bind

@[simp] lemma next_bind (s : σ) (f : σ→Outcome τ) : (Outcome.next s>>=f)=f s := rfl

/-- The code stops only with a permitted message and returns only values that
satisfy the postcondition. -/
def Ensures (stop : String→Prop) (o : Outcome σ) (post : σ→Prop) : Prop :=
  match o with
  | .next s => post s
  | .panic msg => stop msg
  | .blocked => True

variable {post post' : σ→Prop} {s : σ}

lemma ensures_trivial (o : Outcome σ) : Ensures (fun _ => True) o fun _ => True := by
  cases o with
  | next | panic | blocked => trivial

variable {o : Outcome σ} {f : σ→Outcome τ}

lemma Ensures.bind {mid : σ→Prop} {post : τ→Prop}
    (h : Ensures stop o mid) (hf : ∀ s,mid s→Ensures stop (f s) post) :
    Ensures stop (o>>=f) post := by
  cases o with
  | next s => exact hf s h
  | panic msg => exact h
  | blocked => trivial

variable (h : Ensures stop o post)

include h

lemma Ensures.mono (hpost : ∀ s,post s→post' s) (hstop : ∀ msg,stop msg→stop' msg) :
    Ensures stop' o post' := by
  cases o with
  | next s => exact hpost s h
  | panic msg => exact hstop msg h
  | blocked => trivial

lemma Ensures.imp (hpost : ∀ s,post s→post' s) : Ensures stop o post' :=
  h.mono hpost fun _ => id

lemma Ensures.of_next (ho : o=.next s) : post s := by
  subst ho
  exact h

lemma Ensures.of_panic (ho : o=.panic msg) : stop msg := by
  subst ho
  exact h

omit h

def Prompt (o : Outcome σ) : Prop := o≠.blocked

lemma prompt_next (s : σ) : Prompt (.next s) := nofun

lemma prompt_panic (msg : String) : Prompt (.panic msg : Outcome σ) := nofun

lemma Prompt.bind (h : Prompt o) (hf : ∀ s,Prompt (f s)) :
    Prompt (o>>=f) := by
  cases o with
  | next s => exact hf s
  | panic msg => exact prompt_panic msg
  | blocked => exact absurd rfl h

lemma Ensures.exists_next (h : Ensures (fun _ => False) o post)
    (hp : Prompt o) : ∃ s,o=.next s ∧ post s := by
  cases o with
  | next s => exact ⟨s,rfl,h⟩
  | panic msg => exact h.elim
  | blocked => exact absurd rfl hp

/-- The code does not wait, and what it returns satisfies the postcondition. -/
def Settles (o : Outcome σ) (post : σ→Prop) : Prop :=
  match o with
  | .next s => post s
  | .panic _ => True
  | .blocked => False

lemma Settles.bind {mid : σ→Prop} {post : τ→Prop}
    (h : Settles o mid) (hf : ∀ s,mid s→Settles (f s) post) : Settles (o>>=f) post := by
  cases o with
  | next s => exact hf s h
  | panic msg => trivial
  | blocked => exact h.elim

lemma Settles.imp (h : Settles o post) (hpost : ∀ s,post s→post' s) : Settles o post' := by
  cases o with
  | next s => exact hpost s h
  | panic msg => trivial
  | blocked => exact h

lemma Settles.stops_or_returns (h : Settles o post) :
    (∃ msg,o=.panic msg) ∨ ∃ s,o=.next s ∧ post s := by
  cases o with
  | next s => exact Or.inr ⟨s,rfl,h⟩
  | panic msg => exact Or.inl ⟨msg,rfl⟩
  | blocked => exact h.elim

lemma Settles.of_next (h : Settles o post) (ho : o=.next s) : post s := by
  subst ho
  exact h

end Xv6Riscv.OutcomeLogic
