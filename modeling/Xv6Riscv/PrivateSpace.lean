import Xv6Riscv.AddressSpace

/-!
# Private address spaces

What user memory is for, without page tables, frames or reference counts: each
process has pages of its own, and no operation on one address space can be
seen in another. A page has contents and permissions; which pages the program
may write is recorded separately, because the kernel gives that permission
only when a copy-on-write page is first written.
-/

namespace Xv6Riscv.PrivateSpace

open PageAllocator PageTables AddressSpace

structure UserPage where
  data : Page
  x : Bool
  u : Bool

structure Space where
  page : ℕ→Option UserPage
  w : ℕ→Bool

def Space.empty : Space := ⟨fun _ => none,fun _ => false⟩

def Space.alloc (A : Space) (n c : ℕ) (w x : Bool) : Space where
  page := fun v => if n≤v ∧ v<n+c then some ⟨fill 0,x,true⟩ else A.page v
  w := fun v => if n≤v ∧ v<n+c then w else A.w v

def Space.truncate (A : Space) (n : ℕ) : Space where
  page := fun v => if v<n then A.page v else none
  w := fun v => if v<n then A.w v else false

def Space.edit (A : Space) (v : ℕ) (f : Page→Page) : Space where
  page := fun u => if u=v then (A.page u).map fun p => {p with data := f p.data} else A.page u
  w := A.w

def Space.clear (A : Space) (v : ℕ) : Space where
  page := fun u => if u=v then (A.page u).map fun p => {p with u := false} else A.page u
  w := A.w

/-- The page that an access by the program or for it reaches. -/
def Space.access (A : Space) (v : ℕ) : Option UserPage :=
  if trapframe≤v then none else (A.page v).bind fun p => if p.u then some p else none

def Space.load (A : Space) (va : ℕ) : Option UInt8 :=
  (A.access (va/pgsize)).map fun p => p.data (pageOffset va)

/-- A store of one byte to a page that the program may write. -/
def Space.store (A : Space) (va : ℕ) (b : UInt8) : Space :=
  A.edit (va/pgsize) fun d => writeBytes d (va%pgsize) [b]

/-- Store bytes page by page; the first page that is not accessible, and page
0, stop the copy. -/
def Space.copyoutLoop (A : Space) (dstva : ℕ) (src : List UInt8) : ℕ→Space×CopyResult
  | 0 => (A,.done)
  | fuel+1 =>
    if src=[] then (A,.done)
    else
      let v := dstva/pgsize
      if v=0 then (A,.failed)
      else
        match A.access v with
        | none => (A,.failed)
        | some _ =>
          let n := min (pgsize-dstva%pgsize) src.length
          (A.edit v fun d => writeBytes d (dstva%pgsize) (src.take n)).copyoutLoop
            ((v+1)*pgsize) (src.drop n) fuel

lemma Space.copyoutLoop_nil (A : Space) (dstva fuel : ℕ) : A.copyoutLoop dstva [] fuel=(A,.done) := by
  cases fuel with
  | zero => rfl
  | succ fuel => rw [Space.copyoutLoop,if_pos rfl]

lemma Space.copyoutLoop_stop {A : Space} {dstva : ℕ} {src : List UInt8} (fuel : ℕ) (hsrc : src≠[])
    (h : dstva/pgsize=0 ∨ A.access (dstva/pgsize)=none) :
    A.copyoutLoop dstva src (fuel+1)=(A,.failed) := by
  rw [Space.copyoutLoop,if_neg hsrc]
  dsimp only
  by_cases hzero : dstva/pgsize=0
  · rw [if_pos hzero]
  · rw [if_neg hzero,h.resolve_left hzero]

lemma Space.copyoutLoop_go {A : Space} {dstva : ℕ} {src : List UInt8} {p : UserPage} (fuel : ℕ)
    (hsrc : src≠[]) (hzero : dstva/pgsize≠0) (h : A.access (dstva/pgsize)=some p) :
    A.copyoutLoop dstva src (fuel+1)=
      (A.edit (dstva/pgsize) fun d => writeBytes d (dstva%pgsize)
        (src.take (min (pgsize-dstva%pgsize) src.length))).copyoutLoop ((dstva/pgsize+1)*pgsize)
        (src.drop (min (pgsize-dstva%pgsize) src.length)) fuel := by
  grind [Space.copyoutLoop]

def Space.copyout (A : Space) (dstva : ℕ) (src : List UInt8) : Space×CopyResult :=
  A.copyoutLoop dstva src src.length

lemma Space.copyoutLoop_w (A : Space) (dstva : ℕ) (src : List UInt8) (fuel : ℕ) :
    (A.copyoutLoop dstva src fuel).1.w=A.w := by
  induction fuel generalizing A dstva src with
  | zero => rfl
  | succ fuel ih =>
    rw [Space.copyoutLoop]
    by_cases hsrc : src=[]
    · rw [if_pos hsrc]
    · rw [if_neg hsrc]
      dsimp only
      by_cases hzero : dstva/pgsize=0
      · rw [if_pos hzero]
      · rw [if_neg hzero]
        cases A.access (dstva/pgsize) with
        | none => rfl
        | some p =>
          dsimp only
          rw [ih,Space.edit]

def Space.copyinLoop (A : Space) (srcva len : ℕ) : ℕ→Option (List UInt8)
  | 0 => some []
  | fuel+1 =>
    if len=0 then some []
    else
      match A.access (srcva/pgsize) with
      | none => none
      | some p =>
        let n := min (pgsize-srcva%pgsize) len
        (A.copyinLoop ((srcva/pgsize+1)*pgsize) (len-n) fuel).map
          (readBytes p.data (srcva%pgsize) n++·)

def Space.copyin (A : Space) (srcva len : ℕ) : Option (List UInt8) := A.copyinLoop srcva len len

end Xv6Riscv.PrivateSpace
