import Xv6Riscv.LinkCounts

/-!
# Parents of directories

A directory's .. entry is not counted as a name, so the link invariant alone
does not keep the parent of a directory allocated: the parent's link count
covers the entry only as long as the parent still names the directory. Parents
stay if a directory is removed only when no directory in use has it as its
parent, and when its own parent keeps another link.
-/

namespace Xv6Riscv.ParentLinks

open InodeLayer DirectoryLayer FileTree LinkCounts

variable {N : ℕ} {t t' : Tree} {d i k : ℕ} {n nd ni : Node} {e : Dirent} {m : Node}

def parentOf (n : Node) : ℕ := (n.entries[1]?.map (·.inum)).getD 0

/-- The parent of every directory is a directory that still has a link. -/
def Parents (t : Tree) : Prop :=
  ∀ i n,t i=some n→n.isDir=true→∃ m,t (parentOf n)=some m ∧ m.isDir=true ∧ 0< m.nlink

def Dangling (t : Tree) : Prop :=
  ∃ d n e,t d=some n ∧ n.isDir=true ∧ e∈n.entries ∧ e.inum≠0 ∧ t e.inum=none

lemma not_dangling (h : LinkInv N t) (hp : Parents t) : ¬Dangling t := by
  rintro ⟨d,n,e,hd,hdir,he,h0,hnone⟩
  have hn := h.node d n hd
  have hd0 := hn.ne_zero
  have hs := hn.shape hdir
  obtain ⟨a,b,l,hes,-⟩ := hs.split hd0
  rw [hes] at he
  rcases List.mem_cons.mp he with rfl | he
  · grind [hs.self]
  · rcases List.mem_cons.mp he with rfl | he
    · obtain ⟨m,hm,-⟩ := hp d n hd hdir
      rw [parentOf,hes] at hm
      grind
    · have hk : e∈kids t d := by
        rw [kids_some hd,hes]
        exact he
      exact h.inum_ne (h.target _ h0 hnone) hk rfl

/-- Removing a directory leaves no other one without its parent, and no link
count overflows. -/
def KeepsParents (t : Tree) (ed : Edit) : Prop :=
  NoOverflow t ed ∧ match ed with
    | .unlink d i => isDirAt t i=true→
      (∀ j n,t j=some n→n.isDir=true→parentOf n≠i) ∧ ∀ n,t d=some n→n.nlink≠1
    | _ => True

/-- The parents after an edit, from what happens to each directory: it has the
same parent or a parent that is named here, and a parent keeps a link. -/
lemma parents_of (hp : Parents t)
    (hold : ∀ j m,t' j=some m→m.isDir=true→
      (∃ n,t j=some n ∧ n.isDir=true ∧ parentOf m=parentOf n) ∨
        ∃ p,t' (parentOf m)=some p ∧ p.isDir=true ∧ 0<p.nlink)
    (hkeep : ∀ j n p,t j=some n→n.isDir=true→t (parentOf n)=some p→p.isDir=true→0<p.nlink→
      ∃ p',t' (parentOf n)=some p' ∧ p'.isDir=true ∧ 0<p'.nlink) : Parents t' := by
  intro j m hj hm
  rcases hold j m hj hm with ⟨n,hn,hd,hpar⟩ | hnew
  · obtain ⟨p,hp1,hp2,hp3⟩ := hp j n hn hd
    rw [hpar]
    exact hkeep j n p hn hd hp1 hp2 hp3
  · exact hnew

lemma parentOf_place (hs : Shape d nd.entries) (hd : d≠0) {de : Dirent}
    (hroom : Room nd.entries k) (hm : m.entries=place nd.entries k de) :
    parentOf m=parentOf nd := by
  obtain ⟨-,-,-,-,h1⟩ := @place_drop d k de nd.entries hs hd hroom
  rw [parentOf,parentOf,hm,h1]

lemma parentOf_set (hs : Shape d nd.entries) (hd : d≠0) (hk : nd.entries[k]?=some e)
    (hdot : namecmp dot e.name=false) (hdotdot : namecmp dotdot e.name=false)
    (hm : m.entries=nd.entries.set k Dirent.zero) : parentOf m=parentOf nd := by
  obtain ⟨-,-,-,-,h1⟩ := @set_drop d k e nd.entries Dirent.zero hs hd hk hdot hdotdot
  rw [parentOf,parentOf,hm,h1]

/-- An edit that changes two nodes keeps the parents if the first one stays a
directory with the same parent and with a link if it is a parent, and the
second one is no parent or no directory. -/
lemma parents_two {mi : Node} (hp : Parents t) (h2 : Two t t' d i m mi) (hd : t d=some nd)
    (hdir : nd.isDir=true) (hm : m.isDir=true) (hpar : parentOf m=parentOf nd)
    (hlink : 0<nd.nlink→0< m.nlink)
    (hmi : mi.isDir=true→(∃ n,t i=some n ∧ n.isDir=true ∧ parentOf mi=parentOf n) ∨
      parentOf mi=d ∧ 0< m.nlink) (hi : ∀ j n,t j=some n→n.isDir=true→parentOf n≠i) :
    Parents t' := by
  refine parents_of hp (fun j x hj hx => ?_) fun j n p hj hn hp1 hp2 hp3 => ?_
  · by_cases hjd : j=d
    · grind [h2.left]
    · grind [h2.right,h2.left,h2.others]
  · grind [h2.left,h2.others]

lemma parents_step {ed : Edit} (h : LinkInv N t) (hp : Parents t) (hok : KeepsParents t ed)
    (hs : Step N t ed t') : Parents t' := by
  have hfree : ∀ i,(∀ m,t i=some m→m.isDir=true→m.nlink≤0)→
      ∀ j n,t j=some n→n.isDir=true→parentOf n≠i := by
    rintro i hi j n hj hn rfl
    obtain ⟨m,hm,hmd,hpos⟩ := hp j n hj hn
    have := hi m hm hmd
    omega
  cases hs with
  | @free i n hi hn =>
    have hnot := hfree i fun m hm _ => by
      grind
    refine parents_of hp (fun j m hj hm => ?_) fun j n p hj hn hp1 hp2 hp3 => ?_
    · by_cases hji : j=i
      · rw [hji,Function.update_self] at hj
        cases hj
      · rw [Function.update_of_ne hji] at hj
        exact .inl ⟨m,hj,hm,rfl⟩
    · exact ⟨p,by rw [Function.update_of_ne (hnot j n hj hn)]; exact hp1,hp2,hp3⟩
  | @create d i k nd name isDir hd hdir hi hr hroom habs =>
    have hn := h.node d nd hd
    have hd0 := hn.ne_zero
    have hlink : isDir=true→short (nd.nlink+1)=nd.nlink+1 := by
      rintro rfl
      exact short_succ hn.nonneg hn.bound (hok.1 nd hd)
    have hnn := hn.nonneg
    refine parents_two hp (two_update t (create_ne hd hi) _ _) hd hdir rfl
      (parentOf_place (hn.shape hdir) hd0 hroom rfl) (fun hpos => ?_)
      (fun hmi => .inr ⟨?_,?_⟩) (hfree i fun m hm => ?_)
    · simp only
      grind
    · simp only at hmi
      simp only [parentOf,if_pos hmi]
      rfl
    · simp only at hmi
      grind
    · rw [hi] at hm
      cases hm
  | @link d i k nd ni name hd hdir hi hplain hroom habs =>
    have hn := h.node d nd hd
    have hd0 := hn.ne_zero
    refine parents_two hp (two_update t (link_ne hd hdir hi hplain) _ _) hd hdir rfl
      (parentOf_place (hn.shape hdir) hd0 hroom rfl) id
      nofun (hfree i fun m hm hmd => ?_)
    grind
  | @unlink d i k nd ni e hd hdir hk he h0 hdot hdotdot hi hne hpos hempty =>
    have hn := h.node d nd hd
    have hd0 := hn.ne_zero
    have hbound := hn.bound
    refine parents_two hp (two_update t hne _ _) hd hdir rfl
      (parentOf_set (hn.shape hdir) hd0 hk hdot hdotdot rfl) (fun hlink => ?_)
      (fun hmi => .inl ⟨ni,hi,hmi,rfl⟩) fun j n hj hnd => ?_
    · simp only
      split_ifs with hd'
      · have := (hok.2 (by rw [isDirAt_some hi,hd'])).2 nd hd
        rw [short_pred (by omega) hbound]
        omega
      · exact hlink
    · by_cases hd' : ni.isDir=true
      · exact (hok.2 (by rw [isDirAt_some hi,hd'])).1 j n hj hnd
      · grind

end Xv6Riscv.ParentLinks
