import Xv6Riscv.FileTree

/-!
# Link counts in the directory tree

A directory lists itself and its parent in its first two entries; the rest are
the names it gives to other inodes. A directory's link count is the number of
its names plus the number of directories that it names. The names of a plain
file are at most as many as its links, since a directory that has been removed
may still be in use and name files until it goes away. Every edit keeps this
as long as no link count overflows its 16 bits.
-/

namespace Xv6Riscv.LinkCounts

open Function
open InodeLayer DirectoryLayer FileTree Tally

variable {N : ℕ} {t t' : Tree} {d i k : ℕ} {n nd ni : Node} {e de : Dirent}

/-- The names that a directory gives: its entries behind the first two. -/
def kids (t : Tree) (d : ℕ) : List Dirent := ((t d).map fun n => n.entries.drop 2).getD []

def isDirAt (t : Tree) (i : ℕ) : Bool := (t i).any (·.isDir)

def uses (l : List Dirent) (i : ℕ) : ℕ := l.countP fun e => e.inum=i

def names (N : ℕ) (t : Tree) (i : ℕ) : ℕ := ∑ d ∈ Finset.range N,uses (kids t d) i

def subdirs (t : Tree) (d : ℕ) : ℕ := (kids t d).countP fun e => e.inum≠0 && isDirAt t e.inum

lemma kids_some (h : t i=some n) : kids t i=n.entries.drop 2 := by
  rw [kids,h]
  rfl

lemma kids_none (h : t i=none) : kids t i=[] := by
  rw [kids,h]
  rfl

lemma isDirAt_some (h : t i=some n) : isDirAt t i=n.isDir := by
  rw [isDirAt,h]
  rfl

/-- The first two entries of directory i, and the names of the other ones. -/
structure Shape (i : ℕ) (es : List Dirent) : Prop where
  self : ∃ e,es[0]?=some e ∧ e.inum=i ∧ namecmp dot e.name=true
  parent : ∃ e,es[1]?=some e ∧ e.inum≠0 ∧ namecmp dotdot e.name=true
  rest : ∀ e∈es.drop 2,e.inum≠0→namecmp dot e.name=false ∧ namecmp dotdot e.name=false

variable {es l : List Dirent}

lemma Shape.split (h : Shape i es) (hi : i≠0) :
    ∃ a b l,es=a::b::l ∧ a.inum≠0 ∧ b.inum≠0 ∧ namecmp dot a.name=true ∧
      namecmp dotdot b.name=true := by
  obtain ⟨a,ha,hai,hadot⟩ := h.self
  obtain ⟨b,hb,hbi,hbdot⟩ := h.parent
  match es,ha,hb with
  | x::y::l,ha,hb =>
    simp only [List.getElem?_cons_zero,Option.some.injEq] at ha
    simp only [List.getElem?_cons_succ,List.getElem?_cons_zero,Option.some.injEq] at hb
    grind

lemma place_drop (h : Shape i es) (hi : i≠0) (hroom : Room es k) :
    ∃ k',Room (es.drop 2) k' ∧ (place es k de).drop 2=place (es.drop 2) k' de ∧
      (place es k de)[0]?=es[0]? ∧ (place es k de)[1]?=es[1]? := by
  obtain ⟨a,b,l,rfl,ha,hb,-,-⟩ := h.split hi
  match k,hroom with
  | 0,hroom => simp [Room,ha] at hroom
  | 1,hroom => simp [Room,hb] at hroom
  | k+2,hroom =>
    refine ⟨k,?_,?_,?_,?_⟩
    · simpa [Room] using hroom
    · simp only [place,List.length_cons,List.drop_succ_cons,List.drop_zero]
      grind
    · rw [place]
      split_ifs <;> rfl
    · rw [place]
      split_ifs <;> rfl

lemma countP_place {p : Dirent→Bool} (hroom : Room l k) (hp : ∀ e : Dirent,e.inum=0→p e=false) :
    (place l k de).countP p=l.countP p+if p de then 1 else 0 := by
  rw [place]
  rcases hroom with ⟨e,he,h0⟩ | hk
  · have hk : k<l.length := (List.getElem?_eq_some_iff.mp he).1
    have hx := @countP_exchange Dirent p l k e de he
    rw [if_neg (by rw [hp e h0]; exact Bool.false_ne_true)] at hx
    rw [if_pos hk]
    exact hx
  · grind

lemma mem_place (h : e∈place l k de) : e=de ∨ e∈l := by grind [place]

lemma set_drop {z : Dirent} (h : Shape i es) (hi : i≠0)
    (hk : es[k]?=some e) (hdot : namecmp dot e.name=false) (hdotdot : namecmp dotdot e.name=false) :
    ∃ k',(es.drop 2)[k']?=some e ∧ (es.set k z).drop 2=(es.drop 2).set k' z ∧
      (es.set k z)[0]?=es[0]? ∧ (es.set k z)[1]?=es[1]? := by
  obtain ⟨a,b,l,rfl,-,-,ha,hb⟩ := h.split hi
  match k,hk with
  | 0,hk =>
    simp only [List.getElem?_cons_zero,Option.some.injEq] at hk
    rw [hk,hdot] at ha
    exact absurd ha Bool.false_ne_true
  | 1,hk =>
    simp only [List.getElem?_cons_succ,List.getElem?_cons_zero,Option.some.injEq] at hk
    rw [hk,hdotdot] at hb
    exact absurd hb Bool.false_ne_true
  | k+2,hk => exact ⟨k,hk,rfl,rfl,rfl⟩

/-- The two counters of an inode agree with its link count. -/
structure Counts (i : ℕ) (n : Node) (names subdirs : ℕ) : Prop where
  file : n.isDir=false→(names : ℤ)≤n.nlink
  dir : n.isDir=true→i≠rootino→n.nlink=names+subdirs
  root : i=rootino→n.isDir=true ∧ names=0 ∧ 1+(subdirs : ℤ)≤n.nlink

/-- What holds of an allocated inode with so many names and subdirectories. -/
structure NodeInv (N i : ℕ) (n : Node) (names subdirs : ℕ) : Prop where
  range : 0< i ∧ i<N
  plain : n.isDir=false→n.entries=[]
  shape : n.isDir=true→Shape i n.entries
  bound : n.nlink≤32767
  counts : Counts i n names subdirs

structure LinkInv (N : ℕ) (t : Tree) : Prop where
  node : ∀ i n,t i=some n→NodeInv N i n (names N t i) (subdirs t i)
  target : ∀ i,i≠0→t i=none→names N t i=0
  root : ∃ n,t rootino=some n

lemma NodeInv.ne_zero {a b : ℕ} (h : NodeInv N i n a b) : i≠0 := by
  have := h.range
  omega

lemma NodeInv.nonneg {a b : ℕ} (h : NodeInv N i n a b) : 0≤n.nlink := by
  by_cases hr : i=rootino
  · obtain ⟨-,-,hb⟩ := h.counts.root hr
    omega
  · cases hd : n.isDir with
    | false =>
      have := h.counts.file hd
      omega
    | true =>
      have := h.counts.dir hd hr
      omega

lemma LinkInv.lt_of_mem (h : LinkInv N t) (he : e∈kids t d) : d<N := by
  cases hd : t d with
  | none =>
    rw [kids_none hd] at he
    exact absurd he List.not_mem_nil
  | some n => exact (h.node d n hd).range.2

lemma LinkInv.dir_of_mem (h : LinkInv N t) (he : e∈kids t d) : isDirAt t d=true := by
  cases hd : t d with
  | none =>
    rw [kids_none hd] at he
    exact absurd he List.not_mem_nil
  | some n =>
    rw [isDirAt_some hd]
    by_contra hn
    rw [kids_some hd,(h.node d n hd).plain (Bool.eq_false_of_not_eq_true hn)] at he
    exact absurd he List.not_mem_nil

lemma LinkInv.inum_ne (h : LinkInv N t) (hi : names N t i=0) (he : e∈kids t d) : e.inum≠i := by
  intro hc
  have hz := Finset.sum_eq_zero_iff.mp hi d (Finset.mem_range.mpr (h.lt_of_mem he))
  grind [uses]

lemma names_exchange (hd : d<N) (hkids : ∀ j,j≠d→kids t' j=kids t j) (x : ℕ) :
    names N t' x+uses (kids t d) x=names N t x+uses (kids t' d) x :=
  @sum_exchange ℕ _ (Finset.range N) (fun j => uses (kids t j) x) (fun j => uses (kids t' j) x) d
    (Finset.mem_range.mpr hd) fun j _ hj => by simp only [hkids j hj]

lemma subdirs_congr (hkids : kids t' d=kids t d)
    (hdir : ∀ e∈kids t d,isDirAt t' e.inum=isDirAt t e.inum) : subdirs t' d=subdirs t d := by
  grind [subdirs,List.countP_congr]

lemma short_succ {x : ℤ} (h0 : 0≤x) (h : x≤32767) (hne : x≠32767) : short (x+1)=x+1 := by
  rw [short]
  omega

lemma short_pred {x : ℤ} (h0 : 1≤x) (h : x≤32767) : short (x+-1)=x-1 := by
  rw [short]
  omega

/-- The directory d has one more name, which is for the inode i. -/
structure Adds (N : ℕ) (t t' : Tree) (d i : ℕ) : Prop where
  kids : ∀ j,j≠d→kids t' j=kids t j
  mem : ∀ e∈LinkCounts.kids t' d,e.inum=i ∨ e∈LinkCounts.kids t d
  keeps : ∀ e∈LinkCounts.kids t d,e.inum≠0→e∈LinkCounts.kids t' d
  dirs : ∀ x,x≠i→isDirAt t' x=isDirAt t x
  names : ∀ x,x≠0→names N t' x=names N t x+if i=x then 1 else 0
  others : ∀ j,j≠d→subdirs t' j=subdirs t j
  subdirs : subdirs t' d=LinkCounts.subdirs t d+if isDirAt t' i then 1 else 0

lemma mem_place_of_mem (hroom : Room l k) (he : e∈l) (h0 : e.inum≠0) :
    e∈place l k de := by
  rw [place]
  split_ifs with hk
  · obtain ⟨j,hj⟩ := List.mem_iff_getElem?.mp he
    refine List.mem_of_getElem? (i:=j) ?_
    rw [List.getElem?_set_ne,hj]
    rintro rfl
    rcases hroom with ⟨e',he',h'⟩ | hlen
    · grind
    · omega
  · exact List.mem_append_left _ he

lemma adds_of_place (h : LinkInv N t) (hd : d<N) (hde : de.inum=i) (hi : i≠0)
    (hroom : Room (kids t d) k) (hkd : kids t' d=place (kids t d) k de)
    (hkids : ∀ j,j≠d→kids t' j=kids t j) (hdirs : ∀ x,x≠i→isDirAt t' x=isDirAt t x)
    (hfresh : isDirAt t' i=isDirAt t i ∨ names N t i=0) : Adds N t t' d i := by
  have hsame : ∀ j,∀ e∈kids t j,isDirAt t' e.inum=isDirAt t e.inum := by grind [h.inum_ne]
  refine ⟨hkids,fun e he => ?_,fun e he h0 => ?_,hdirs,fun x hx => ?_,fun j hj => ?_,?_⟩
  · rw [hkd] at he
    rcases mem_place he with rfl | he
    · exact .inl hde
    · exact .inr he
  · rw [hkd]
    exact mem_place_of_mem hroom he h0
  · have hex := names_exchange hd hkids x
    have hc : uses (kids t' d) x=uses (kids t d) x+if i=x then 1 else 0 := by
      rw [hkd,uses,countP_place hroom]
      · simp only [hde,decide_eq_true_eq,uses]
      · intro e he
        simp only [he,decide_eq_false_iff_not]
        exact hx.symm
    omega
  · exact subdirs_congr (hkids j hj) (hsame j)
  · rw [LinkCounts.subdirs,hkd,countP_place hroom]
    · have hc : (kids t d).countP (fun e => e.inum≠0 && isDirAt t' e.inum)=
          LinkCounts.subdirs t d := by
        refine List.countP_congr fun e he => ?_
        rw [hsame d e he]
      rw [hc]
      simp only [hde,ne_eq,hi,not_false_eq_true,decide_true,Bool.true_and]
    · intro e he
      simp only [he,ne_eq,not_true_eq_false,decide_false,Bool.false_and]

/-- The directory d has lost a name, which was for the inode i. -/
structure Removes (N : ℕ) (t t' : Tree) (d i : ℕ) : Prop where
  kids : ∀ j,j≠d→kids t' j=kids t j
  lost : ∃ e∈LinkCounts.kids t d,e.inum=i
  mem : ∀ e∈LinkCounts.kids t' d,e.inum≠0→e∈LinkCounts.kids t d
  dirs : ∀ x,isDirAt t' x=isDirAt t x
  names : ∀ x,x≠0→names N t' x+(if i=x then 1 else 0)=names N t x
  others : ∀ j,j≠d→subdirs t' j=subdirs t j
  subdirs : subdirs t' d+(if isDirAt t i then 1 else 0)=LinkCounts.subdirs t d

lemma removes_of_set (hd : d<N) (hk : (kids t d)[k]?=some e) (he : e.inum=i) (hi : i≠0)
    (hkd : kids t' d=(kids t d).set k Dirent.zero) (hkids : ∀ j,j≠d→kids t' j=kids t j)
    (hdirs : ∀ x,isDirAt t' x=isDirAt t x) : Removes N t t' d i := by
  refine ⟨hkids,⟨e,List.mem_of_getElem? hk,he⟩,fun e' he' h0 => ?_,hdirs,fun x hx => ?_,
    fun j hj => ?_,?_⟩
  · rw [hkd] at he'
    rcases List.mem_or_eq_of_mem_set he' with he' | rfl
    · exact he'
    · exact absurd rfl h0
  · have hex := names_exchange hd hkids x
    have hc : uses (kids t' d) x+(if i=x then 1 else 0)=uses (kids t d) x := by
      have := @countP_exchange Dirent (fun e => e.inum=x) (kids t d) k e Dirent.zero hk
      simp only [he,decide_eq_true_eq,Dirent.zero,hx.symm,if_false,Nat.add_zero] at this
      rw [hkd,uses,uses,Dirent.zero,←this]
    omega
  · exact subdirs_congr (hkids j hj) fun e _ => hdirs _
  · have := @countP_exchange Dirent (fun e => e.inum≠0 && isDirAt t e.inum) (kids t d) k e
      Dirent.zero hk
    simp only [he,ne_eq,hi,not_false_eq_true,decide_true,Bool.true_and] at this
    rw [LinkCounts.subdirs,LinkCounts.subdirs,hkd]
    simp only [hdirs,ne_eq]
    rw [this]
    rfl

structure Two (t t' : Tree) (d i : ℕ) (nd ni : Node) : Prop where
  ne : i≠d
  left : t' d=some nd
  right : t' i=some ni
  others : ∀ j,j≠d→j≠i→t' j=t j

lemma two_update (t : Tree) (h : i≠d) (nd ni : Node) :
    Two t (update (update t d (some nd)) i (some ni)) d i nd ni := by
  refine ⟨h,?_,update_self _ _ _,fun j hd hi => ?_⟩
  · grind
  · grind

lemma Two.kids (h : Two t t' d i nd ni) (hi : ni.entries.drop 2=kids t i) (j : ℕ) (hj : j≠d) :
    LinkCounts.kids t' j=LinkCounts.kids t j := by grind [h.right,LinkCounts.kids,h.others]

lemma Two.dirs {m : Node} (h : Two t t' d i nd ni) (hd : t d=some m) (hk : nd.isDir=m.isDir)
    (x : ℕ) (hx : x≠i) : isDirAt t' x=isDirAt t x := by grind [h.left,isDirAt,h.others]

lemma Two.node (h : Two t t' d i nd ni) (hinv : LinkInv N t)
    (hnames : ∀ x,x≠0→x≠i→names N t' x=names N t x) (hsub : ∀ j,j≠d→subdirs t' j=subdirs t j)
    (hd : NodeInv N d nd (names N t' d) (subdirs t' d))
    (hi : NodeInv N i ni (names N t' i) (subdirs t' i)) : LinkInv N t' := by
  refine ⟨fun x n hx => ?_,fun x h0 hx => ?_,?_⟩
  · by_cases hxd : x=d
    · grind [h.left]
    · by_cases hxi : x=i
      · grind [h.right]
      · rw [h.others x hxd hxi] at hx
        have hn := hinv.node x n hx
        grind [hn.range]
  · have hxd : x≠d := by
      grind [h.left]
    grind [h.right,h.others,hinv.target]
  · grind [hinv.root,h.left,h.right,h.others]

variable {name : List UInt8}

lemma shape_place (h : Shape d es) (hd : d≠0)
    (hroom : Room es k) (habs : Absent es name) : Shape d (place es k ⟨i,strncpy name⟩) := by
  obtain ⟨k',-,hdrop,h0,h1⟩ := @place_drop d k ⟨i,strncpy name⟩ es h hd hroom
  refine ⟨by rw [h0]; exact h.self,by rw [h1]; exact h.parent,fun e he he0 => ?_⟩
  rw [hdrop] at he
  rcases mem_place he with rfl | he
  · obtain ⟨a,ha,hai,hadot⟩ := h.self
    obtain ⟨b,hb,hbi,hbdot⟩ := h.parent
    exact ⟨namecmp_strncpy (habs a (List.mem_of_getElem? ha) (by rw [hai]; exact hd)) hadot,
      namecmp_strncpy (habs b (List.mem_of_getElem? hb) hbi) hbdot⟩
  · exact h.rest e he he0

lemma shape_set (h : Shape d es) (hd : d≠0) (hk : es[k]?=some e)
    (hdot : namecmp dot e.name=false) (hdotdot : namecmp dotdot e.name=false) :
    Shape d (es.set k Dirent.zero) := by
  obtain ⟨k',-,hdrop,h0,h1⟩ := @set_drop d k e es Dirent.zero h hd hk hdot hdotdot
  refine ⟨by rw [h0]; exact h.self,by rw [h1]; exact h.parent,fun e' he' hne => ?_⟩
  rw [hdrop] at he'
  rcases List.mem_or_eq_of_mem_set he' with he' | rfl
  · exact h.rest e' he' hne
  · exact absurd rfl hne

lemma shape_dotNode (hd : d≠0) : Shape i (dotNode i d) := by
  have hdot : namecmp dot (strncpy dot)=true := by decide
  have hdotdot : namecmp dotdot (strncpy dotdot)=true := by decide
  refine ⟨⟨_,rfl,rfl,hdot⟩,⟨_,rfl,hd,hdotdot⟩,fun e he => ?_⟩
  exact absurd he List.not_mem_nil

section Edits

variable {name : List UInt8} {isDir : Bool} (h : LinkInv N t) {m mi : Node}

include h

variable (h2 : Two t t' d i m mi)

include h2

lemma create_adds (hd : t d=some nd) (hdir : nd.isDir=true) (hi : t i=none) (hr : 0< i ∧ i<N)
    (hroom : Room nd.entries k) (hm : m.isDir=true)
    (hme : m.entries=place nd.entries k ⟨i,strncpy name⟩) (hmi : mi.entries.drop 2=[]) :
    Adds N t t' d i := by
  have hn := h.node d nd hd
  have hd0 := hn.ne_zero
  obtain ⟨k',hroom',hdrop,-,-⟩ := @place_drop d k ⟨i,strncpy name⟩ _ (hn.shape hdir) hd0 hroom
  rw [←kids_some hd] at hroom' hdrop
  refine @adds_of_place N t t' d i k' ⟨i,strncpy name⟩ h hn.range.2 rfl (by omega) hroom' ?_ ?_
    (h2.dirs hd (by rw [hm,hdir])) (.inr (h.target i (by omega) hi))
  · rw [kids_some h2.left,hme,hdrop]
  · exact h2.kids (by rw [kids_none hi,hmi])

lemma link_adds (hd : t d=some nd) (hdir : nd.isDir=true) (hi : t i=some ni)
    (hplain : ni.isDir=false) (hroom : Room nd.entries k) (hm : m.isDir=true)
    (hme : m.entries=place nd.entries k ⟨i,strncpy name⟩) (hmi : mi.entries=ni.entries)
    (hmd : mi.isDir=false) : Adds N t t' d i := by
  have hn := h.node d nd hd
  have hd0 := hn.ne_zero
  have hi0 := (h.node i ni hi).range
  obtain ⟨k',hroom',hdrop,-,-⟩ := @place_drop d k ⟨i,strncpy name⟩ _ (hn.shape hdir) hd0 hroom
  rw [←kids_some hd] at hroom' hdrop
  refine @adds_of_place N t t' d i k' ⟨i,strncpy name⟩ h hn.range.2 rfl (by omega) hroom' ?_ ?_
    (h2.dirs hd (by rw [hm,hdir])) (.inl ?_)
  · rw [kids_some h2.left,hme,hdrop]
  · exact h2.kids (by rw [kids_some hi,hmi])
  · rw [isDirAt_some h2.right,isDirAt_some hi,hmd,hplain]

lemma unlink_removes (hd : t d=some nd) (hdir : nd.isDir=true) (hk : nd.entries[k]?=some e)
    (he : e.inum=i) (h0 : i≠0) (hdot : namecmp dot e.name=false)
    (hdotdot : namecmp dotdot e.name=false) (hi : t i=some ni) (hm : m.isDir=true)
    (hme : m.entries=nd.entries.set k Dirent.zero) (hmi : mi.entries=ni.entries)
    (hmd : mi.isDir=ni.isDir) : Removes N t t' d i := by
  have hn := h.node d nd hd
  have hd0 := hn.ne_zero
  obtain ⟨k',hk',hdrop,-,-⟩ :=
    @set_drop d k e _ Dirent.zero (hn.shape hdir) hd0 hk hdot hdotdot
  rw [←kids_some hd] at hk' hdrop
  refine removes_of_set hn.range.2 hk' he h0 ?_ ?_ fun x => ?_
  · rw [kids_some h2.left,hme,hdrop]
  · exact h2.kids (by rw [kids_some hi,hmi])
  · by_cases hx : x=i
    · rw [hx,isDirAt_some h2.right,isDirAt_some hi,hmd]
    · exact h2.dirs hd (by rw [hm,hdir]) x hx

end Edits

def NoOverflow (t : Tree) : Edit→Prop
  | .create d _ true => ∀ n,t d=some n→n.nlink≠32767
  | .link _ i => ∀ n,t i=some n→n.nlink≠32767
  | _ => True

lemma free_kids (t : Tree) (i : ℕ) : kids (update t i none) i=[] ∧
    ∀ j,j≠i→kids (update t i none) j=kids t j := by
  refine ⟨kids_none (update_self _ _ _),fun j hj => ?_⟩
  rw [kids,kids,update_of_ne hj]

lemma LinkInv.unnamed (h : LinkInv N t) (hi : t i=some n) (hn : n.nlink=0) :
    names N t i=0 ∧ subdirs t i=0 ∧ i≠rootino := by
  have hnode := h.node i n hi
  have hroot : i≠rootino := by
    intro hr
    obtain ⟨-,-,hb⟩ := hnode.counts.root hr
    omega
  cases hd : n.isDir with
  | false =>
    have := hnode.counts.file hd
    refine ⟨by omega,?_,hroot⟩
    rw [subdirs,kids_some hi,hnode.plain hd]
    rfl
  | true =>
    have := hnode.counts.dir hd hroot
    exact ⟨by omega,by omega,hroot⟩

lemma free_counts (h : LinkInv N t) (hi : t i=some n) (hn : n.nlink=0) :
    (∀ x,names N (update t i none) x+uses (kids t i) x=names N t x) ∧
      ∀ j,subdirs (update t i none) j=subdirs t j := by
  obtain ⟨hnames,hsub,-⟩ := h.unnamed hi hn
  obtain ⟨hki,hkj⟩ := free_kids t i
  refine ⟨fun x => ?_,fun j => ?_⟩
  · have := names_exchange (h.node i n hi).range.2 hkj x
    rw [hki] at this
    exact this
  · by_cases hj : j=i
    · rw [hj,hsub,subdirs,hki]
      rfl
    · refine subdirs_congr (hkj j hj) fun e he => ?_
      rw [isDirAt,isDirAt,update_of_ne (h.inum_ne hnames he)]

lemma uses_eq_zero {x : ℕ} (hsub : subdirs t i=0) (hx : isDirAt t x=true) (h0 : x≠0) :
    uses (kids t i) x=0 := by
  rw [uses,List.countP_eq_zero]
  intro e he hex
  simp only [decide_eq_true_eq] at hex
  refine List.countP_eq_zero.mp hsub e he ?_
  rw [hex,hx]
  simpa using h0

variable (h : LinkInv N t)

include h

lemma linkInv_free (hi : t i=some n) (hn : n.nlink=0) : LinkInv N (update t i none) := by
  obtain ⟨hnames,hsub,hroot⟩ := h.unnamed hi hn
  obtain ⟨hex,hsubs⟩ := free_counts h hi hn
  set t' := update t i none
  have hother : ∀ x,x≠i→t' x=t x := fun x hx => update_of_ne hx _ _
  refine ⟨fun x m hx => ?_,fun x h0 hx => ?_,?_⟩
  · have hxi : x≠i := by
      grind
    rw [hother x hxi] at hx
    have hm := h.node x m hx
    have hexx := hex x
    rw [hsubs x]
    refine ⟨hm.range,hm.plain,hm.shape,hm.bound,⟨fun hd => ?_,fun hd hr => ?_,fun hr => ?_⟩⟩
    · have := hm.counts.file hd
      omega
    · grind [uses_eq_zero,isDirAt_some,hm.range,hm.counts.dir]
    · grind [hm.counts.root]
  · grind [h.target]
  · grind [h.root]

lemma linkInv_create {isDir : Bool} (h2 : Two t t' d i
      ⟨true,if isDir then short (nd.nlink+1) else nd.nlink,place nd.entries k ⟨i,strncpy name⟩⟩
      ⟨isDir,1,if isDir then dotNode i d else []⟩) (hd : t d=some nd) (hdir : nd.isDir=true)
    (hi : t i=none) (hr : 0< i ∧ i<N) (hroom : Room nd.entries k) (habs : Absent nd.entries name)
    (hok : isDir=true→nd.nlink≠32767) : LinkInv N t' := by
  have hne := h2.ne
  have hn := h.node d nd hd
  have hd0 := hn.ne_zero
  have ha := create_adds h h2 hd hdir hi hr hroom rfl rfl (by cases isDir <;> rfl)
  have hki : isDirAt _ i=isDir := isDirAt_some h2.right
  have hni := ha.names i (by omega)
  rw [if_pos rfl,h.target i (by omega) hi] at hni
  have hsi := ha.others i hne
  rw [subdirs,subdirs,kids_none hi,List.countP_nil] at hsi
  have hnd := ha.names d hd0
  rw [if_neg hne,Nat.add_zero] at hnd
  have hsd := ha.subdirs
  rw [hki] at hsd
  refine h2.node h (fun x h0 hx => ?_) ha.others ?_ ?_
  · grind [ha.names]
  · rw [hnd,hsd]
    have hnn := hn.nonneg
    have hbb := hn.bound
    have hlink : (if isDir then short (nd.nlink+1) else nd.nlink)=
        nd.nlink+if isDir then 1 else 0 := by
      split_ifs with hd'
      · exact short_succ hnn hbb (hok hd')
      · omega
    rw [hlink]
    refine ⟨hn.range,nofun,
      fun _ => shape_place (hn.shape hdir) hd0 hroom habs,?_,
      ⟨nofun,fun _ hr => ?_,fun hr => ⟨rfl,?_⟩⟩⟩
    · grind
    · grind [hn.counts.dir]
    · grind [hn.counts.root]
  · rw [hni,show subdirs _ i=0 from hsi]
    refine ⟨hr,fun hc => ?_,fun hc => ?_,show (1 : ℤ)≤32767 from by decide,
      ⟨fun _ => by simp,fun _ _ => by simp,fun hroot => ?_⟩⟩
    · grind
    · grind [shape_dotNode]
    · grind [h.root]

lemma linkInv_link (h2 : Two t t' d i ⟨true,nd.nlink,place nd.entries k ⟨i,strncpy name⟩⟩
      ⟨false,short (ni.nlink+1),ni.entries⟩) (hd : t d=some nd) (hdir : nd.isDir=true)
    (hi : t i=some ni) (hplain : ni.isDir=false) (hroom : Room nd.entries k)
    (habs : Absent nd.entries name) (hok : ni.nlink≠32767) : LinkInv N t' := by
  have hne := h2.ne
  have hn := h.node d nd hd
  have hm := h.node i ni hi
  have hd0 := hn.ne_zero
  have hi0 := hm.ne_zero
  have ha := link_adds h h2 hd hdir hi hplain hroom rfl rfl rfl rfl
  have hnd := ha.names d hd0
  rw [if_neg hne,Nat.add_zero] at hnd
  have hsd := ha.subdirs
  rw [isDirAt_some h2.right] at hsd
  have hshort := short_succ hm.nonneg hm.bound hok
  refine h2.node h (fun x h0 hx => ?_) ha.others ?_ ?_
  · grind [ha.names]
  · rw [hnd,hsd]
    exact ⟨hn.range,nofun,
      fun _ => shape_place (hn.shape hdir) hd0 hroom habs,hn.bound,
      ⟨nofun,fun _ => hn.counts.dir hdir,
        fun hr => ⟨rfl,(hn.counts.root hr).2⟩⟩⟩
  · rw [ha.names i hi0,if_pos rfl,ha.others i hne]
    refine ⟨hm.range,fun _ => hm.plain hplain,nofun,?_,
      ⟨fun _ => ?_,nofun,fun hr => ?_⟩⟩
    · grind [hm.bound]
    · have := hm.counts.file hplain
      grind
    · grind [hm.counts.root]

lemma unlink_nlink (hr : Removes N t t' d i) (hd : t d=some nd) (hdir : nd.isDir=true)
    (hi : t i=some ni) :
    (if ni.isDir then short (nd.nlink+-1) else nd.nlink)=nd.nlink-if ni.isDir then 1 else 0 := by
  have hn := h.node d nd hd
  have hsd := hr.subdirs
  rw [isDirAt_some hi] at hsd
  split_ifs at hsd ⊢ with hd'
  · refine short_pred ?_ hn.bound
    by_cases hroot : d=rootino
    · obtain ⟨-,-,hb⟩ := hn.counts.root hroot
      omega
    · have := hn.counts.dir hdir hroot
      omega
  · omega

lemma linkInv_unlink (h2 : Two t t' d i
      ⟨true,if ni.isDir then short (nd.nlink+-1) else nd.nlink,nd.entries.set k Dirent.zero⟩
      ⟨ni.isDir,short (ni.nlink+-1),ni.entries⟩) (hd : t d=some nd) (hdir : nd.isDir=true)
    (hk : nd.entries[k]?=some e) (he : e.inum=i) (h0 : i≠0) (hdot : namecmp dot e.name=false)
    (hdotdot : namecmp dotdot e.name=false) (hi : t i=some ni) (hpos : 1≤ni.nlink) :
    LinkInv N t' := by
  have hn := h.node d nd hd
  have hm := h.node i ni hi
  have hd0 := hn.ne_zero
  have hne := h2.ne
  have hr := unlink_removes h h2 hd hdir hk he h0 hdot hdotdot hi rfl rfl rfl rfl
  have hnd := hr.names d hd0
  rw [if_neg hne,Nat.add_zero] at hnd
  have hni := hr.names i h0
  rw [if_pos rfl] at hni
  have hsd := hr.subdirs
  rw [isDirAt_some hi] at hsd
  have hshort := short_pred hpos hm.bound
  refine h2.node h (fun x hx0 hx => ?_) hr.others ?_ ?_
  · have := hr.names x hx0
    rw [if_neg (Ne.symm hx),Nat.add_zero] at this
    exact this
  · rw [hnd]
    rw [unlink_nlink h hr hd hdir hi]
    refine ⟨hn.range,nofun,
      fun _ => shape_set (hn.shape hdir) hd0 hk hdot hdotdot,?_,
      ⟨nofun,fun _ hroot => ?_,fun hroot => ⟨rfl,?_⟩⟩⟩
    · grind [hn.bound]
    · grind [hn.counts.dir]
    · grind [hn.counts.root]
  · rw [hr.others i hne]
    refine ⟨hm.range,hm.plain,hm.shape,?_,⟨fun hd' => ?_,fun hd' hroot => ?_,fun hroot => ?_⟩⟩
    · grind [hm.bound]
    · have := hm.counts.file hd'
      simp only [hshort]
      omega
    · grind [hm.counts.dir]
    · grind [hm.counts.root]

omit h

lemma create_ne (hd : t d=some nd) (hi : t i=none) : i≠d := by
  grind

lemma link_ne (hd : t d=some nd) (hdir : nd.isDir=true) (hi : t i=some ni)
    (hplain : ni.isDir=false) : i≠d := by grind

lemma linkInv_step {ed : Edit} (h : LinkInv N t) (hok : NoOverflow t ed)
    (hs : Step N t ed t') : LinkInv N t' := by
  cases hs with
  | free hi hn => exact linkInv_free h hi hn
  | create hd hdir hi hr hroom habs =>
    refine linkInv_create h (two_update t (create_ne hd hi) _ _) hd hdir hi hr hroom habs ?_
    rintro rfl
    exact hok _ hd
  | link hd hdir hi hplain hroom habs =>
    exact linkInv_link h (two_update t (link_ne hd hdir hi hplain) _ _) hd hdir hi hplain hroom
      habs (hok _ hi)
  | unlink hd hdir hk he h0 hdot hdotdot hi hne hpos hempty =>
    exact linkInv_unlink h (two_update t hne _ _) hd hdir hk he h0 hdot hdotdot hi hpos

end Xv6Riscv.LinkCounts
