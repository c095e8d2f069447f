import Xv6Riscv.ParentLinks

/-!
# Exact link counts

If no name is created in a directory that has lost all its links, then a
removed directory stays empty until it goes away, so every name is in a
directory that still has a link. Link counts are then exact: the links of an
inode are the entries for it, other than its own . entry, in the directories
that have a link themselves.
-/

namespace Xv6Riscv.ExactLinks

open Function
open InodeLayer DirectoryLayer FileTree Tally LinkCounts ParentLinks

variable {N : ℕ} {t t' : Tree} {d i k : ℕ} {n nd ni : Node} {e : Dirent} {m mi : Node}

/-- The entries for an inode, other than . entries, of one node. -/
def linksIn (i : ℕ) (n : Node) : ℕ :=
  if n.isDir ∧ 0<n.nlink then n.entries.countP fun e => e.inum=i && !namecmp dot e.name else 0

/-- The entries for an inode, other than . entries, in directories that have a
link themselves. -/
def links (N : ℕ) (t : Tree) (i : ℕ) : ℕ := ∑ d ∈ Finset.range N,(t d).elim 0 (linksIn i)

def up (t : Tree) (j : ℕ) : Option ℕ :=
  (t j).bind fun n => if n.isDir ∧ 0<n.nlink then some (parentOf n) else none

/-- The directories with a link that have the inode as their parent. -/
def dotdots (N : ℕ) (t : Tree) (i : ℕ) : ℕ :=
  ∑ j ∈ Finset.range N,if up t j=some i then 1 else 0

/-- What makes link counts exact, beyond the link invariant. -/
structure Exact (N : ℕ) (t : Tree) : Prop where
  file : ∀ i n,t i=some n→n.isDir=false→n.nlink=names N t i
  lone : ∀ i n,t i=some n→n.isDir=true→names N t i≤1
  dead : ∀ i n,t i=some n→n.isDir=true→i≠rootino→names N t i=0→∀ e∈kids t i,e.inum=0
  parent : ∀ d,∀ e∈kids t d,e.inum≠0→∀ n,t e.inum=some n→n.isDir=true→parentOf n=d
  dotdots : ∀ i,i≠rootino→dotdots N t i=subdirs t i

/-- No name is created in a directory without links, and no count overflows. -/
def KeepsExact (t : Tree) (ed : Edit) : Prop :=
  NoOverflow t ed ∧ match ed with
    | .create d _ _ => ∀ n,t d=some n→n.nlink≠0
    | .link d _ => ∀ n,t d=some n→n.nlink≠0
    | _ => True

lemma Exact.nlink_eq_zero (h : LinkInv N t) (hx : Exact N t) (hi : t i=some n)
    (hd : n.isDir=true) (hr : i≠rootino) (h0 : names N t i=0) : n.nlink=0 := by
  have hsub : subdirs t i=0 := by grind [subdirs,hx.dead]
  rw [(h.node i n hi).counts.dir hd hr,h0,hsub]
  rfl

lemma Exact.empty (h : LinkInv N t) (hx : Exact N t) (hi : t i=some n) (hn : n.nlink=0) :
    ∀ e∈kids t i,e.inum=0 := by
  obtain ⟨hnames,-,hroot⟩ := h.unnamed hi hn
  cases hd : n.isDir with
  | false =>
    rw [kids_some hi,(h.node i n hi).plain hd]
    exact fun e he => absurd he List.not_mem_nil
  | true => exact hx.dead i n hi hd hroot hnames

lemma dotdots_exchange (hj : k<N) (hup : ∀ j,j≠k→up t' j=up t j) (x : ℕ) :
    dotdots N t' x+(if up t k=some x then 1 else 0)=
      dotdots N t x+if up t' k=some x then 1 else 0 :=
  @sum_exchange ℕ _ (Finset.range N) (fun j => if up t j=some x then 1 else 0)
    (fun j => if up t' j=some x then 1 else 0) k (Finset.mem_range.mpr hj) fun j _ hj => by
      simp only [hup j hj]

lemma up_some (h : t i=some n) :
    up t i=if n.isDir ∧ 0<n.nlink then some (parentOf n) else none := by
  rw [up,h]
  rfl

lemma up_congr (h : t i=some n) (h' : t' i=some m) (hd : m.isDir=n.isDir)
    (hp : n.isDir=true→parentOf m=parentOf n) (hl : n.isDir=true→(0< m.nlink ↔ 0<n.nlink)) :
    up t' i=up t i := by grind [up_some]

lemma exact_free (h : LinkInv N t) (hx : Exact N t) (hi : t i=some n) (hn : n.nlink=0) :
    Exact N (update t i none) := by
  obtain ⟨hex,hsubs⟩ := free_counts h hi hn
  obtain ⟨hki,hkj⟩ := free_kids t i
  have hempty := hx.empty h hi hn
  have hrange := (h.node i n hi).range
  set t' := update t i none
  have hnames : ∀ x,x≠0→names N t' x=names N t x := by grind [uses,List.countP_eq_zero]
  have hold : ∀ x m,t' x=some m→x≠i ∧ t x=some m := by grind
  have hpos : ∀ x m,t x=some m→x≠0 := by
    intro x m hm
    have := (h.node x m hm).range
    omega
  refine ⟨fun x m hm hd => ?_,fun x m hm hd => ?_,fun x m hm hd hr h0 => ?_,
    fun d e he h0 m hm hd => ?_,fun x hr => ?_⟩
  · grind [hx.file]
  · obtain ⟨-,hm⟩ := hold x m hm
    rw [hnames x (hpos x m hm)]
    exact hx.lone x m hm hd
  · grind [hx.dead]
  · grind [hx.parent]
  · have hup : ∀ j,j≠i→up t' j=up t j := by
      intro j hj
      rw [up,up,show t' j=t j from update_of_ne hj _ _]
    have hexx := dotdots_exchange hrange.2 hup x
    have hti : up t i=none := by
      rw [up_some hi,hn,if_neg (by simp)]
    have hti' : up t' i=none := by
      rw [up,show t' i=none from update_self _ _ _]
      rfl
    grind [hx.dotdots]

lemma exact_two (hx : Exact N t) (h : LinkInv N t) (h2 : Two t t' d i m mi)
    (hfile : mi.isDir=false→mi.nlink=names N t' i) (hlone : mi.isDir=true→names N t' i≤1)
    (hm : m.isDir=true) (hmd : names N t' d≤1) (hnames : ∀ x,x≠0→x≠i→names N t' x=names N t x)
    (hkids : ∀ j,j≠d→kids t' j=kids t j) (hdead : d≠rootino→names N t' d=0→∀ e∈kids t' d,e.inum=0)
    (hdeadi : mi.isDir=true→names N t' i=0→∀ e∈kids t' i,e.inum=0)
    (hparent : ∀ j,∀ e∈kids t' j,e.inum≠0→∀ n,t' e.inum=some n→n.isDir=true→parentOf n=j)
    (hdots : ∀ x,x≠rootino→dotdots N t' x=subdirs t' x) : Exact N t' := by
  have hpos : ∀ x m,t x=some m→x≠0 := by
    intro x m hm
    have := (h.node x m hm).range
    omega
  refine ⟨fun x p hp hd => ?_,fun x p hp hd => ?_,fun x p hp hd hr h0 => ?_,hparent,hdots⟩
  · by_cases hxd : x=d
    · grind [h2.left]
    · grind [h2.right,h2.others,hx.file]
  · by_cases hxd : x=d
    · rw [hxd]
      exact hmd
    · by_cases hxi : x=i
      · grind [h2.right]
      · rw [h2.others x hxd hxi] at hp
        rw [hnames x (hpos x p hp) hxi]
        exact hx.lone x p hp hd
  · by_cases hxd : x=d
    · grind
    · grind [h2.right,h2.others,hx.dead]

lemma parent_two (hx : Exact N t) (h2 : Two t t' d i m mi) (hd : t d=some nd)
    (hdir : nd.isDir=true) (hpar : parentOf m=parentOf nd)
    (hi : mi.isDir=true→∃ n,t i=some n ∧ n.isDir=true ∧ parentOf mi=parentOf n) {j : ℕ}
    (he : e∈kids t j) (h0 : e.inum≠0) {p : Node} (hp : t' e.inum=some p) (hpd : p.isDir=true) :
    parentOf p=j := by grind [h2.left,hx.parent,h2.right,h2.others]

variable (h : LinkInv N t)

include h

lemma exact_adds (hx : Exact N t) (h2 : Two t t' d i m mi) (ha : Adds N t t' d i)
    (hd : t d=some nd) (hdir : nd.isDir=true) (hlive : nd.nlink≠0) (hm : m.isDir=true)
    (hpar : parentOf m=parentOf nd) (hr0 : 0< i ∧ i<N)
    (hfile : mi.isDir=false→mi.nlink=names N t i+1) (hfresh : mi.isDir=true→t i=none)
    (hup : mi.isDir=true→parentOf mi=d ∧ 0< mi.nlink) (hupi : up t i=none) (hlink : 0< m.nlink) :
    Exact N t' := by
  have hi0 : i≠0 := by omega
  have hnode := h.node d nd hd
  have hd0 := hnode.ne_zero
  have hnd := ha.names d hd0
  rw [if_neg h2.ne,Nat.add_zero] at hnd
  have hni := ha.names i hi0
  rw [if_pos rfl] at hni
  have hfree : mi.isDir=true→names N t i=0 := fun hmi => h.target i hi0 (hfresh hmi)
  refine exact_two hx h h2 (fun hmi => ?_) (fun hmi => ?_) hm ?_ (fun x h0 hxi => ?_) ha.kids
    (fun hr h0 => ?_) (fun _ h0 => ?_) (fun j e he h0 p hp hpd => ?_) (fun x hr => ?_)
  · grind
  · rw [hni,hfree hmi]
  · rw [hnd]
    exact hx.lone d nd hd hdir
  · grind [ha.names]
  · grind [hx.nlink_eq_zero]
  · omega
  · by_cases hei : e.inum=i
    · rw [hei,h2.right,Option.some.injEq] at hp
      have hmi : mi.isDir=true := by rw [hp]; exact hpd
      rw [←hp,(hup hmi).1]
      by_contra hjd
      grind [ha.kids,h.inum_ne]
    · have he' : e∈kids t j := by
        grind [ha.mem,ha.kids]
      grind [h2.left,hx.parent,h2.others]
  · have hupd : up t' d=up t d := by
      refine up_congr hd h2.left (by rw [hm,hdir]) (fun _ => hpar) fun _ => ?_
      have := hnode.nonneg
      omega
    have hups : ∀ j,j≠i→up t' j=up t j := by
      intro j hj
      by_cases hjd : j=d
      · rw [hjd,hupd]
      · rw [up,up,h2.others j hjd hj]
    have hexx := dotdots_exchange hr0.2 hups x
    have hold := hx.dotdots x hr
    have hui : up t' i=if mi.isDir then some d else none := by
      rw [up_some h2.right]
      by_cases hmi : mi.isDir=true
      · rw [if_pos ⟨hmi,(hup hmi).2⟩,if_pos hmi,(hup hmi).1]
      · rw [if_neg hmi,if_neg fun hc => hmi hc.1]
    rw [hupi,hui] at hexx
    simp only [reduceCtorEq,if_false,Nat.add_zero] at hexx
    by_cases hxd : x=d
    · grind [ha.subdirs,isDirAt_some,h2.right]
    · grind [ha.others]

lemma exact_removes (hx : Exact N t) (h2 : Two t t' d i m mi) (hr : Removes N t t' d i)
    (hd : t d=some nd) (hdir : nd.isDir=true) (hm : m.isDir=true) (hpar : parentOf m=parentOf nd)
    (hi : t i=some ni) (hmi : mi.isDir=ni.isDir) (hmie : mi.entries=ni.entries)
    (hempty : ni.isDir=true→∀ e∈ni.entries.drop 2,e.inum=0) (hlink : mi.nlink=ni.nlink-1)
    (hmlink : m.nlink=nd.nlink-if ni.isDir then 1 else 0) : Exact N t' := by
  have hnode := h.node d nd hd
  have hnodei := h.node i ni hi
  have hi0 := hnodei.ne_zero
  have hd0 := hnode.ne_zero
  have hnd := hr.names d hd0
  rw [if_neg h2.ne,Nat.add_zero] at hnd
  have hni := hr.names i hi0
  rw [if_pos rfl] at hni
  have hparent : parentOf mi=parentOf ni := by rw [parentOf,parentOf,hmie]
  have hkidsi : kids t' i=kids t i := by rw [kids_some h2.right,kids_some hi,hmie]
  have hnamed : d≠rootino→names N t d≠0 := by grind [hr.lost,hx.dead]
  refine exact_two hx h h2 (fun hf => ?_) (fun hf => ?_) hm ?_ (fun x h0 hxi => ?_) hr.kids
    (fun hroot h0 => ?_) (fun hf h0 => ?_) (fun j e he h0 p hp hpd => ?_) (fun x hroot => ?_)
  · grind [hx.file]
  · have := hx.lone i ni hi (by rw [←hmi]; exact hf)
    omega
  · rw [hnd]
    exact hx.lone d nd hd hdir
  · have := hr.names x h0
    rw [if_neg (Ne.symm hxi),Nat.add_zero] at this
    exact this
  · rw [hnd] at h0
    exact absurd h0 (hnamed hroot)
  · rw [hkidsi,kids_some hi]
    exact hempty (by rw [←hmi]; exact hf)
  · have he' : e∈kids t j := by
      grind [hr.mem,hr.kids]
    exact parent_two hx h2 hd hdir hpar (fun hf => ⟨ni,hi,by rw [←hmi]; exact hf,hparent⟩) he' h0
      hp hpd
  · have hold := hx.dotdots x hroot
    have hsub := hr.subdirs
    rw [isDirAt_some hi] at hsub
    have hupd : up t' d=up t d := by
      refine up_congr hd h2.left (by rw [hm,hdir]) (fun _ => hpar) fun _ => ?_
      by_cases hdr : d=rootino
      · obtain ⟨-,-,hb⟩ := hnode.counts.root hdr
        split_ifs at hsub hmlink <;> omega
      · have := hnode.counts.dir hdir hdr
        have := hnamed hdr
        split_ifs at hsub hmlink <;> omega
    have hups : ∀ j,j≠i→up t' j=up t j := by
      intro j hj
      by_cases hjd : j=d
      · rw [hjd,hupd]
      · rw [up,up,h2.others j hjd hj]
    have hexx := dotdots_exchange hnodei.range.2 hups x
    by_cases hf : ni.isDir=true
    · have hroot' : i≠rootino := by
        intro hc
        have := (hnodei.counts.root hc).2.1
        omega
      have hsubi : subdirs t i=0 := by
        rw [subdirs,List.countP_eq_zero]
        intro e he
        rw [kids_some hi] at he
        simp [hempty hf e he]
      have hcount := hnodei.counts.dir hf hroot'
      have hlone := hx.lone i ni hi hf
      obtain ⟨e,he,hei⟩ := hr.lost
      have hpd := hx.parent d e he (by omega) ni (by rw [hei]; exact hi) hf
      have hui : up t i=some d := by
        rw [up_some hi,if_pos ⟨hf,by omega⟩,hpd]
      have hui' : up t' i=none := by
        rw [up_some h2.right,if_neg]
        omega
      rw [hui,hui'] at hexx
      rw [if_pos hf] at hsub
      simp only [reduceCtorEq,if_false,Nat.add_zero,Option.some.injEq] at hexx
      by_cases hxd : x=d
      · rw [hxd] at hexx hold ⊢
        rw [if_pos rfl] at hexx
        omega
      · rw [if_neg (Ne.symm hxd)] at hexx
        rw [hr.others x hxd]
        omega
    · have hui : up t' i=up t i := up_congr hi h2.right hmi (fun _ => hparent) fun hc => absurd hc hf
      rw [if_neg hf] at hsub
      rw [hui] at hexx
      by_cases hxd : x=d
      · rw [hxd] at hexx hold ⊢
        omega
      · rw [hr.others x hxd]
        omega

lemma exact_step {ed : Edit} (hx : Exact N t) (hok : KeepsExact t ed) (hs : Step N t ed t') :
    Exact N t' := by
  cases hs with
  | free hi hn => exact exact_free h hx hi hn
  | @create d i k nd name isDir hd hdir hi hr hroom habs =>
    have hn := h.node d nd hd
    have hd0 := hn.ne_zero
    have h2 := two_update t (create_ne hd hi)
      ⟨true,if isDir then short (nd.nlink+1) else nd.nlink,place nd.entries k ⟨i,strncpy name⟩⟩
      ⟨isDir,1,if isDir then dotNode i d else []⟩
    have ha := create_adds h h2 hd hdir hi hr hroom rfl rfl (by cases isDir <;> rfl)
    have hlive := hok.2 nd hd
    refine exact_adds h hx h2 ha hd hdir hlive rfl (parentOf_place (hn.shape hdir) hd0 hroom rfl)
      hr (fun _ => ?_) (fun _ => hi) (fun hf => ⟨?_,by simp⟩) ?_ ?_
    · rw [h.target i (by omega) hi]
      rfl
    · simp only at hf
      simp only [parentOf,if_pos hf]
      rfl
    · rw [up,hi]
      rfl
    · have := hn.nonneg
      simp only
      split_ifs with hf
      · subst hf
        rw [short_succ this hn.bound (hok.1 nd hd)]
        omega
      · omega
  | @link d i k nd ni name hd hdir hi hplain hroom habs =>
    have hn := h.node d nd hd
    have hm := h.node i ni hi
    have hd0 := hn.ne_zero
    have h2 := two_update t (link_ne hd hdir hi hplain)
      ⟨true,nd.nlink,place nd.entries k ⟨i,strncpy name⟩⟩ ⟨false,short (ni.nlink+1),ni.entries⟩
    have ha := link_adds h h2 hd hdir hi hplain hroom rfl rfl rfl rfl
    refine exact_adds h hx h2 ha hd hdir (hok.2 nd hd) rfl
      (parentOf_place (hn.shape hdir) hd0 hroom rfl) hm.range (fun _ => ?_)
      (by rintro ⟨⟩) (by rintro ⟨⟩) ?_ ?_
    · simp only [short_succ hm.nonneg hm.bound (hok.1 ni hi)]
      rw [hx.file i ni hi hplain]
    · rw [up_some hi,hplain,if_neg (by simp)]
    · have := hn.nonneg
      have := hok.2 nd hd
      simp only
      omega
  | @unlink d i k nd ni e hd hdir hk he h0 hdot hdotdot hi hne hpos hempty =>
    have hn := h.node d nd hd
    have hm := h.node i ni hi
    have hd0 := hn.ne_zero
    have h2 := two_update t hne
      ⟨true,if ni.isDir then short (nd.nlink+-1) else nd.nlink,nd.entries.set k Dirent.zero⟩
      ⟨ni.isDir,short (ni.nlink+-1),ni.entries⟩
    have hr := unlink_removes h h2 hd hdir hk he h0 hdot hdotdot hi rfl rfl rfl rfl
    refine exact_removes h hx h2 hr hd hdir rfl
      (parentOf_set (hn.shape hdir) hd0 hk hdot hdotdot rfl) hi rfl rfl hempty
      (short_pred hpos hm.bound) (unlink_nlink h hr hd hdir hi)

lemma linksIn_eq (hd : t d=some nd) (hi : i≠0) (hc : nd.isDir=true ∧ 0<nd.nlink) :
    linksIn i nd=(if parentOf nd=i then 1 else 0)+uses (kids t d) i := by
  have hn := h.node d nd hd
  have hs := hn.shape hc.1
  obtain ⟨a,b,l,hes,-,-,ha,hb⟩ := hs.split (by have := hn.range; omega)
  have hbdot : namecmp dot b.name=false := by
    rw [Bool.eq_false_iff]
    intro hbd
    rw [namecmp_iff] at hb hbd
    exact absurd (hbd.trans hb.symm) (by decide)
  have hrest : l.countP (fun e => e.inum=i && !namecmp dot e.name)=uses (kids t d) i := by
    rw [kids_some hd,hes,uses]
    refine List.countP_congr fun e he => ?_
    by_cases hei : e.inum=i
    · simp [hei,(hs.rest e (by rw [hes]; exact he) (by omega)).1]
    · simp [hei]
  have hpar : parentOf nd=b.inum := by
    rw [parentOf,hes]
    rfl
  rw [linksIn,if_pos hc,hes,List.countP_cons,List.countP_cons,hrest,ha,hbdot,hpar]
  simp only [Bool.not_true,Bool.and_false,Bool.false_eq_true,if_false,Bool.not_false,
    Bool.and_true,decide_eq_true_eq,Nat.add_zero]
  exact Nat.add_comm _ _

lemma links_eq (hx : Exact N t) (hi : i≠0) : links N t i=dotdots N t i+names N t i := by
  rw [links,dotdots,names,←Finset.sum_add_distrib]
  refine Finset.sum_congr rfl fun d _ => ?_
  cases hd : t d with
  | none =>
    rw [kids_none hd,up,hd]
    rfl
  | some nd =>
    rw [Option.elim_some,up_some hd]
    by_cases hc : nd.isDir=true ∧ 0<nd.nlink
    · simp only [linksIn_eq h hd hi hc,if_pos hc,Option.some.injEq]
    · have huse : uses (kids t d) i=0 := by
        rw [uses,List.countP_eq_zero]
        intro e he hei
        rw [decide_eq_true_eq] at hei
        have hdir := h.dir_of_mem he
        rw [isDirAt_some hd] at hdir
        have hz : nd.nlink=0 := by
          have := (h.node d nd hd).nonneg
          have : ¬0<nd.nlink := fun hl => hc ⟨hdir,hl⟩
          omega
        have := hx.empty h hd hz e he
        omega
      rw [linksIn,if_neg hc,if_neg hc,huse]
      rfl

lemma nlink_eq_links (hx : Exact N t) (hi : t i=some n) (hr : i≠rootino) :
    n.nlink=links N t i := by
  have hn := h.node i n hi
  rw [links_eq h hx (by have := hn.range; omega),hx.dotdots i hr]
  cases hd : n.isDir with
  | false =>
    have hsub : subdirs t i=0 := by
      rw [subdirs,kids_some hi,hn.plain hd]
      rfl
    rw [hx.file i n hi hd,hsub,Nat.zero_add]
  | true =>
    have := hn.counts.dir hd hr
    push_cast
    omega

end Xv6Riscv.ExactLinks
