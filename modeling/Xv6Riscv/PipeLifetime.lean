import Xv6Riscv.FileSyscalls

/-!
# Lifetime of pipes

Each end of a pipe belongs to one file table entry, and the page of the pipe
stays allocated as long as one of the ends is open. The history of pipealloc,
pipeclose and kfree says how often each of them happened to a pipe; pages are
used again, so pipes are told apart by their number.
-/

namespace Xv6Riscv.PipeLifetime

open Function
open FileSyscalls

variable {s : Sys} {f pg : ℕ} {e : File} {f0 f1 : ℕ}

def isOpen (q : Pipe) (writable : Bool) : Bool := if writable then q.writeopen else q.readopen

@[simp] lemma close_id (q : Pipe) (w : Bool) : (q.close w).id=q.id := by
  cases w <;> rfl

@[simp] lemma isOpen_close_self (q : Pipe) (w : Bool) : isOpen (q.close w) w=false := by
  cases w <;> rfl

lemma isOpen_close_of_ne (q : Pipe) {v w : Bool} (h : v≠w) :
    isOpen (q.close w) v=isOpen q v := by
  cases v <;> cases w <;> first | exact absurd rfl h | rfl

lemma bothClosed_iff (q : Pipe) :
    (q.readopen=false ∧ q.writeopen=false) ↔ ∀ w,isOpen q w=false := by
  constructor
  · rintro ⟨hr,hw⟩ w
    cases w
    · exact hr
    · exact hw
  · intro h
    exact ⟨h false,h true⟩

structure PipeInv (s : Sys) : Prop where
  ends : ∀ f,(s.ftable f).type=.pipe→s.used (s.ftable f).pipe=true ∧
    isOpen (s.pipe (s.ftable f).pipe) (s.ftable f).writable=true
  unique : ∀ f g,(s.ftable f).type=.pipe→(s.ftable g).type=.pipe→
    (s.ftable f).pipe=(s.ftable g).pipe→(s.ftable f).writable=(s.ftable g).writable→f=g
  owned : ∀ pg w,s.used pg=true→isOpen (s.pipe pg) w=true→
    ∃ f,(s.ftable f).type=.pipe ∧ (s.ftable f).pipe=pg ∧ (s.ftable f).writable=w
  live : ∀ pg,s.used pg=true→∃ w,isOpen (s.pipe pg) w=true
  ids : ∀ pg pg',s.used pg=true→s.used pg'=true→(s.pipe pg).id=(s.pipe pg').id→pg=pg'
  created : ∀ pg,s.used pg=true→ .created (s.pipe pg).id∈s.history
  openEnd : ∀ pg w,s.used pg=true→isOpen (s.pipe pg) w=true→
    s.history.count (.closed (s.pipe pg).id w)=0
  closedEnd : ∀ id w,.created id∈s.history→
    (∀ pg,s.used pg=true→(s.pipe pg).id=id→isOpen (s.pipe pg) w=false)→
    s.history.count (.closed id w)=1
  kept : ∀ pg,s.used pg=true→s.history.count (.freed (s.pipe pg).id)=0
  freed : ∀ id,.created id∈s.history→(∀ pg,s.used pg=true→(s.pipe pg).id≠id)→
    s.history.count (.freed id)=1
  absent : ∀ id,.created id∉s.history→s.history.count (.freed id)=0 ∧
    ∀ w,s.history.count (.closed id w)=0
  fresh : ∀ id,.created id∈s.history→id<s.history.length

lemma PipeInv.files {s' : Sys} (h : PipeInv s) (hp : s'.pipe=s.pipe) (hu : s'.used=s.used)
    (hh : s'.history=s.history)
    (hf : ∀ f,((s'.ftable f).type=.pipe ↔ (s.ftable f).type=.pipe) ∧
      ((s.ftable f).type=.pipe→(s'.ftable f).pipe=(s.ftable f).pipe ∧
        (s'.ftable f).writable=(s.ftable f).writable)) : PipeInv s' := by
  refine ⟨fun f hf' => ?_,fun f g hf' hg' hpp hww => ?_,fun pg w => ?_,?_,?_,?_,?_,?_,?_,?_,?_,?_⟩
  · obtain ⟨h1,h2⟩ := hf f
    have ht := h1.mp hf'
    rw [hu,hp,(h2 ht).1,(h2 ht).2]
    exact h.ends f ht
  · grind [h.unique]
  · rw [hu,hp]
    grind [h.owned]
  · rw [hu,hp]
    exact h.live
  · rw [hu,hp]
    exact h.ids
  · rw [hu,hp,hh]
    exact h.created
  · rw [hu,hp,hh]
    exact h.openEnd
  · rw [hu,hp,hh]
    exact h.closedEnd
  · rw [hu,hp,hh]
    exact h.kept
  · rw [hu,hp,hh]
    exact h.freed
  · rw [hh]
    exact h.absent
  · rw [hh]
    exact h.fresh

lemma PipeInv.setFile (h : PipeInv s) (ht : e.type=.pipe ↔ (s.ftable f).type=.pipe)
    (he : (s.ftable f).type=.pipe→e.pipe=(s.ftable f).pipe ∧ e.writable=(s.ftable f).writable) :
    PipeInv (s.setFile f e) := by
  refine h.files rfl rfl rfl fun g => ?_
  by_cases hg : g=f
  · subst hg
    rw [show (s.setFile g e).ftable g=e from update_self _ _ _]
    exact ⟨ht,he⟩
  · rw [show (s.setFile f e).ftable g=s.ftable g from update_of_ne hg _ _]
    exact ⟨Iff.rfl,fun _ => ⟨rfl,rfl⟩⟩

/-- One end of the pipe in a page is closed, and the page is freed if no end is
open any more. -/
structure Closes (s s' : Sys) (f : ℕ) : Prop where
  self : (s'.ftable f).type≠.pipe
  others : ∀ g,g≠f→s'.ftable g=s.ftable g
  ids : ∀ pg,(s'.pipe pg).id=(s.pipe pg).id
  shut : isOpen (s'.pipe (s.ftable f).pipe) (s.ftable f).writable=false
  ends : ∀ pg v,¬(pg=(s.ftable f).pipe ∧ v=(s.ftable f).writable)→
    isOpen (s'.pipe pg) v=isOpen (s.pipe pg) v
  used : ∀ pg,s'.used pg=true ↔ s.used pg=true ∧
    (pg=(s.ftable f).pipe→∃ v,isOpen (s'.pipe pg) v=true)
  closed : ∀ id v,s'.history.count (.closed id v)=s.history.count (.closed id v)+
    if id=(s.pipe (s.ftable f).pipe).id ∧ v=(s.ftable f).writable then 1 else 0
  freed : ∀ id,s'.history.count (.freed id)=s.history.count (.freed id)+
    if id=(s.pipe (s.ftable f).pipe).id ∧ ∀ v,isOpen (s'.pipe (s.ftable f).pipe) v=false
      then 1 else 0
  created : ∀ id,.created id∈s'.history ↔ .created id∈s.history
  longer : s.history.length≤ s'.history.length

lemma PipeInv.closes {s' : Sys} (h : PipeInv s) (hf : (s.ftable f).type=.pipe)
    (hc : Closes s s' f) : PipeInv s' := by
  obtain ⟨hused,hopen⟩ := h.ends f hf
  have hother : ∀ g,(s'.ftable g).type=.pipe→ g≠f ∧ s'.ftable g=s.ftable g := by
    grind [hc.self,hc.others]
  have hstill : ∀ pg v,s'.used pg=true→isOpen (s'.pipe pg) v=true→
      s.used pg=true ∧ isOpen (s.pipe pg) v=true ∧
        ¬(pg=(s.ftable f).pipe ∧ v=(s.ftable f).writable) := by
    intro pg v hu ho
    have hne : ¬(pg=(s.ftable f).pipe ∧ v=(s.ftable f).writable) := by grind [hc.shut]
    exact ⟨((hc.used pg).mp hu).1,by rw [←hc.ends pg v hne]; exact ho,hne⟩
  have hagain : ∀ pg v,s.used pg=true→isOpen (s.pipe pg) v=true→
      ¬(pg=(s.ftable f).pipe ∧ v=(s.ftable f).writable)→
      s'.used pg=true ∧ isOpen (s'.pipe pg) v=true := by
    grind [hc.ends,hc.used]
  refine ⟨fun g hg => ?_,fun g g' hg hg' hpp hww => ?_,fun pg w hu ho => ?_,fun pg hu => ?_,
    fun pg pg' hu hu' hid => ?_,fun pg hu => ?_,fun pg w hu ho => ?_,fun id w hcr hall => ?_,
    fun pg hu => ?_,fun id hcr hall => ?_,fun id hcr => ?_,fun id hcr => ?_⟩
  · grind [h.ends,h.unique]
  · grind [h.unique]
  · grind [h.owned,hc.others]
  · obtain ⟨hu',hex⟩ := (hc.used pg).mp hu
    by_cases hpg : pg=(s.ftable f).pipe
    · exact hex hpg
    · grind [h.live]
  · grind [hc.ids,h.ids,hc.used]
  · rw [hc.ids,hc.created]
    exact h.created pg ((hc.used pg).mp hu).1
  · grind [hc.ids,hc.closed,h.openEnd,h.ids]
  · rw [hc.created] at hcr
    rw [hc.closed]
    split_ifs with hcc
    · grind [h.openEnd]
    · refine h.closedEnd id w hcr fun pg hu hid => ?_
      by_contra ho
      rw [Bool.not_eq_false] at ho
      have hne : ¬(pg=(s.ftable f).pipe ∧ w=(s.ftable f).writable) := by grind
      grind [hc.ids]
  · grind [hc.used,hc.ids,hc.freed,h.kept,h.ids]
  · rw [hc.created] at hcr
    rw [hc.freed]
    split_ifs with hcc
    · grind [h.kept]
    · refine h.freed id hcr fun pg hu hid => ?_
      refine hall pg ((hc.used pg).mpr ⟨hu,fun hpg => ?_⟩) (by rw [hc.ids]; exact hid)
      subst hpg
      by_contra hno
      refine hcc ⟨hid.symm,fun v => ?_⟩
      by_contra ho
      exact hno ⟨v,Bool.not_eq_false _ ▸ ho⟩
  · rw [hc.created] at hcr
    obtain ⟨hfr,hcl⟩ := h.absent id hcr
    have hne : id≠(s.pipe (s.ftable f).pipe).id := by grind [h.created]
    grind [hc.freed,hc.closed]
  · rw [hc.created] at hcr
    exact lt_of_lt_of_le (h.fresh id hcr) hc.longer

variable (w : Bool)

include w

lemma pipeclose_pipe : (pipeclose s pg w).pipe=update s.pipe pg ((s.pipe pg).close w) := by
  simp only [pipeclose]
  split_ifs <;> rfl

lemma pipeclose_ftable : (pipeclose s pg w).ftable=s.ftable := by
  simp only [pipeclose]
  split_ifs <;> rfl

lemma pipeclose_fs : (pipeclose s pg w).fs=s.fs := by
  simp only [pipeclose]
  split_ifs <;> rfl

lemma pipeclose_proc : (pipeclose s pg w).proc=s.proc := by
  simp only [pipeclose]
  split_ifs <;> rfl

lemma pipeclose_used : (pipeclose s pg w).used=
      if ∀ v,isOpen ((s.pipe pg).close w) v=false then update s.used pg false
      else s.used := by
  simp only [pipeclose,bothClosed_iff]
  split_ifs <;> rfl

lemma pipeclose_history : (pipeclose s pg w).history=
      if ∀ v,isOpen ((s.pipe pg).close w) v=false then
        .freed (s.pipe pg).id::.closed (s.pipe pg).id w::s.history
      else .closed (s.pipe pg).id w::s.history := by
  grind [pipeclose,bothClosed_iff,Sys.freePipe,close_id]

lemma pipeclose_closed (id : ℕ) (v : Bool) :
    (pipeclose s pg w).history.count (.closed id v)=s.history.count (.closed id v)+
      if id=(s.pipe pg).id ∧ v=w then 1 else 0 := by
  have hcons : (PipeEvent.closed (s.pipe pg).id w::s.history).count (.closed id v)=
      s.history.count (.closed id v)+if id=(s.pipe pg).id ∧ v=w then 1 else 0 := by
    simp only [List.count_cons,beq_iff_eq,PipeEvent.closed.injEq,@eq_comm _ id,@eq_comm _ v]
  rw [pipeclose_history,←hcons]
  split_ifs
  · rw [List.count_cons_of_ne (by simp)]
  · rfl

lemma pipeclose_freed (id : ℕ) :
    (pipeclose s pg w).history.count (.freed id)=s.history.count (.freed id)+
      if id=(s.pipe pg).id ∧ ∀ v,isOpen ((s.pipe pg).close w) v=false then 1 else 0 := by
  have hcons : (PipeEvent.closed (s.pipe pg).id w::s.history).count (.freed id)=
      s.history.count (.freed id) := List.count_cons_of_ne (by simp)
  rw [pipeclose_history]
  split_ifs with hboth hcc hcc
  · grind
  · have hne : PipeEvent.freed (s.pipe pg).id≠.freed id := fun hq =>
      hcc ⟨(PipeEvent.freed.inj hq).symm,hboth⟩
    grind
  · exact absurd hcc.2 hboth
  · rw [hcons,Nat.add_zero]

omit w

lemma pipeclose_closes (he : e.type≠.pipe) :
    Closes s (pipeclose (s.setFile f e) (s.ftable f).pipe (s.ftable f).writable) f := by
  have hself : (pipeclose (s.setFile f e) (s.ftable f).pipe (s.ftable f).writable).pipe
      (s.ftable f).pipe=(s.pipe (s.ftable f).pipe).close (s.ftable f).writable := by
    rw [pipeclose_pipe,update_self]
    rfl
  have hother : ∀ pg,pg≠(s.ftable f).pipe→
      (pipeclose (s.setFile f e) (s.ftable f).pipe (s.ftable f).writable).pipe pg=
        s.pipe pg := by
    intro pg hne
    rw [pipeclose_pipe,update_of_ne hne]
    rfl
  refine ⟨?_,fun g hg => ?_,fun pg => ?_,?_,fun pg v hne => ?_,fun pg => ?_,fun id v => ?_,
    fun id => ?_,fun id => ?_,?_⟩
  · rw [pipeclose_ftable]
    show (update s.ftable f e f).type≠.pipe
    rw [update_self]
    exact he
  · rw [pipeclose_ftable]
    exact update_of_ne hg _ _
  · by_cases hpg : pg=(s.ftable f).pipe
    · rw [hpg,hself,close_id]
    · rw [hother pg hpg]
  · rw [hself,isOpen_close_self]
  · by_cases hpg : pg=(s.ftable f).pipe
    · rw [hpg,hself,isOpen_close_of_ne _ fun hv => hne ⟨hpg,hv⟩]
    · rw [hother pg hpg]
  · rw [pipeclose_used]
    change (if ∀ v,isOpen ((s.pipe (s.ftable f).pipe).close (s.ftable f).writable) v=false then
      update s.used (s.ftable f).pipe false else s.used) pg=true ↔ _
    grind
  · exact pipeclose_closed (s.ftable f).writable id v
  · rw [hself]
    exact pipeclose_freed (s.ftable f).writable id
  · rw [pipeclose_history]
    split_ifs <;> simp [Sys.setFile]
  · rw [pipeclose_history]
    split_ifs <;> simp [Sys.setFile]
    omega

lemma openPipe_history (f0 f1 : ℕ) :
    (s.openPipe pg f0 f1).history=.created s.history.length::s.history := rfl

lemma openPipe_pipe (f0 f1 : ℕ) :
    (s.openPipe pg f0 f1).pipe=update s.pipe pg ⟨s.history.length,true,true⟩ := rfl

lemma openPipe_used (f0 f1 : ℕ) :
    (s.openPipe pg f0 f1).used=update s.used pg true := rfl

lemma openPipe_read (hne : f0≠f1) : (s.openPipe pg f0 f1).ftable f0=
    {s.ftable f0 with type := .pipe,readable := true,writable := false,pipe := pg} := by
  simp only [Sys.openPipe,Sys.setFile]
  grind

lemma openPipe_write (hne : f0≠f1) : (s.openPipe pg f0 f1).ftable f1=
    {s.ftable f1 with type := .pipe,readable := false,writable := true,pipe := pg} := by
  simp only [Sys.openPipe,Sys.setFile]
  grind

lemma openPipe_other {g : ℕ} (h0 : g≠f0) (h1 : g≠f1) :
    (s.openPipe pg f0 f1).ftable g=s.ftable g := by
  simp only [Sys.openPipe,Sys.setFile]
  grind

lemma openPipe_cases {g : ℕ} (hne : f0≠f1) (hg : ((s.openPipe pg f0 f1).ftable g).type=.pipe) :
    (((s.openPipe pg f0 f1).ftable g).pipe=pg ∧
      g=if ((s.openPipe pg f0 f1).ftable g).writable then f1 else f0) ∨
    ((s.openPipe pg f0 f1).ftable g=s.ftable g ∧ (s.ftable g).type=.pipe) := by
  grind [openPipe_read,openPipe_write,openPipe_other]

lemma PipeInv.openPipe (h : PipeInv s) (hne : f0≠f1) (h0 : (s.ftable f0).type≠.pipe)
    (h1 : (s.ftable f1).type≠.pipe) (hfree : s.used pg=false) : PipeInv (s.openPipe pg f0 f1) := by
  have hold : ∀ pg',s.used pg'=true→pg'≠pg := by grind
  have hcases : ∀ pg',(s.openPipe pg f0 f1).used pg'=true→
      (pg'=pg ∧ (s.openPipe pg f0 f1).pipe pg'=⟨s.history.length,true,true⟩) ∨
      (pg'≠pg ∧ s.used pg'=true ∧ (s.openPipe pg f0 f1).pipe pg'=s.pipe pg') := by
    intro pg' hu
    rw [openPipe_used] at hu
    rw [openPipe_pipe]
    grind
  have hkeep : ∀ pg',s.used pg'=true→(s.openPipe pg f0 f1).used pg'=true ∧
      (s.openPipe pg f0 f1).pipe pg'=s.pipe pg' := by
    intro pg' hu
    rw [openPipe_used,openPipe_pipe,update_of_ne (hold pg' hu),
      update_of_ne (hold pg' hu)]
    exact ⟨hu,rfl⟩
  have hnew : (s.openPipe pg f0 f1).used pg=true ∧
      (s.openPipe pg f0 f1).pipe pg=⟨s.history.length,true,true⟩ := by
    rw [openPipe_used,openPipe_pipe,update_self,update_self]
    exact ⟨rfl,rfl⟩
  have hopen : ∀ w,isOpen ⟨s.history.length,true,true⟩ w=true := by
    intro w
    cases w <;> rfl
  have hnot : .created s.history.length∉s.history := fun hm =>
    absurd (h.fresh _ hm) (Nat.lt_irrefl _)
  have hclosed : ∀ id w,(s.openPipe pg f0 f1).history.count (.closed id w)=
      s.history.count (.closed id w) := fun id w =>
    List.count_cons_of_ne (by simp)
  have hfreed : ∀ id,(s.openPipe pg f0 f1).history.count (.freed id)=
      s.history.count (.freed id) := fun id =>
    List.count_cons_of_ne (by simp)
  have hcreated : ∀ id,.created id∈(s.openPipe pg f0 f1).history ↔
      id=s.history.length ∨ .created id∈s.history := by
    grind [openPipe_history]
  have hend : ∀ g,(s.ftable g).type=.pipe→(s.openPipe pg f0 f1).ftable g=s.ftable g := by
    intro g hg
    refine openPipe_other ?_ ?_
    · rintro rfl
      exact h0 hg
    · rintro rfl
      exact h1 hg
  refine ⟨fun g hg => ?_,fun g g' hg hg' hp hw => ?_,fun pg' w hu ho => ?_,fun pg' hu => ?_,
    fun pg' pg2 hu hu2 hid => ?_,fun pg' hu => ?_,fun pg' w hu ho => ?_,fun id w hcr hall => ?_,
    fun pg' hu => ?_,fun id hcr hall => ?_,fun id hcr => ?_,fun id hcr => ?_⟩
  · rcases openPipe_cases hne hg with ⟨hp,-⟩ | ⟨hsame,hty⟩
    · rw [hp,hnew.2]
      exact ⟨hnew.1,hopen _⟩
    · obtain ⟨hu,ho⟩ := h.ends g hty
      rw [hsame,(hkeep _ hu).2]
      exact ⟨(hkeep _ hu).1,ho⟩
  · rcases openPipe_cases hne hg with ⟨hp1,hq1⟩ | ⟨hs1,ht1⟩
    · rcases openPipe_cases hne hg' with ⟨-,hq2⟩ | ⟨hs2,ht2⟩
      · rw [hq1,hq2,hw]
      · rw [hs2,hp1] at hp
        exact absurd hp.symm (hold _ (h.ends g' ht2).1)
    · rcases openPipe_cases hne hg' with ⟨hp2,-⟩ | ⟨hs2,ht2⟩
      · rw [hs1,hp2] at hp
        exact absurd hp (hold _ (h.ends g ht1).1)
      · rw [hs1,hs2] at hp hw
        exact h.unique g g' ht1 ht2 hp hw
  · rcases hcases pg' hu with ⟨rfl,-⟩ | ⟨-,hu',hsame⟩
    · cases w with
      | false => exact ⟨f0,by rw [openPipe_read hne],by rw [openPipe_read hne],by
          rw [openPipe_read hne]⟩
      | true => exact ⟨f1,by rw [openPipe_write hne],by rw [openPipe_write hne],by
          rw [openPipe_write hne]⟩
    · rw [hsame] at ho
      obtain ⟨g,hg,hp,hw⟩ := h.owned pg' w hu' ho
      exact ⟨g,by rw [hend g hg]; exact hg,by rw [hend g hg]; exact hp,by
        rw [hend g hg]; exact hw⟩
  · rcases hcases pg' hu with ⟨rfl,hq⟩ | ⟨-,hu',hsame⟩
    · rw [hq]
      exact ⟨true,hopen true⟩
    · rw [hsame]
      exact h.live pg' hu'
  · rcases hcases pg' hu with ⟨rfl,hq1⟩ | ⟨-,hu1,hs1⟩
    · grind [h.created]
    · grind [h.created,h.ids]
  · grind [h.created]
  · rw [hclosed]
    rcases hcases pg' hu with ⟨-,hq⟩ | ⟨-,hu',hsame⟩
    · rw [hq]
      exact (h.absent _ hnot).2 w
    · grind [h.openEnd]
  · grind [h.closedEnd]
  · grind [h.absent,h.kept]
  · grind [h.freed]
  · grind [h.absent]
  · rw [openPipe_history,List.length_cons]
    rcases (hcreated id).mp hcr with rfl | hcr'
    · exact Nat.lt_succ_self _
    · exact Nat.lt_succ_of_lt (h.fresh id hcr')

lemma PipeInv.freed_iff (h : PipeInv s) {id : ℕ} (hcr : .created id∈s.history) :
    s.history.count (.freed id)≤1 ∧ (∀ w,s.history.count (.closed id w)≤1) ∧
      (s.history.count (.freed id)=1 ↔
        ¬∃ f,(s.ftable f).type=.pipe ∧ (s.pipe (s.ftable f).pipe).id=id) ∧
      (s.history.count (.freed id)=1→∀ w,s.history.count (.closed id w)=1) := by
  by_cases hex : ∃ pg,s.used pg=true ∧ (s.pipe pg).id=id
  · obtain ⟨pg,hu,rfl⟩ := hex
    have hkept := h.kept pg hu
    refine ⟨by omega,fun w => ?_,?_,fun h1 => absurd h1 (by omega)⟩
    · by_cases ho : isOpen (s.pipe pg) w=true
      · grind [h.openEnd]
      · refine (h.closedEnd _ w hcr fun pg' hu' hid => ?_).le
        rw [h.ids pg' pg hu' hu hid]
        exact eq_false_of_ne_true ho
    · rw [hkept]
      refine iff_of_false (by decide) fun hno => hno ?_
      grind [h.live,h.owned]
  · push Not at hex
    have hfr := h.freed id hcr hex
    have hcl : ∀ w,s.history.count (.closed id w)=1 := fun w =>
      h.closedEnd id w hcr fun pg hu hid => absurd hid (hex pg hu)
    refine ⟨hfr.le,fun w => (hcl w).le,iff_of_true hfr ?_,fun _ => hcl⟩
    grind [h.ends]

end Xv6Riscv.PipeLifetime
