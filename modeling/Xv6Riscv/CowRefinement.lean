import Xv6Riscv.PrivateMachine
import Xv6Riscv.VmInvariant

/-!
# Copy-on-write fork refines eager fork

Both versions of the kernel run in lockstep with the machine of private
address spaces as long as no allocation fails: they show each process the
bytes of its private address space, and the pages that it may write are
writable or marked COW. Two runs of the two versions over the same actions
therefore show the same bytes.
-/

namespace Xv6Riscv.CowRefinement

open Function
open Transition RadixTree PageAllocator PageTables AddressSpace PrivateSpace SpaceOwnership
  CowSharing CopyBytes ExecImage ExecReplace VmMachine VmInvariant
open ProcMachine (Slot nproc)
open PrivateMachine (PrivateProc PrivateSys LegalStore resize)

/-- The memory of a process shows a private address space. -/
structure Shows (mode : CopyMode) (k : Kmem) (q : VmProc) (x : PrivateProc) : Prop where
  page : ∀ v,v<trapframe → view k q.pagetable v=x.space.page v
  can : ∀ v,v<trapframe → x.space.w v=true → canWrite q.pagetable v=true
  exact : mode=.eager → ∀ v,v<trapframe → canWrite q.pagetable v=true → x.space.w v=true
  sz : q.sz=x.sz
  phase : q.phase=x.phase

/-- A slot of the kernel and a slot of the private machine. -/
def Matches (mode : CopyMode) (k : Kmem) : Option VmProc→Option PrivateProc→Prop
  | none,none => True
  | some q,some x => Shows mode k q x
  | _,_ => False

structure Sim (mode : CopyMode) (s : VmSys) (t : PrivateSys) : Prop where
  kernel : s.kernel.length=t.kernel
  proc : ∀ p,Matches mode s.kmem (s.proc p) (t.proc p)

section Frame

variable {mode : CopyMode} {s : VmSys} {t : PrivateSys} {p : Slot} {q q' : VmProc}
  {x x' : PrivateProc} {k : Kmem}

lemma Shows.keep (h : Shows mode k q x) {k' : Kmem} (hkeep : Keeps (leafs q.pagetable) k k') :
    Shows mode k' q x := by
  refine ⟨fun v hv => ?_,h.can,h.exact,h.sz,h.phase⟩
  rw [← h.page v hv]
  exact view_eq rfl hkeep fun e he => leafs_pos hv he

lemma Matches.keep {o : Option VmProc} {y : Option PrivateProc} (h : Matches mode k o y)
    {k' : Kmem} (hkeep : ∀ q,o=some q → Keeps (leafs q.pagetable) k k') : Matches mode k' o y := by
  cases o with
  | none =>
    cases y with
    | none => trivial
    | some x => exact h.elim
  | some q =>
    cases y with
    | none => exact h.elim
    | some x => exact Shows.keep h (hkeep q rfl)

variable (h : Sim mode s t)

include h

lemma Sim.get (hp : s.proc p=some q) : ∃ x,t.proc p=some x ∧ Shows mode s.kmem q x := by
  have hm := h.proc p
  rw [hp] at hm
  cases hx : t.proc p with
  | none =>
    rw [hx] at hm
    exact hm.elim
  | some x =>
    rw [hx] at hm
    exact ⟨x,rfl,hm⟩

lemma Sim.none_iff (p : Slot) : s.proc p=none ↔ t.proc p=none := by
  have hm := h.proc p
  cases hp : s.proc p with
  | none =>
    cases hx : t.proc p with
    | none => exact ⟨fun _ => rfl,fun _ => rfl⟩
    | some x =>
      rw [hp,hx] at hm
      exact hm.elim
  | some q =>
    cases hx : t.proc p with
    | none =>
      rw [hp,hx] at hm
      exact hm.elim
    | some x => simp only [reduceCtorEq]

lemma Sim.freeSlot : freeSlot s=PrivateMachine.freeSlot t := by
  have hsame : (fun i => (s.proc i).isNone)=fun i => (t.proc i).isNone := by
    funext i
    rw [Bool.eq_iff_iff,Option.isNone_iff_eq_none,Option.isNone_iff_eq_none]
    exact h.none_iff i
  unfold VmMachine.freeSlot PrivateMachine.freeSlot
  rw [hsame]

lemma Sim.replace (hkeep : Keeps (outside s p q) s.kmem k) (hshow : Shows mode k q' x') :
    Sim mode (s.set k p (some q')) (t.set p (some x')) := by
  refine ⟨h.kernel,fun y => ?_⟩
  by_cases hy : y=p
  · subst hy
    have hs : (s.set k y (some q')).proc y=some q' := update_self ..
    have ht : (t.set y (some x')).proc y=some x' := update_self ..
    rw [hs,ht]
    exact hshow
  · have hs : (s.set k p (some q')).proc y=s.proc y := update_of_ne hy ..
    have ht : (t.set p (some x')).proc y=t.proc y := update_of_ne hy ..
    rw [hs,ht]
    refine (h.proc y).keep fun z hz => hkeep.mono fun f => ?_
    have hle := weight_le_outside s q (Ne.symm hy) f
    rw [hz] at hle
    simp only [weight,Pi.add_apply] at hle
    omega

lemma Sim.kernelStep {s' : VmSys} {n : ℕ} (hproc : s'.proc=s.proc) (hlen : s'.kernel.length=n)
    (hkeep : ∀ y z,s.proc y=some z → Keeps (leafs z.pagetable) s.kmem s'.kmem) :
    Sim mode s' {t with kernel := n} := by
  refine ⟨hlen,fun y => ?_⟩
  rw [hproc]
  exact (h.proc y).keep (hkeep y)

end Frame

section Lockstep

variable {mode : CopyMode} {s : VmSys} {t : PrivateSys} {p : Slot} {q : VmProc} {x : PrivateProc}
  {a : Action}

/-- The two machines do the same, unless an allocation of the kernel fails. -/
inductive Lock (mode : CopyMode) : Outcome VmSys→Outcome PrivateSys→Prop where
  | blocked : Lock mode .blocked .blocked
  | panic (msg : String) : Lock mode (.panic msg) (.panic msg)
  | next {s : VmSys} {t : PrivateSys} (h : Sim mode s t) : Lock mode (.next s) (.next t)
  | failed {s : VmSys} {o : Outcome PrivateSys} (h : s.kmem.oom=true) : Lock mode (.next s) o

lemma Lock.of_next {o : Outcome VmSys} {o' : Outcome PrivateSys} (ho : o=.next s)
    (h : s.kmem.oom=false → ∃ t,o'=.next t ∧ Sim mode s t) : Lock mode o o' := by
  subst ho
  cases hoom : s.kmem.oom with
  | true => exact .failed hoom
  | false =>
    obtain ⟨t,ht,hsim⟩ := h hoom
    rw [ht]
    exact .next hsim

lemma Repaired.can_back {T : ℕ→Prop} {pt pt' : PageTable} (h : Repaired T pt pt') {v : ℕ}
    (hv : v<trapframe) (hcan : canWrite pt' v=true) : canWrite pt v=true := by
  unfold canWrite at hcan ⊢
  cases he' : lookup pt' v with
  | none =>
    rw [he',Option.any_none] at hcan
    cases hcan
  | some e' =>
    obtain ⟨e,he,hw,hc⟩ := h.write v e' hv he'
    rw [he',Option.any_some,Bool.or_eq_true] at hcan
    rw [he,Option.any_some,Bool.or_eq_true]
    grind

variable (h : VmInv mode s)

include h

lemma load_lock (hsim : Sim mode s t) (hp : s.proc p=some q) (hshow : Shows mode s.kmem q x)
    (y : Slot) (va : ℕ) :
    Lock mode (act mode s p q (.load y va)) (PrivateMachine.act t p x (.load y va)) := by
  have hload := userLoad_eq (h.space p q hp) hshow.page va
  refine .next (hsim.replace (q:=q) (Keeps.refl _ _)
    ⟨hshow.page,hshow.can,hshow.exact,hshow.sz,?_⟩)
  simp only [VmProc.after,PrivateProc.after,hload,hshow.phase]

lemma store_lock (hsim : Sim mode s t) (hp : s.proc p=some q) (hshow : Shows mode s.kmem q x)
    (y : Slot) {va : ℕ} (b : UInt8) (hzero : va≠0) (hw : x.space.w (va/pgsize)=true)
    (hacc : (x.space.access (va/pgsize)).isSome=true) :
    Lock mode (act mode s p q (.store y va b)) (PrivateMachine.act t p x (.store y va b)) := by
  have hva : va/pgsize<trapframe := by
    by_contra hge
    grind [Space.access]
  have hu : ∃ e,view s.kmem q.pagetable (va/pgsize)=some e ∧ e.u=true := by
    rw [Space.access,if_neg (by omega)] at hacc
    rw [hshow.page _ hva]
    cases hpage : x.space.page (va/pgsize) with
    | none =>
      rw [hpage,Option.bind_none,Option.isSome_none] at hacc
      cases hacc
    | some e =>
      refine ⟨e,rfl,?_⟩
      rw [hpage,Option.bind_some] at hacc
      by_contra hne
      rw [if_neg hne,Option.isSome_none] at hacc
      cases hacc
  obtain ⟨k,pt,ok,hrun,hres⟩ := userStore_legal (h.space p q hp) b hzero hva (hshow.can _ hva hw) hu
  rcases store_sound h hp va b with hpanic|⟨k',pt',ok',hrun',_,hrep,hund⟩
  · rw [hrun] at hpanic
    cases hpanic
  · rw [hrun] at hrun'
    cases hrun'
    have hact : act mode s p q (.store y va b)=
        .next (s.set k p (some ({q with pagetable := pt}.after ok))) := by
      simp only [act,hrun,bind_next]
    refine Lock.of_next hact fun hoom => ⟨_,rfl,?_⟩
    obtain ⟨hok,hview⟩ := hres hoom
    refine hsim.replace (q:=q) hund.keeps ⟨fun v hv => ?_,fun v hv hwv => ?_,fun hm v hv hcan => ?_,
      hshow.sz,?_⟩
    · have hv' := hview v hv
      simp only [VmProc.after,Space.store,Space.edit] at hv' ⊢
      rw [hv']
      by_cases hveq : v=va/pgsize
      · grind [hshow.page]
      · grind [hshow.page]
    · exact hrep.can v hv (hshow.can v hv hwv)
    · exact hshow.exact hm v hv (Repaired.can_back hrep hv hcan)
    · simp only [VmProc.after,hok,if_true,hshow.phase]

lemma copyout_lock (hsim : Sim mode s t) (hp : s.proc p=some q) (hshow : Shows mode s.kmem q x)
    (y : Slot) (dstva : ℕ) (src : List UInt8) : Lock mode (act mode s p q (.copyout y dstva src))
      (PrivateMachine.act t p x (.copyout y dstva src)) := by
  obtain ⟨k,pt,r,hrun,_,hund,hrep,hres⟩ := copyout_spec (h.space p q hp) dstva src
  have hact : act mode s p q (.copyout y dstva src)=.next (s.set k p
      (some ({q with pagetable := pt}.after (decide (r≠CopyResult.exited))))) := by
    simp only [act,hrun,bind_next]
  refine Lock.of_next hact fun hoom => ⟨_,rfl,?_⟩
  obtain ⟨hr,hpage⟩ := hres x.space hshow.page hoom
  refine hsim.replace (q:=q) hund.keeps ⟨hpage,fun v hv hwv => ?_,fun hm v hv hcan => ?_,hshow.sz,?_⟩
  · simp only [PrivateProc.after,Space.copyout,Space.copyoutLoop_w] at hwv
    exact hrep.can v hv (hshow.can v hv hwv)
  · simp only [PrivateProc.after,Space.copyout,Space.copyoutLoop_w]
    exact hshow.exact hm v hv (Repaired.can_back hrep hv hcan)
  · simp only [VmProc.after,PrivateProc.after,hr,hshow.phase]

lemma sbrk_lock (hsim : Sim mode s t) (hp : s.proc p=some q) (hshow : Shows mode s.kmem q x)
    (y : Slot) (n : BitVec 32) :
    Lock mode (act mode s p q (.sbrk y n)) (PrivateMachine.act t p x (.sbrk y n)) := by
  obtain ⟨htrap,_,_⟩ := trapframe_val
  have hspace := h.space p q hp
  obtain ⟨k,pt,sz,hrun,hinv,hund,_,hsame,hview,hnew,hsz⟩ :=
    growproc_spec hspace (h.small p q hp) n
  have hact : act mode s p q (.sbrk y n)=.next (s.set k p (some {q with
      pagetable := pt
      sz := sz})) := by
    simp only [act,hrun,bind_next]
  have hgone : ∀ v,v<trapframe → pageCount sz≤v → lookup pt v=none := by
    intro v hv hge
    cases he : lookup pt v with
    | none => rfl
    | some e => exact absurd ((hinv.mapped v hv).mp ⟨e,he⟩) (Nat.not_lt.mpr hge)
  have hpages : ∀ v,v<trapframe → v<pageCount sz → pageCount q.sz≤v ∧
      view k pt v=some ⟨fill 0,false,true⟩ ∧ canWrite pt v=true ∨ v<pageCount q.sz ∧
      view k pt v=view s.kmem q.pagetable v ∧ canWrite pt v=canWrite q.pagetable v := by
    intro v hv hlt
    grind [canWrite,userPerm]
  refine Lock.of_next hact fun hoom => ⟨_,rfl,?_⟩
  have hsz' : sz=grown x.sz n := by
    rw [← hshow.sz]
    exact hsz hoom
  have hspaces : ∀ v,v<trapframe → view k pt v=(resize x.space x.sz (grown x.sz n)).page v ∧
      ((resize x.space x.sz (grown x.sz n)).w v=true → canWrite pt v=true) ∧
      (mode=.eager → canWrite pt v=true → (resize x.space x.sz (grown x.sz n)).w v=true) := by
    intro v hv
    rw [← hsz',← hshow.sz]
    simp only [resize,Space.alloc,Space.truncate]
    by_cases hlt : v<pageCount sz
    · rcases hpages v hv hlt with ⟨hge,hv1,hc⟩|⟨hvo,hv1,hc⟩
      · grind
      · grind [hshow.page,hshow.can,hshow.exact]
    · have hout : ¬(pageCount q.sz≤v ∧ v<pageCount q.sz+(pageCount sz-pageCount q.sz)) := by omega
      grind [view,canWrite]
  exact hsim.replace (q:=q) hund.keeps ⟨fun v hv => (hspaces v hv).1,fun v hv => (hspaces v hv).2.1,
    fun hm v hv => (hspaces v hv).2.2 hm,hsz',hshow.phase⟩

lemma exec_lock (hsim : Sim mode s t) (hp : s.proc p=some q) (hx : t.proc p=some x)
    (hshow : Shows mode s.kmem q x) (y : Slot) (file : List UInt8) (argv : List (List UInt8)) :
    Lock mode (act mode s p q (.exec y file argv)) (PrivateMachine.act t p x (.exec y file argv)) := by
  obtain ⟨k,r,hrun,_,hrep⟩ := exec_sound h hp file argv
  have hstay : ∀ k',Undisturbed (tags q.pagetable+(leafs q.pagetable+outside s p q)) s.kmem
      q.pagetable k' q.pagetable → Keeps (outside s p q) s.kmem k' ∧ Shows mode k' q x := by
    intro k' hund
    grind [hund.keeps.mono,hshow.keep,Pi.add_apply]
  cases r with
  | bad =>
    obtain ⟨_,hund,hres⟩ := hrep
    obtain ⟨hkeep,hshow'⟩ := hstay k hund
    have hact : act mode s p q (.exec y file argv)=.next (s.set k p (some q)) := by
      simp only [act,hrun,bind_next,set_same hp]
    have hset : t.set p (some x)=t := by
      rw [PrivateSys.set,← hx,update_eq_self]
    refine Lock.of_next hact fun hoom => ⟨t,?_,?_⟩
    · simp only [PrivateMachine.act,hres hoom]
    · grind [hsim.replace]
  | exited =>
    obtain ⟨_,hund,hres⟩ := hrep
    obtain ⟨hkeep,hshow'⟩ := hstay k hund
    have hact : act mode s p q (.exec y file argv)=.next (s.set k p (some (q.after false))) := by
      simp only [act,hrun,bind_next]
    refine Lock.of_next hact fun hoom => ⟨t.set p (some (x.after false)),?_,?_⟩
    · simp only [PrivateMachine.act,hres hoom]
    · exact hsim.replace (q:=q) hkeep ⟨hshow'.page,hshow'.can,hshow'.exact,hshow'.sz,rfl⟩
  | image pt sz argc sp =>
    obtain ⟨himage,hund,hres⟩ := hrep
    have hact : act mode s p q (.exec y file argv)=
        .next (s.set k p (some ⟨pt,sz,q.trapframe,q.phase,readOnly pt⟩)) := by
      simp only [act,hrun,bind_next]
    have hcan : ∀ v,v<trapframe → canWrite pt v=(lookup pt v).any (·.w) := by
      intro v hv
      unfold canWrite
      cases he : lookup pt v with
      | none => rfl
      | some e =>
        rw [Option.any_some,Option.any_some,himage.plain v e hv he,Bool.or_false]
    refine Lock.of_next hact fun hoom => ?_
    obtain ⟨A,hA,hshown⟩ := hres hoom
    refine ⟨t.set p (some ⟨A,sz,x.phase⟩),by simp only [PrivateMachine.act,hA],
      hsim.replace (q:=q) hund.keeps ⟨hshown.page,fun v hv hw => ?_,fun _ v hv hc => ?_,rfl,hshow.phase⟩⟩
    · grind [hshown.w]
    · grind [hshown.w]

lemma fork_lock (hsim : Sim mode s t) (hp : s.proc p=some q) (hx : t.proc p=some x)
    (hshow : Shows mode s.kmem q x) (y : Slot) :
    Lock mode (act mode s p q (.fork y)) (PrivateMachine.act t p x (.fork y)) := by
  obtain ⟨s',hrun,_,hout⟩ := fork_spec h hp
  have hact : act mode s p q (.fork y)=.next s' := hrun
  cases hout with
  | full hslot =>
    refine Lock.of_next hact fun _ => ⟨t,?_,hsim⟩
    rw [hsim.freeSlot] at hslot
    simp only [PrivateMachine.act,hslot]
  | failed hfork hoom =>
    rw [hact]
    exact .failed hoom
  | @done k old new np page hslot hfork htwin hoom =>
    have hnp := freeSlot_none hslot
    have hne : np≠p := by
      intro heq
      rw [heq,hp] at hnp
      cases hnp
    have hold : Shows mode k {q with pagetable := old} x := by
      refine ⟨fun v hv => (hfork.seen v hv).trans (hshow.page v hv),
        fun v hv hw => hfork.can v hv (hshow.can v hv hw),fun hm v hv hc => ?_,hshow.sz,hshow.phase⟩
      have hpt := hfork.eager hm
      dsimp only at hc
      grind [hshow.exact]
    have hwrite : ∀ v,v<trapframe → canWrite new v=canWrite old v := by
      intro v hv
      have hperm := (htwin v hv).2
      unfold canWrite
      cases hn : lookup new v with
      | none =>
        cases ho : lookup old v with
        | none => rfl
        | some e => rw [hn,ho] at hperm; cases hperm
      | some f =>
        cases ho : lookup old v with
        | none => rw [hn,ho] at hperm; cases hperm
        | some e =>
          rw [hn,ho,Option.map_some,Option.map_some,Option.some.injEq] at hperm
          rw [Option.any_some,Option.any_some,hperm]
    have hnew : Shows mode k ⟨new,q.sz,page,.running,q.ro⟩ {x with phase := .running} := by
      refine ⟨fun v hv => (htwin v hv).1.trans (hold.page v hv),fun v hv hw => ?_,fun hm v hv hc => ?_,
        hshow.sz,rfl⟩
      · dsimp only
        rw [hwrite v hv]
        exact hold.can v hv hw
      · dsimp only at hc
        rw [hwrite v hv] at hc
        exact hold.exact hm v hv hc
    refine Lock.of_next hact fun _ => ⟨t.set np (some {x with phase := .running}),?_,hsim.kernel,
      fun z => ?_⟩
    · rw [hsim.freeSlot] at hslot
      simp only [PrivateMachine.act,hslot]
    · have hparent := (hsim.replace hfork.keeps hold).proc z
      by_cases hz : z=np
      · subst hz
        have hs : ((s.set k p (some {q with pagetable := old})).set k z
            (some ⟨new,q.sz,page,.running,q.ro⟩)).proc z=some ⟨new,q.sz,page,.running,q.ro⟩ :=
          update_self ..
        have ht : (t.set z (some {x with phase := .running})).proc z=
            some {x with phase := .running} := update_self ..
        rw [hs,ht]
        exact hnew
      · have hs : ((s.set k p (some {q with pagetable := old})).set k np
            (some ⟨new,q.sz,page,.running,q.ro⟩)).proc z=
            (s.set k p (some {q with pagetable := old})).proc z := update_of_ne hz ..
        have ht : (t.set np (some {x with phase := .running})).proc z=t.proc z :=
          update_of_ne hz ..
        have hset : t.set p (some x)=t := by
          rw [PrivateSys.set,← hx,update_eq_self]
        rw [hset] at hparent
        rw [hs,ht]
        exact hparent

lemma act_lock (hsim : Sim mode s t) (hp : s.proc p=some q) (hx : t.proc p=some x)
    (hshow : Shows mode s.kmem q x) (ha : actor a=some p) (hlegal : LegalStore t a) :
    Lock mode (act mode s p q a) (PrivateMachine.act t p x a) := by
  cases a with
  | fork y => exact fork_lock h hsim hp hx hshow y
  | load y va => exact load_lock h hsim hp hshow y va
  | store y va b =>
    obtain ⟨hzero,z,hz,hw,hacc⟩ := hlegal
    have hy : y=p := Option.some.inj ha
    rw [hy,hx] at hz
    cases hz
    exact store_lock h hsim hp hshow y b hzero hw hacc
  | copyout y dstva src => exact copyout_lock h hsim hp hshow y dstva src
  | copyin y srcva len => exact .next hsim
  | sbrk y n => exact sbrk_lock h hsim hp hshow y n
  | exec y file argv => exact exec_lock h hsim hp hx hshow y file argv
  | kernelAlloc | kernelFree | exit | teardown => exact .blocked

lemma kernelAlloc_lock (hsim : Sim mode s t) :
    Lock mode (step mode s .kernelAlloc) (PrivateMachine.step t .kernelAlloc) := by
  obtain ⟨s',hrun,_,hproc,hkeep,hlen⟩ := kernelAlloc_sound h
  refine Lock.of_next hrun fun hoom => ⟨_,rfl,hsim.kernelStep hproc ?_ fun y z hz => hkeep.mono fun f => ?_⟩
  · rw [hlen hoom,hsim.kernel]
  · rw [owners_eq hz]
    simp only [Pi.add_apply]
    omega

lemma kernelFree_lock (hsim : Sim mode s t) (i : ℕ) :
    Lock mode (step mode s (.kernelFree i)) (PrivateMachine.step t (.kernelFree i)) := by
  have hlen := hsim.kernel
  cases hi : s.kernel[i]? with
  | none =>
    have hge := List.getElem?_eq_none_iff.mp hi
    have hnot : ¬i<t.kernel := by omega
    simp only [step,PrivateMachine.step,hi,if_neg hnot]
    exact .blocked
  | some page =>
    have hlt := (List.getElem?_eq_some_iff.mp hi).1
    obtain ⟨k,hrun,_,hkeep⟩ := kernelFree_sound h hi
    refine Lock.of_next hrun fun _ => ⟨{t with kernel := t.kernel-1},?_,hsim.kernelStep rfl ?_ hkeep⟩
    · simp only [PrivateMachine.step,if_pos (by omega : i<t.kernel)]
    · dsimp only
      rw [List.length_eraseIdx_of_lt hlt]
      omega

omit h

lemma exit_lock (hsim : Sim mode s t) (p : Slot) :
    Lock mode (step mode s (.exit p)) (PrivateMachine.step t (.exit p)) := by
  cases hp : s.proc p with
  | none =>
    have hx := (hsim.none_iff p).mp hp
    simp only [step,PrivateMachine.step,hp,hx]
    exact .blocked
  | some q =>
    obtain ⟨x,hx,hshow⟩ := hsim.get hp
    simp only [step,PrivateMachine.step,hp,hx,hshow.phase]
    by_cases hz : x.phase=.zombie
    · rw [if_pos hz,if_pos hz]
      exact .blocked
    · rw [if_neg hz,if_neg hz]
      by_cases h0 : p=0
      · rw [if_pos h0,if_pos h0]
        exact .panic _
      · rw [if_neg h0,if_neg h0]
        exact .next (hsim.replace (q:=q) (Keeps.refl _ _)
          ⟨hshow.page,hshow.can,hshow.exact,hshow.sz,rfl⟩)

lemma teardown_lock (h : VmInv mode s) (hsim : Sim mode s t) (p : Slot) :
    Lock mode (step mode s (.teardown p)) (PrivateMachine.step t (.teardown p)) := by
  cases hp : s.proc p with
  | none =>
    have hx := (hsim.none_iff p).mp hp
    simp only [step,PrivateMachine.step,hp,hx]
    exact .blocked
  | some q =>
    obtain ⟨x,hx,hshow⟩ := hsim.get hp
    simp only [step,PrivateMachine.step,hp,hx,hshow.phase]
    by_cases hz : x.phase=.zombie
    · obtain ⟨k,hfree,_,hkeep⟩ := teardown_sound h hp
      rw [if_pos hz,if_pos hz,hfree,bind_next]
      refine .next ⟨hsim.kernel,fun y => ?_⟩
      by_cases hy : y=p
      · subst hy
        have hs : (s.set k y none).proc y=none := update_self ..
        have ht : (t.set y none).proc y=none := update_self ..
        rw [hs,ht]
        trivial
      · have hs : (s.set k p none).proc y=s.proc y := update_of_ne hy ..
        have ht : (t.set p none).proc y=t.proc y := update_of_ne hy ..
        rw [hs,ht]
        exact (hsim.proc y).keep fun z => hkeep y z hy
    · rw [if_neg hz,if_neg hz]
      exact .blocked

lemma acting_lock (h : VmInv mode s) (hsim : Sim mode s t) (hlegal : LegalStore t a) {y : Slot}
    (ha : actor a=some y) : Lock mode
      (match s.proc y with
        | none => .blocked
        | some q => if q.phase=.running then act mode s y q a else .blocked)
      (match t.proc y with
        | none => .blocked
        | some x => if x.phase=.running then PrivateMachine.act t y x a else .blocked) := by
  cases hp : s.proc y with
  | none =>
    rw [(hsim.none_iff y).mp hp]
    exact .blocked
  | some q =>
    obtain ⟨x,hx,hshow⟩ := hsim.get hp
    rw [hx]
    dsimp only
    rw [hshow.phase]
    by_cases hrun : x.phase=.running
    · rw [if_pos hrun,if_pos hrun]
      exact act_lock h hsim hp hx hshow ha hlegal
    · rw [if_neg hrun,if_neg hrun]
      exact .blocked

lemma step_lock (h : VmInv mode s) (hsim : Sim mode s t) (hlegal : LegalStore t a) :
    Lock mode (step mode s a) (PrivateMachine.step t a) := by
  cases a with
  | kernelAlloc => exact kernelAlloc_lock h hsim
  | kernelFree i => exact kernelFree_lock h hsim i
  | exit y => exact exit_lock hsim y
  | teardown y => exact teardown_lock h hsim y
  | fork y | load y va | store y va b | copyout y dstva src | copyin y srcva len | sbrk y n
  | exec y file argv => exact acting_lock h hsim hlegal rfl

end Lockstep

section Runs

variable {s r : VmSys} {t : PrivateSys} {as : List Action} {mode : CopyMode}

/-- In the reference run a store is to a page that is mapped, PTE_U and PTE_W,
and not to address 0. -/
def StoreAllowed (s : VmSys) : Action→Prop
  | .store p va _ => va≠0 ∧ va/pgsize< maxPages ∧ ∃ q e,s.proc p=some q ∧
      lookup q.pagetable (va/pgsize)=some e ∧ e.u=true ∧ e.w=true
  | _ => True

def NoFailure (s : VmSys) (a : Action) : Prop := ∀ u,step .cow s a=.next u → u.kmem.oom=false

lemma legalStore_of_allowed (h : VmInv .eager s) (hsim : Sim .eager s t) {a : Action}
    (ha : StoreAllowed s a) : LegalStore t a := by
  cases a with
  | store p va b =>
    obtain ⟨hzero,hmax,q,e,hp,he,hu,hw⟩ := ha
    obtain ⟨x,hx,hshow⟩ := hsim.get hp
    have hva : va/pgsize<trapframe := by
      by_contra hge
      have hsys := (h.space p q hp).system (va/pgsize) e (by omega) hmax he
      grind
    refine ⟨hzero,x,hx,hshow.exact rfl _ hva ?_,?_⟩
    · rw [canWrite,he,Option.any_some,hw,Bool.true_or]
    · rw [access_eq hshow.page hva he,if_pos hu,Option.isSome_some]
  | _ => trivial

lemma oom_run (h : VmInv mode s) (hrun : run (step mode) s as=.next r) (hoom : r.kmem.oom=false) :
    s.kmem.oom=false := by
  induction as generalizing s with
  | nil =>
    cases hrun
    exact hoom
  | cons a as ih =>
    obtain ⟨u,hu,hrest⟩ := run_cons_next.mp hrun
    have hsound := sound_of_step h hu
    exact hsound.oom (ih hsound.inv hrest)

lemma eager_run (h : VmInv .eager s) (hsim : Sim .eager s t)
    (hallowed : Guarded (step .eager) StoreAllowed s as) (hrun : run (step .eager) s as=.next r)
    (hoom : r.kmem.oom=false) :
    ∃ t',run PrivateMachine.step t as=.next t' ∧ Sim .eager r t' ∧
      Guarded PrivateMachine.step LegalStore t as := by
  induction as generalizing s t with
  | nil =>
    cases hrun
    exact ⟨t,rfl,hsim,trivial⟩
  | cons a as ih =>
    obtain ⟨u,hu,hrest⟩ := run_cons_next.mp hrun
    have hlegal := legalStore_of_allowed h hsim hallowed.1
    have hinv : VmInv .eager u := (sound_of_step h hu).inv
    have hlock := step_lock h hsim hlegal
    rw [hu] at hlock
    cases hv : PrivateMachine.step t a with
    | next t1 =>
      rw [hv] at hlock
      cases hlock with
      | next hsim1 =>
        obtain ⟨t',hrun',hsim',hguard⟩ := ih hinv hsim1 (hallowed.2 u hu) hrest
        refine ⟨t',by rw [run_cons,hv,bind_next,hrun'],hsim',hlegal,fun t2 ht2 => ?_⟩
        rw [hv] at ht2
        cases ht2
        exact hguard
      | failed hfail =>
        have hno := oom_run hinv hrest hoom
        rw [hfail] at hno
        cases hno
    | panic | blocked =>
      rw [hv] at hlock
      cases hlock with
      | failed hfail =>
        have hno := oom_run hinv hrest hoom
        rw [hfail] at hno
        cases hno

lemma cow_run {t' : PrivateSys} (h : VmInv .cow s) (hsim : Sim .cow s t)
    (hlegal : Guarded PrivateMachine.step LegalStore t as)
    (hmem : Guarded (step .cow) NoFailure s as)
    (hrun : run PrivateMachine.step t as=.next t') :
    ∃ s',run (step .cow) s as=.next s' ∧ VmInv .cow s' ∧ Sim .cow s' t' := by
  induction as generalizing s t with
  | nil =>
    cases hrun
    exact ⟨s,rfl,h,hsim⟩
  | cons a as ih =>
    obtain ⟨t1,ht1,hrest⟩ := run_cons_next.mp hrun
    have hlock := step_lock h hsim hlegal.1
    rw [ht1] at hlock
    cases hu : step .cow s a with
    | next u =>
      have hinv : VmInv .cow u := (sound_of_step h hu).inv
      have hno := hmem.1 u hu
      rw [hu] at hlock
      cases hlock with
      | next hsim1 =>
        obtain ⟨s',hrun',hinv',hsim'⟩ := ih hinv hsim1 (hlegal.2 t1 ht1) (hmem.2 u hu) hrest
        exact ⟨s',by rw [run_cons,hu,bind_next,hrun'],hinv',hsim'⟩
      | failed hfail =>
        grind
    | panic | blocked =>
      rw [hu] at hlock
      cases hlock

def privateBoot (n : ℕ) : PrivateSys where
  proc := fun p => if p=0 then some ⟨⟨fun v => if v=0 then some initPage else none,
    fun v => decide (v=0)⟩,pgsize,.running⟩ else none
  kernel := n

lemma boot_sim {n : ℕ} (h : Booted n s) : Sim mode s (privateBoot n) := by
  obtain ⟨q,hq,hsz,hphase,_,himage⟩ := h.first
  refine ⟨h.kernel,fun p => ?_⟩
  by_cases hp : p=0
  · have hcan : ∀ v,v<trapframe → canWrite q.pagetable v=decide (v=0) := by
      intro v hv
      have hperm := himage.perm v hv
      unfold canWrite
      cases he : lookup q.pagetable v with
      | none =>
        rw [he] at hperm
        by_cases hv0 : v=0
        · rw [if_pos hv0] at hperm
          cases hperm
        · rw [decide_eq_false hv0]
          rfl
      | some e =>
        rw [he,Option.map_some] at hperm
        by_cases hv0 : v=0
        · rw [if_pos hv0] at hperm
          grind
        · rw [if_neg hv0] at hperm
          cases hperm
    have ht : (privateBoot n).proc p=some ⟨⟨fun v => if v=0 then some initPage else none,
      fun v => decide (v=0)⟩,pgsize,.running⟩ := if_pos hp
    rw [ht,hp,hq]
    refine ⟨himage.page,fun v hv hw => ?_,fun _ v hv hc => ?_,hsz,hphase⟩
    · rw [hcan v hv]
      exact hw
    · grind
  · have ht : (privateBoot n).proc p=none := if_neg hp
    rw [ht,h.others p hp]
    trivial

def writer : Action→Option Slot
  | .store p _ _ => some p
  | .copyout p _ _ => some p
  | _ => none

lemma writer_isolated (h : VmInv mode s) {a : Action} {p : Slot} (ha : writer a=some p)
    {u : VmSys} (hu : step mode s a=.next u) {y : Slot} {z : VmProc} (hy : y≠p)
    (hz : s.proc y=some z) :
    u.proc y=some z ∧ ∀ va,userLoad u.kmem z.pagetable va=userLoad s.kmem z.pagetable va := by
  have hinv : VmInv mode u := (sound_of_step h hu).inv
  have hset : ∃ q k q',s.proc p=some q ∧ u=s.set k p (some q') ∧ Keeps (outside s p q) s.kmem k := by
    cases hp : s.proc p with
    | none =>
      cases a with
      | store | copyout =>
        cases ha
        simp only [step,actor,hp,reduceCtorEq] at hu
      | _ => cases ha
    | some q =>
      cases a with
      | store x va b =>
        cases ha
        simp only [step,actor,hp] at hu
        by_cases hrun : q.phase=.running
        · rw [if_pos hrun] at hu
          rcases store_sound h hp va b with hpanic|⟨k,pt,ok,hstore,_,_,hund⟩
          · simp only [act,hpanic,bind_panic,reduceCtorEq] at hu
          · simp only [act,hstore,bind_next,Outcome.next.injEq] at hu
            exact ⟨q,k,_,rfl,hu.symm,hund.keeps⟩
        · rw [if_neg hrun] at hu
          cases hu
      | copyout x dstva src =>
        cases ha
        simp only [step,actor,hp] at hu
        by_cases hrun : q.phase=.running
        · rw [if_pos hrun] at hu
          obtain ⟨k,pt,r,hcopy,_,_,hund⟩ := copyout_sound h hp dstva src
          simp only [act,hcopy,bind_next,Outcome.next.injEq] at hu
          exact ⟨q,k,_,rfl,hu.symm,hund.keeps⟩
        · rw [if_neg hrun] at hu
          cases hu
      | _ => cases ha
  obtain ⟨q,k,q',hp,rfl,hkeep⟩ := hset
  have hsame : (s.set k p (some q')).proc y=some z :=
    (update_of_ne hy _ _).trans hz
  refine ⟨hsame,fun va => ?_⟩
  have hview : ∀ v,v<trapframe → view k z.pagetable v=view s.kmem z.pagetable v := by
    intro v hv
    refine view_eq rfl hkeep fun e he => ?_
    have hle := weight_le_outside s q (Ne.symm hy) e.ppn
    have hpos := leafs_pos hv he
    rw [hz] at hle
    simp only [weight,Pi.add_apply] at hle
    omega
  rw [userLoad_eq (A:=⟨view s.kmem z.pagetable,fun _ => false⟩) (h.space y z hz) (fun _ _ => rfl) va]
  exact userLoad_eq (A:=⟨view s.kmem z.pagetable,fun _ => false⟩) (hinv.space y z hsame) hview va

/-- Copy-on-write fork refines eager fork. Take a run of the kernel in which no
allocation fails, and the reference run of the same actions with a private copy
of every page at fork, whose stores are to user-writable pages and not to
address 0. The kernel gets to the end of the run, with the same processes of
the same sizes, every load and every copyin gives the same bytes as in the
reference, and no store or copyout of one process is seen by another. -/
theorem cow_fork_refines_eager (first text first' text' n : ℕ) (as : List Action) {s0 r0 r : VmSys}
    (hboot : boot first text n=.next s0) (hs0 : s0.kmem.oom=false)
    (hrefboot : boot first' text' n=.next r0) (hr0 : r0.kmem.oom=false)
    (href : run (step .eager) r0 as=.next r) (hr : r.kmem.oom=false)
    (hallowed : Guarded (step .eager) StoreAllowed r0 as)
    (hmem : Guarded (step .cow) NoFailure s0 as) :
    ∃ s,run (step .cow) s0 as=.next s ∧
      (∀ p,s.proc p=none ↔ r.proc p=none) ∧
      (∀ p q q',s.proc p=some q → r.proc p=some q' → q.sz=q'.sz ∧
        (∀ va,userLoad s.kmem q.pagetable va=userLoad r.kmem q'.pagetable va) ∧
        ∀ va len,copyin s.kmem q.pagetable va len=copyin r.kmem q'.pagetable va len) ∧
      ∀ a p u y z,writer a=some p → step .cow s a=.next u → y≠p → s.proc y=some z →
        u.proc y=some z ∧ ∀ va,userLoad u.kmem z.pagetable va=userLoad s.kmem z.pagetable va := by
  have hbs := boot_spec hboot hs0
  have hbr := boot_spec hrefboot hr0
  obtain ⟨t,hprun,hsimr,hlegal⟩ := eager_run (hbr.inv .eager) (boot_sim hbr) hallowed href hr
  obtain ⟨s,hrun,hinv,hsims⟩ := cow_run (hbs.inv .cow) (boot_sim hbs) hlegal hmem hprun
  have hinvr : VmInv .eager r := vmInv_run (hbr.inv .eager) href
  refine ⟨s,hrun,fun p => (hsims.none_iff p).trans (hsimr.none_iff p).symm,
    fun p q q' hq hq' => ?_,fun a p u y z ha hu hy hz => writer_isolated hinv ha hu hy hz⟩
  obtain ⟨x,hx,hshow⟩ := hsims.get hq
  obtain ⟨x',hx',hshow'⟩ := hsimr.get hq'
  rw [hx] at hx'
  cases hx'
  refine ⟨hshow.sz.trans hshow'.sz.symm,fun va => ?_,fun va len => ?_⟩
  · rw [userLoad_eq (hinv.space p q hq) hshow.page va,
      userLoad_eq (hinvr.space p q' hq') hshow'.page va]
  · rw [copyin,copyin,copyinLoop_eq (hinv.space p q hq) hshow.page,
      copyinLoop_eq (hinvr.space p q' hq') hshow'.page]

def storeAllowed (s : VmSys) : Action→Bool
  | .store p va _ => va≠0 && va/pgsize< maxPages &&
      (s.proc p).any fun q => (lookup q.pagetable (va/pgsize)).any fun e => e.u && e.w
  | _ => true

lemma storeAllowed_sound (s : VmSys) (a : Action) (h : storeAllowed s a=true) : StoreAllowed s a := by
  cases a with
  | store p va b =>
    simp only [storeAllowed,Bool.and_eq_true,decide_eq_true_eq,Option.any_eq_true] at h
    obtain ⟨⟨hzero,hmax⟩,q,hq,e,he,hu,hw⟩ := h
    exact ⟨hzero,hmax,q,e,hq,he,hu,hw⟩
  | _ => trivial

def noFailure (s : VmSys) (a : Action) : Bool :=
  match step .cow s a with
  | .next u => !u.kmem.oom
  | _ => true

lemma noFailure_sound (s : VmSys) (a : Action) (h : noFailure s a=true) : NoFailure s a := by
  intro u hu
  rw [noFailure,hu] at h
  exact Bool.not_eq_true' _ ▸ h

/-- A parent and its children write to the pages that they share. -/
def familyRun : List Action :=
  [.exec 0 textProgram [[97,98]],.fork 0,.store 0 8196 5,.store 1 8197 6,.copyout 1 8192 [9,9],
   .fork 1,.sbrk 2 4096,.store 2 12290 1,.copyin 2 8192 8,.load 0 8196,.exit 1,.teardown 1,
   .store 2 8196 3]

/-- The theorem above for this run, on a kernel with 60 pages of memory and a
reference with 80. -/
theorem familyRun_refines :
    ∃ s0 r0 r s,boot (physTop-60) 0 1=.next s0 ∧ boot (physTop-80) 0 1=.next r0 ∧
      run (step .eager) r0 familyRun=.next r ∧ run (step .cow) s0 familyRun=.next s ∧
      (∀ p,s.proc p=none ↔ r.proc p=none) ∧
      (∀ p q q',s.proc p=some q → r.proc p=some q' → q.sz=q'.sz ∧
        (∀ va,userLoad s.kmem q.pagetable va=userLoad r.kmem q'.pagetable va) ∧
        ∀ va len,copyin s.kmem q.pagetable va len=copyin r.kmem q'.pagetable va len) ∧
      ∀ a p u y z,writer a=some p → step .cow s a=.next u → y≠p → s.proc y=some z →
        u.proc y=some z ∧ ∀ va,userLoad u.kmem z.pagetable va=userLoad s.kmem z.pagetable va := by
  obtain ⟨s0,hs0,hs⟩ := exists_of_state? (o:=boot (physTop-60) 0 1)
    (f:=fun s => (s.kmem.oom,guardedCheck (step .cow) noFailure s familyRun)) (v:=(false,true))
    (by decide +kernel)
  obtain ⟨r0,hr0,hr⟩ := exists_of_state? (o:=boot (physTop-80) 0 1)
    (f:=fun s => (s.kmem.oom,guardedCheck (step .eager) storeAllowed s familyRun)) (v:=(false,true))
    (by decide +kernel)
  obtain ⟨r,href,hoom⟩ := exists_of_state? (f:=fun s => s.kmem.oom) (v:=false)
    (o:=(boot (physTop-80) 0 1).bind fun r0 => run (step .eager) r0 familyRun) (by decide +kernel)
  rw [hr0,bind_next] at href
  rw [Prod.mk.injEq] at hs hr
  obtain ⟨s,hrun,hrest⟩ := cow_fork_refines_eager _ _ _ _ _ familyRun hs0 hs.1 hr0 hr.1 href hoom
    (guarded_of_check storeAllowed_sound hr.2) (guarded_of_check noFailure_sound hs.2)
  exact ⟨s0,r0,r,s,hs0,hr0,href,hrun,hrest⟩

end Runs

end Xv6Riscv.CowRefinement
