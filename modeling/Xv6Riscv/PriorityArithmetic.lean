import Xv6Riscv.ProcTimes
import Xv6Riscv.SchedMachine

/-!
# The dynamic priority in machine arithmetic

The scheduler, set_priority and procdump each write out the formula for the
recent behaviour index: fifty times the difference of three times the run time
and the sleeping and waiting times, over their sum and one, cut off at zero.
The operands are unsigned, and the scheduler's copy puts only the waiting time
under the division bar.

The results below compute each copy over the integers. A process that slept and
waited more than three times what it ran makes the difference of set_priority
wrap; whether the product then reads as a negative int depends only on the
divisor.
-/

namespace Xv6Riscv.PriorityArithmetic

open ProcMachine ProcTimes SchedMachine

/-- The DP column of procdump, from an int rbi and an unsigned sum. -/
def procdumpPriority (p : Proc) : ℕ :=
  let val : Int32 := ((3*p.rtime-p.stime-divu p.wtime (p.rtime+p.stime+p.wtime+1))*
    defaultPriority).toInt32
  let rbi : Int32 := if p.rtime+p.stime≠0 then (if 0<val then val else 0) else 25
  let sum := p.staticPriority+rbi.toUInt32
  let value : Int32 := if sum<100 then sum.toInt32 else 100
  (if 0<value then value else 0).toInt.toNat

/-! ## Reading machine integers -/

lemma toInt_toInt32 (u : UInt32) :
    u.toInt32.toInt=if u.toNat<2^31 then (u.toNat : ℤ) else (u.toNat : ℤ)-2^32 := by
  have h : u.toInt32.toInt=u.toBitVec.toInt := rfl
  rw [h,BitVec.toInt_eq_toNat_cond]
  have hn : u.toBitVec.toNat=u.toNat := rfl
  grind

lemma toNat_toUInt32 {i : Int32} (h : 0≤ i.toInt) : (i.toUInt32.toNat : ℤ)=i.toInt := by
  have hi := toInt_toInt32 i.toUInt32
  have he : i.toUInt32.toInt32=i := rfl
  rw [he] at hi
  have hlt := i.toUInt32.toNat_lt
  split_ifs at hi <;> omega

lemma toNat_toUInt64 {i : Int32} (h : 0≤ i.toInt) :
    (i.toInt64.toUInt64.toNat : ℤ)=i.toInt := by
  have hi : i.toInt64.toInt=i.toInt := Int32.toInt_toInt64 i
  have hb : i.toInt64.toInt=i.toInt64.toUInt64.toBitVec.toInt := rfl
  rw [BitVec.toInt_eq_toNat_cond] at hb
  have hn : i.toInt64.toUInt64.toBitVec.toNat=i.toInt64.toUInt64.toNat := rfl
  rw [hn] at hb
  have hlt := i.toInt64.toUInt64.toNat_lt
  split_ifs at hb <;> omega

/-- procdump prints the priority that the scheduler computes. -/
lemma procdumpPriority_eq (p : Proc) : procdumpPriority p=dynamicPriority p := by
  have hrbi : ∀ val : Int32,(if p.rtime+p.stime≠0 then (if 0<val then val else 0) else 25).toUInt32=
      if p.rtime+p.stime≠0 then (if 0<val then val.toUInt32 else 0) else 25 := by
    intro val
    split_ifs <;> rfl
  simp only [procdumpPriority,dynamicPriority,hrbi]
  generalize p.staticPriority+_=sum
  split_ifs with hlt hpos hpos
  · have hval := toInt_toInt32 sum
    rw [UInt32.lt_iff_toNat_lt] at hlt
    rw [if_pos (by grind)] at hval
    rw [hval,Int.toNat_natCast]
  · have hval := toInt_toInt32 sum
    rw [UInt32.lt_iff_toNat_lt] at hlt
    rw [if_pos (by grind)] at hval
    rw [Int32.lt_iff_toInt_lt,Int32.toInt_zero] at hpos
    rw [Int32.toInt_zero]
    omega
  · rfl
  · exact absurd (by decide) hpos

/-! ## The index of set_priority -/

/-- The times of a process are in the range of the results. -/
structure Moderate (p : Proc) : Prop where
  rtime : p.rtime.toNat<2^20
  stime : p.stime.toNat<2^20
  wtime : p.wtime.toNat<2^20

def divisor (p : Proc) : ℕ := p.rtime.toNat+p.stime.toNat+p.wtime.toNat+1

lemma divisor_pos (p : Proc) : 0<divisor p := Nat.succ_pos _

/-- Fifty times a wrapped quotient reads as a negative int for this divisor. -/
def ReadsNegative (m : ℕ) : Prop := 50%m=0 ∨ m<2*(50%m)

instance : DecidablePred ReadsNegative := fun _ => inferInstanceAs (Decidable (_ ∨ _))

/-- The index over the integers, with a quotient that rounds to zero. -/
def trueRbi (p : Proc) : ℤ :=
  max 0 (50*(3*(p.rtime.toNat : ℤ)-p.stime.toNat-p.wtime.toNat).tdiv (divisor p))

def scaled (p : Proc) : UInt32 :=
  divu (3*p.rtime-p.stime-p.wtime) (p.rtime+p.stime+p.wtime+1)*defaultPriority

lemma setPriorityRbi_eq {p : Proc} (h : p.rtime+p.stime≠0) :
    (setPriorityRbi p).toInt=max 0 (scaled p).toInt32.toInt := by
  have hval : setPriorityRbi p=if 0<(scaled p).toInt32 then (scaled p).toInt32 else 0 := by
    rw [setPriorityRbi,if_pos h]
    rfl
  rw [hval]
  split_ifs with hpos
  · rw [Int32.lt_iff_toInt_lt,Int32.toInt_zero] at hpos
    omega
  · rw [Int32.lt_iff_toInt_lt,Int32.toInt_zero] at hpos
    rw [Int32.toInt_zero]
    omega

variable {p : Proc}

lemma sum_ne_zero (h : Moderate p) : p.rtime+p.stime≠0 ↔ p.rtime.toNat+p.stime.toNat≠0 := by
  have h1 := h.rtime
  have h2 := h.stime
  rw [ne_eq,←UInt32.toNat_inj,UInt32.toNat_add]
  grind

lemma scaled_toNat (h : Moderate p) :
    (scaled p).toNat=(3*p.rtime.toNat+2^32-p.stime.toNat-p.wtime.toNat)%2^32/divisor p*50%2^32 := by
  have h1 := h.rtime
  have h2 := h.stime
  have h3 := h.wtime
  have hdiff : (3*p.rtime-p.stime-p.wtime).toNat=
      (3*p.rtime.toNat+2^32-p.stime.toNat-p.wtime.toNat)%2^32 := by
    simp only [UInt32.toNat_sub,UInt32.toNat_mul,UInt32.toNat_ofNat]
    omega
  have hdiv : (p.rtime+p.stime+p.wtime+1).toNat=divisor p := by
    simp only [UInt32.toNat_add,UInt32.toNat_ofNat,divisor]
    omega
  have hne : p.rtime+p.stime+p.wtime+1≠0 := by
    rw [ne_eq,←UInt32.toNat_inj,hdiv]
    exact (divisor_pos p).ne'
  rw [scaled,divu,if_neg hne,UInt32.toNat_mul,UInt32.toNat_div,hdiff,hdiv]
  rfl

/-- Fifty times the quotient of nearly 2^32, modulo 2^32, when the divisor does
not divide fifty: only the remainder of fifty is left. -/
lemma product_of_quotient {m q e : ℕ} (hq : m*q+e=2^32) (hm : 0< m) (hsmall : e<2*m)
    (hbound : m<2^22) (hc : 50%m≠0) : m*(50*q%2^32)+50*e=50%m*2^32 := by
  have hfifty : m*(50/m)+50%m=50 := Nat.div_add_mod 50 m
  have hlt : 50%m< m := Nat.mod_lt 50 hm
  set a := 50/m
  set c := 50%m
  have hexact : m*(50*q)+50*e=(m*a+c)*2^32 := by
    rw [hfifty,←hq]
    ring
  have hpos : 0<c := Nat.pos_of_ne_zero hc
  have hle : a*2^32≤50*q := by
    by_contra hlt
    have hstep : m*(50*q)+m≤ m*(a*2^32) := by
      have := Nat.mul_le_mul_left m (Nat.succ_le_of_lt (Nat.lt_of_not_le hlt))
      rwa [Nat.mul_succ] at this
    have hassoc : (m*a+c)*2^32=m*(a*2^32)+c*2^32 := by ring
    omega
  obtain ⟨k,hk⟩ := Nat.exists_eq_add_of_le hle
  have hrest : m*k+50*e=c*2^32 := by grind
  have hk32 : k<2^32 := by
    by_contra hge
    have hge' : m*2^32≤ m*k := Nat.mul_le_mul_left m (Nat.le_of_not_lt hge)
    have hcm : c*2^32< m*2^32 := Nat.mul_lt_mul_of_pos_right hlt (by decide)
    omega
  grind [Nat.mul_add_mod]

lemma product_of_divisor {m q e : ℕ} (hq : m*q+e=2^32) (he : 0<e) (hsmall : e<2*m)
    (hc : 50%m=0) : 2^31≤50*q%2^32 := by
  have hfifty : m*(50/m)=50 := Nat.mul_div_cancel' (Nat.dvd_of_mod_eq_zero hc)
  set a := 50/m
  have ha : 0<a := by
    refine Nat.pos_of_ne_zero fun h0 => ?_
    rw [h0,Nat.mul_zero] at hfifty
    exact absurd hfifty (by decide)
  have hlt : a*e<100 := by
    have h2 : a*e<a*(2*m) := Nat.mul_lt_mul_of_pos_left hsmall ha
    grind
  have hexact : 50*q+a*e=a*2^32 := by grind
  have hae : 0<a*e := Nat.mul_pos ha he
  grind

/-- How far the run time is behind the sleeping and waiting times. -/
def shortfall (p : Proc) : ℕ := p.stime.toNat+p.wtime.toNat-3*p.rtime.toNat

/-- What the quotient of a wrapped difference leaves of 2^32. -/
def remnant (p : Proc) : ℕ := 2^32-divisor p*((2^32-shortfall p)/divisor p)

lemma rbi_exact (h : Moderate p) (hne : p.rtime.toNat+p.stime.toNat≠0)
    (hle : p.stime.toNat+p.wtime.toNat≤3*p.rtime.toNat) :
    (setPriorityRbi p).toInt=
      50*((3*p.rtime.toNat-p.stime.toNat-p.wtime.toNat)/divisor p : ℕ) ∧
    (3*p.rtime.toNat-p.stime.toNat-p.wtime.toNat)/divisor p<3 := by
  have h1 := h.rtime
  have hquot : (3*p.rtime.toNat-p.stime.toNat-p.wtime.toNat)/divisor p<3 := by
    rw [Nat.div_lt_iff_lt_mul (divisor_pos p),divisor]
    omega
  have hdiff : (3*p.rtime.toNat+2^32-p.stime.toNat-p.wtime.toNat)%2^32=
      3*p.rtime.toNat-p.stime.toNat-p.wtime.toNat := by omega
  have hscaled := scaled_toNat h
  rw [hdiff] at hscaled
  rw [setPriorityRbi_eq ((sum_ne_zero h).mpr hne),toInt_toInt32,hscaled]
  generalize (3*p.rtime.toNat-p.stime.toNat-p.wtime.toNat)/divisor p=q at hquot ⊢
  have hsmall : q*50%2^32=50*q := by omega
  rw [hsmall,if_pos (by omega)]
  exact ⟨by push_cast; omega,hquot⟩

lemma shortfall_bounds (hlt : 3*p.rtime.toNat<p.stime.toNat+p.wtime.toNat) :
    0<shortfall p ∧ shortfall p<divisor p := by
  rw [shortfall,divisor]
  omega

lemma wrapped_quotient (h : Moderate p)
    (hlt : 3*p.rtime.toNat<p.stime.toNat+p.wtime.toNat) :
    divisor p*((2^32-shortfall p)/divisor p)+remnant p=2^32 ∧ 0<remnant p ∧
      remnant p<2*divisor p ∧ divisor p<2^22 ∧
      (scaled p).toNat=50*((2^32-shortfall p)/divisor p)%2^32 := by
  have h1 := h.rtime
  have h2 := h.stime
  have h3 := h.wtime
  obtain ⟨hpos,hless⟩ := shortfall_bounds hlt
  have hdiff : (3*p.rtime.toNat+2^32-p.stime.toNat-p.wtime.toNat)%2^32=2^32-shortfall p := by
    rw [shortfall]
    omega
  have hdiv := Nat.div_add_mod (2^32-shortfall p) (divisor p)
  have hmod : (2^32-shortfall p)%divisor p<divisor p := Nat.mod_lt _ (divisor_pos p)
  have hbound : divisor p<2^22 := by
    rw [divisor]
    omega
  have hscaled := scaled_toNat h
  rw [hdiff,Nat.mul_comm (_/_)] at hscaled
  rw [remnant]
  refine ⟨?_,?_,?_,hbound,hscaled⟩ <;> omega

lemma rbi_negative (h : Moderate p) (hne : p.rtime.toNat+p.stime.toNat≠0)
    (hlt : 3*p.rtime.toNat<p.stime.toNat+p.wtime.toNat) (hneg : ReadsNegative (divisor p)) :
    (setPriorityRbi p).toInt=0 := by
  obtain ⟨hq,hpos,hsmall,hbound,hscaled⟩ := wrapped_quotient h hlt
  have hge : 2^31≤(scaled p).toNat := by
    rw [hscaled]
    by_cases hc : 50%divisor p=0
    · exact product_of_divisor hq hpos hsmall hc
    · have hlarge : divisor p<2*(50%divisor p) := hneg.resolve_left hc
      have hexact := product_of_quotient hq (divisor_pos p) hsmall hbound hc
      by_contra hless
      -- The product would be below half of 2^32 times the divisor.
      have hmul : divisor p*(50*((2^32-shortfall p)/divisor p)%2^32)≤divisor p*2^31 :=
        Nat.mul_le_mul_left _ (Nat.le_of_lt (Nat.lt_of_not_le hless))
      have hm : 50%divisor p≤50 := Nat.mod_le 50 _
      omega
  have hlt32 := (scaled p).toNat_lt
  rw [setPriorityRbi_eq ((sum_ne_zero h).mpr hne),toInt_toInt32]
  omega

lemma rbi_positive (h : Moderate p) (hne : p.rtime.toNat+p.stime.toNat≠0)
    (hlt : 3*p.rtime.toNat<p.stime.toNat+p.wtime.toNat) (hneg : ¬ReadsNegative (divisor p)) :
    ∃ rbi : ℕ,(setPriorityRbi p).toInt=rbi ∧ 100≤rbi ∧ rbi<2^31 ∧
      divisor p*rbi+50*remnant p=50%divisor p*2^32 := by
  obtain ⟨hq,hpos,hsmall,hbound,hscaled⟩ := wrapped_quotient h hlt
  rw [ReadsNegative,not_or,not_lt] at hneg
  have hexact := product_of_quotient hq (divisor_pos p) hsmall hbound hneg.1
  rw [←hscaled] at hexact
  have hc : 1≤50%divisor p := Nat.one_le_iff_ne_zero.mpr hneg.1
  have hlt31 : (scaled p).toNat<2^31 := by
    by_contra hge
    have hmul : divisor p*2^31≤divisor p*(scaled p).toNat :=
      Nat.mul_le_mul_left _ (Nat.le_of_not_lt hge)
    omega
  have hlarge : 100≤(scaled p).toNat := by
    by_contra hless
    have hmul : divisor p*(scaled p).toNat≤divisor p*100 :=
      Nat.mul_le_mul_left _ (Nat.le_of_lt (Nat.lt_of_not_le hless))
    omega
  refine ⟨(scaled p).toNat,?_,hlarge,hlt31,hexact⟩
  rw [setPriorityRbi_eq ((sum_ne_zero h).mpr hne),toInt_toInt32,if_pos hlt31]
  omega

/-! ## The clamped sums -/

lemma rbi_nonneg (p : Proc) : 0≤(setPriorityRbi p).toInt := by
  by_cases h : p.rtime+p.stime≠0
  · rw [setPriorityRbi_eq h]
    exact le_max_left _ _
  · rw [setPriorityRbi,if_neg h]
    decide

lemma clamp_toInt (v : Int32) :
    (let value := if v<100 then v else 100; if 0<value then value else 0).toInt=
      max 0 (min 100 v.toInt) := by
  have h100 : (100 : Int32).toInt=100 := rfl
  dsimp only
  by_cases hv : v<100
  · rw [if_pos hv]
    rw [Int32.lt_iff_toInt_lt,h100] at hv
    split_ifs with h0
    · rw [Int32.lt_iff_toInt_lt,Int32.toInt_zero] at h0
      omega
    · rw [Int32.lt_iff_toInt_lt,Int32.toInt_zero] at h0
      rw [Int32.toInt_zero]
      omega
  · rw [if_neg hv,if_pos (by decide),h100]
    rw [Int32.lt_iff_toInt_lt,h100] at hv
    omega

lemma oldPriority_eq (hsp : p.staticPriority.toNat≤100) :
    (oldPriority p).toInt=
      if p.staticPriority.toNat+(setPriorityRbi p).toInt<2^31 then
        min 100 (p.staticPriority.toNat+(setPriorityRbi p).toInt) else 0 := by
  have hR := rbi_nonneg p
  have hlt := (setPriorityRbi p).toInt_lt
  have hold : p.staticPriority.toInt32.toInt=p.staticPriority.toNat := by
    rw [toInt_toInt32,if_pos (by omega)]
  have hsum := Int32.toInt_add p.staticPriority.toInt32 (setPriorityRbi p)
  rw [hold,Int.bmod_def] at hsum
  have hclamp : (oldPriority p).toInt=
      max 0 (min 100 (p.staticPriority.toInt32+setPriorityRbi p).toInt) := clamp_toInt _
  rw [hclamp,hsum]
  split_ifs <;> omega

lemma newPriority_eq {priority : UInt64} (hnew : priority.toNat≤100) :
    (newPriority priority p).toInt=min 100 (priority.toNat+(setPriorityRbi p).toInt) := by
  have hR := rbi_nonneg p
  have hlt := (setPriorityRbi p).toInt_lt
  have hrbi := toNat_toUInt64 hR
  have hsum : (priority+(setPriorityRbi p).toInt64.toUInt64).toNat=
      priority.toNat+(setPriorityRbi p).toInt64.toUInt64.toNat := by
    rw [UInt64.toNat_add,Nat.mod_eq_of_lt (by omega)]
  have h100 : (100 : UInt64).toNat=100 := rfl
  have hval : newPriority priority p=
      (let value := if priority+(setPriorityRbi p).toInt64.toUInt64<100 then
        (priority+(setPriorityRbi p).toInt64.toUInt64).toUInt32.toInt32 else 100
       if 0<value then value else 0) := rfl
  rw [hval]
  by_cases hless : priority+(setPriorityRbi p).toInt64.toUInt64<100
  · simp only [if_pos hless]
    rw [UInt64.lt_iff_toNat_lt,hsum,h100] at hless
    have hint : (priority+(setPriorityRbi p).toInt64.toUInt64).toUInt32.toInt32.toInt=
        priority.toNat+(setPriorityRbi p).toInt := by
      rw [toInt_toInt32,UInt64.toNat_toUInt32,hsum,Nat.mod_eq_of_lt (by omega),if_pos (by omega)]
      push_cast
      omega
    split_ifs with h0
    · rw [hint]
      omega
    · grind [Int32.lt_iff_toInt_lt]
  · simp only [if_neg hless]
    rw [UInt64.lt_iff_toNat_lt,hsum,h100] at hless
    rw [if_pos (by decide),show (100 : Int32).toInt=100 from rfl]
    omega

/-- The scheduler's index: the waiting time has no part in it. -/
def schedRbi (p : Proc) : ℕ :=
  if p.rtime.toNat+p.stime.toNat=0 then 25 else 50*(3*p.rtime.toNat-p.stime.toNat)

lemma schedProduct_toInt (h : Moderate p) :
    ((3*p.rtime-p.stime-0)*defaultPriority).toInt32.toInt=
      50*(3*(p.rtime.toNat : ℤ)-p.stime.toNat) := by
  have h1 := h.rtime
  have h2 := h.stime
  have hdiff : (3*p.rtime-p.stime-0).toNat=(3*p.rtime.toNat+2^32-p.stime.toNat)%2^32 := by
    simp only [UInt32.toNat_sub,UInt32.toNat_mul,UInt32.toNat_ofNat]
    omega
  rw [toInt_toInt32,UInt32.toNat_mul,hdiff,show defaultPriority.toNat=50 from rfl]
  by_cases hle : p.stime.toNat≤3*p.rtime.toNat
  · have hsub : (3*p.rtime.toNat+2^32-p.stime.toNat)%2^32=3*p.rtime.toNat-p.stime.toNat := by omega
    rw [hsub,Nat.mod_eq_of_lt (by omega),if_pos (by omega)]
    omega
  · have hsub : (3*p.rtime.toNat+2^32-p.stime.toNat)%2^32=
        2^32-(p.stime.toNat-3*p.rtime.toNat) := by omega
    have hmul : (2^32-(p.stime.toNat-3*p.rtime.toNat))*50=
        2^32*49+(2^32-50*(p.stime.toNat-3*p.rtime.toNat)) := by omega
    rw [hsub,hmul,Nat.mul_add_mod,Nat.mod_eq_of_lt (by omega),if_neg (by omega)]
    omega

lemma capped (sp rbi : UInt32) :
    (if sp+rbi<100 then (sp+rbi).toNat else 100)=min 100 ((sp.toNat+rbi.toNat)%2^32) := by
  have h100 : (100 : UInt32).toNat=100 := rfl
  grind [UInt32.lt_iff_toNat_lt,UInt32.toNat_add]

/-- The dynamic priority that the scheduler computes. The quotient of the waiting
time is zero, and a product below zero gives the index zero. -/
lemma dynamicPriority_eq (h : Moderate p) :
    dynamicPriority p=min 100 ((p.staticPriority.toNat+schedRbi p)%2^32) := by
  have h1 := h.rtime
  have h2 := h.stime
  have h3 := h.wtime
  have hzero : divu p.wtime (p.rtime+p.stime+p.wtime+1)=0 := by
    have hden : (p.rtime+p.stime+p.wtime+1).toNat=p.rtime.toNat+p.stime.toNat+p.wtime.toNat+1 := by
      grind [UInt32.toNat_add]
    have hne : p.rtime+p.stime+p.wtime+1≠0 := by
      rw [ne_eq,←UInt32.toNat_inj,hden]
      simp only [UInt32.toNat_zero]
      omega
    rw [divu,if_neg hne,←UInt32.toNat_inj,UInt32.toNat_div,hden,UInt32.toNat_zero]
    exact Nat.div_eq_of_lt (by omega)
  have hprod := schedProduct_toInt h
  have hrbi : (if p.rtime+p.stime≠0 then
      (if 0<((3*p.rtime-p.stime-0)*defaultPriority).toInt32 then
        ((3*p.rtime-p.stime-0)*defaultPriority).toInt32.toUInt32 else 0) else 25 : UInt32).toNat=
      schedRbi p := by
    by_cases hne : p.rtime+p.stime≠0
    · have hsum := (sum_ne_zero h).mp hne
      rw [if_pos hne,schedRbi,if_neg hsum]
      split_ifs with hpos
      · rw [Int32.lt_iff_toInt_lt,Int32.toInt_zero] at hpos
        have hint := toNat_toUInt32 hpos.le
        rw [hprod] at hint hpos
        omega
      · rw [Int32.lt_iff_toInt_lt,Int32.toInt_zero,hprod] at hpos
        rw [UInt32.toNat_zero]
        omega
    · have hsum : p.rtime.toNat+p.stime.toNat=0 := not_not.mp (mt (sum_ne_zero h).mpr hne)
      rw [if_neg hne,schedRbi,if_pos hsum]
      rfl
  have hval : dynamicPriority p=
      (let rbi : UInt32 := if p.rtime+p.stime≠0 then
        (if 0<((3*p.rtime-p.stime-divu p.wtime (p.rtime+p.stime+p.wtime+1))*
          defaultPriority).toInt32 then ((3*p.rtime-p.stime-divu p.wtime
            (p.rtime+p.stime+p.wtime+1))*defaultPriority).toInt32.toUInt32 else 0) else 25
       if p.staticPriority+rbi<100 then (p.staticPriority+rbi).toNat else 100) := rfl
  rw [hval,hzero]
  dsimp only
  rw [capped,hrbi]

/-! ## Where the copies agree -/

/-- The copies of the formula give the same dynamic priority: the process
neither ran nor slept, or both clamps end at one hundred, or both indices are
zero. The last line says that the sum of ints does not overflow. -/
def Agrees (p : Proc) : Prop :=
  p.rtime.toNat+p.stime.toNat=0 ∨
  p.stime.toNat+p.wtime.toNat≤3*p.rtime.toNat ∧
    (3*p.rtime.toNat=p.stime.toNat ∨ 100≤p.staticPriority.toNat+
      50*((3*p.rtime.toNat-p.stime.toNat-p.wtime.toNat)/divisor p)) ∨
  3*p.rtime.toNat<p.stime.toNat+p.wtime.toNat ∧ ReadsNegative (divisor p) ∧
    (3*p.rtime.toNat≤p.stime.toNat ∨ 100≤p.staticPriority.toNat) ∨
  3*p.rtime.toNat<p.stime.toNat+p.wtime.toNat ∧ ¬ReadsNegative (divisor p) ∧
    100≤p.staticPriority.toNat+50*(3*p.rtime.toNat-p.stime.toNat) ∧
    (2*(50%divisor p)=divisor p→divisor p*p.staticPriority.toNat<50*remnant p)

lemma no_overflow_iff (h : Moderate p) (hsp : p.staticPriority.toNat≤100)
    (hlt : 3*p.rtime.toNat<p.stime.toNat+p.wtime.toNat) (hneg : ¬ReadsNegative (divisor p))
    {rbi : ℕ} (hexact : divisor p*rbi+50*remnant p=50%divisor p*2^32) :
    p.staticPriority.toNat+rbi<2^31 ↔
      (2*(50%divisor p)=divisor p→divisor p*p.staticPriority.toNat<50*remnant p) := by
  obtain ⟨-,hpos,-,hbound,-⟩ := wrapped_quotient h hlt
  rw [ReadsNegative,not_or,not_lt] at hneg
  have hscale : p.staticPriority.toNat+rbi<2^31 ↔
      divisor p*p.staticPriority.toNat+divisor p*rbi<divisor p*2^31 := by
    rw [←Nat.mul_add]
    exact (Nat.mul_lt_mul_left (divisor_pos p)).symm
  have hsmall : divisor p*p.staticPriority.toNat≤divisor p*100 := Nat.mul_le_mul_left _ hsp
  rw [hscale]
  constructor
  · intro hless heq
    omega
  · intro hroom
    by_cases heq : 2*(50%divisor p)=divisor p
    · have hless := hroom heq
      omega
    · omega

lemma dynamicPriority_of_le (h : Moderate p) (hsp : p.staticPriority.toNat≤100) :
    dynamicPriority p=min 100 (p.staticPriority.toNat+schedRbi p) := by
  grind [h.rtime,schedRbi,dynamicPriority_eq]

/-- The dynamic priorities of the scheduler, of set_priority for the static
priority that the process has, and of procdump are one number exactly under the
condition `Agrees`. -/
theorem dynamic_priorities_agree_iff (h : Moderate p) (hsp : p.staticPriority.toNat≤100) :
    ((dynamicPriority p : ℤ)=(oldPriority p).toInt ∧ dynamicPriority p=procdumpPriority p) ↔
      Agrees p := by
  rw [procdumpPriority_eq,and_iff_left rfl,
    dynamicPriority_of_le h hsp,oldPriority_eq hsp,Agrees,schedRbi]
  by_cases hne : p.rtime.toNat+p.stime.toNat=0
  · have hzero : ¬p.rtime+p.stime≠0 := fun hc => (sum_ne_zero h).mp hc hne
    have hrbi : (setPriorityRbi p).toInt=25 := by
      rw [setPriorityRbi,if_neg hzero]
      rfl
    rw [hrbi,if_pos hne,if_pos (by omega)]
    omega
  rw [if_neg hne]
  by_cases hle : p.stime.toNat+p.wtime.toNat≤3*p.rtime.toNat
  · obtain ⟨hrbi,hquot⟩ := rbi_exact h hne hle
    have hden : divisor p*((3*p.rtime.toNat-p.stime.toNat-p.wtime.toNat)/divisor p)≤
        3*p.rtime.toNat-p.stime.toNat-p.wtime.toNat := Nat.mul_div_le _ _
    have htwo : 2*((3*p.rtime.toNat-p.stime.toNat-p.wtime.toNat)/divisor p)≤
        divisor p*((3*p.rtime.toNat-p.stime.toNat-p.wtime.toNat)/divisor p) := by
      refine Nat.mul_le_mul_right _ ?_
      rw [divisor]
      omega
    grind
  · have hlt : 3*p.rtime.toNat<p.stime.toNat+p.wtime.toNat := Nat.lt_of_not_le hle
    by_cases hneg : ReadsNegative (divisor p)
    · simp only [hne,hle,hlt,hneg,not_true,false_and,or_false,false_or,true_and,
        rbi_negative h hne hlt hneg]
      omega
    · obtain ⟨rbi,hrbi,hlarge,-,hexact⟩ := rbi_positive h hne hlt hneg
      have hroom := no_overflow_iff h hsp hlt hneg hexact
      obtain ⟨-,hpos,-,-,-⟩ := wrapped_quotient h hlt
      simp only [hne,hle,hlt,hneg,not_false_eq_true,false_and,false_or,true_and,hrbi,←hroom]
      by_cases hfits : p.staticPriority.toNat+rbi<2^31
      · grind
      · -- An overflow makes set_priority's priority zero, and the static priority is positive.
        have hover := mt hroom.mpr hfits
        have hsome : 0<p.staticPriority.toNat := by
          refine Nat.pos_of_ne_zero fun h0 => hover fun _ => ?_
          rw [h0,Nat.mul_zero]
          omega
        grind

/-- A process that ran for one tick, at the best static priority. -/
def ranOnce : Proc := {zeroProc with rtime := 1}

/-- The scheduler gives it the dynamic priority 100 and set_priority gives 50. -/
theorem dynamic_priorities_differ : Moderate ranOnce ∧ ranOnce.staticPriority.toNat≤100 ∧
    dynamicPriority ranOnce=100 ∧ (oldPriority ranOnce).toInt=50 ∧
    (dynamicPriority ranOnce : ℤ)≠(oldPriority ranOnce).toInt :=
  ⟨⟨by decide,by decide,by decide⟩,by decide,by decide,by decide,by decide⟩

/-- A process that ran for three ticks and waited for one. -/
def ranThrice : Proc := {zeroProc with rtime := 3,wtime := 1,staticPriority := 60}

/-- Both indices are positive, and both clamps end at one hundred. -/
theorem clamped_priorities_agree : (dynamicPriority ranThrice : ℤ)=(oldPriority ranThrice).toInt ∧
    dynamicPriority ranThrice=procdumpPriority ranThrice :=
  (dynamic_priorities_agree_iff ⟨by decide,by decide,by decide⟩ (by decide)).mpr
    (Or.inr (Or.inl ⟨by decide,Or.inr (by decide)⟩))

/-! ## Where the arithmetic of set_priority is exact -/

lemma trueRbi_of_le (hle : p.stime.toNat+p.wtime.toNat≤3*p.rtime.toNat) :
    trueRbi p=50*((3*p.rtime.toNat-p.stime.toNat-p.wtime.toNat)/divisor p : ℕ) := by grind [trueRbi]

lemma trueRbi_of_lt (hlt : 3*p.rtime.toNat<p.stime.toNat+p.wtime.toNat) : trueRbi p=0 := by
  obtain ⟨-,hless⟩ := shortfall_bounds hlt
  have hsub : 3*(p.rtime.toNat : ℤ)-p.stime.toNat-p.wtime.toNat= -(shortfall p : ℤ) := by
    rw [shortfall]
    omega
  rw [trueRbi,hsub,Int.neg_tdiv,Int.tdiv_eq_zero_of_lt (by omega) (by omega)]
  rfl

/-- The index that set_priority computes is the true one exactly when the
difference does not wrap or its product reads as a negative int. -/
lemma rbi_true_iff (h : Moderate p) (hne : p.rtime.toNat+p.stime.toNat≠0) :
    (setPriorityRbi p).toInt=trueRbi p ↔
      (p.stime.toNat+p.wtime.toNat≤3*p.rtime.toNat ∨ ReadsNegative (divisor p)) := by
  by_cases hle : p.stime.toNat+p.wtime.toNat≤3*p.rtime.toNat
  · rw [(rbi_exact h hne hle).1,trueRbi_of_le hle]
    exact ⟨fun _ => Or.inl hle,fun _ => rfl⟩
  · have hlt : 3*p.rtime.toNat<p.stime.toNat+p.wtime.toNat := Nat.lt_of_not_le hle
    rw [trueRbi_of_lt hlt]
    by_cases hneg : ReadsNegative (divisor p)
    · exact ⟨fun _ => Or.inr hneg,fun _ => rbi_negative h hne hlt hneg⟩
    · obtain ⟨rbi,hrbi,hlarge,-,-⟩ := rbi_positive h hne hlt hneg
      rw [hrbi]
      refine ⟨fun h0 => ?_,fun hor => absurd hor (not_or.mpr ⟨hle,hneg⟩)⟩
      omega

lemma trueRbi_le (h : Moderate p) (hne : p.rtime.toNat+p.stime.toNat≠0) :
    0≤trueRbi p ∧ trueRbi p≤100 := by
  by_cases hle : p.stime.toNat+p.wtime.toNat≤3*p.rtime.toNat
  · have hquot := (rbi_exact h hne hle).2
    rw [trueRbi_of_le hle]
    generalize (3*p.rtime.toNat-p.stime.toNat-p.wtime.toNat)/divisor p=q at hquot ⊢
    omega
  · rw [trueRbi_of_lt (Nat.lt_of_not_le hle)]
    omega

/-- The index of set_priority, its two dynamic priorities and its decision to
yield are those of the integers exactly under the condition on the times. -/
theorem set_priority_exact_iff (h : Moderate p) (hne : p.rtime.toNat+p.stime.toNat≠0)
    (hold : p.staticPriority.toNat≤100) {priority : UInt64} (hnew : priority.toNat≤100) :
    ((setPriorityRbi p).toInt=trueRbi p ∧
      (oldPriority p).toInt=min 100 (p.staticPriority.toNat+trueRbi p) ∧
      (newPriority priority p).toInt=min 100 (priority.toNat+trueRbi p) ∧
      (oldPriority p>newPriority priority p ↔
        min 100 (priority.toNat+trueRbi p)< min 100 (p.staticPriority.toNat+trueRbi p))) ↔
    (p.stime.toNat+p.wtime.toNat≤3*p.rtime.toNat ∨ ReadsNegative (divisor p)) := by
  rw [←rbi_true_iff h hne]
  refine ⟨fun hall => hall.1,fun hrbi => ?_⟩
  obtain ⟨h0,h100⟩ := trueRbi_le h hne
  have holdp : (oldPriority p).toInt=min 100 (p.staticPriority.toNat+trueRbi p) := by
    rw [oldPriority_eq hold,hrbi,if_pos (by omega)]
  have hnewp : (newPriority priority p).toInt=min 100 (priority.toNat+trueRbi p) := by
    rw [newPriority_eq hnew,hrbi]
  refine ⟨hrbi,holdp,hnewp,?_⟩
  rw [gt_iff_lt,Int32.lt_iff_toInt_lt,holdp,hnewp]

/-- A process that slept for three ticks and did not run. -/
def sleptThrice : Proc := {zeroProc with stime := 3,staticPriority := 49}

/-- Its index over the integers is zero. set_priority computes 2147483598, and
does not yield where the true priority falls from 49 to 10. -/
theorem set_priority_wraps : Moderate sleptThrice ∧
    sleptThrice.rtime.toNat+sleptThrice.stime.toNat≠0 ∧ sleptThrice.staticPriority.toNat≤100 ∧
    (setPriorityRbi sleptThrice).toInt=2147483598 ∧ trueRbi sleptThrice=0 ∧
    ¬oldPriority sleptThrice>newPriority 10 sleptThrice :=
  ⟨⟨by decide,by decide,by decide⟩,by decide,by decide,by decide,by decide,by decide⟩

/-- For a process that ran three ticks and waited one the arithmetic is exact. -/
theorem set_priority_exact_once :
    (setPriorityRbi {zeroProc with rtime := 3,wtime := 1,staticPriority := 40}).toInt=
      trueRbi {zeroProc with rtime := 3,wtime := 1,staticPriority := 40} ∧
    oldPriority {zeroProc with rtime := 3,wtime := 1,staticPriority := 40}>
      newPriority 10 {zeroProc with rtime := 3,wtime := 1,staticPriority := 40} := by
  have h := (set_priority_exact_iff
    (p:={zeroProc with rtime := 3,wtime := 1,staticPriority := 40})
    ⟨by decide,by decide,by decide⟩ (by decide) (by decide)
    (show (10 : UInt64).toNat≤100 by decide)).mpr (Or.inl (by decide))
  exact ⟨h.1,h.2.2.2.mpr (by decide)⟩

/-! ## Waiting does not age a process -/

def waited (p : Proc) (w : UInt32) : Proc := {p with wtime := w}

/-- The scheduler's dynamic priority never increases with the waiting time, and
it falls back to the static priority once the sleeping and waiting times reach
three times the run time: exactly when the sleeping time alone does, or no
waiting time in the range does, or the static priority is past the cap. -/
theorem waiting_ages_iff (hr : p.rtime.toNat<2^20) (hs : p.stime.toNat<2^20)
    (hne : p.rtime.toNat+p.stime.toNat≠0) :
    ((∀ w w' : UInt32,w.toNat≤w'.toNat→w'.toNat<2^20→
        dynamicPriority (waited p w')≤dynamicPriority (waited p w)) ∧
      ∀ w : UInt32,w.toNat<2^20→3*p.rtime.toNat≤p.stime.toNat+w.toNat→
        dynamicPriority (waited p w)=min 100 p.staticPriority.toNat) ↔
    (3*p.rtime.toNat≤p.stime.toNat ∨ 2^20+p.stime.toNat≤3*p.rtime.toNat ∨
      100≤p.staticPriority.toNat ∧
        100≤(p.staticPriority.toNat+50*(3*p.rtime.toNat-p.stime.toNat))%2^32) := by
  have hdp : ∀ w : UInt32,w.toNat<2^20→dynamicPriority (waited p w)=
      min 100 ((p.staticPriority.toNat+50*(3*p.rtime.toNat-p.stime.toNat))%2^32) := by
    intro w hw
    rw [dynamicPriority_eq (p:=waited p w) ⟨hr,hs,hw⟩,schedRbi]
    exact congrArg (fun rbi => min 100 ((p.staticPriority.toNat+rbi)%2^32)) (if_neg hne)
  have hsp := p.staticPriority.toNat_lt
  constructor
  · rintro ⟨-,hback⟩
    by_cases hwait : 3*p.rtime.toNat≤p.stime.toNat ∨ 2^20+p.stime.toNat≤3*p.rtime.toNat
    · omega
    · -- The least waiting time that makes up for the run time is in the range.
      have hlt : 3*p.rtime.toNat-p.stime.toNat<2^32 := by omega
      have hw : (UInt32.ofNat (3*p.rtime.toNat-p.stime.toNat)).toNat=
          3*p.rtime.toNat-p.stime.toNat := UInt32.toNat_ofNat_of_lt' hlt
      have hcap := hback (UInt32.ofNat (3*p.rtime.toNat-p.stime.toNat)) (by omega) (by omega)
      rw [hdp _ (by omega)] at hcap
      omega
  · grind

/-- A process with static priority 50 that ran for one tick and has waited for
1000 still has the dynamic priority 100. -/
theorem waiting_has_no_effect :
    3*(1 : UInt32).toNat≤(0 : UInt32).toNat+(1000 : UInt32).toNat ∧
    dynamicPriority (waited {zeroProc with rtime := 1,staticPriority := 50} 1000)=100 ∧
    dynamicPriority (waited {zeroProc with rtime := 1,staticPriority := 50} 1000)≠min 100 50 :=
  ⟨by decide,by decide,by decide⟩

/-- A process that slept three times as long as it ran is at its static priority. -/
theorem sleeper_keeps_priority :
    dynamicPriority (waited {zeroProc with rtime := 1,stime := 3,staticPriority := 50} 7)=50 :=
  ((waiting_ages_iff (p:={zeroProc with rtime := 1,stime := 3,staticPriority := 50}) (by decide)
    (by decide) (by decide)).mpr (Or.inl (by decide))).2 7 (by decide) (by decide)

end Xv6Riscv.PriorityArithmetic
