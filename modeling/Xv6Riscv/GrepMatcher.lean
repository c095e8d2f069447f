import Mathlib

/-!
# The pattern matcher of grep

match, matchhere and matchstar of user/grep.c on NUL-terminated strings, which
are the lists of their bytes before the NUL. The language of a pattern is a
relation between the pattern, a word and what follows the word in the text,
because a final dollar looks at what follows.
-/

namespace Xv6Riscv.GrepMatcher

/-- The byte of the repetition operator. -/
def star : UInt8 := 42

/-- The byte that stands for any character. -/
def dot : UInt8 := 46

/-- The byte that stands for the end of the text when it ends the pattern. -/
def dollar : UInt8 := 36

/-- The byte that fixes the match to the start of the text. -/
def caret : UInt8 := 94

mutual

/-- matchhere: search for re at the beginning of text. -/
def matchhere : List UInt8→List UInt8→Bool
  | [],_ => true
  | [c],text =>
    if c=dollar then text.isEmpty
    else match text with
      | [] => false
      | t::ts => (c=dot || c=t) && matchhere [] ts
  | c::d::re,text =>
    if d=star then matchstar c re text
    else match text with
      | [] => false
      | t::ts => (c=dot || c=t) && matchhere (d::re) ts
termination_by re _ => (re.length,0)

/-- matchstar: search for c*re at the beginning of text. -/
def matchstar (c : UInt8) (re text : List UInt8) : Bool :=
  matchhere re text || match text with
    | [] => false
    | t::ts => (t=c || c=dot) && matchstar c re ts
termination_by (re.length,text.length+1)

end

/-- The loop of match over the starts of the text, the empty rest included. -/
def matchFrom (re : List UInt8) : List UInt8→Bool
  | [] => matchhere re []
  | t::ts => matchhere re (t::ts) || matchFrom re ts

/-- match of grep.c. -/
def matchText (re text : List UInt8) : Bool :=
  match re with
  | [] => matchFrom [] text
  | c::rest => if c=caret then matchhere rest text else matchFrom (c::rest) text

/-- A character of a pattern stands for a character of the text. -/
def Accepts (c t : UInt8) : Prop := c=dot ∨ c=t

/-- The language of a pattern: Denotes re w rest says that w belongs to it
when rest follows w in the text. -/
inductive Denotes : List UInt8→List UInt8→List UInt8→Prop where
  /-- The empty pattern. -/
  | nil {rest : List UInt8} : Denotes [] [] rest
  /-- A final dollar. -/
  | ending : Denotes [dollar] [] []
  /-- x* for any character x, the operators included. -/
  | repeated {c : UInt8} {re u v rest : List UInt8} (hu : ∀ t∈u,Accepts c t)
      (h : Denotes re v rest) : Denotes (c::star::re) (u++v) rest
  /-- One character that is neither repeated nor a final dollar. -/
  | single {c t : UInt8} {re v rest : List UInt8} (hstar : re.head?≠some star)
      (hend : ¬(c=dollar ∧ re=[])) (hc : Accepts c t) (h : Denotes re v rest) :
      Denotes (c::re) (t::v) rest

/-- A pattern occurs in a text: at its start if the pattern begins with a
caret, anywhere otherwise. -/
def Occurs (re text : List UInt8) : Prop :=
  (∃ re' w rest,re=caret::re' ∧ text=w++rest ∧ Denotes re' w rest) ∨
    re.head?≠some caret ∧ ∃ u w rest,text=u++w++rest ∧ Denotes re w rest

/-- The test of one character in matchhere. -/
lemma single_iff (c : UInt8) (text : List UInt8) (p : List UInt8→Bool) :
    (match text with
      | [] => false
      | t::ts => (c=dot || c=t) && p ts)=true ↔
      ∃ t ts,text=t::ts ∧ Accepts c t ∧ p ts=true := by
  cases text with
  | nil => simp
  | cons t ts => simp [Accepts]

/-- matchstar takes off some characters that c stands for and calls
matchhere on the rest. -/
lemma matchstar_iff (c : UInt8) (re text : List UInt8) :
    matchstar c re text=true ↔
      ∃ u v,text=u++v ∧ (∀ t∈u,Accepts c t) ∧ matchhere re v=true := by
  induction text with
  | nil =>
    rw [matchstar]
    constructor
    · intro h
      exact ⟨[],[],rfl,nofun,by simpa using h⟩
    · rintro ⟨u,v,huv,-,hv⟩
      obtain ⟨rfl,rfl⟩ := List.append_eq_nil_iff.mp huv.symm
      simpa using hv
  | cons t ts ih =>
    rw [matchstar,Bool.or_eq_true,Bool.and_eq_true,ih]
    constructor
    · rintro (hhere|⟨ht,u,v,rfl,hu,hv⟩)
      · exact ⟨[],t::ts,rfl,nofun,hhere⟩
      · refine ⟨t::u,v,rfl,?_,hv⟩
        have hc : Accepts c t := by
          simp only [Bool.or_eq_true,decide_eq_true_eq] at ht
          exact ht.elim (fun h => .inr h.symm) .inl
        exact List.forall_mem_cons.mpr ⟨hc,hu⟩
    · rintro ⟨u,v,huv,hu,hv⟩
      cases u with
      | nil =>
        rw [List.nil_append] at huv
        exact .inl (huv ▸ hv)
      | cons s u =>
        obtain ⟨rfl,rfl⟩ := List.cons.inj huv
        obtain ⟨hc,hu⟩ := List.forall_mem_cons.mp hu
        refine .inr ⟨?_,u,v,rfl,hu,hv⟩
        simp only [Bool.or_eq_true,decide_eq_true_eq]
        exact hc.elim .inr fun h => .inl h.symm

/-- matchhere finds exactly the prefixes of the text that are in the language
of the pattern. -/
lemma matchhere_iff : ∀ re text : List UInt8,
    matchhere re text=true ↔ ∃ w rest,text=w++rest ∧ Denotes re w rest
  | [],text => by
    rw [matchhere]
    exact ⟨fun _ => ⟨[],text,rfl,.nil⟩,fun _ => rfl⟩
  | [c],text => by
    rw [matchhere.eq_def]
    dsimp only
    split_ifs with hc
    · subst hc
      constructor
      · intro h
        rw [List.isEmpty_iff.mp h]
        exact ⟨[],[],rfl,.ending⟩
      · rintro ⟨w,rest,rfl,h⟩
        cases h with
        | ending => rfl
        | single hstar hend => exact absurd ⟨rfl,rfl⟩ hend
    · rw [single_iff c text]
      constructor
      · rintro ⟨t,ts,rfl,ha,-⟩
        exact ⟨[t],ts,rfl,.single nofun (fun h => hc h.1) ha .nil⟩
      · rintro ⟨w,rest,rfl,h⟩
        cases h with
        | ending => exact absurd rfl hc
        | single hstar hend ha h => exact ⟨_,_,rfl,ha,by rw [matchhere]⟩
  | c::d::re,text => by
    rw [matchhere.eq_def]
    dsimp only
    split_ifs with hd
    · subst hd
      rw [matchstar_iff]
      constructor
      · rintro ⟨u,v,rfl,hu,hv⟩
        obtain ⟨w,rest,rfl,h⟩ := (matchhere_iff re v).mp hv
        exact ⟨u++w,rest,(List.append_assoc u w rest).symm,.repeated hu h⟩
      · rintro ⟨w,rest,rfl,h⟩
        cases h with
        | repeated hu h =>
          exact ⟨_,_,List.append_assoc _ _ _,hu,(matchhere_iff re _).mpr ⟨_,rest,rfl,h⟩⟩
        | single hstar => exact absurd rfl hstar
    · rw [single_iff c text]
      constructor
      · rintro ⟨t,ts,rfl,ha,hts⟩
        obtain ⟨w,rest,rfl,h⟩ := (matchhere_iff (d::re) ts).mp hts
        exact ⟨t::w,rest,rfl,.single (fun h => hd (Option.some.inj h)) nofun ha h⟩
      · rintro ⟨w,rest,rfl,h⟩
        cases h with
        | repeated => exact absurd rfl hd
        | single hstar hend ha h =>
          exact ⟨_,_,rfl,ha,(matchhere_iff (d::re) _).mpr ⟨_,rest,rfl,h⟩⟩

/-- The loop of match tries every start. -/
lemma matchFrom_iff (re text : List UInt8) :
    matchFrom re text=true ↔ ∃ u v,text=u++v ∧ matchhere re v=true := by
  induction text with
  | nil =>
    constructor
    · intro h
      exact ⟨[],[],rfl,h⟩
    · rintro ⟨u,v,huv,hv⟩
      obtain ⟨rfl,rfl⟩ := List.append_eq_nil_iff.mp huv.symm
      exact hv
  | cons t ts ih =>
    rw [matchFrom,Bool.or_eq_true,ih]
    constructor
    · rintro (h|⟨u,v,rfl,hv⟩)
      · exact ⟨[],t::ts,rfl,h⟩
      · exact ⟨t::u,v,rfl,hv⟩
    · rintro ⟨u,v,huv,hv⟩
      cases u with
      | nil =>
        rw [List.nil_append] at huv
        exact .inl (huv ▸ hv)
      | cons s u => exact .inr ⟨u,v,(List.cons.inj huv).2,hv⟩

/-- A pattern without a caret is searched from every start. -/
lemma searched_iff (re text : List UInt8) : matchFrom re text=true ↔
    ∃ u w rest,text=u++w++rest ∧ Denotes re w rest := by
  rw [matchFrom_iff]
  constructor
  · rintro ⟨u,v,rfl,hv⟩
    obtain ⟨w,rest,rfl,h⟩ := (matchhere_iff re v).mp hv
    exact ⟨u,w,rest,(List.append_assoc u w rest).symm,h⟩
  · rintro ⟨u,w,rest,rfl,h⟩
    exact ⟨u,w++rest,List.append_assoc u w rest,(matchhere_iff re _).mpr ⟨w,rest,rfl,h⟩⟩

/-- match returns 1 exactly when the pattern occurs in the text. The three
functions are total, so they return on every pattern and every text. -/
theorem match_implements_language (re text : List UInt8) :
    matchText re text=true ↔ Occurs re text := by
  cases re with
  | nil =>
    rw [matchText,searched_iff]
    exact ⟨fun h => .inr ⟨nofun,h⟩,fun h => h.elim (fun ⟨_,_,_,hre,_⟩ => nomatch hre) And.right⟩
  | cons c re =>
    rw [matchText]
    split_ifs with hc
    · subst hc
      rw [matchhere_iff]
      constructor
      · rintro ⟨w,rest,htext,h⟩
        exact .inl ⟨re,w,rest,rfl,htext,h⟩
      · rintro (⟨re',w,rest,hre,htext,h⟩|⟨hne,-⟩)
        · cases hre
          exact ⟨w,rest,htext,h⟩
        · exact absurd rfl hne
    · rw [searched_iff]
      constructor
      · intro h
        exact .inr ⟨fun hhead => hc (Option.some.inj hhead),h⟩
      · rintro (⟨re',w,rest,hre,-,-⟩|⟨-,h⟩)
        · exact absurd (List.cons.inj hre).1 hc
        · exact h

end Xv6Riscv.GrepMatcher
