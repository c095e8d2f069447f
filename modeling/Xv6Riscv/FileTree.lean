import Xv6Riscv.DirectoryLayer
import Xv6Riscv.Tally

/-!
# The directory tree

The naming part of a file system without blocks and tables: inode numbers with
a kind, a link count and, for a directory, its list of entries. The naming
system calls are edits of this tree. The link invariant relates link counts to
the names that are in the tree; every edit keeps it as long as no link count
overflows its 16 bits.
-/

namespace Xv6Riscv.FileTree

open Function
open InodeLayer DirectoryLayer Tally

structure Node where
  isDir : Bool
  nlink : ℤ
  entries : List Dirent

abbrev Tree := ℕ→Option Node

def lookup (es : List Dirent) (name : List UInt8) : Option Dirent :=
  es.find? fun de => de.inum≠0 && namecmp name de.name

def Absent (es : List Dirent) (name : List UInt8) : Prop :=
  ∀ e∈es,e.inum≠0→namecmp name e.name=false

/-- The entry at an index is unused, or the index is the end of the list. -/
def Room (es : List Dirent) (k : ℕ) : Prop := (∃ e,es[k]?=some e ∧ e.inum=0) ∨ k=es.length

/-- Write an entry into a list that has room for it at the index. -/
def place (es : List Dirent) (k : ℕ) (de : Dirent) : List Dirent :=
  if k<es.length then es.set k de else es++[de]

def dotNode (i d : ℕ) : List Dirent := [⟨i,strncpy dot⟩,⟨d,strncpy dotdot⟩]

inductive Edit where
  | free (i : ℕ)
  | create (d i : ℕ) (isDir : Bool)
  | link (d i : ℕ)
  | unlink (d i : ℕ)

inductive Step (N : ℕ) : Tree→Edit→Tree→Prop
  | free {t : Tree} {i : ℕ} {n : Node} (hi : t i=some n) (hn : n.nlink=0) :
    Step N t (.free i) (update t i none)
  | create {t : Tree} {d i k : ℕ} {nd : Node} {name : List UInt8} {isDir : Bool}
    (hd : t d=some nd) (hdir : nd.isDir=true) (hi : t i=none) (hr : 0< i ∧ i<N)
    (hroom : Room nd.entries k) (habs : Absent nd.entries name) :
    Step N t (.create d i isDir) (update (update t d (some
      ⟨true,if isDir then short (nd.nlink+1) else nd.nlink,place nd.entries k ⟨i,strncpy name⟩⟩))
      i (some ⟨isDir,1,if isDir then dotNode i d else []⟩))
  | link {t : Tree} {d i k : ℕ} {nd ni : Node} {name : List UInt8}
    (hd : t d=some nd) (hdir : nd.isDir=true) (hi : t i=some ni) (hplain : ni.isDir=false)
    (hroom : Room nd.entries k) (habs : Absent nd.entries name) :
    Step N t (.link d i) (update (update t d (some
      ⟨true,nd.nlink,place nd.entries k ⟨i,strncpy name⟩⟩))
      i (some ⟨false,short (ni.nlink+1),ni.entries⟩))
  | unlink {t : Tree} {d i k : ℕ} {nd ni : Node} {e : Dirent}
    (hd : t d=some nd) (hdir : nd.isDir=true) (hk : nd.entries[k]?=some e) (he : e.inum=i)
    (h0 : i≠0) (hdot : namecmp dot e.name=false) (hdotdot : namecmp dotdot e.name=false)
    (hi : t i=some ni) (hne : i≠d) (hpos : 1≤ni.nlink)
    (hempty : ni.isDir=true→∀ e∈ni.entries.drop 2,e.inum=0) :
    Step N t (.unlink d i) (update (update t d (some
      ⟨true,if ni.isDir then short (nd.nlink+-1) else nd.nlink,nd.entries.set k Dirent.zero⟩))
      i (some ⟨ni.isDir,short (ni.nlink+-1),ni.entries⟩))

inductive Steps (N : ℕ) (ok : Tree→Edit→Prop) : Tree→Tree→Prop
  | refl (t : Tree) : Steps N ok t t
  | tail {t u v : Tree} {e : Edit} (h : Steps N ok t u) (hok : ok u e) (hs : Step N u e v) :
    Steps N ok t v

lemma Steps.single {N : ℕ} {ok : Tree→Edit→Prop} {t u : Tree} {e : Edit} (hok : ok t e)
    (h : Step N t e u) : Steps N ok t u := .tail (.refl t) hok h

lemma Steps.trans {N : ℕ} {ok : Tree→Edit→Prop} {t u v : Tree} (h : Steps N ok t u)
    (h' : Steps N ok u v) : Steps N ok t v := by
  induction h' with
  | refl => exact h
  | tail _ hok hs ih => exact .tail ih hok hs

lemma Steps.invariant {N : ℕ} {ok : Tree→Edit→Prop} {inv : Tree→Prop}
    (hstep : ∀ t e u,inv t → ok t e → Step N t e u → inv u) {t u : Tree} (h : Steps N ok t u) (ht : inv t) :
    inv u := by
  induction h with
  | refl => exact ht
  | tail _ hok hs ih => exact hstep _ _ _ ih hok hs

def clip (s : List UInt8) : List UInt8 := (s.takeWhile (·≠0)).take dirsiz

lemma strncmp_iff (n : ℕ) (s t : List UInt8) :
    strncmp n s t=true ↔ (s.takeWhile (·≠0)).take n=(t.takeWhile (·≠0)).take n := by
  induction n generalizing s t with
  | zero => simp only [strncmp,List.take_zero]
  | succ n ih =>
    cases s with
    | nil =>
      cases t with
      | nil => simp [strncmp]
      | cons b t =>
        by_cases hb : b=0
        · simp [strncmp,hb]
        · simp [strncmp,hb,Ne.symm hb]
    | cons a s =>
      cases t with
      | nil =>
        by_cases ha : a=0
        · simp [strncmp,ha]
        · simp [strncmp,ha]
      | cons b t =>
        by_cases hab : a=b
        · subst hab
          by_cases ha : a=0
          · simp [strncmp,ha]
          · have := ih s t
            simp only [ne_eq,decide_not] at this
            simp [strncmp,ha,this]
        · by_cases ha : a=0
          · have hb : b≠0 := fun hb => hab (ha.trans hb.symm)
            simp [strncmp,ha,hb,Ne.symm hb]
          · by_cases hb : b=0
            · simp [strncmp,ha,hb]
            · simp [strncmp,hab,ha,hb]

lemma namecmp_iff (s t : List UInt8) : namecmp s t=true ↔ clip s=clip t := strncmp_iff dirsiz s t

lemma clip_strncpy (s : List UInt8) : clip (strncpy s)=clip s := by
  have hne : ∀ x∈(s.takeWhile (·≠0)).take dirsiz,x≠0 := by
    intro x hx
    have := List.mem_takeWhile_imp (List.mem_of_mem_take hx)
    simpa only [ne_eq,decide_not,Bool.not_eq_true',decide_eq_false_iff_not] using this
  have hlen : ((s.takeWhile (·≠0)).take dirsiz).length≤dirsiz := List.length_take_le _ _
  simp only [clip,strncpy]
  rw [List.takeWhile_append_of_pos (by
    intro x hx
    simpa only [ne_eq,decide_not,Bool.not_eq_true',decide_eq_false_iff_not] using hne x hx)]
  have hz : (List.replicate (dirsiz-((s.takeWhile (·≠0)).take dirsiz).length) (0 : UInt8)).takeWhile
      (·≠0)=[] := by
    cases dirsiz-((s.takeWhile (·≠0)).take dirsiz).length with
    | zero => rfl
    | succ n => simp [List.replicate_succ]
  rw [hz,List.append_nil,List.take_of_length_le hlen]

lemma namecmp_strncpy {s name other : List UInt8} (h : namecmp name other=false)
    (hs : namecmp s other=true) : namecmp s (strncpy name)=false := by
  rw [Bool.eq_false_iff]
  intro hc
  rw [namecmp_iff,clip_strncpy] at hc
  rw [namecmp_iff] at hs
  rw [Bool.eq_false_iff] at h
  exact h ((namecmp_iff _ _).mpr (hc.symm.trans hs))

end Xv6Riscv.FileTree
