import Xv6Riscv.FileRuns

/-!
# Directories are maps

dirlink enters only names that dirlookup has missed. So along every run of
system calls no two used entries of a directory have one name.
-/

namespace Xv6Riscv.DirectoryMaps

open Function
open Transition InodeLayer DirectoryLayer FileTree LinkCounts FileView FileSyscalls FileRuns

variable {img : Image} {s : Sys} {as : List (ℕ×Call)} {N : ℕ} {t t' : Tree} {d i k : ℕ} {ed : Edit}
  {es : List Dirent} {name : List UInt8}

/-- The test of dirlookup on an entry. -/
def answers (name : List UInt8) (de : Dirent) : Bool := de.inum≠0 && namecmp name de.name

def Distinct (es : List Dirent) : Prop := ∀ name,es.countP (answers name)≤1

lemma Distinct.place (h : Distinct es) (hroom : Room es k) (habs : Absent es name) :
    Distinct (place es k ⟨i,strncpy name⟩) := by
  intro other
  rw [countP_place hroom fun e h0 => by simp [answers,h0]]
  split_ifs with hans
  · have hclip : clip other=clip name := by
      rw [←clip_strncpy name]
      exact (namecmp_iff _ _).mp (Bool.and_eq_true_iff.mp hans).2
    have hzero : es.countP (answers other)=0 := by
      rw [List.countP_eq_zero]
      intro e he hc
      obtain ⟨h0,hcmp⟩ := Bool.and_eq_true_iff.mp hc
      have hno := habs e he (of_decide_eq_true h0)
      rw [(namecmp_iff _ _).mpr (hclip.symm.trans ((namecmp_iff _ _).mp hcmp))] at hno
      cases hno
    omega
  · exact h other

lemma Distinct.clear (h : Distinct es) (k : ℕ) : Distinct (es.set k Dirent.zero) := by
  intro name
  have hzero : answers name Dirent.zero=false := rfl
  by_cases hk : k<es.length
  · rw [List.countP_set hk,hzero]
    exact (Nat.sub_le _ _).trans (h name)
  · rw [List.set_eq_of_length_le (by omega)]
    exact h name

lemma distinct_dotNode (i d : ℕ) : Distinct (dotNode i d) := by
  intro name
  by_contra hc
  have hboth : namecmp name (strncpy dot)=true ∧ namecmp name (strncpy dotdot)=true := by
    grind [dotNode,answers]
  have hclip := ((namecmp_iff _ _).mp hboth.1).symm.trans ((namecmp_iff _ _).mp hboth.2)
  exact absurd hclip (by decide)

def NamesDistinct (t : Tree) : Prop := ∀ d n,t d=some n→Distinct n.entries

lemma namesDistinct_step (h : NamesDistinct t) (hs : Step N t ed t') : NamesDistinct t' := by
  -- Every edit but free writes one directory and one more inode.
  have htwo : ∀ {d i : ℕ} {nd ni : Node},Distinct nd.entries→Distinct ni.entries→
      NamesDistinct (update (update t d (some nd)) i (some ni)) := by
    intro d i nd ni hnd hni x n hx
    simp only [update_apply] at hx
    split_ifs at hx
    · exact Option.some.inj hx ▸ hni
    · exact Option.some.inj hx ▸ hnd
    · exact h x n hx
  cases hs with
  | free =>
    intro x n hx
    simp only [update_apply] at hx
    split_ifs at hx
    exact h x n hx
  | @create d i k nd name isDir hd hdir hi hr hroom habs =>
    refine htwo ((h d nd hd).place hroom habs) ?_
    cases isDir with
    | false => exact fun _ => Nat.zero_le 1
    | true => exact distinct_dotNode i d
  | @link d i k nd ni name hd hdir hi hplain hroom habs =>
    exact htwo ((h d nd hd).place hroom habs) (h i ni hi)
  | @unlink d i k nd ni e hd hdir hk he h0 hdot hdotdot hi =>
    exact htwo ((h d nd hd).clear k) (h i ni hi)

/-- In every state of every run a directory has at most one entry that dirlookup
can return for a name, and its size is that of its entries. -/
theorem directory_names_distinct (h : Consistent img) (h0 : NamesDistinct (tree (boot img).fs))
    (hrun : run step (boot img) as=.next s) {n : Node} (hd : tree s.fs d=some n) :
    (∀ name,n.entries.countP (answers name)≤1) ∧
      (n.isDir=true→(s.fs.dinode d).size=direntSize*n.entries.length) := by
  have hg : Guarded step (Calm fun _ _ => True) (boot img) as :=
    guarded_of_forall (fun _ _ _ _ _ _ => trivial) _ as
  obtain ⟨h1,-⟩ := @run_tree img as (fun _ _ => True) NamesDistinct h (fun _ _ => trivial)
    (fun _ _ _ ht _ hs => namesDistinct_step ht hs) h0 hg
  obtain ⟨hs,hinv⟩ := h1 s hrun
  refine ⟨hinv d n hd,fun hdir => ?_⟩
  obtain ⟨-,rfl⟩ := tree_isSome hd
  have htype := of_decide_eq_true hdir
  have hal := hs.files.sound.formed.aligned d htype
  simp only [node,if_pos htype,entries,List.length_map,List.length_range]
  exact (Nat.mul_div_cancel' (Nat.dvd_of_mod_eq_zero hal)).symm

lemma freshTree_namesDistinct : NamesDistinct freshTree := by
  intro d n hd
  obtain ⟨-,rfl⟩ := freshTree_some hd
  exact distinct_dotNode rootino rootino

theorem namingRun_names : ∃ s,run step (boot (rootImage 40)) namingRun=.next s ∧
    ∃ n,tree s.fs rootino=some n ∧ ∀ name,n.entries.countP (answers name)≤1 := by
  have hrun : (run step (boot (rootImage 40)) namingRun).state?.map
      (fun s => (tree s.fs rootino).isSome)=some true := by decide +kernel
  obtain ⟨s,hs,hroot⟩ := exists_of_state? hrun
  obtain ⟨n,hn⟩ := Option.isSome_iff_exists.mp hroot
  exact ⟨s,hs,n,hn,(directory_names_distinct (rootImage_consistent (by decide) (by decide))
    (by rw [rootImage_tree]; exact freshTree_namesDistinct) hs hn).1⟩

end Xv6Riscv.DirectoryMaps
