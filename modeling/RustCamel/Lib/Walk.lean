-- Walks over finite trees: what a walk that leaves out some subtrees collects, against the
-- walk that goes everywhere.
import Mathlib.Data.List.Basic

open List

/-- A type of trees. Each node has labels of its own and smaller nodes under it. -/
structure LabelledTree (T L : Type) where
  label : T → List L
  children : T → List T
  size : T → Nat
  smaller : ∀ t, ∀ c ∈ children t, size c < size t

namespace LabelledTree

variable {T L : Type} (tree : LabelledTree T L)

/-- The labels of a node and of all that is under it, without what is under the nodes that
are pruned. -/
def walk (prune : T → Bool) (t : T) : List L :=
  tree.label t ++ if prune t then [] else
    (tree.children t).attach.flatMap fun c => walk prune c.1
termination_by tree.size t
decreasing_by exact tree.smaller t c.1 c.2

/-- The walk that goes everywhere. -/
def full (t : T) : List L := tree.walk (fun _ => false) t

/-- A node of the tree `t`, at any depth. -/
inductive Within (tree : LabelledTree T L) : T → T → Prop
  | refl (t : T) : Within tree t t
  | child {t c u : T} : c ∈ tree.children t → Within tree u c → Within tree u t

variable (prune : T → Bool) {l : List T} (t : T)

theorem walk_eq :
    tree.walk prune t =
      tree.label t ++ if prune t then [] else (tree.children t).flatMap (tree.walk prune) := by
  rw [walk]
  congr 1
  split
  · rfl
  · rw [flatMap_subtype (g := tree.walk prune) (by simp), List.unattach_attach]

theorem full_eq : tree.full t = tree.label t ++ (tree.children t).flatMap tree.full := by
  unfold full
  rw [walk_eq]
  simp only [Bool.false_eq_true, if_false]

theorem induction {P : T → Prop} (h : ∀ t, (∀ c ∈ tree.children t, P c) → P t) (t : T) : P t := by
  induction hn : tree.size t using Nat.strongRecOn generalizing t with
  | ind n ih =>
    apply h
    intro c hc
    exact ih (tree.size c) (by rw [← hn]; exact tree.smaller t c hc) c rfl

/-- A function that goes through the tree in the same way is the walk. -/
theorem eq_walk {prune : T → Bool} {f : T → List L}
    (h : ∀ t, f t = tree.label t ++ if prune t then [] else (tree.children t).flatMap f) (t : T) :
    f t = tree.walk prune t := by
  induction t using tree.induction with
  | h t ih =>
    rw [h, walk_eq]
    congr 1
    split
    · rfl
    · exact flatMap_congr ih

theorem sublist_of_parts {g g' : T → List L} (h : ∀ x ∈ l, (g x).Sublist (g' x)) :
    (l.flatMap g).Sublist (l.flatMap g') := by
  induction l with
  | nil => exact nil_sublist _
  | cons a l ih =>
    have hf : (g a).Sublist (g' a) := h a mem_cons_self
    have hr := ih fun x hx => h x (mem_cons_of_mem a hx)
    rw [flatMap_cons, flatMap_cons]
    exact hf.append hr

theorem eq_iff_of_parts {g g' : T → List L} (h : ∀ x ∈ l, (g x).Sublist (g' x)) :
    l.flatMap g = l.flatMap g' ↔ ∀ x ∈ l, g x = g' x := by
  induction l with
  | nil => simp
  | cons a l ih =>
    have hr : ∀ x ∈ l, (g x).Sublist (g' x) := fun x hx => h x (by simp [hx])
    have ha := h a (by simp)
    rw [flatMap_cons, flatMap_cons]
    constructor
    · intro heq
      have hlen : (g a).length + (l.flatMap g).length = (g' a).length + (l.flatMap g').length := by
        rw [← length_append, heq, length_append]
      have hf := ha.length_le
      have hlast := (sublist_of_parts hr).length_le
      have hg : g a = g' a := ha.eq_of_length (by omega)
      rw [hg] at heq
      have hl := (ih hr).mp (append_cancel_left heq)
      intro x hx
      rcases mem_cons.mp hx with rfl | hx
      · exact hg
      · exact hl x hx
    · intro heq
      rw [heq a (by simp), (ih hr).mpr fun x hx => heq x (by simp [hx])]

theorem walk_sublist : (tree.walk prune t).Sublist (tree.full t) := by
  induction t using tree.induction with
  | h t ih =>
    rw [walk_eq, full_eq]
    apply List.Sublist.append (List.Sublist.refl _)
    split
    · exact nil_sublist _
    · exact sublist_of_parts ih

/-- A walk collects everything exactly when nothing is under the nodes that it prunes. -/
theorem walk_eq_full_iff :
    tree.walk prune t = tree.full t ↔
      ∀ u, tree.Within u t → prune u = true → (tree.children u).flatMap tree.full = [] := by
  induction t using tree.induction with
  | h t ih =>
    rw [walk_eq, full_eq, append_cancel_left_eq]
    have hch := eq_iff_of_parts fun c (_ : c ∈ tree.children t) => tree.walk_sublist prune c
    constructor
    · intro heq u hu hp
      by_cases hpr : prune t = true
      · simp only [hpr, if_true] at heq
        have hnil : ∀ c ∈ tree.children t, tree.full c = [] := flatMap_eq_nil_iff.mp heq.symm
        cases hu with
        | refl => exact heq.symm
        | child hc hu =>
          refine (ih _ hc).mp ?_ u hu hp
          have hs := tree.walk_sublist prune
          rw [hnil _ hc]
          exact sublist_nil.mp (by rw [← hnil _ hc]; exact hs _)
      · simp only [hpr, Bool.false_eq_true, if_false] at heq
        cases hu with
        | refl => exact absurd hp hpr
        | child hc hu => exact (ih _ hc).mp (hch.mp heq _ hc) u hu hp
    · intro h
      split
      · rename_i hpr
        exact (h t (.refl t) hpr).symm
      · apply hch.mpr
        intro c hc
        exact (ih c hc).mpr fun u hu hp => h u (.child hc hu) hp

end LabelledTree
