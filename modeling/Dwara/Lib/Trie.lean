import Dwara.Lib.Buckets
import Mathlib.Logic.Function.Basic

/-! Prefix tries, and the matches along a path. -/

namespace Dwara.Lib

/-- Each node keeps the values inserted at it, in the order of insertion. -/
inductive Trie (κ ι : Type) where
  | node (here : List ι) (children : κ → Option (Trie κ ι))

namespace Trie
variable {κ ι : Type}

def empty : Trie κ ι := node [] (fun _ => none)

def here : Trie κ ι → List ι
  | node here _ => here

def children : Trie κ ι → κ → Option (Trie κ ι)
  | node _ children => children

@[simp] theorem children_node (here : List ι) (children : κ → Option (Trie κ ι)) : (node here children).children = children := rfl

def insert [DecidableEq κ] (value : ι) : List κ → Trie κ ι → Trie κ ι
  | [], t => node (t.here ++ [value]) t.children
  | k :: ks, t => node t.here (Function.update t.children k (some (insert value ks ((t.children k).getD empty))))

/-- Follow the path below a node, keeping the first value of the deepest node that has one. -/
def longestFrom (best : Option ι) : List κ → Trie κ ι → Option ι
  | [], _ => best
  | k :: ks, t =>
    match t.children k with
    | some child => longestFrom (child.here.head?.or best) ks child
    | none => best

def longestMatch (path : List κ) (t : Trie κ ι) : Option ι := longestFrom t.here.head? path t

/-- The values below a node along the path, one list for each node that has any. -/
def collectFrom : List κ → Trie κ ι → List (List ι)
  | [], _ => []
  | k :: ks, t =>
    match t.children k with
    | some child => (if child.here = [] then [] else [child.here]) ++ collectFrom ks child
    | none => []

def collectMatches (path : List κ) (t : Trie κ ι) : List (List ι) :=
  (if t.here = [] then [] else [t.here]) ++ collectFrom path t

private theorem head?_guard (here : List ι) : (if here = [] then [] else [here]).reverse.flatten.head? = here.head? := by
  cases here with
  | nil => rfl
  | cons i is => simp

private theorem longestFrom_eq (path : List κ) :
    ∀ (best : Option ι) (t : Trie κ ι), longestFrom best path t = (collectFrom path t).reverse.flatten.head?.or best := by
  induction path with
  | nil => intro best t; rfl
  | cons k ks ih =>
    intro best t
    rw [longestFrom,collectFrom]
    cases t.children k with
    | none => rfl
    | some child =>
      simp only
      rw [ih,List.reverse_append,List.flatten_append,List.head?_append,head?_guard,Option.or_assoc]

/-- The longest match is the first of all matches, longest first. -/
theorem longestMatch_eq_head? (path : List κ) (t : Trie κ ι) :
    t.longestMatch path = (t.collectMatches path).reverse.flatten.head? := by
  rw [longestMatch,longestFrom_eq,collectMatches,List.reverse_append,List.flatten_append,List.head?_append,head?_guard]

/-- The values at the end of a path. -/
def valuesAt : List κ → Trie κ ι → List ι
  | [], t => t.here
  | k :: ks, t => ((t.children k).map (valuesAt ks)).getD []

@[simp] theorem valuesAt_empty (ks : List κ) : valuesAt ks (empty : Trie κ ι) = [] := by
  cases ks <;> rfl

/-- Longest first, the matches along a path are the values at its parts. -/
theorem collectMatches_eq_descending (path : List κ) (t : Trie κ ι) :
    (t.collectMatches path).reverse.flatten = descending (fun n => t.valuesAt (path.take n)) path.length := by
  have hroot : ∀ (path : List κ) (t : Trie κ ι), (t.collectMatches path).reverse.flatten =
      (collectFrom path t).reverse.flatten ++ t.here := by
    intro path t
    rw [collectMatches,List.reverse_append,List.flatten_append]
    cases t.here <;> simp
  induction path generalizing t with
  | nil => exact hroot [] t
  | cons k ks ih =>
    rw [hroot,List.length_cons,descending_succ]
    congr 1
    rw [collectFrom]
    cases hchild : t.children k with
    | none => exact (descending_eq_nil fun n _ => by simp [valuesAt,hchild]).symm
    | some child =>
      have hbelow : ∀ n, t.valuesAt ((k :: ks).take (n + 1)) = child.valuesAt (ks.take n) := fun n => by
        simp [valuesAt,hchild]
      simp only [hbelow,← ih]
      rfl

section Insert
variable [DecidableEq κ]

/-- A value is added behind those at the end of its path, and nowhere else. -/
theorem valuesAt_insert (value : ι) (ks ks' : List κ) (t : Trie κ ι) :
    (t.insert value ks).valuesAt ks' = if ks = ks' then t.valuesAt ks' ++ [value] else t.valuesAt ks' := by
  induction ks generalizing ks' t with
  | nil => cases ks' <;> simp [insert,valuesAt,here,children]
  | cons k ks ih =>
    cases ks' with
    | nil => simp [insert,valuesAt,here]
    | cons k' ks' =>
      by_cases hk : k' = k
      · subst hk
        have hold : ((t.children k').getD empty).valuesAt ks' = t.valuesAt (k' :: ks') := by
          rw [valuesAt]
          cases t.children k' <;> simp
        have hnew : (t.insert value (k' :: ks)).valuesAt (k' :: ks') = (insert value ks ((t.children k').getD empty)).valuesAt ks' := by
          rw [insert,valuesAt,children_node,Function.update_self]
          rfl
        rw [hnew,ih,hold]
        simp only [List.cons.injEq,true_and]
      · rw [if_neg (fun h => hk (List.cons.inj h).1.symm),insert,valuesAt,children_node,Function.update_of_ne hk,valuesAt]

/-- A trie built by inserting values one after the other keeps their order at every path. -/
theorem valuesAt_foldl (es : List (List κ × ι)) (path : List κ) (t : Trie κ ι) :
    (es.foldl (fun t e => t.insert e.2 e.1) t).valuesAt path = t.valuesAt path ++ (es.filter (·.1 = path)).map (·.2) := by
  induction es generalizing t with
  | nil => simp
  | cons e es ih =>
    rw [List.foldl_cons,ih,valuesAt_insert]
    by_cases he : e.1 = path <;> simp [he]

/-- The matches along a path are the inserted values whose path is a part of it, the longest
first, and among equals in the order of insertion. -/
theorem collectMatches_foldl (es : List (List κ × ι)) (path : List κ) :
    ((es.foldl (fun t e => t.insert e.2 e.1) empty).collectMatches path).reverse.flatten =
      ((es.filter (·.1 <+: path)).insertionSort fun a b => b.1.length ≤ a.1.length).map (·.2) := by
  have hshort : ∀ e ∈ es.filter (·.1 <+: path), e.1.length ≤ path.length := fun e he =>
    (of_decide_eq_true (List.mem_filter.mp he).2).length_le
  have hsort : (es.filter (·.1 <+: path)).insertionSort (fun a b => b.1.length ≤ a.1.length) =
      descending (bucket (fun e : List κ × ι => e.1.length) (es.filter (·.1 <+: path))) path.length :=
    insertionSort_eq_descending _ _ hshort
  rw [collectMatches_eq_descending,hsort,map_descending]
  apply descending_congr
  intro n hn
  rw [valuesAt_foldl,valuesAt_empty,List.nil_append,bucket,List.filter_filter]
  congr 1
  apply List.filter_congr
  intro e _
  rw [Bool.eq_iff_iff]
  simp only [decide_eq_true_eq,Bool.and_eq_true]
  constructor
  · intro h
    rw [h]
    exact ⟨by simp [hn],List.take_prefix n path⟩
  · rintro ⟨hlen,hstart⟩
    rw [← hlen]
    exact List.prefix_iff_eq_take.mp hstart

end Insert

end Trie
end Dwara.Lib
