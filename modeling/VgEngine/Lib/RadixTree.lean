import Mathlib.Data.List.Infix

/-! Compressed tries: a node carries a label, a value and children told apart by the
first symbol of their labels. Values sit at paths, and `empty` is the value of a path
that no one has set. -/
namespace VgEngine.RadixTree

inductive Tree (α β : Type*) where
  | node (label : List α) (value : β) (children : List (Tree α β))

namespace Tree

variable {α β : Type*}

def label : Tree α β → List α
  | node label _ _ => label

def value : Tree α β → β
  | node _ value _ => value

def children : Tree α β → List (Tree α β)
  | node _ _ children => children

mutual
def map (f : β → β) : Tree α β → Tree α β
  | node label value children => node label (f value) (mapAll f children)
def mapAll (f : β → β) : List (Tree α β) → List (Tree α β)
  | [] => []
  | c :: cs => c.map f :: mapAll f cs
end

mutual
/-- All values, each before the ones below it. -/
def values : Tree α β → List β
  | node _ value children => value :: valuesAll children
def valuesAll : List (Tree α β) → List β
  | [] => []
  | c :: cs => c.values ++ valuesAll cs
end

end Tree

variable {α β : Type*} [DecidableEq α]

/-- Length of the longest common prefix. -/
def common : List α → List α → Nat
  | a :: as, b :: bs => if a = b then common as bs + 1 else 0
  | _, _ => 0

theorem common_le_right (as bs : List α) : common as bs ≤ bs.length := by
  induction as generalizing bs with
  | nil => cases bs <;> exact Nat.zero_le _
  | cons a as ih =>
    cases bs with
    | nil => exact Nat.zero_le _
    | cons b bs =>
      unfold common
      split
      · exact Nat.succ_le_succ (ih bs)
      · exact Nat.zero_le _

theorem take_common (as bs : List α) : bs.take (common as bs) = as.take (common as bs) := by
  induction as generalizing bs with
  | nil => cases bs <;> rfl
  | cons a as ih =>
    cases bs with
    | nil => rfl
    | cons b bs =>
      unfold common
      split
      · rename_i heq
        rw [heq, List.take_succ_cons, List.take_succ_cons, ih bs]
      · rfl

/-- The common prefix is all of the second list exactly when that is a prefix. -/
theorem common_eq_length_iff {as bs : List α} : common as bs = bs.length ↔ bs <+: as := by
  constructor
  · intro h
    have htake := take_common as bs
    rw [h, List.take_length] at htake
    rw [htake]
    exact List.take_prefix _ _
  · rintro ⟨cs, rfl⟩
    induction bs with
    | nil => cases cs <;> rfl
    | cons b bs ih => simp [common, ih]

/-- Where both lists go on after the common prefix, they differ. -/
theorem head_drop_common_ne {as bs : List α} (ha : common as bs < as.length) :
    (as.drop (common as bs)).head? ≠ (bs.drop (common as bs)).head? := by
  induction as generalizing bs with
  | nil => simp at ha
  | cons a as ih =>
    cases bs with
    | nil => simp [common]
    | cons b bs =>
      unfold common at ha ⊢
      split
      · rename_i heq
        rw [if_pos heq, List.length_cons] at ha
        rw [List.drop_succ_cons, List.drop_succ_cons]
        exact ih (Nat.lt_of_succ_lt_succ ha)
      · rename_i hne
        simpa using hne

namespace Tree

/-- The child whose label starts like the path is the only one to look into. -/
def Leads (path : List α) (c : Tree α β) : Prop := c.label ≠ [] ∧ c.label.head? = path.head?

instance (path : List α) (c : Tree α β) : Decidable (Leads path c) :=
  inferInstanceAs (Decidable (_ ∧ _))

mutual
/-- The value of the node that the path leads to, if there is one. -/
def get (path : List α) : Tree α β → Option β
  | node _ value children => if path = [] then some value else getAll path children
def getAll (path : List α) : List (Tree α β) → Option β
  | [] => none
  | c :: cs =>
    if Leads path c then
      if common path c.label = c.label.length then c.get (path.drop c.label.length) else none
    else getAll path cs
end

/-- The value at a path. -/
def valueAt (empty : β) (t : Tree α β) (path : List α) : β := (t.get path).getD empty

/-- A leaf for what is left of a path, unless nothing is. -/
def leafFor (empty : β) (rest : List α) : List (Tree α β) :=
  if rest = [] then [] else [node rest empty []]

/-- Cut a node after `k` symbols of its label, and make the path, which ends there or
leaves the label there, lead to a node. -/
def split (empty : β) (path : List α) (k : Nat) (c : Tree α β) : Tree α β :=
  node (c.label.take k) empty
    (node (c.label.drop k) c.value c.children :: leafFor empty (path.drop k))

mutual
/-- Make the path lead to a node, without setting any value. -/
def reach (empty : β) (path : List α) : Tree α β → Tree α β
  | node label value children =>
    node label value (if path = [] then children else reachAll empty path children)
def reachAll (empty : β) (path : List α) : List (Tree α β) → List (Tree α β)
  | [] => [node path empty []]
  | c :: cs =>
    if Leads path c then
      (if common path c.label < c.label.length then split empty path (common path c.label) c
        else c.reach empty (path.drop (common path c.label))) :: cs
    else c :: reachAll empty path cs
end

mutual
/-- Change the value of the node that the path leads to. -/
def update (f : β → β) (path : List α) : Tree α β → Tree α β
  | node label value children =>
    if path = [] then node label (f value) children
    else node label value (updateAll f path children)
def updateAll (f : β → β) (path : List α) : List (Tree α β) → List (Tree α β)
  | [] => []
  | c :: cs =>
    if Leads path c then
      (if common path c.label = c.label.length then c.update f (path.drop c.label.length)
        else c) :: cs
    else c :: updateAll f path cs
end

mutual
/-- The last node with an accepted value on the way along the path, the start apart. -/
def longest (ok : β → Bool) (path : List α) (pos : Nat) (best : Option (Nat × β)) :
    Tree α β → Option (Nat × β)
  | node _ _ children => if path = [] then best else longestAll ok path pos best children
def longestAll (ok : β → Bool) (path : List α) (pos : Nat) (best : Option (Nat × β)) :
    List (Tree α β) → Option (Nat × β)
  | [] => best
  | c :: cs =>
    if Leads path c then
      if common path c.label ≠ c.label.length then best
      else c.longest ok (path.drop c.label.length) (pos + c.label.length)
        (if ok c.value then some (pos + c.label.length, c.value) else best)
    else longestAll ok path pos best cs
end

end Tree

end VgEngine.RadixTree
