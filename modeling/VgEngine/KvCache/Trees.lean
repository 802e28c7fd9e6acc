import VgEngine.KvCache.Sequences

/-! The snapshots that the nodes of a radix tree own: no operation on the tree makes one
owned twice. -/
namespace VgEngine.KvCache
open RadixTree RadixTree.Tree

variable {env : Nat → Bool} (a : Nat)

/-- How often a node owns the snapshot `a`, with all nodes below it. -/
def owns (t : RadixNode) : Nat := (snapshots t).count a

def ownsAll (cs : List RadixNode) : Nat := (cs.flatMap snapshots).count a

def NodeData.owns (v : NodeData) : Nat := v.snapshot.toList.count a

@[simp] theorem owns_empty : NodeData.empty.owns a = 0 := rfl

@[simp] theorem ownsAll_nil : ownsAll a [] = 0 := rfl

@[simp] theorem ownsAll_cons (c : RadixNode) (cs : List RadixNode) :
    ownsAll a (c :: cs) = owns a c + ownsAll a cs := by
  unfold ownsAll owns
  rw [List.flatMap_cons, List.count_append]

@[simp] theorem ownsAll_append (cs ds : List RadixNode) :
    ownsAll a (cs ++ ds) = ownsAll a cs + ownsAll a ds := by
  unfold ownsAll
  rw [List.flatMap_append, List.count_append]

theorem snapshotsAll (cs : List RadixNode) :
    (valuesAll cs).filterMap NodeData.snapshot = cs.flatMap snapshots := by
  induction cs with
  | nil => rfl
  | cons c cs ih =>
    rw [valuesAll, List.filterMap_append, ih]
    rfl

theorem snapshots_node (label : List Nat) (v : NodeData) (cs : List RadixNode) :
    snapshots (.node label v cs) = v.snapshot.toList ++ cs.flatMap snapshots := by
  rw [snapshots, values, List.filterMap_cons, ← snapshotsAll]
  cases v.snapshot <;> rfl

@[simp] theorem owns_node (label : List Nat) (v : NodeData) (cs : List RadixNode) :
    owns a (.node label v cs) = v.owns a + ownsAll a cs := by
  unfold owns ownsAll NodeData.owns
  rw [snapshots_node, List.count_append]

mutual
/-- Freeing a tree closes what invalidating it would. -/
theorem count_freedSnapshots (t : RadixNode) : (freedSnapshots t).count a = owns a t := by
  cases t with
  | node label v cs =>
    rw [freedSnapshots, List.count_append, count_freedAll cs, owns_node, NodeData.owns,
      Nat.add_comm]
theorem count_freedAll (cs : List RadixNode) : (freedAll cs).count a = ownsAll a cs := by
  cases cs with
  | nil => rfl
  | cons c cs =>
    rw [freedAll, List.count_append, count_freedSnapshots c, count_freedAll cs, ownsAll_cons]
end

variable (env)

theorem addAll_owns (done cs : List RadixNode) (ticks : Nat) :
    ownsAll a (addAll env done cs ticks).1 ≤ ownsAll a done + ownsAll a cs := by
  induction cs generalizing done ticks with
  | nil => exact Nat.le_refl _
  | cons c cs ih =>
    unfold addAll
    dsimp only
    refine (ih _ _).trans ?_
    rw [ownsAll_cons]
    split
    · rw [ownsAll_append, ownsAll_cons, ownsAll_nil]
      omega
    · omega

/-- An insertion that fails on the way frees and keeps no snapshot twice. -/
theorem splitEdge_owns (path : List Nat) (k : Nat) (c : RadixNode) (ticks : Nat) :
    (splitEdge env path k c ticks).freed.count a + owns a (splitEdge env path k c ticks).tree ≤
      owns a c := by
  have hchildren := addAll_owns env a [] c.children (nodeNew env (c.label.drop k).length ticks).2
  have hc : owns a c = c.value.owns a + ownsAll a c.children := by
    cases c
    exact owns_node a _ _ _
  rw [ownsAll_nil, Nat.zero_add] at hchildren
  unfold splitEdge
  dsimp only
  split
  · simp
  · split
    · rw [count_freedSnapshots]
      simp only [owns_node, owns_empty, ownsAll_nil]
      omega
    · split
      · simp only [List.count_nil, owns_node, owns_empty, ownsAll_cons, ownsAll_nil]
        omega
      · split
        · simp only [List.count_nil, owns_node, owns_empty, ownsAll_cons, ownsAll_nil]
          omega
        · split
          · simp only [List.count_nil, owns_node, owns_empty, ownsAll_cons, ownsAll_nil]
            omega
          · simp only [List.count_nil, owns_node, owns_empty, ownsAll_cons, ownsAll_nil]
            omega

mutual
theorem grow_owns (path : List Nat) (t : RadixNode) (ticks : Nat) :
    (grow env path t ticks).freed.count a + owns a (grow env path t ticks).tree ≤ owns a t := by
  cases t with
  | node label v cs =>
    rw [grow]
    split
    · simp
    · have hcs := growAll_owns path cs.length cs ticks
      simp only [owns_node]
      omega
theorem growAll_owns (path : List Nat) (n : Nat) (cs : List RadixNode) (ticks : Nat) :
    (growAll env path n cs ticks).freed.count a + ownsAll a (growAll env path n cs ticks).tree ≤
      ownsAll a cs := by
  cases cs with
  | nil =>
    rw [growAll]
    dsimp only
    split
    · simp
    · split <;> simp
  | cons c cs =>
    rw [growAll]
    split
    · dsimp only
      rw [ownsAll_cons, ownsAll_cons]
      split
      · have hsplit := splitEdge_owns env a path (common path c.label) c ticks
        omega
      · have hgrow := grow_owns (path.drop (common path c.label)) c ticks
        omega
    · have hrest := growAll_owns path n cs ticks
      simp only [ownsAll_cons]
      omega
end

theorem splitEdge_ok {path : List Nat} {k : Nat} {c : RadixNode} {ticks : Nat}
    (h : (splitEdge env path k c ticks).status = .ok) : (splitEdge env path k c ticks).freed = [] := by
  unfold splitEdge at h ⊢
  dsimp only at h ⊢
  split
  · rfl
  · rename_i hnew
    rw [if_neg hnew] at h
    split
    · rename_i hadd
      rw [if_pos hadd] at h
      cases h
    · split
      · rfl
      · split
        · rfl
        · split <;> rfl

mutual
/-- An insertion that reaches its node has freed nothing. -/
theorem grow_ok {path : List Nat} {t : RadixNode} {ticks : Nat}
    (h : (grow env path t ticks).status = .ok) : (grow env path t ticks).freed = [] := by
  cases t with
  | node label v cs =>
    rw [grow] at h ⊢
    split
    · rfl
    · rename_i hpath
      rw [if_neg hpath] at h
      exact growAll_ok h
theorem growAll_ok {path : List Nat} {n : Nat} {cs : List RadixNode} {ticks : Nat}
    (h : (growAll env path n cs ticks).status = .ok) :
    (growAll env path n cs ticks).freed = [] := by
  cases cs with
  | nil =>
    rw [growAll]
    dsimp only
    split
    · rfl
    · split <;> rfl
  | cons c cs =>
    rw [growAll] at h ⊢
    split
    · rename_i hleads
      rw [if_pos hleads] at h
      dsimp only at h ⊢
      split
      · rename_i hshort
        rw [if_pos hshort] at h
        exact splitEdge_ok env h
      · rename_i hshort
        rw [if_neg hshort] at h
        exact grow_ok h
    · rename_i hleads
      rw [if_neg hleads] at h
      exact growAll_ok h
end

/-- How often the node that a path leads to owns the snapshot `a`. -/
def foundOwns (found : Option NodeData) : Nat := (found.getD .empty).owns a

mutual
/-- The new value takes the place of the old one. -/
theorem update_owns (v : NodeData) (path : List Nat) (t : RadixNode) :
    owns a (t.update (fun _ => v) path) + foundOwns a (t.get path) ≤ owns a t + v.owns a := by
  cases t with
  | node label old cs =>
    rw [update, RadixTree.Tree.get]
    split
    · simp only [owns_node, foundOwns, Option.getD_some]
      omega
    · have hcs := updateAll_owns v path cs
      simp only [owns_node]
      omega
theorem updateAll_owns (v : NodeData) (path : List Nat) (cs : List RadixNode) :
    ownsAll a (updateAll (fun _ => v) path cs) + foundOwns a (getAll path cs) ≤
      ownsAll a cs + v.owns a := by
  cases cs with
  | nil =>
    rw [updateAll, getAll]
    exact Nat.le_add_right _ _
  | cons c cs =>
    rw [updateAll, getAll]
    split
    · rw [ownsAll_cons, ownsAll_cons]
      split
      · have hc := update_owns v (path.drop c.label.length) c
        omega
      · simp only [foundOwns, Option.getD_none, owns_empty]
        omega
    · have hrest := updateAll_owns v path cs
      rw [ownsAll_cons, ownsAll_cons]
      omega
end

theorem foundOwns_self {t : RadixNode} {path : List Nat} {k : Nat}
    (h : (t.valueAt .empty path).snapshot = some k) : foundOwns k (t.get path) = 1 := by
  unfold foundOwns NodeData.owns
  unfold valueAt at h
  rw [h]
  simp

/-- A snapshot at a path is one of the tree's. -/
theorem snapshot_mem {t : RadixNode} {path : List Nat} {k : Nat}
    (h : (t.valueAt .empty path).snapshot = some k) : k ∈ snapshots t := by
  have hfound := update_owns k .empty path t
  have hself := foundOwns_self h
  rw [owns_empty] at hfound
  have hpos : 0 < owns k t := by omega
  exact List.count_pos_iff.1 hpos

mutual
theorem map_snapshots {f : NodeData → NodeData} (hf : ∀ v, (f v).snapshot = none) (t : RadixNode) :
    snapshots (t.map f) = [] := by
  cases t with
  | node label v cs =>
    rw [RadixTree.Tree.map, snapshots_node, hf, mapAll_snapshots hf cs]
    rfl
theorem mapAll_snapshots {f : NodeData → NodeData} (hf : ∀ v, (f v).snapshot = none)
    (cs : List RadixNode) : (mapAll f cs).flatMap snapshots = [] := by
  cases cs with
  | nil => rfl
  | cons c cs =>
    rw [mapAll, List.flatMap_cons, map_snapshots hf c, mapAll_snapshots hf cs]
    rfl
end

end VgEngine.KvCache
