import VgEngine.KvCache.Trees
import VgEngine.Lib.RadixShown

/-! What an insertion whose allocations may fail makes of a radix tree. Where it splits no edge,
all that lookups can see stays; a split loses the children it finds no room for. -/
namespace VgEngine.KvCache
open RadixTree RadixTree.Tree

variable {env : Nat → Bool} {path rest : List Nat} {k n ticks : Nat} {t c : RadixNode}
  {cs : List RadixNode}

/-- The snapshot that a lookup may return. -/
def NodeData.usable (v : NodeData) : Option Nat := if v.tainted then none else v.snapshot

section Split

variable (env)

/-- The children that `addAll` finds no room for, beside `n` that it placed. -/
def dropped : Nat → List RadixNode → Nat → List RadixNode
  | _, [], _ => []
  | n, c :: cs, ticks =>
    let (ok, ticks) := childAdd env n ticks
    if ok then dropped (n + 1) cs ticks else c :: dropped n cs ticks

theorem addAll_perm (done cs : List RadixNode) (ticks : Nat) :
    ((addAll env done cs ticks).1 ++ dropped env done.length cs ticks).Perm (done ++ cs) := by
  induction cs generalizing done ticks with
  | nil => exact List.Perm.refl _
  | cons c cs ih =>
    unfold addAll dropped
    dsimp only
    split
    · have hplaced := ih (done ++ [c]) (childAdd env done.length ticks).2
      rw [List.length_append, List.length_singleton] at hplaced
      rwa [List.append_assoc] at hplaced
    · exact (List.perm_middle.trans ((ih done _).cons c)).trans List.perm_middle.symm

/-- What the split of an edge is granted: the lower half, its place below the upper one, and the
leaf for the rest of the path. `lost` are the children without room, `ticks` is where it ends. -/
structure SplitGrants where
  lower : Bool
  placed : Bool
  leaf : Bool
  lost : List RadixNode
  ticks : Nat

def splitGrants (path : List Nat) (k : Nat) (c : RadixNode) (ticks : Nat) : SplitGrants :=
  let (lower, ticks) := nodeNew env (c.label.drop k).length ticks
  let lost := dropped env 0 c.children ticks
  let (_, ticks) := addAll env [] c.children ticks
  let (placed, ticks) := childAdd env 0 ticks
  let (leaf, ticks) := if path.drop k = [] then (true, ticks)
    else nodeNew env (path.drop k).length ticks
  ⟨lower, placed, leaf, lost, ticks⟩

/-- The second child of a node finds room. -/
theorem childAdd_second (ticks : Nat) : childAdd env 1 ticks = (true, ticks) := by
  unfold childAdd
  rw [if_neg (by decide)]

/-- How a split ends that has its lower half in place. -/
structure Halved (path : List Nat) (k : Nat) (c : RadixNode) (ticks : Nat)
    (kept : List RadixNode) : Prop where
  perm : (kept ++ (splitGrants env path k c ticks).lost).Perm c.children
  unfinished : (splitGrants env path k c ticks).leaf = false →
    (splitEdge env path k c ticks).status = .nomem ∧
    (splitEdge env path k c ticks).tree =
      .node (c.label.take k) .empty [.node (c.label.drop k) c.value kept]
  finished : (splitGrants env path k c ticks).leaf = true →
    (splitEdge env path k c ticks).status = .ok ∧
    (splitEdge env path k c ticks).ticks = (splitGrants env path k c ticks).ticks ∧
    (splitEdge env path k c ticks).tree =
      split .empty path k (.node c.label c.value kept)

variable {env}

theorem splitEdge_refused (hlower : (splitGrants env path k c ticks).lower = false) :
    (splitEdge env path k c ticks).status = .nomem ∧ (splitEdge env path k c ticks).tree = c := by
  unfold splitGrants at hlower
  dsimp only at hlower
  unfold splitEdge
  dsimp only
  rw [if_pos hlower]
  exact ⟨rfl, rfl⟩

theorem splitEdge_unplaced (hlower : (splitGrants env path k c ticks).lower = true)
    (hplaced : (splitGrants env path k c ticks).placed = false) :
    (splitEdge env path k c ticks).status = .nomem ∧
      (splitEdge env path k c ticks).tree = .node (c.label.take k) .empty [] := by
  unfold splitGrants at hlower hplaced
  dsimp only at hlower hplaced
  unfold splitEdge
  dsimp only
  rw [hlower, if_neg Bool.noConfusion, if_pos hplaced]
  exact ⟨rfl, rfl⟩

theorem splitEdge_halved (hlower : (splitGrants env path k c ticks).lower = true)
    (hplaced : (splitGrants env path k c ticks).placed = true) :
    ∃ kept, Halved env path k c ticks kept := by
  refine ⟨(addAll env [] c.children (nodeNew env (c.label.drop k).length ticks).2).1,
    addAll_perm env [] c.children _, ?_, ?_⟩
  · intro hleaf
    unfold splitGrants at hlower hplaced hleaf
    dsimp only at hlower hplaced hleaf
    unfold splitEdge
    dsimp only
    rw [hlower, if_neg Bool.noConfusion, hplaced, if_neg Bool.noConfusion]
    split at hleaf
    · cases hleaf
    · rename_i hrest
      rw [if_neg hrest, if_pos hleaf]
      exact ⟨rfl, rfl⟩
  · intro hleaf
    unfold splitGrants at hlower hplaced hleaf ⊢
    dsimp only at hlower hplaced hleaf ⊢
    unfold splitEdge split leafFor
    dsimp only
    rw [hlower, if_neg Bool.noConfusion, hplaced, if_neg Bool.noConfusion]
    by_cases hrest : path.drop k = []
    · simp only [if_pos hrest]
      exact ⟨trivial, trivial, rfl⟩
    · simp only [if_neg hrest] at hleaf ⊢
      rw [hleaf, childAdd_second, if_neg Bool.noConfusion, if_neg Bool.noConfusion]
      exact ⟨rfl, rfl, rfl⟩

end Split

section Shown

variable {f : NodeData → Option Nat}

/-- Whether a split can be seen: only by what is shown below the edge, where the lower half finds
no place, or in the children that find no room. -/
theorem splitEdge_shown_iff (hempty : f .empty = none) (hc : c.Proper) (hleads : Leads path c)
    (hshort : common path c.label < c.label.length) (ticks : Nat) :
    (∀ q, shownAll f [(splitEdge env path (common path c.label) c ticks).tree] q =
        shownAll f [c] q) ↔
      let g := splitGrants env path (common path c.label) c ticks
      g.lower = true → if g.placed = true then ∀ d ∈ g.lost, ∀ q, d.shown f q = none
        else ∀ q, c.shown f q = none := by
  dsimp only
  have hup := take_ne_nil (common_pos hleads.1 hleads.2) hleads.1
  cases hlower : (splitGrants env path (common path c.label) c ticks).lower with
  | false =>
    rw [(splitEdge_refused hlower).2]
    exact iff_of_true (fun _ => rfl) fun h => Bool.noConfusion h
  | true =>
    rw [forall_prop_of_true rfl]
    cases hplaced : (splitGrants env path (common path c.label) c ticks).placed with
    | false =>
      rw [if_neg Bool.noConfusion, (splitEdge_unplaced hlower hplaced).2,
        ← shownAll_single_iff hleads.1]
      refine forall_congr' fun q => ?_
      have hleaf : shownAll f [.node (c.label.take (common path c.label)) .empty []] q = none := by
        have hget := getAll_leaf NodeData.empty q (c.label.take (common path c.label))
        exact bind_of_getD hempty (y := none) hget
      rw [hleaf]
      exact eq_comm
    | true =>
      rw [if_pos rfl]
      obtain ⟨kept, hperm, hunfinished, hfinished⟩ := splitEdge_halved hlower hplaced
      have hsame : ∀ q, shownAll f [(splitEdge env path (common path c.label) c ticks).tree] q =
          shownAll f [.node c.label c.value kept] q := by
        intro q
        refine bind_of_getD hempty ?_
        cases hleaf : (splitGrants env path (common path c.label) c ticks).leaf with
        | false =>
          rw [(hunfinished hleaf).2]
          have hcut := getAll_cut hup (drop_ne_nil hshort) c.value kept
            (fun r => (rfl : (getAll r []).getD NodeData.empty = .empty)) q []
          rwa [List.take_append_drop] at hcut
        | true =>
          rw [(hfinished hleaf).2.2]
          exact getAll_split (c := .node c.label c.value kept) hleads hshort q []
      simp only [hsame]
      cases c with
      | node lab value children =>
        have hlabel : (RadixTree.Tree.node lab value kept).label =
            (RadixTree.Tree.node lab value children).label := rfl
        rw [label, RadixTree.Tree.value, shownAll_child_iff hlabel hleads.1, shown_children_iff]
        exact shownAll_part_iff hc.1 hperm

variable (env)

theorem label_grow (path : List Nat) (t : RadixNode) (ticks : Nat) :
    (grow env path t ticks).tree.label = t.label := by
  cases t
  rw [grow]
  split <;> rfl

theorem label_splitEdge (path : List Nat) (k : Nat) (c : RadixNode) (ticks : Nat) :
    (splitEdge env path k c ticks).tree.label = c.label ∨
      (splitEdge env path k c ticks).tree.label = c.label.take k := by
  cases hlower : (splitGrants env path k c ticks).lower with
  | false => exact .inl (by rw [(splitEdge_refused hlower).2])
  | true =>
    right
    cases hplaced : (splitGrants env path k c ticks).placed with
    | false => rw [(splitEdge_unplaced hlower hplaced).2, label]
    | true =>
      obtain ⟨kept, -, hunfinished, hfinished⟩ := splitEdge_halved hlower hplaced
      cases hleaf : (splitGrants env path k c ticks).leaf with
      | false => rw [(hunfinished hleaf).2, label]
      | true => rw [(hfinished hleaf).2.2, split, label, label]

/-- A split leaves the beginning of its edge. -/
theorem head_splitEdge (hleads : Leads path c) (ticks : Nat) :
    (splitEdge env path (common path c.label) c ticks).tree.label.head? = c.label.head? := by
  rcases label_splitEdge env path (common path c.label) c ticks with heq | heq
  · rw [heq]
  · rw [heq, List.head?_take, if_neg (common_pos hleads.1 hleads.2).ne']

/-- A new leaf stands beside children that do not lead its path. -/
theorem heads_growAll (path : List Nat) (n : Nat) (cs : List RadixNode) (ticks : Nat) :
    heads (growAll env path n cs ticks).tree = heads cs ∨ (∀ c ∈ cs, ¬ Leads path c) ∧
      heads (growAll env path n cs ticks).tree = heads cs ++ [path.head?] := by
  induction cs with
  | nil =>
    rw [growAll]
    dsimp only
    split
    · exact .inl rfl
    · split
      · exact .inl rfl
      · exact .inr ⟨fun c hc => absurd hc List.not_mem_nil, rfl⟩
  | cons c cs ih =>
    rw [growAll]
    by_cases hleads : Leads path c
    · left
      rw [if_pos hleads]
      dsimp only
      unfold heads
      rw [List.map_cons, List.map_cons]
      congr 1
      split
      · exact head_splitEdge env hleads ticks
      · rw [label_grow]
    · rw [if_neg hleads]
      unfold heads at ih ⊢
      rw [List.map_cons, List.map_cons]
      refine ih.imp (congrArg _) fun h => ⟨?_, congrArg _ h.2⟩
      intro d hd
      rcases List.mem_cons.1 hd with rfl | hd
      · exact hleads
      · exact h.1 d hd

mutual
/-- Where the path leads to a node, nothing is asked for. -/
theorem grow_found {path : List Nat} {t : RadixNode} (hfound : (t.get path).isSome) (ticks : Nat) :
    grow env path t ticks = ⟨.ok, t, [], ticks⟩ := by
  cases t with
  | node lab value children =>
    rw [get_node] at hfound
    rw [grow]
    split
    · rfl
    · rename_i hpath
      rw [if_neg hpath] at hfound
      rw [growAll_found hfound]
theorem growAll_found {path : List Nat} {cs : List RadixNode} {n : Nat}
    (hfound : (getAll path cs).isSome) (ticks : Nat) :
    growAll env path n cs ticks = ⟨.ok, cs, [], ticks⟩ := by
  cases cs with
  | nil => cases hfound
  | cons c cs =>
    rw [growAll]
    by_cases hleads : Leads path c
    · have hpre : c.label <+: path := by
        by_contra hnot
        rw [getAll_of_leads hleads hnot] at hfound
        cases hfound
      rw [getAll_of_isPrefix hleads.1 hpre] at hfound
      have hcommon := common_eq_length_iff.2 hpre
      rw [if_pos hleads, hcommon, if_neg (Nat.lt_irrefl _)]
      dsimp only
      rw [grow_found hfound]
    · rw [getAll_of_not_leads hleads] at hfound
      rw [if_neg hleads]
      dsimp only
      rw [growAll_found hfound]
end

mutual
/-- Where no edge is split, all that is shown stays. -/
theorem grow_uncut (hempty : f .empty = none) {path : List Nat} {t : RadixNode}
    (hcut : t.cut path = none) (ticks : Nat) (q : List Nat) :
    (grow env path t ticks).tree.shown f q = t.shown f q := by
  cases t with
  | node lab value children =>
    rw [cut] at hcut
    rw [grow]
    split
    · rfl
    · rename_i hpath
      rw [if_neg hpath] at hcut
      exact shown_children_iff.2 (growAll_uncut hempty hcut children.length ticks) q
theorem growAll_uncut (hempty : f .empty = none) {path : List Nat} {cs : List RadixNode}
    (hcut : cutAll path cs = none) (n ticks : Nat) (q : List Nat) :
    shownAll f (growAll env path n cs ticks).tree q = shownAll f cs q := by
  cases cs with
  | nil =>
    rw [growAll]
    dsimp only
    split
    · rfl
    · split
      · rfl
      · exact bind_of_getD hempty (getAll_leaf NodeData.empty q path)
  | cons c cs =>
    rw [cutAll] at hcut
    rw [growAll]
    by_cases hleads : Leads path c
    · rw [if_pos hleads] at hcut ⊢
      split at hcut
      · cases hcut
      · rename_i hlong
        have hlabel := label_grow env (path.drop (common path c.label)) c ticks
        have hchild := (shownAll_child_iff hlabel hleads.1).2
          fun p => grow_uncut hempty hcut ticks p
        rw [if_neg hlong]
        exact (shownAll_cons_iff (congrArg List.head? hlabel)).2 hchild q
    · rw [if_neg hleads] at hcut ⊢
      have hrest := growAll_uncut hempty hcut n ticks q
      unfold shownAll at hrest ⊢
      dsimp only
      by_cases hq : Leads q c
      · rw [getAll_leads hq, getAll_leads hq cs]
      · rw [getAll_of_not_leads hq, getAll_of_not_leads hq, hrest]
end

/-- An insertion that splits the edge to `c`, where `rest` of the path is left, ends as the split
does, and is seen exactly if that is. -/
structure CutAt (f : NodeData → Option Nat) (path : List Nat) (t : RadixNode) (ticks : Nat)
    (e : Grown RadixNode) (c : RadixNode) : Prop where
  status : (grow env path t ticks).status = e.status
  freed : (grow env path t ticks).freed = e.freed
  ends : (grow env path t ticks).ticks = e.ticks
  shown : (∀ q, (grow env path t ticks).tree.shown f q = t.shown f q) ↔
    ∀ q, shownAll f [e.tree] q = shownAll f [c] q

theorem leads_of_cut {path : List Nat} {cs : List RadixNode} {r : List Nat × RadixNode}
    (hcut : cutAll path cs = some r) : ∃ c ∈ cs, Leads path c := by
  induction cs with
  | nil => cases hcut
  | cons c cs ih =>
    rw [cutAll] at hcut
    split at hcut
    · rename_i hleads
      exact ⟨c, List.mem_cons_self, hleads⟩
    · obtain ⟨d, hd, hleads⟩ := ih hcut
      exact ⟨d, List.mem_cons_of_mem c hd, hleads⟩

mutual
theorem grow_cut (f : NodeData → Option Nat) {path rest : List Nat} {t c : RadixNode}
    (ht : t.Proper) (hcut : t.cut path = some (rest, c)) (ticks : Nat) :
    CutAt env f path t ticks (splitEdge env rest (common rest c.label) c ticks) c := by
  cases t with
  | node lab value children =>
    rw [cut] at hcut
    by_cases hpath : path = []
    · rw [if_pos hpath] at hcut
      cases hcut
    · rw [if_neg hpath] at hcut
      obtain ⟨hstatus, hfreed, hticks, hshown⟩ :=
        growAll_cut f ht.1 ht.2 hcut children.length ticks
      refine ⟨?_, ?_, ?_, ?_⟩
      · rw [grow, if_neg hpath]
        exact hstatus
      · rw [grow, if_neg hpath]
        exact hfreed
      · rw [grow, if_neg hpath]
        exact hticks
      · rw [grow, if_neg hpath]
        exact shown_children_iff.trans hshown
theorem growAll_cut (f : NodeData → Option Nat) {path rest : List Nat} {cs : List RadixNode}
    {c : RadixNode} (hapart : Apart cs) (hcs : ProperAll cs)
    (hcut : cutAll path cs = some (rest, c)) (n ticks : Nat) :
    let e := splitEdge env rest (common rest c.label) c ticks
    (growAll env path n cs ticks).status = e.status ∧ (growAll env path n cs ticks).freed = e.freed ∧
      (growAll env path n cs ticks).ticks = e.ticks ∧
      ((∀ q, shownAll f (growAll env path n cs ticks).tree q = shownAll f cs q) ↔
        ∀ q, shownAll f [e.tree] q = shownAll f [c] q) := by
  dsimp only
  cases cs with
  | nil => cases hcut
  | cons d cs =>
    rw [cutAll] at hcut
    rw [growAll]
    by_cases hleads : Leads path d
    · rw [if_pos hleads] at hcut ⊢
      dsimp only
      split at hcut
      · rename_i hshort
        obtain ⟨rfl, rfl⟩ := Prod.mk.inj (Option.some.inj hcut)
        rw [if_pos hshort]
        exact ⟨rfl, rfl, rfl, shownAll_cons_iff (head_splitEdge env hleads ticks)⟩
      · rename_i hlong
        obtain ⟨hstatus, hfreed, hticks, hshown⟩ := grow_cut f hcs.1 hcut ticks
        have hlabel := label_grow env (path.drop (common path d.label)) d ticks
        rw [if_neg hlong]
        refine ⟨hstatus, hfreed, hticks, ?_⟩
        exact ((shownAll_cons_iff (congrArg List.head? hlabel)).trans
          (shownAll_child_iff hlabel hleads.1)).trans hshown
    · rw [if_neg hleads] at hcut ⊢
      have hrest : Apart cs := ⟨(List.nodup_cons.1 hapart.nodup).2,
        fun hmem => hapart.labelled (List.mem_cons_of_mem _ hmem)⟩
      obtain ⟨hstatus, hfreed, hticks, hshown⟩ := growAll_cut f hrest hcs.2 hcut n ticks
      have hheads : heads (growAll env path n cs ticks).tree = heads cs := by
        refine (heads_growAll env path n cs ticks).resolve_right fun h => ?_
        obtain ⟨b, hb, hled⟩ := leads_of_cut hcut
        exact h.1 b hb hled
      exact ⟨hstatus, hfreed, hticks, (shownAll_skip_iff hapart hheads).trans hshown⟩
end

/-- A split that is finished leaves no value at its path. -/
theorem splitEdge_made (hleads : Leads path c) (hshort : common path c.label < c.label.length)
    (hok : (splitEdge env path (common path c.label) c ticks).status = .ok) (cs : List RadixNode) :
    (getAll path ((splitEdge env path (common path c.label) c ticks).tree :: cs)).getD .empty =
      .empty := by
  cases hlower : (splitGrants env path (common path c.label) c ticks).lower with
  | false =>
    rw [(splitEdge_refused hlower).1] at hok
    cases hok
  | true =>
    cases hplaced : (splitGrants env path (common path c.label) c ticks).placed with
    | false =>
      rw [(splitEdge_unplaced hlower hplaced).1] at hok
      cases hok
    | true =>
      obtain ⟨kept, -, hunfinished, hfinished⟩ := splitEdge_halved hlower hplaced
      cases hleaf : (splitGrants env path (common path c.label) c ticks).leaf with
      | false =>
        rw [(hunfinished hleaf).1] at hok
        cases hok
      | true =>
        have hsplit : (getAll path (split .empty path (common path c.label)
            (.node c.label c.value kept) :: cs)).getD .empty =
              (getAll path (.node c.label c.value kept :: cs)).getD NodeData.empty :=
          getAll_split (c := .node c.label c.value kept) hleads hshort path cs
        have hnot : ¬ c.label <+: path := fun hpre => hshort.ne (common_eq_length_iff.2 hpre)
        rw [getAll_of_leads (c := .node c.label c.value kept) hleads hnot] at hsplit
        rw [(hfinished hleaf).2.2]
        exact hsplit

mutual
theorem grow_made {path : List Nat} {t : RadixNode} (hget : t.get path = none) {ticks : Nat}
    (hok : (grow env path t ticks).status = .ok) :
    ((grow env path t ticks).tree.get path).getD .empty = .empty := by
  cases t with
  | node lab value children =>
    rw [get_node] at hget
    by_cases hpath : path = []
    · rw [if_pos hpath] at hget
      cases hget
    · rw [if_neg hpath] at hget
      rw [grow, if_neg hpath] at hok ⊢
      rw [get_node, if_neg hpath]
      exact growAll_made hpath hget hok
theorem growAll_made {path : List Nat} {cs : List RadixNode} {n : Nat} (hpath : path ≠ [])
    (hget : getAll path cs = none) {ticks : Nat}
    (hok : (growAll env path n cs ticks).status = .ok) :
    (getAll path (growAll env path n cs ticks).tree).getD .empty = .empty := by
  cases cs with
  | nil =>
    rw [growAll]
    dsimp only
    split
    · rfl
    · split
      · rfl
      · exact getAll_leaf NodeData.empty path path
  | cons c cs =>
    rw [growAll] at hok ⊢
    by_cases hleads : Leads path c
    · rw [if_pos hleads] at hok ⊢
      dsimp only at hok ⊢
      by_cases hshort : common path c.label < c.label.length
      · rw [if_pos hshort] at hok ⊢
        exact splitEdge_made env hleads hshort hok cs
      · have heq : common path c.label = c.label.length :=
          le_antisymm (common_le_right _ _) (not_lt.1 hshort)
        have hpre := common_eq_length_iff.1 heq
        have hlabel := label_grow env (path.drop (common path c.label)) c ticks
        rw [getAll_of_isPrefix hleads.1 hpre] at hget
        rw [if_neg hshort] at hok ⊢
        rw [getAll_of_isPrefix (by rw [hlabel]; exact hleads.1) (by rw [hlabel]; exact hpre),
          hlabel, heq]
        rw [heq] at hok
        exact grow_made hget hok
    · rw [if_neg hleads] at hok ⊢
      rw [getAll_of_not_leads hleads] at hget ⊢
      exact growAll_made hpath hget hok
end

/-- A split leaves its node proper. -/
theorem splitEdge_proper (hc : c.Proper) (hleads : Leads path c)
    (hshort : common path c.label < c.label.length) (ticks : Nat) :
    (splitEdge env path (common path c.label) c ticks).tree.Proper := by
  have hlow := drop_ne_nil hshort
  cases hlower : (splitGrants env path (common path c.label) c ticks).lower with
  | false =>
    rw [(splitEdge_refused hlower).2]
    exact hc
  | true =>
    cases hplaced : (splitGrants env path (common path c.label) c ticks).placed with
    | false =>
      rw [(splitEdge_unplaced hlower hplaced).2]
      exact ⟨Apart.nil, trivial⟩
    | true =>
      obtain ⟨kept, hperm, hunfinished, hfinished⟩ := splitEdge_halved hlower hplaced
      have htail :
          (RadixTree.Tree.node (c.label.drop (common path c.label)) c.value kept).Proper := by
        cases c with
        | node lab value children =>
          refine ⟨(hc.1.perm hperm).left, (properAll_iff _).2 fun d hd => ?_⟩
          exact (properAll_iff _).1 hc.2 d (hperm.mem_iff.1 (List.mem_append_left _ hd))
      have halone : Apart [RadixTree.Tree.node (c.label.drop (common path c.label)) c.value kept] :=
        Apart.nil.concat hlow List.not_mem_nil
      cases hleaf : (splitGrants env path (common path c.label) c ticks).leaf with
      | false =>
        rw [(hunfinished hleaf).2]
        exact ⟨halone, htail, trivial⟩
      | true =>
        rw [(hfinished hleaf).2.2]
        unfold split leafFor
        split
        · exact ⟨halone, htail, trivial⟩
        · rename_i hrest
          have hlt : common path c.label < path.length := by
            rw [List.drop_eq_nil_iff, not_le] at hrest
            exact hrest
          refine ⟨?_, htail, ⟨Apart.nil, trivial⟩, trivial⟩
          refine halone.concat (c := .node (path.drop (common path c.label)) .empty []) hrest ?_
          intro hmem
          exact head_drop_common_ne hlt (List.mem_singleton.1 hmem)

mutual
theorem grow_proper (path : List Nat) {t : RadixNode} (ht : t.Proper) (ticks : Nat) :
    (grow env path t ticks).tree.Proper := by
  cases t with
  | node lab value children =>
    rw [grow]
    split
    · exact ht
    · rename_i hpath
      refine ⟨?_, growAll_proper path ht.2 children.length ticks⟩
      rcases heads_growAll env path children.length children ticks with heq | ⟨hnot, heq⟩
      · exact ⟨heq ▸ ht.1.nodup, heq ▸ ht.1.labelled⟩
      · have hfresh : path.head? ∉ heads children := by
          intro hmem
          obtain ⟨d, hd, hhead⟩ := List.mem_map.1 hmem
          exact hnot d hd ⟨ht.1.label_ne hd, hhead⟩
        have hleaf : Apart (children ++ [.node path NodeData.empty []]) := ht.1.concat hpath hfresh
        have hsame : heads (growAll env path children.length children ticks).tree =
            heads (children ++ [.node path NodeData.empty []]) := by
          rw [heq, heads_append]
          rfl
        exact ⟨hsame ▸ hleaf.nodup, hsame ▸ hleaf.labelled⟩
theorem growAll_proper (path : List Nat) {cs : List RadixNode} (hcs : ProperAll cs)
    (n ticks : Nat) : ProperAll (growAll env path n cs ticks).tree := by
  cases cs with
  | nil =>
    rw [growAll]
    dsimp only
    split
    · exact trivial
    · split
      · exact trivial
      · exact ⟨⟨Apart.nil, trivial⟩, trivial⟩
  | cons c cs =>
    rw [growAll]
    split
    · rename_i hleads
      dsimp only
      refine ⟨?_, hcs.2⟩
      split
      · rename_i hshort
        exact splitEdge_proper env hcs.1 hleads hshort ticks
      · exact grow_proper (path.drop (common path c.label)) hcs.1 ticks
    · exact ⟨hcs.1, growAll_proper path hcs.2 n ticks⟩
end

end Shown

end VgEngine.KvCache
