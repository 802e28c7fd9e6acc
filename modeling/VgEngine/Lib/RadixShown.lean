import VgEngine.Lib.RadixValues

/-! What a compressed trie shows of its accepted values, and when a loss of children can be seen.
The children of a node have labels that begin differently, so that none hides another. -/
namespace VgEngine.RadixTree
namespace Tree

variable {α β : Type*}

/-- What the labels of some children begin with. -/
def heads (cs : List (Tree α β)) : List (Option α) := cs.map fun c => c.label.head?

/-- The labels are not empty and begin differently. -/
structure Apart (cs : List (Tree α β)) : Prop where
  nodup : (heads cs).Nodup
  labelled : none ∉ heads cs

mutual
/-- The children of every node are apart. -/
def Proper : Tree α β → Prop
  | node _ _ children => Apart children ∧ ProperAll children
def ProperAll : List (Tree α β) → Prop
  | [] => True
  | c :: cs => c.Proper ∧ ProperAll cs
end

theorem properAll_iff (cs : List (Tree α β)) : ProperAll cs ↔ ∀ c ∈ cs, c.Proper := by
  induction cs with
  | nil => simp [ProperAll]
  | cons c cs ih => simp [ProperAll, ih]

theorem heads_append (cs ds : List (Tree α β)) : heads (cs ++ ds) = heads cs ++ heads ds :=
  List.map_append

theorem mem_heads {c : Tree α β} {cs : List (Tree α β)} (hc : c ∈ cs) :
    c.label.head? ∈ heads cs := List.mem_map_of_mem hc

theorem Apart.nil : Apart ([] : List (Tree α β)) := ⟨List.nodup_nil, List.not_mem_nil⟩

/-- One more child keeps children apart if it begins like none of them. -/
theorem Apart.concat {cs : List (Tree α β)} (h : Apart cs) {c : Tree α β} (hlabel : c.label ≠ [])
    (hfresh : c.label.head? ∉ heads cs) : Apart (cs ++ [c]) := by
  constructor <;> rw [heads_append]
  · rw [List.nodup_append]
    refine ⟨h.nodup, (List.nodup_cons.2 ⟨List.not_mem_nil, List.nodup_nil⟩), ?_⟩
    rintro x hx y hy rfl
    have heq : x = c.label.head? := List.mem_singleton.1 hy
    exact hfresh (heq ▸ hx)
  · rw [List.mem_append, not_or]
    refine ⟨h.labelled, fun hmem => hlabel ?_⟩
    exact List.head?_eq_none_iff.1 (List.mem_singleton.1 hmem).symm

theorem Apart.perm {cs ds : List (Tree α β)} (h : Apart cs) (hperm : ds.Perm cs) : Apart ds :=
  ⟨(hperm.map _).nodup_iff.2 h.nodup, fun hmem => h.labelled ((hperm.map _).mem_iff.1 hmem)⟩

theorem Apart.left {cs ds : List (Tree α β)} (h : Apart (cs ++ ds)) : Apart cs := by
  have hnodup := h.nodup
  rw [heads_append] at hnodup
  refine ⟨(List.nodup_append.1 hnodup).1, fun hmem => h.labelled ?_⟩
  rw [heads_append]
  exact List.mem_append_left _ hmem

theorem Apart.label_ne {cs : List (Tree α β)} (h : Apart cs) {c : Tree α β} (hc : c ∈ cs) :
    c.label ≠ [] := by
  intro hnil
  have hmem := mem_heads hc
  rw [hnil] at hmem
  exact h.labelled hmem

theorem heads_mapAll (f : β → β) (cs : List (Tree α β)) : heads (mapAll f cs) = heads cs := by
  induction cs with
  | nil => rfl
  | cons c cs ih =>
    rw [mapAll]
    unfold heads at ih ⊢
    rw [List.map_cons, List.map_cons, ih, label_map]

mutual
theorem Proper.map (f : β → β) {t : Tree α β} (ht : t.Proper) : (t.map f).Proper := by
  cases t with
  | node label value children =>
    rw [Tree.map]
    have hheads := heads_mapAll f children
    refine ⟨⟨?_, ?_⟩, ProperAll.map f ht.2⟩
    · rw [hheads]
      exact ht.1.nodup
    · rw [hheads]
      exact ht.1.labelled
theorem ProperAll.map (f : β → β) {cs : List (Tree α β)} (hcs : ProperAll cs) : ProperAll (mapAll f cs) := by
  cases cs with
  | nil => exact trivial
  | cons c cs => exact ⟨Proper.map f hcs.1, ProperAll.map f hcs.2⟩
end

variable [DecidableEq α]

section Shown

variable {γ : Type*} (f : β → Option γ)

/-- What the value at a path shows. -/
def shown (t : Tree α β) (path : List α) : Option γ := (t.get path).bind f

def shownAll (cs : List (Tree α β)) (path : List α) : Option γ := (getAll path cs).bind f

/-- What the walk along a path finds last, and how far along. -/
def found (t : Tree α β) (path : List α) : Option (Nat × Option γ) :=
  (t.longest (fun v => (f v).isSome) path 0 none).map fun r => (r.1, f r.2)

variable {f} {t u : Tree α β}

theorem shown_of_accepted {path : List α} {k : Nat} {v : β}
    (h : Accepted (fun v => (f v).isSome) path k (t.get (path.take k)) v) :
    0 < k ∧ k ≤ path.length ∧ t.shown f (path.take k) = f v ∧ (f v).isSome := by
  obtain ⟨hpos, hle, hget, hok⟩ := h
  unfold shown
  exact ⟨hpos, hle, by rw [hget, Option.bind_some], hok⟩

theorem accepted_of_shown {path : List α} {k : Nat} {x : γ} (hpos : 0 < k) (hle : k ≤ path.length)
    (hshown : t.shown f (path.take k) = some x) :
    ∃ v, Accepted (fun v => (f v).isSome) path k (t.get (path.take k)) v := by
  obtain ⟨v, hget, hv⟩ := Option.bind_eq_some_iff.1 hshown
  exact ⟨v, hpos, hle, hget, Option.isSome_iff_exists.2 ⟨x, hv⟩⟩

/-- The walk finds no more than what is shown. -/
theorem found_of_shown (hshown : ∀ path, path ≠ [] → u.shown f path = t.shown f path)
    (path : List α) : u.found f path = t.found f path := by
  have htake : ∀ k, 0 < k → k ≤ path.length → u.shown f (path.take k) = t.shown f (path.take k) := by
    intro k hk hle
    refine hshown _ fun hnil => ?_
    rw [List.take_eq_nil_iff] at hnil
    rcases hnil with rfl | rfl
    · exact Nat.lt_irrefl 0 hk
    · exact absurd hk (Nat.not_lt.2 hle)
  -- where one tree accepts a prefix, so does the other
  have hmove : ∀ {x y : Tree α β}, (∀ k, 0 < k → k ≤ path.length →
      x.shown f (path.take k) = y.shown f (path.take k)) → ∀ k v,
      Accepted (fun v => (f v).isSome) path k (x.get (path.take k)) v →
      ∃ w, Accepted (fun v => (f v).isSome) path k (y.get (path.take k)) w := by
    intro x y hxy k v hv
    obtain ⟨hpos, hle, hx, hsome⟩ := shown_of_accepted hv
    obtain ⟨z, hz⟩ := Option.isSome_iff_exists.1 hsome
    exact accepted_of_shown hpos hle ((hxy k hpos hle).symm.trans (hx.trans hz))
  have hback : ∀ k, 0 < k → k ≤ path.length →
      t.shown f (path.take k) = u.shown f (path.take k) := fun k hk hle => (htake k hk hle).symm
  unfold found
  rcases longest_spec (fun v => (f v).isSome) path 0 none u with
      ⟨k, v, hu, haccept, hlongest⟩ | ⟨hu, hnone⟩ <;>
    rcases longest_spec (fun v => (f v).isSome) path 0 none t with
      ⟨j, x, ht, haccept', hlongest'⟩ | ⟨ht, hnone'⟩
  · obtain ⟨v', hv'⟩ := hmove htake k v haccept
    obtain ⟨x', hx'⟩ := hmove hback j x haccept'
    have hkj : k = j := le_antisymm (hlongest' k v' hv') (hlongest j x' hx')
    subst hkj
    obtain ⟨hpos, hle, hfv, -⟩ := shown_of_accepted haccept
    obtain ⟨-, -, hfx, -⟩ := shown_of_accepted haccept'
    rw [hu, ht, Option.map_some, Option.map_some, ← hfv, ← hfx, htake k hpos hle]
  · obtain ⟨v', hv'⟩ := hmove htake k v haccept
    exact absurd hv' (hnone' k v')
  · obtain ⟨x', hx'⟩ := hmove hback j x haccept'
    exact absurd hx' (hnone j x')
  · rw [hu, ht]

/-- What is shown at a path is what the walk along all of it finds at its end. -/
theorem shown_of_found {path : List α} (hpath : path ≠ []) :
    t.shown f path = (t.found f path).bind fun r => if r.1 = path.length then r.2 else none := by
  have hlen : 0 < path.length := List.length_pos_iff.2 hpath
  have hwhole : ∀ x, t.shown f path = some x →
      ∃ v, Accepted (fun v => (f v).isSome) path path.length (t.get (path.take path.length)) v := by
    intro x hx
    exact accepted_of_shown hlen (Nat.le_refl _) (by rw [List.take_length]; exact hx)
  unfold found
  rcases longest_spec (fun v => (f v).isSome) path 0 none t with
    ⟨k, v, hfound, haccept, hlongest⟩ | ⟨hfound, hnone⟩
  · obtain ⟨-, hle, hfv, -⟩ := shown_of_accepted haccept
    rw [hfound, Option.map_some, Option.bind_some, Nat.zero_add]
    split
    · rename_i hk
      rwa [show k = path.length from hk, List.take_length] at hfv
    · rename_i hk
      cases hshown : t.shown f path with
      | none => rfl
      | some x =>
        obtain ⟨v', hv'⟩ := hwhole x hshown
        exact absurd (le_antisymm hle (hlongest _ v' hv')) hk
  · rw [hfound, Option.map_none, Option.bind_none]
    cases hshown : t.shown f path with
    | none => rfl
    | some x =>
      obtain ⟨v', hv'⟩ := hwhole x hshown
      exact absurd hv' (hnone _ v')

theorem shown_node {path : List α} (hpath : path ≠ []) :
    t.shown f path = shownAll f t.children path := by
  unfold shown shownAll
  rw [get_of_ne hpath]

theorem shown_nil : t.shown f [] = f t.value := by
  unfold shown
  rw [get_nil, Option.bind_some]

/-- An empty value shows as little as none. -/
theorem bind_of_getD {empty : β} (hempty : f empty = none) {x y : Option β}
    (h : x.getD empty = y.getD empty) : x.bind f = y.bind f := by
  have hbind : ∀ z : Option β, z.bind f = f (z.getD empty) := by
    intro z
    cases z with
    | none => exact hempty.symm
    | some z => rfl
  rw [hbind x, hbind y, h]

end Shown

section Children

variable {γ : Type*} {f : β → Option γ} {c d : Tree α β} {cs ds lost : List (Tree α β)} {path : List α}

theorem getAll_leads (h : Leads path c) (cs : List (Tree α β)) :
    getAll path (c :: cs) = getAll path [c] := by
  rw [getAll, getAll, if_pos h, if_pos h]

theorem getAll_none (h : ∀ c ∈ cs, ¬ Leads path c) : getAll path cs = none := by
  induction cs with
  | nil => rfl
  | cons c cs ih =>
    rw [getAll_of_not_leads (h c List.mem_cons_self)]
    exact ih fun d hd => h d (List.mem_cons_of_mem c hd)

/-- Among children apart, the one that leads the path decides. -/
theorem getAll_mem (hapart : Apart cs) (hc : c ∈ cs) (hleads : Leads path c) :
    getAll path cs = getAll path [c] := by
  induction cs with
  | nil => cases hc
  | cons d cs ih =>
    by_cases hd : Leads path d
    · have heq : d = c := by
        rcases List.mem_cons.1 hc with rfl | hc
        · rfl
        · have hnodup := (List.nodup_cons.1 hapart.nodup).1
          have hsame : d.label.head? = c.label.head? := hd.2.trans hleads.2.symm
          refine absurd ?_ hnodup
          dsimp only
          rw [hsame]
          exact mem_heads hc
      rw [getAll_leads hd, heq]
    · rw [getAll_of_not_leads hd]
      have hc' : c ∈ cs := (List.mem_cons.1 hc).resolve_left fun heq => hd (heq ▸ hleads)
      exact ih ⟨(List.nodup_cons.1 hapart.nodup).2,
        fun hmem => hapart.labelled (List.mem_cons_of_mem _ hmem)⟩ hc'

/-- A child alone shows what its node shows. -/
theorem shownAll_single_iff (hlabel : c.label ≠ []) :
    (∀ path, shownAll f [c] path = none) ↔ ∀ path, c.shown f path = none := by
  constructor
  · intro h path
    have hwhole := h (c.label ++ path)
    unfold shownAll at hwhole
    rwa [getAll_of_isPrefix hlabel (List.prefix_append _ _), List.drop_left] at hwhole
  · intro h path
    unfold shownAll
    rw [getAll, getAll]
    split
    · split
      · exact h _
      · rfl
    · rfl

theorem getAll_nil_path (cs : List (Tree α β)) : getAll [] cs = none :=
  getAll_none fun _ _ hleads => hleads.1 (List.head?_eq_none_iff.1 hleads.2)

/-- Below a node shows what its children show. -/
theorem shown_children_iff {label label' : List α} {value : β} :
    (∀ path, (node label value ds).shown f path = (node label' value cs).shown f path) ↔
      ∀ path, shownAll f ds path = shownAll f cs path := by
  refine forall_congr' fun path => ?_
  by_cases hpath : path = []
  · subst hpath
    unfold shownAll
    rw [shown_nil, shown_nil, getAll_nil_path, getAll_nil_path]
    exact iff_of_true rfl rfl
  · rw [shown_node hpath, shown_node hpath]
    rfl

omit [DecidableEq α] in
/-- Only the first symbol of a label decides what a child leads. -/
theorem leads_congr (hhead : d.label.head? = c.label.head?) : Leads path d ↔ Leads path c := by
  have hnil : d.label = [] ↔ c.label = [] := by
    rw [← List.head?_eq_none_iff, hhead, List.head?_eq_none_iff]
  unfold Leads
  rw [hhead, Ne, hnil]

/-- What stands beside a child does not matter to its paths. -/
theorem shownAll_cons_iff (hhead : d.label.head? = c.label.head?) :
    (∀ path, shownAll f (d :: cs) path = shownAll f (c :: cs) path) ↔
      ∀ path, shownAll f [d] path = shownAll f [c] path := by
  refine forall_congr' fun path => ?_
  unfold shownAll
  by_cases hc : Leads path c
  · rw [getAll_leads hc cs, getAll_leads ((leads_congr hhead).2 hc) cs]
  · have hd : ¬ Leads path d := mt (leads_congr hhead).1 hc
    simp only [getAll_of_not_leads hc, getAll_of_not_leads hd]

theorem shownAll_child_iff (hlabel : d.label = c.label) (hne : c.label ≠ []) :
    (∀ path, shownAll f [d] path = shownAll f [c] path) ↔
      ∀ path, d.shown f path = c.shown f path := by
  constructor
  · intro h path
    have hwhole := h (c.label ++ path)
    unfold shownAll at hwhole
    rwa [getAll_of_isPrefix hne (List.prefix_append _ _),
      getAll_of_isPrefix (by rw [hlabel]; exact hne) (by rw [hlabel]; exact List.prefix_append _ _),
      hlabel, List.drop_left] at hwhole
  · intro h path
    have hleads : Leads path d ↔ Leads path c := by
      unfold Leads
      rw [hlabel]
    unfold shownAll
    by_cases hc : Leads path c
    · rw [getAll, if_pos (hleads.2 hc), hlabel, getAll, if_pos hc]
      split
      · exact h _
      · rfl
    · rw [getAll_of_not_leads hc, getAll_of_not_leads (mt hleads.1 hc)]

/-- Nor does a child to what is shown beside it, by children that begin as those did. -/
theorem shownAll_skip_iff (hapart : Apart (c :: cs)) (hheads : heads ds = heads cs) :
    (∀ path, shownAll f (c :: ds) path = shownAll f (c :: cs) path) ↔
      ∀ path, shownAll f ds path = shownAll f cs path := by
  refine forall_congr' fun path => ?_
  unfold shownAll
  by_cases hleads : Leads path c
  · have hnot : ∀ bs : List (Tree α β), heads bs = heads cs → ∀ b ∈ bs, ¬ Leads path b := by
      intro bs hbs b hb hleads'
      refine (List.nodup_cons.1 hapart.nodup).1 ?_
      have hmem := mem_heads hb
      rw [hbs, hleads'.2, ← hleads.2] at hmem
      exact hmem
    rw [getAll_leads hleads, getAll_leads hleads cs, getAll_none (hnot ds hheads),
      getAll_none (hnot cs rfl)]
    exact iff_of_true rfl rfl
  · rw [getAll_of_not_leads hleads, getAll_of_not_leads hleads]

/-- Children that get lost are missed exactly if they show a value. -/
theorem shownAll_part_iff (hapart : Apart cs) (hperm : (ds ++ lost).Perm cs) :
    (∀ path, shownAll f ds path = shownAll f cs path) ↔
      ∀ d ∈ lost, ∀ path, d.shown f path = none := by
  have hboth : Apart (ds ++ lost) := hapart.perm hperm
  have hdisjoint : ∀ c ∈ ds, ∀ d ∈ lost, ∀ path, Leads path d → ¬ Leads path c := by
    intro c hc d hd path hleads hleads'
    have hnodup := hboth.nodup
    rw [heads_append] at hnodup
    refine (List.nodup_append.1 hnodup).2.2 _ (mem_heads hc) _ (mem_heads hd) ?_
    rw [hleads.2, hleads'.2]
  constructor
  · intro h d hd
    have hmem : d ∈ cs := hperm.mem_iff.1 (List.mem_append_right _ hd)
    refine (shownAll_single_iff (hapart.label_ne hmem)).1 fun path => ?_
    by_cases hleads : Leads path d
    · have hpath := h path
      unfold shownAll at hpath ⊢
      rw [getAll_mem hapart hmem hleads, getAll_none fun c hc => hdisjoint c hc d hd path hleads]
        at hpath
      exact hpath.symm
    · unfold shownAll
      rw [getAll_of_not_leads hleads]
      rfl
  · intro h path
    unfold shownAll
    by_cases hfound : ∃ c ∈ cs, Leads path c
    · obtain ⟨c, hc, hleads⟩ := hfound
      rw [getAll_mem hapart hc hleads]
      rcases List.mem_append.1 (hperm.mem_iff.2 hc) with hkept | hlost
      · rw [getAll_mem hboth.left hkept hleads]
      · rw [getAll_none fun b hb => hdisjoint b hb c hlost path hleads]
        exact ((shownAll_single_iff (hapart.label_ne hc)).2 (h c hlost) path).symm
    · have hcs : ∀ c ∈ cs, ¬ Leads path c := fun c hc hleads => hfound ⟨c, hc, hleads⟩
      rw [getAll_none hcs,
        getAll_none fun c hc => hcs c (hperm.mem_iff.1 (List.mem_append_left _ hc))]

end Children

section Cut

mutual
/-- The edge that a path ends in or leaves: what is left of the path there, and the child. -/
def cut (path : List α) : Tree α β → Option (List α × Tree α β)
  | node _ _ children => if path = [] then none else cutAll path children
def cutAll (path : List α) : List (Tree α β) → Option (List α × Tree α β)
  | [] => none
  | c :: cs =>
    if Leads path c then
      if common path c.label < c.label.length then some (path, c)
      else c.cut (path.drop (common path c.label))
    else cutAll path cs
end

mutual
theorem cut_spec {path rest : List α} {t c : Tree α β} (hcut : t.cut path = some (rest, c))
    (ht : t.Proper) : c.Proper ∧ Leads rest c ∧ common rest c.label < c.label.length ∧
      t.get path = none := by
  cases t with
  | node label value children =>
    rw [cut] at hcut
    split at hcut
    · cases hcut
    · rename_i hpath
      obtain ⟨hproper, hleads, hshort, hnone⟩ := cutAll_spec hcut ht.2
      refine ⟨hproper, hleads, hshort, ?_⟩
      rw [get_node, if_neg hpath]
      exact hnone
theorem cutAll_spec {path rest : List α} {cs : List (Tree α β)} {c : Tree α β}
    (hcut : cutAll path cs = some (rest, c)) (hcs : ProperAll cs) :
    c.Proper ∧ Leads rest c ∧ common rest c.label < c.label.length ∧ getAll path cs = none := by
  cases cs with
  | nil => cases hcut
  | cons d cs =>
    rw [cutAll] at hcut
    split at hcut
    · rename_i hleads
      split at hcut
      · rename_i hshort
        obtain ⟨rfl, rfl⟩ := Prod.mk.inj (Option.some.inj hcut)
        refine ⟨hcs.1, hleads, hshort, ?_⟩
        exact getAll_of_leads hleads (fun hpre => hshort.ne (common_eq_length_iff.2 hpre)) cs
      · rename_i hshort
        have heq : common path d.label = d.label.length :=
          le_antisymm (common_le_right _ _) (not_lt.1 hshort)
        obtain ⟨hproper, hleads', hshort', hnone⟩ := cut_spec hcut hcs.1
        refine ⟨hproper, hleads', hshort', ?_⟩
        rw [getAll_of_isPrefix hleads.1 (common_eq_length_iff.1 heq), ← heq]
        exact hnone
    · rename_i hleads
      obtain ⟨hproper, hleads', hshort, hnone⟩ := cutAll_spec hcut hcs.2
      exact ⟨hproper, hleads', hshort, (getAll_of_not_leads hleads cs).trans hnone⟩
end

end Cut

section Changed

variable (f : β → β)

theorem heads_updateAll (path : List α) (cs : List (Tree α β)) : heads (updateAll f path cs) = heads cs := by
  induction cs with
  | nil => rfl
  | cons c cs ih =>
    rw [updateAll]
    split
    · unfold heads
      rw [List.map_cons, List.map_cons]
      congr 2
      split
      · exact label_update f _ c
      · rfl
    · unfold heads at ih ⊢
      rw [List.map_cons, List.map_cons, ih]

mutual
theorem Proper.update (path : List α) {t : Tree α β} (ht : t.Proper) : (t.update f path).Proper := by
  cases t with
  | node label value children =>
    rw [Tree.update]
    split
    · exact ht
    · have hheads := heads_updateAll f path children
      refine ⟨⟨?_, ?_⟩, ProperAll.update path ht.2⟩
      · rw [hheads]
        exact ht.1.nodup
      · rw [hheads]
        exact ht.1.labelled
theorem ProperAll.update (path : List α) {cs : List (Tree α β)} (hcs : ProperAll cs) :
    ProperAll (updateAll f path cs) := by
  cases cs with
  | nil => exact trivial
  | cons c cs =>
    rw [updateAll]
    split
    · refine ⟨?_, hcs.2⟩
      split
      · exact Proper.update _ hcs.1
      · exact hcs.1
    · exact ⟨hcs.1, ProperAll.update path hcs.2⟩
end

end Changed

end Tree

end VgEngine.RadixTree
