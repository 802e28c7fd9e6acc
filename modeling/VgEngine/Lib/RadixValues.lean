import VgEngine.Lib.RadixTree

/-! What the operations on compressed tries do to the values at paths. -/
namespace VgEngine.RadixTree

variable {α β : Type*} [DecidableEq α]

theorem common_pos {as bs : List α} (hb : bs ≠ []) (h : bs.head? = as.head?) : 0 < common as bs := by
  cases bs with
  | nil => exact absurd rfl hb
  | cons b bs =>
    cases as with
    | nil => simp at h
    | cons a as =>
      have heq : b = a := by simpa using h
      simp [common, heq]

namespace Tree

theorem get_node (path label : List α) (value : β) (children : List (Tree α β)) :
    (node label value children).get path = if path = [] then some value else getAll path children := by
  rw [get]

theorem get_nil (t : Tree α β) : t.get [] = some t.value := by
  cases t
  rw [get_node, if_pos rfl, value]

theorem get_of_ne {path : List α} (h : path ≠ []) (t : Tree α β) :
    t.get path = getAll path t.children := by
  cases t
  rw [get_node, if_neg h, children]

/-- Where a path leads does not depend on the label of the start. -/
theorem get_relabel (path label label' : List α) (value : β) (children : List (Tree α β)) :
    (node label value children).get path = (node label' value children).get path := by
  rw [get_node, get_node]

omit [DecidableEq α] in
theorem leads_of_isPrefix {c : Tree α β} {path : List α} (hlabel : c.label ≠ [])
    (h : c.label <+: path) : Leads path c := by
  obtain ⟨rest, rfl⟩ := h
  refine ⟨hlabel, ?_⟩
  cases hc : c.label with
  | nil => exact absurd hc hlabel
  | cons a as => rfl

theorem getAll_of_isPrefix {c : Tree α β} {path : List α} (hlabel : c.label ≠ [])
    (h : c.label <+: path) (cs : List (Tree α β)) :
    getAll path (c :: cs) = c.get (path.drop c.label.length) := by
  rw [getAll, if_pos (leads_of_isPrefix hlabel h), if_pos (common_eq_length_iff.2 h)]

theorem getAll_of_leads {c : Tree α β} {path : List α} (hleads : Leads path c)
    (h : ¬ c.label <+: path) (cs : List (Tree α β)) : getAll path (c :: cs) = none := by
  rw [getAll, if_pos hleads, if_neg (mt common_eq_length_iff.1 h)]

theorem getAll_of_not_leads {c : Tree α β} {path : List α} (h : ¬ Leads path c)
    (cs : List (Tree α β)) : getAll path (c :: cs) = getAll path cs := by
  rw [getAll, if_neg h]

/-- Only the label and the values below decide what is found in a child. -/
theorem getAll_congr {c d : Tree α β} {cs ds : List (Tree α β)} {path : List α} {empty : β}
    (hlabel : d.label = c.label)
    (hchild : ∀ q, (d.get q).getD empty = (c.get q).getD empty)
    (hrest : (getAll path ds).getD empty = (getAll path cs).getD empty) :
    (getAll path (d :: ds)).getD empty = (getAll path (c :: cs)).getD empty := by
  have hleads : Leads path d ↔ Leads path c := by
    unfold Leads
    rw [hlabel]
  by_cases h : Leads path c
  · rw [getAll, getAll, if_pos h, if_pos (hleads.2 h), hlabel]
    split
    · exact hchild _
    · rfl
  · rw [getAll_of_not_leads h, getAll_of_not_leads (mt hleads.1 h)]
    exact hrest

theorem getAll_leaf (empty : β) (path label : List α) :
    (getAll path [node label empty []]).getD empty = empty := by
  rw [getAll]
  split
  · split
    · rw [get_node]
      split <;> rfl
    · rfl
  · rfl

omit [DecidableEq α] in
theorem leads_append_iff {up low q : List α} {v w : β} {cs ds : List (Tree α β)} (hup : up ≠ []) :
    Leads q (node up v cs) ↔ Leads q (node (up ++ low) w ds) := by
  cases up with
  | nil => exact absurd rfl hup
  | cons a up => simp [Leads, label]

/-- Cutting a node in two changes no value, whatever empty nodes stand beside its
lower half. -/
theorem getAll_cut {empty : β} {up low : List α} (hup : up ≠ []) (hlow : low ≠ []) (value : β)
    (children : List (Tree α β)) {rest : List (Tree α β)} (hrest : ∀ r, (getAll r rest).getD empty = empty)
    (q : List α) (cs : List (Tree α β)) :
    (getAll q (node up empty (node low value children :: rest) :: cs)).getD empty =
      (getAll q (node (up ++ low) value children :: cs)).getD empty := by
  have hiff : Leads q (node up empty (node low value children :: rest)) ↔
      Leads q (node (up ++ low) value children) := leads_append_iff hup
  by_cases hleads : Leads q (node (up ++ low) value children)
  · by_cases hpre : up <+: q
    · obtain ⟨r, rfl⟩ := hpre
      have hupper := getAll_of_isPrefix (c := node up empty (node low value children :: rest)) hup
        (List.prefix_append up r) cs
      rw [label] at hupper
      rw [hupper, List.drop_left, get_node]
      by_cases hr : r = []
      · have hnot : ¬ up ++ low <+: up ++ r := by
          rw [List.prefix_append_right_inj, hr, List.prefix_nil]
          exact hlow
        rw [if_pos hr, getAll_of_leads hleads hnot]
        rfl
      · rw [if_neg hr]
        by_cases hlower : low <+: r
        · have hwhole : up ++ low <+: up ++ r := (List.prefix_append_right_inj up).2 hlower
          have hbelow := getAll_of_isPrefix (c := node low value children) hlow hlower rest
          have hall := getAll_of_isPrefix (c := node (up ++ low) value children)
            (by simp [label, hup]) hwhole cs
          rw [label] at hbelow hall
          rw [hbelow, hall, List.length_append, ← List.drop_drop, List.drop_left, get_relabel]
        · have hnot : ¬ up ++ low <+: up ++ r := mt (List.prefix_append_right_inj up).1 hlower
          rw [getAll_of_leads hleads hnot]
          by_cases hltail : Leads r (node low value children)
          · rw [getAll_of_leads hltail hlower]
          · rw [getAll_of_not_leads hltail, hrest]
            rfl
    · have hnot : ¬ up ++ low <+: q := fun hcon => hpre ((List.prefix_append up low).trans hcon)
      rw [getAll_of_leads hleads hnot, getAll_of_leads (hiff.2 hleads) hpre]
  · rw [getAll_of_not_leads hleads, getAll_of_not_leads (mt hiff.1 hleads)]

theorem getAll_leaf_self (empty : β) {rest : List α} (h : rest ≠ []) :
    getAll rest [node rest empty []] = some empty := by
  have hleaf := getAll_of_isPrefix (c := node rest empty []) h (List.prefix_refl rest) []
  rw [label, List.drop_length, get_nil] at hleaf
  exact hleaf

theorem getAll_leafFor (empty : β) (path rest : List α) :
    (getAll path (leafFor empty rest)).getD empty = empty := by
  unfold leafFor
  split
  · rfl
  · exact getAll_leaf empty path rest

omit [DecidableEq α] in
theorem take_ne_nil {label : List α} {k : Nat} (hk : 0 < k) (hlabel : label ≠ []) :
    label.take k ≠ [] := by
  rw [Ne, List.take_eq_nil_iff, not_or]
  exact ⟨hk.ne', hlabel⟩

omit [DecidableEq α] in
theorem drop_ne_nil {label : List α} {k : Nat} (hk : k < label.length) : label.drop k ≠ [] := by
  rw [Ne, List.drop_eq_nil_iff]
  omega

/-- Splitting a node changes no value. -/
theorem getAll_split {empty : β} {path : List α} {c : Tree α β} (hleads : Leads path c)
    (hk : common path c.label < c.label.length) (q : List α) (cs : List (Tree α β)) :
    (getAll q (split empty path (common path c.label) c :: cs)).getD empty =
      (getAll q (c :: cs)).getD empty := by
  have hpos := common_pos hleads.1 hleads.2
  cases c with
  | node lab value children =>
    have hcut := getAll_cut (take_ne_nil hpos hleads.1) (drop_ne_nil hk) value children
      (fun r => getAll_leafFor empty r (path.drop (common path lab))) q cs
    rw [label, List.take_append_drop] at hcut
    exact hcut

theorem label_reach (empty : β) (path : List α) (t : Tree α β) :
    (t.reach empty path).label = t.label := by
  cases t
  rw [reach, label, label]

mutual
/-- Reaching a path changes no value. -/
theorem valueAt_reach (empty : β) (path : List α) (t : Tree α β) (q : List α) :
    (t.reach empty path).valueAt empty q = t.valueAt empty q := by
  cases t with
  | node label value children =>
    unfold valueAt
    rw [reach, get_node, get_node]
    by_cases hq : q = []
    · rw [if_pos hq, if_pos hq]
    · rw [if_neg hq, if_neg hq]
      by_cases hpath : path = []
      · rw [if_pos hpath]
      · rw [if_neg hpath]
        exact valueAt_reachAll empty path children hq
theorem valueAt_reachAll (empty : β) (path : List α) (cs : List (Tree α β)) {q : List α}
    (hq : q ≠ []) :
    (getAll q (reachAll empty path cs)).getD empty = (getAll q cs).getD empty := by
  cases cs with
  | nil =>
    rw [reachAll, getAll_leaf, getAll]
    rfl
  | cons c cs =>
    rw [reachAll]
    by_cases hleads : Leads path c
    · rw [if_pos hleads]
      by_cases hk : common path c.label < c.label.length
      · rw [if_pos hk]
        exact getAll_split hleads hk q cs
      · rw [if_neg hk]
        apply getAll_congr (label_reach empty _ c) _ rfl
        intro r
        exact valueAt_reach empty (path.drop (common path c.label)) c r
    · rw [if_neg hleads]
      exact getAll_congr rfl (fun _ => rfl) (valueAt_reachAll empty path cs hq)
end

/-- A reached path leads to a node. -/
theorem getAll_split_self {empty : β} {path : List α} {c : Tree α β} (hleads : Leads path c)
    (hk : common path c.label < c.label.length) (cs : List (Tree α β)) :
    (getAll path (split empty path (common path c.label) c :: cs)).isSome := by
  have hpos := common_pos hleads.1 hleads.2
  have hpre : c.label.take (common path c.label) <+: path := by
    rw [take_common]
    exact List.take_prefix _ _
  have hlen : (c.label.take (common path c.label)).length = common path c.label := by
    rw [List.length_take]
    omega
  have hupper := getAll_of_isPrefix (c := split empty path (common path c.label) c)
    (take_ne_nil hpos hleads.1) hpre cs
  rw [hupper]
  unfold split
  rw [label, hlen, get_node]
  by_cases hend : path.drop (common path c.label) = []
  · rw [if_pos hend]
    rfl
  · have hlt : common path c.label < path.length := by
      rw [List.drop_eq_nil_iff] at hend
      omega
    have hnot : ¬ Leads (path.drop (common path c.label))
        (node (c.label.drop (common path c.label)) c.value c.children) :=
      fun hlead => head_drop_common_ne hlt hlead.2.symm
    rw [if_neg hend, getAll_of_not_leads hnot]
    unfold leafFor
    rw [if_neg hend, getAll_leaf_self empty hend]
    rfl

mutual
theorem get_reach_self (empty : β) (path : List α) (t : Tree α β) :
    ((t.reach empty path).get path).isSome := by
  cases t with
  | node lab value children =>
    rw [reach, get_node]
    by_cases hpath : path = []
    · rw [if_pos hpath]
      rfl
    · rw [if_neg hpath, if_neg hpath]
      exact getAll_reachAll_self empty hpath children
theorem getAll_reachAll_self (empty : β) {path : List α} (hpath : path ≠ []) (cs : List (Tree α β)) :
    (getAll path (reachAll empty path cs)).isSome := by
  cases cs with
  | nil =>
    rw [reachAll, getAll_leaf_self empty hpath]
    rfl
  | cons c cs =>
    rw [reachAll]
    by_cases hleads : Leads path c
    · rw [if_pos hleads]
      by_cases hk : common path c.label < c.label.length
      · rw [if_pos hk]
        exact getAll_split_self hleads hk cs
      · have heq : common path c.label = c.label.length :=
          le_antisymm (common_le_right _ _) (not_lt.1 hk)
        have hlabel := label_reach empty (path.drop (common path c.label)) c
        rw [if_neg hk, getAll_of_isPrefix (by rw [hlabel]; exact hleads.1)
          (by rw [hlabel]; exact common_eq_length_iff.1 heq), hlabel, ← heq]
        exact get_reach_self empty (path.drop (common path c.label)) c
    · rw [if_neg hleads, getAll_of_not_leads hleads]
      exact getAll_reachAll_self empty hpath cs
end

theorem label_update (f : β → β) (path : List α) (t : Tree α β) :
    (t.update f path).label = t.label := by
  cases t
  rw [update]
  split <;> rfl

mutual
/-- An update changes the value at its path, if that leads to a node, and no other. -/
theorem get_update (f : β → β) (path : List α) (t : Tree α β) (q : List α) :
    (t.update f path).get q = if q = path then (t.get path).map f else t.get q := by
  cases t with
  | node lab value children =>
    rw [update]
    by_cases hpath : path = []
    · rw [if_pos hpath, get_node, get_node, get_node, hpath, if_pos rfl]
      split <;> rfl
    · rw [if_neg hpath, get_node, get_node, get_node, if_neg hpath]
      by_cases hq : q = []
      · rw [if_pos hq, if_neg (hq ▸ Ne.symm hpath), if_pos hq]
      · rw [if_neg hq, if_neg hq]
        exact getAll_update f path children q
theorem getAll_update (f : β → β) (path : List α) (cs : List (Tree α β)) (q : List α) :
    getAll q (updateAll f path cs) = if q = path then (getAll path cs).map f else getAll q cs := by
  cases cs with
  | nil =>
    rw [updateAll, getAll, getAll]
    split <;> rfl
  | cons c cs =>
    rw [updateAll]
    by_cases hleads : Leads path c
    · rw [if_pos hleads]
      by_cases hpre : c.label <+: path
      · rw [if_pos (common_eq_length_iff.2 hpre), getAll_of_isPrefix hleads.1 hpre]
        have hlabel := label_update f (path.drop c.label.length) c
        by_cases hq : c.label <+: q
        · rw [getAll_of_isPrefix (by rw [hlabel]; exact hleads.1) (by rw [hlabel]; exact hq),
            getAll_of_isPrefix hleads.1 hq, hlabel,
            get_update f (path.drop c.label.length) c (q.drop c.label.length)]
          have hiff : q.drop c.label.length = path.drop c.label.length ↔ q = path := by
            obtain ⟨r, rfl⟩ := hq
            obtain ⟨p, rfl⟩ := hpre
            rw [List.drop_left, List.drop_left, List.append_right_inj]
          by_cases heq : q = path
          · rw [if_pos heq, if_pos (hiff.2 heq)]
          · rw [if_neg heq, if_neg (mt hiff.1 heq)]
        · have hne : q ≠ path := fun heq => hq (heq ▸ hpre)
          rw [if_neg hne]
          by_cases hlq : Leads q c
          · rw [getAll_of_leads hlq hq, getAll_of_leads (by unfold Leads; rw [hlabel]; exact hlq)
              (by rw [hlabel]; exact hq)]
          · rw [getAll_of_not_leads hlq,
              getAll_of_not_leads (by unfold Leads; rw [hlabel]; exact hlq)]
      · rw [if_neg (mt common_eq_length_iff.1 hpre), getAll_of_leads hleads hpre]
        by_cases heq : q = path
        · rw [if_pos heq, heq, getAll_of_leads hleads hpre]
          rfl
        · rw [if_neg heq]
    · rw [if_neg hleads, getAll_of_not_leads hleads]
      by_cases hlq : Leads q c
      · have hne : q ≠ path := fun heq => hleads (heq ▸ hlq)
        rw [if_neg hne, getAll, getAll, if_pos hlq, if_pos hlq]
      · rw [getAll_of_not_leads hlq, getAll_of_not_leads hlq]
        exact getAll_update f path cs q
end

omit [DecidableEq α] in
theorem label_map (f : β → β) (t : Tree α β) : (t.map f).label = t.label := by
  cases t
  rw [map, label, label]

mutual
theorem get_map (f : β → β) (t : Tree α β) (q : List α) : (t.map f).get q = (t.get q).map f := by
  cases t with
  | node lab value children =>
    rw [map, get_node, get_node]
    by_cases hq : q = []
    · rw [if_pos hq, if_pos hq]
      rfl
    · rw [if_neg hq, if_neg hq]
      exact getAll_map f children q
theorem getAll_map (f : β → β) (cs : List (Tree α β)) (q : List α) :
    getAll q (mapAll f cs) = (getAll q cs).map f := by
  cases cs with
  | nil =>
    rw [mapAll, getAll]
    rfl
  | cons c cs =>
    have hlabel := label_map f c
    have hiff : Leads q (c.map f) ↔ Leads q c := by
      unfold Leads
      rw [hlabel]
    rw [mapAll]
    by_cases hlq : Leads q c
    · rw [getAll, getAll, if_pos hlq, if_pos (hiff.2 hlq), hlabel]
      split
      · exact get_map f c _
      · rfl
    · rw [getAll_of_not_leads hlq, getAll_of_not_leads (mt hiff.1 hlq)]
      exact getAll_map f cs q
end

/-- A prefix of the path, not the empty one, where an accepted value was found. -/
def Accepted (ok : β → Bool) (path : List α) (k : Nat) (found : Option β) (v : β) : Prop :=
  0 < k ∧ k ≤ path.length ∧ found = some v ∧ ok v = true

mutual
/-- The walk ends with the longest accepted prefix of the path, or with what it had. -/
theorem longest_spec (ok : β → Bool) (path : List α) (pos : Nat) (best : Option (Nat × β))
    (t : Tree α β) :
    (∃ k v, t.longest ok path pos best = some (pos + k, v) ∧ Accepted ok path k (t.get (path.take k)) v ∧
        ∀ j w, Accepted ok path j (t.get (path.take j)) w → j ≤ k) ∨
      (t.longest ok path pos best = best ∧ ∀ j w, ¬ Accepted ok path j (t.get (path.take j)) w) := by
  cases t with
  | node lab value children =>
    rw [longest]
    by_cases hpath : path = []
    · right
      rw [if_pos hpath]
      refine ⟨rfl, fun j w h => ?_⟩
      have hlen := h.2.1
      rw [hpath, List.length_nil] at hlen
      exact absurd h.1 (by omega)
    · rw [if_neg hpath]
      have hget : ∀ k v, Accepted ok path k ((node lab value children).get (path.take k)) v ↔
          Accepted ok path k (getAll (path.take k) children) v := by
        intro k v
        unfold Accepted
        by_cases h0 : 0 < k
        · rw [get_of_ne (take_ne_nil h0 hpath)]
          rfl
        · simp [h0]
      simp only [hget]
      exact longestAll_spec ok path pos best children
theorem longestAll_spec (ok : β → Bool) (path : List α) (pos : Nat) (best : Option (Nat × β))
    (cs : List (Tree α β)) :
    (∃ k v, longestAll ok path pos best cs = some (pos + k, v) ∧
        Accepted ok path k (getAll (path.take k) cs) v ∧
        ∀ j w, Accepted ok path j (getAll (path.take j) cs) w → j ≤ k) ∨
      (longestAll ok path pos best cs = best ∧
        ∀ j w, ¬ Accepted ok path j (getAll (path.take j) cs) w) := by
  cases cs with
  | nil =>
    right
    rw [longestAll]
    refine ⟨rfl, fun j w h => ?_⟩
    have hnone := h.2.2.1
    simp only [getAll] at hnone
    cases hnone
  | cons c cs =>
    have htake : ∀ j, 0 < j → j ≤ path.length → (Leads (path.take j) c ↔ Leads path c) := by
      intro j h0 hle
      unfold Leads
      rw [List.head?_take, if_neg h0.ne']
    rw [longestAll]
    by_cases hleads : Leads path c
    · rw [if_pos hleads]
      by_cases hpre : c.label <+: path
      · have hlen : 0 < c.label.length := List.length_pos_iff.2 hleads.1
        have hle := hpre.length_le
        rw [if_neg (not_not.2 (common_eq_length_iff.2 hpre))]
        -- an accepted prefix is the child itself or one accepted below it
        have hbelow : ∀ j w, Accepted ok path j (getAll (path.take j) (c :: cs)) w ↔
            (j = c.label.length ∧ w = c.value ∧ ok w = true) ∨
            (∃ i, j = c.label.length + i ∧ Accepted ok (path.drop c.label.length) i
              (c.get ((path.drop c.label.length).take i)) w) := by
          intro j w
          obtain ⟨r, rfl⟩ := hpre
          rw [List.drop_left]
          constructor
          · rintro ⟨h0, hj, hget, hok⟩
            have hlj : c.label <+: (c.label ++ r).take j := by
              by_contra hnot
              simp only [getAll_of_leads ((htake j h0 hj).2 hleads) hnot] at hget
              cases hget
            have hcj := hlj.length_le
            rw [List.length_take] at hcj
            obtain ⟨i, rfl⟩ := Nat.exists_eq_add_of_le (show c.label.length ≤ j by omega)
            simp only [getAll_of_isPrefix hleads.1 hlj] at hget
            rw [List.take_length_add_append, List.drop_left] at hget
            cases i with
            | zero =>
              rw [List.take_zero, get_nil] at hget
              exact Or.inl ⟨rfl, (Option.some.inj hget).symm, hok⟩
            | succ i =>
              rw [List.length_append] at hj
              exact Or.inr ⟨i + 1, rfl, by omega, by omega, hget, hok⟩
          · rintro (⟨rfl, rfl, hok⟩ | ⟨i, rfl, h0, hi, hget, hok⟩)
            · refine ⟨hlen, hle, ?_, hok⟩
              simp only [List.take_left]
              rw [getAll_of_isPrefix hleads.1 (List.prefix_refl _), List.drop_length, get_nil]
            · refine ⟨by omega, by rw [List.length_append]; omega, ?_, hok⟩
              rw [List.take_length_add_append]
              rw [getAll_of_isPrefix hleads.1 (List.prefix_append _ _), List.drop_left]
              exact hget
        rcases longest_spec ok (path.drop c.label.length) (pos + c.label.length)
          (if ok c.value then some (pos + c.label.length, c.value) else best) c with
          ⟨k, v, hlongest, hacc, hmax⟩ | ⟨hlongest, hnone⟩
        · left
          refine ⟨c.label.length + k, v, by rw [hlongest, Nat.add_assoc], ?_, ?_⟩
          · exact (hbelow _ _).2 (Or.inr ⟨k, rfl, hacc⟩)
          · intro j w h
            rcases (hbelow j w).1 h with ⟨rfl, -⟩ | ⟨i, rfl, hi⟩
            · exact Nat.le_add_right _ _
            · exact Nat.add_le_add_left (hmax i w hi) _
        · rw [hlongest]
          by_cases hok : ok c.value = true
          · left
            rw [if_pos hok]
            refine ⟨c.label.length, c.value, rfl, (hbelow _ _).2 (Or.inl ⟨rfl, rfl, hok⟩), ?_⟩
            intro j w h
            rcases (hbelow j w).1 h with ⟨rfl, -⟩ | ⟨i, -, hi⟩
            · exact le_refl _
            · exact absurd hi (hnone i w)
          · right
            rw [if_neg hok]
            refine ⟨rfl, fun j w h => ?_⟩
            rcases (hbelow j w).1 h with ⟨-, rfl, hw⟩ | ⟨i, -, hi⟩
            · exact hok hw
            · exact hnone i w hi
      · right
        rw [if_pos (mt common_eq_length_iff.1 hpre)]
        refine ⟨rfl, fun j w h => ?_⟩
        have hnot : ¬ c.label <+: path.take j := fun hcon => hpre (hcon.trans (List.take_prefix _ _))
        have hnone := h.2.2.1
        simp only [getAll_of_leads ((htake j h.1 h.2.1).2 hleads) hnot] at hnone
        cases hnone
    · rw [if_neg hleads]
      have hskip : ∀ j w, Accepted ok path j (getAll (path.take j) (c :: cs)) w ↔
          Accepted ok path j (getAll (path.take j) cs) w := by
        intro j w
        unfold Accepted
        constructor
        · rintro ⟨h0, hj, hget, hok⟩
          rw [getAll_of_not_leads (mt (htake j h0 hj).1 hleads)] at hget
          exact ⟨h0, hj, hget, hok⟩
        · rintro ⟨h0, hj, hget, hok⟩
          rw [← getAll_of_not_leads (mt (htake j h0 hj).1 hleads) cs] at hget
          exact ⟨h0, hj, hget, hok⟩
      simp only [hskip]
      exact longestAll_spec ok path pos best cs
end

end Tree

end VgEngine.RadixTree
