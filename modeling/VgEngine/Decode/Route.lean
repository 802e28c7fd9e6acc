import VgEngine.Decode.Experts

/-! `vg_model_graph_moe_route` on its array of expert numbers: the experts that it selects are the
first of all experts in the order of their logits. -/
namespace VgEngine.Decode

section Model

variable {α : Type*}

structure MoeState where
  nExpert : Nat
  nExpertUsed : Nat
  expertIds : Option (List Nat)

/-- `while (j > 0 && gate_logits[order[j]] > gate_logits[order[j - 1]])`, with a swap a pass. -/
def siftUp (greater : Nat → Nat → Bool) : Nat → List Nat → List Nat
  | 0, order => order
  | j + 1, order =>
    if greater (order.getD (j + 1) 0) (order.getD j 0) then
      siftUp greater j ((order.set (j + 1) (order.getD j 0)).set j (order.getD (j + 1) 0))
    else order

/-- The array `order` after the sort. -/
def sortOrder (greater : Nat → Nat → Bool) (nExpert : Nat) : List Nat :=
  (List.range' 1 (nExpert - 1)).foldl (fun order i => siftUp greater i order) (List.range nExpert)

/-- The allocations of `vg_model_graph_moe_route`. -/
structure RouteMemory where
  expertIds : Bool
  ownLogits : Bool
  order : Bool

/-- `vg_model_graph_moe_route`, where `project` is the product of the router with the block input, for
callers that hand one over. -/
def vgModelGraphMoeRoute (gt : α → α → Bool) (cfgExpert cfgUsed : Nat) (memory : RouteMemory)
    (gateLogits : Option (Nat → α)) (project : Option (Except Status (Nat → α)))
    (state : MoeState) : Status × MoeState :=
  let nExpert := if 0 < cfgExpert then cfgExpert else 1
  let nUsed := if 0 < cfgUsed then cfgUsed else 1
  let state := { state with nExpert := nExpert, nExpertUsed := nUsed }
  let select (logits : Nat → α) : Status × MoeState :=
    if memory.order = false then (.nomem, state)
    else
      let order := sortOrder (fun a b => gt (logits a) (logits b)) nExpert
      (.ok, { state with expertIds := some ((List.range nUsed).map fun i => order.getD i 0) })
  if state.expertIds = none ∧ memory.expertIds = false then (.nomem, state)
  else
    match gateLogits, project with
    | some logits, _ => select logits
    | none, some result =>
      if memory.ownLogits = false then (.nomem, state)
      else
        match result with
        | .ok logits => select logits
        | .error status => (status, state)
    | none, none =>
      (.ok, { state with expertIds := some ((List.range nUsed).map fun i => i % nExpert) })

end Model

section Sorting

variable {greater : Nat → Nat → Bool}

/-- A pass over an array whose first part is sorted inserts the next expert into that part. -/
theorem siftUp_eq (e : Nat) (l rest : List Nat) :
    siftUp greater l.length (l.reverse ++ e :: rest) = (insertExpert greater e l).reverse ++ rest := by
  induction l generalizing rest with
  | nil => rfl
  | cons d ds ih =>
    have hshape : (d :: ds).reverse ++ e :: rest = ds.reverse ++ d :: e :: rest := by simp
    have hlast : (ds.reverse ++ d :: e :: rest).getD (ds.length + 1) 0 = e := by
      simp
    have hprev : (ds.reverse ++ d :: e :: rest).getD ds.length 0 = d := by
      simp
    have hswap : ((ds.reverse ++ d :: e :: rest).set (ds.length + 1) d).set ds.length e =
        ds.reverse ++ e :: d :: rest := by
      simp
    rw [hshape, List.length_cons, siftUp, hlast, hprev, insertExpert]
    split_ifs with hgreater
    · rw [hswap, ih]
      simp
    · simp

theorem length_insertExpert (e : Nat) (l : List Nat) :
    (insertExpert greater e l).length = l.length + 1 := by
  induction l with
  | nil => rfl
  | cons d ds ih =>
    unfold insertExpert
    split_ifs
    · rw [List.length_cons, ih, List.length_cons]
    · rfl

/-- The part that is sorted after some passes, its last expert first. -/
def sortedPart (greater : Nat → Nat → Bool) (n : Nat) : List Nat :=
  (List.range n).foldl (fun sorted e => insertExpert greater e sorted) []

theorem sortedPart_succ (n : Nat) :
    sortedPart greater (n + 1) = insertExpert greater n (sortedPart greater n) := by
  rw [sortedPart, List.range_succ, List.foldl_append]
  rfl

theorem length_sortedPart (n : Nat) : (sortedPart greater n).length = n := by
  induction n with
  | zero => rfl
  | succ n ih => rw [sortedPart_succ, length_insertExpert, ih]

theorem insertExpert_congr {greater' : Nat → Nat → Bool} {e : Nat} {l : List Nat}
    (h : ∀ d ∈ l, greater e d = greater' e d) :
    insertExpert greater e l = insertExpert greater' e l := by
  induction l with
  | nil => rfl
  | cons d ds ih =>
    unfold insertExpert
    rw [h d List.mem_cons_self, ih fun x hx => h x (List.mem_cons_of_mem d hx)]

/-- The array after the passes up to `k`. -/
theorem passes_eq {n : Nat} (k : Nat) (hk : k < n) :
    (List.range' 1 k).foldl (fun order i => siftUp greater i order) (List.range n) =
      (sortedPart greater (k + 1)).reverse ++ List.range' (k + 1) (n - (k + 1)) := by
  induction k with
  | zero =>
    rw [List.range_eq_range', show n = n - 1 + 1 by omega, List.range'_succ]
    rfl
  | succ k ih =>
    rw [List.range'_concat, List.foldl_append, ih (by omega), List.foldl_cons, List.foldl_nil,
      show n - (k + 1) = n - (k + 1 + 1) + 1 by omega, List.range'_succ, sortedPart_succ (k + 1)]
    have hstep := @siftUp_eq greater (k + 1) (sortedPart greater (k + 1))
      (List.range' (k + 1 + 1) (n - (k + 1 + 1)))
    rw [length_sortedPart] at hstep
    rw [show 1 + 1 * k = k + 1 by omega]
    exact hstep

theorem sortOrder_eq (n : Nat) : sortOrder greater n = (sortedPart greater n).reverse := by
  cases n with
  | zero => rfl
  | succ n =>
    rw [sortOrder, Nat.add_sub_cancel, passes_eq n (Nat.lt_succ_self n), Nat.sub_self]
    simp

/-- The array sort selects the experts that the decode's router selects. -/
theorem take_sortOrder (n used : Nat) : (sortOrder greater n).take used = moeRoute greater n used := by
  rw [sortOrder_eq]
  rfl

end Sorting

section TopK

variable {α : Type*} [LinearOrder α] (logits : Nat → α)

/-- Descending logits, and among equal ones ascending numbers. -/
def Precedes (a b : Nat) : Prop := logits b < logits a ∨ logits a = logits b ∧ a < b

theorem Precedes.trans {a b c : Nat} (hab : Precedes logits a b) (hbc : Precedes logits b c) :
    Precedes logits a c := by
  rcases hab with hab | ⟨hab, hlt⟩ <;> rcases hbc with hbc | ⟨hbc, hlt'⟩
  · exact .inl (hbc.trans hab)
  · exact .inl (hbc ▸ hab)
  · exact .inl (hab ▸ hbc)
  · exact .inr ⟨hab.trans hbc, hlt.trans hlt'⟩

/-- Inserting an expert with a greater number keeps the order. -/
theorem insertExpert_pairwise {e : Nat} {l : List Nat} (he : ∀ x ∈ l, x < e)
    (h : l.Pairwise fun a b => Precedes logits b a) :
    (insertExpert (fun a b => decide (logits b < logits a)) e l).Pairwise
      fun a b => Precedes logits b a := by
  induction l with
  | nil => exact List.pairwise_singleton _ _
  | cons d ds ih =>
    obtain ⟨hd, hds⟩ := List.pairwise_cons.mp h
    have hrest : ∀ x ∈ ds, x < e := fun x hx => he x (List.mem_cons_of_mem d hx)
    unfold insertExpert
    simp only [decide_eq_true_eq]
    split_ifs with hgreater
    · refine List.pairwise_cons.mpr ⟨fun x hx => ?_, ih hrest hds⟩
      rcases mem_insertExpert.mp hx with rfl | hx
      · exact .inl hgreater
      · exact hd x hx
    · have hde : Precedes logits d e := by
        rcases (le_of_not_gt hgreater).lt_or_eq with hlt | heq
        · exact .inl hlt
        · exact .inr ⟨heq.symm, he d List.mem_cons_self⟩
      refine List.pairwise_cons.mpr ⟨fun x hx => ?_, h⟩
      rcases List.mem_cons.mp hx with rfl | hx
      · exact hde
      · exact (hd x hx).trans logits hde

theorem mem_sortedPart {greater : Nat → Nat → Bool} {n x : Nat} :
    x ∈ sortedPart greater n ↔ x < n := by
  induction n with
  | zero => simp [sortedPart]
  | succ n ih =>
    rw [sortedPart_succ, mem_insertExpert, ih]
    omega

/-- The selection depends on the order of the experts only. -/
theorem moeRoute_congr {greater greater' : Nat → Nat → Bool} {n : Nat}
    (h : ∀ a < n, ∀ b < n, greater a b = greater' a b) (used : Nat) :
    moeRoute greater n used = moeRoute greater' n used := by
  have hpart (k : Nat) (hk : k ≤ n) : sortedPart greater k = sortedPart greater' k := by
    induction k with
    | zero => rfl
    | succ k ih =>
      rw [sortedPart_succ, sortedPart_succ, ih (Nat.le_of_succ_le hk)]
      apply insertExpert_congr
      intro d hd
      exact h k hk d (Nat.lt_trans (mem_sortedPart.mp hd) hk)
  rw [moeRoute, moeRoute, ← sortedPart, ← sortedPart, hpart n (Nat.le_refl n)]

theorem sortedPart_pairwise (n : Nat) :
    (sortedPart (fun a b => decide (logits b < logits a)) n).Pairwise
      fun a b => Precedes logits b a := by
  induction n with
  | zero => exact List.Pairwise.nil
  | succ n ih =>
    rw [sortedPart_succ]
    exact insertExpert_pairwise logits (fun x hx => mem_sortedPart.mp hx) ih

/-- The experts that a router selects are the first `used` of all, in order. -/
structure TopK (experts used : Nat) (ids : List Nat) : Prop where
  length : ids.length = used
  valid : ∀ e ∈ ids, e < experts
  distinct : ids.Nodup
  ordered : ids.Pairwise (Precedes logits)
  maximal : ∀ e < experts, e ∉ ids → ∀ s ∈ ids, logits e ≤ logits s

theorem Precedes.le {a b : Nat} (h : Precedes logits a b) : logits b ≤ logits a := by
  rcases h with h | ⟨h, -⟩
  · exact h.le
  · exact h.ge

theorem Precedes.ne {a b : Nat} (h : Precedes logits a b) : a ≠ b := by
  rintro rfl
  rcases h with h | ⟨-, h⟩
  · exact lt_irrefl _ h
  · exact Nat.lt_irrefl _ h

theorem moeRoute_topK {experts used : Nat} (hused : used ≤ experts) :
    TopK logits experts used
      (moeRoute (fun a b => decide (logits b < logits a)) experts used) := by
  have hall : ((sortedPart (fun a b => decide (logits b < logits a)) experts).reverse).Pairwise
      (Precedes logits) := List.pairwise_reverse.mpr (sortedPart_pairwise logits experts)
  have htake := hall.sublist (List.take_sublist used _)
  refine ⟨?_, fun e he => moeRoute_lt he, htake.imp fun h => h.ne, htake, fun e he hout s hs => ?_⟩
  · rw [moeRoute, ← sortedPart, List.length_take, List.length_reverse, length_sortedPart]
    exact Nat.min_eq_left hused
  · have hmem : e ∈ (sortedPart (fun a b => decide (logits b < logits a)) experts).reverse :=
      List.mem_reverse.mpr (mem_sortedPart.mpr he)
    rw [← List.take_append_drop used (List.reverse _)] at hmem hall
    have hdrop := (List.mem_append.mp hmem).resolve_left hout
    exact ((List.pairwise_append.mp hall).2.2 s hs e hdrop).le

end TopK

section Selected

variable {α : Type*} [LinearOrder α]

theorem range_map_getD {l : List Nat} {n : Nat} (h : n ≤ l.length) :
    ((List.range n).map fun i => l.getD i 0) = l.take n := by
  refine List.ext_getElem (by simp [h]) fun i hi _ => ?_
  have hlt : i < l.length := by
    rw [List.length_map, List.length_range] at hi
    omega
  simp [hlt]

/-- The allocations that a selection by logits needs. -/
def RouteMemory.Suffices (memory : RouteMemory) (own : Bool) (state : MoeState) : Prop :=
  (state.expertIds = none → memory.expertIds = true) ∧ (own = true → memory.ownLogits = true) ∧
    memory.order = true

/-- With logits, from the caller or from the router, the selection succeeds when its allocations do,
and then it is a correct top-k. -/
theorem vgModelGraphMoeRoute_topK (logits : Nat → α) {cfgExpert cfgUsed : Nat}
    (hused : cfgUsed ≤ cfgExpert) (memory : RouteMemory) (own : Bool) (state : MoeState) :
    let r := vgModelGraphMoeRoute (fun a b => decide (b < a)) cfgExpert cfgUsed memory
      (if own then none else some logits) (some (.ok logits)) state
    (r.1 = .ok ↔ memory.Suffices own state) ∧
      (r.1 = .ok → r.2.nExpert = max 1 cfgExpert ∧ r.2.nExpertUsed = max 1 cfgUsed ∧
        ∃ ids, r.2.expertIds = some ids ∧ TopK logits r.2.nExpert r.2.nExpertUsed ids) := by
  have hExpert : (if 0 < cfgExpert then cfgExpert else 1) = max 1 cfgExpert := by
    split_ifs <;> omega
  have hUsed : (if 0 < cfgUsed then cfgUsed else 1) = max 1 cfgUsed := by
    split_ifs <;> omega
  have hle : max 1 cfgUsed ≤ max 1 cfgExpert := max_le_max_left 1 hused
  have hids : ((List.range (max 1 cfgUsed)).map fun i =>
      (sortOrder (fun a b => decide (logits b < logits a)) (max 1 cfgExpert)).getD i 0) =
        moeRoute (fun a b => decide (logits b < logits a)) (max 1 cfgExpert) (max 1 cfgUsed) := by
    rw [range_map_getD, take_sortOrder]
    rw [sortOrder_eq, List.length_reverse, length_sortedPart]
    exact hle
  have htop := moeRoute_topK logits hle
  dsimp only
  unfold vgModelGraphMoeRoute RouteMemory.Suffices
  cases own
  · simp only [hExpert, hUsed, Bool.false_eq_true, if_false, hids]
    cases hexp : state.expertIds <;> cases hm : memory.expertIds <;>
      cases hr : memory.order <;> simp [htop]
  · simp only [hExpert, hUsed, if_true, hids]
    cases hexp : state.expertIds <;> cases hm : memory.expertIds <;>
      cases ho : memory.ownLogits <;> cases hr : memory.order <;> simp [htop]

theorem vgModelGraphMoeRoute_topK_tie :
    ∃ ids, (vgModelGraphMoeRoute (fun a b : Nat => decide (b < a)) 4 2 ⟨true, true, true⟩
      (some fun i => if i = 1 then 0 else 7) (some (.ok fun i => if i = 1 then 0 else 7))
      ⟨0, 0, none⟩).2.expertIds = some ids ∧ TopK (fun i => if i = 1 then 0 else 7) 4 2 ids :=
  ((vgModelGraphMoeRoute_topK (fun i => if i = 1 then 0 else 7) (show 2 ≤ 4 by decide)
    ⟨true, true, true⟩ false ⟨0, 0, none⟩).2 (by decide)).2.2

end Selected

end VgEngine.Decode
