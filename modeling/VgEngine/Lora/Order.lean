import VgEngine.Lora.Load

/-! What of an adapter depends on the order of its tensors: a B half before its A half is taken for
one without, and is lost. -/
namespace VgEngine.Lora
open VgEngine.Gguf VgEngine.Model VgEngine.Quant

section Halves

variable {F : Type*} [CommRing F] (env : LoadEnv F)

/-- The half that a record is, by its name; it needs two dimensions. -/
def half (t : GgufTensor) : Option (List UInt8 × Bool) :=
  if t.nDims < 2 then none else splitLoraName (text t) 160

/-- The dimensions of an A half are not zero in 32 bits. -/
def Sized (t : GgufTensor) : Prop := dim t 0 % 2 ^ 32 ≠ 0 ∧ dim t 1 % 2 ^ 32 ≠ 0

instance (t : GgufTensor) : Decidable (Sized t) := inferInstanceAs (Decidable (_ ∧ _))

/-- The pair that an A half opens. -/
def newPair (base : List UInt8) (t : GgufTensor) : Option (VgLoraPair F) :=
  if Sized t ∧ env.dup base = true then
    (readFloatTensor env t).map fun a =>
      ⟨base, a, none, dim t 1 % 2 ^ 32, dim t 0 % 2 ^ 32, 0, 1⟩
  else none

/-- A pair with a B half, where the ranks agree. -/
def withB (t : GgufTensor) (p : VgLoraPair F) : VgLoraPair F :=
  if dim t 0 % 2 ^ 32 = p.rank then
    { p with
      b := readFloatTensor env t
      outDim := if (readFloatTensor env t).isSome then dim t 1 % 2 ^ 32 else 0 }
  else p

/-- What a record does to the table. -/
def stepPairs (pairs : List (VgLoraPair F)) (t : GgufTensor) : List (VgLoraPair F) :=
  match half t with
  | none => pairs
  | some (base, true) => pairs ++ (newPair env base t).toList
  | some (base, false) => updatePair base (withB env t) pairs

/-- The records up to the first A half for which the table, of `count` pairs in room for `cap`,
would have to grow and cannot. -/
def reached : Nat → Nat → List GgufTensor → List GgufTensor
  | _, _, [] => []
  | count, cap, t :: ts =>
    match half t with
    | some (base, true) =>
      if Sized t then
        if count = cap ∧ env.grow (grown cap) = false then []
        else t :: reached (count + (newPair env base t).toList.length)
          (if count = cap then grown cap else cap) ts
      else t :: reached count cap ts
    | _ => t :: reached count cap ts

variable {env}

theorem withB_base (t : GgufTensor) (p : VgLoraPair F) : (withB env t p).base = p.base := by
  unfold withB
  split <;> rfl

theorem newPair_base {base : List UInt8} {t : GgufTensor} {p : VgLoraPair F}
    (h : newPair env base t = some p) : p.base = base := by
  unfold newPair at h
  split at h
  · obtain ⟨a, -, rfl⟩ := Option.map_eq_some_iff.1 h
    rfl
  · cases h

theorem reached_sublist (ts : List GgufTensor) (count cap : Nat) :
    (reached env count cap ts).Sublist ts := by
  induction ts generalizing count cap with
  | nil => exact List.Sublist.refl _
  | cons t ts ih =>
    unfold reached
    split
    · split
      · split
        · exact List.nil_sublist _
        · exact (ih _ _).cons_cons t
      · exact (ih _ _).cons_cons t
    · exact (ih _ _).cons_cons t

theorem reached_cons (count cap : Nat) (t : GgufTensor) (ts : List GgufTensor) :
    reached env count cap (t :: ts) = match half t with
      | some (base, true) =>
        if Sized t then
          if count = cap ∧ env.grow (grown cap) = false then []
          else t :: reached env (count + (newPair env base t).toList.length)
            (if count = cap then grown cap else cap) ts
        else t :: reached env count cap ts
      | _ => t :: reached env count cap ts := rfl

/-- An A half of two dimensions adds its pair once there is room for it. -/
theorem loadHalf_sized (ad : VgLoraAdapter F) {t : GgufTensor} {base : List UInt8}
    (hhalf : half t = some (base, true)) (hsized : Sized t)
    (hgrow : ¬ (ad.pairs.length = ad.capacity ∧ env.grow (grown ad.capacity) = false)) :
    ∃ rank, loadHalf env ad t = some ⟨ad.pairs ++ (newPair env base t).toList,
      if ad.pairs.length = ad.capacity then grown ad.capacity else ad.capacity, rank⟩ := by
  unfold half at hhalf
  split at hhalf
  · cases hhalf
  · rename_i hdims
    unfold loadHalf newPair
    rw [if_neg hdims, hhalf]
    dsimp only
    rw [if_neg (by unfold Sized at hsized; tauto), if_neg hgrow]
    by_cases hfull : ad.pairs.length = ad.capacity
    · simp only [if_pos hfull]
      cases env.dup base <;> cases readFloatTensor env t <;> simp [hsized]
    · simp only [if_neg hfull]
      cases env.dup base <;> cases readFloatTensor env t <;> simp [hsized]
      all_goals exact ⟨ad.rank, rfl⟩

/-- With memory for the table, every record is. -/
theorem reached_of_grow (hgrow : ∀ n, env.grow n = true) (ts : List GgufTensor) (count cap : Nat) :
    reached env count cap ts = ts := by
  induction ts generalizing count cap with
  | nil => rfl
  | cons t ts ih =>
    rw [reached_cons]
    split
    · split
      · rw [if_neg (by simp [hgrow]), ih]
      · rw [ih]
    · rw [ih]

variable (env) in
/-- What one record changes, or that the loop is left. -/
theorem loadHalf_cases (ad : VgLoraAdapter F) (t : GgufTensor) (ts : List GgufTensor) :
    (loadHalf env ad t = none ∧ reached env ad.pairs.length ad.capacity (t :: ts) = []) ∨
      ∃ next, loadHalf env ad t = some next ∧ next.pairs = stepPairs env ad.pairs t ∧
        reached env ad.pairs.length ad.capacity (t :: ts) =
          t :: reached env next.pairs.length next.capacity ts := by
  rw [reached_cons]
  unfold stepPairs
  by_cases hdims : t.nDims < 2
  · rw [show half t = none from if_pos hdims]
    exact .inr ⟨ad, if_pos hdims, rfl, rfl⟩
  · have hhalf : half t = splitLoraName (text t) 160 := if_neg hdims
    match hname : half t with
    | none =>
      refine .inr ⟨ad, ?_, rfl, rfl⟩
      unfold loadHalf
      rw [if_neg hdims, ← hhalf, hname]
    | some (base, true) =>
      dsimp only
      by_cases hsized : Sized t
      · rw [if_pos hsized]
        by_cases hfull : ad.pairs.length = ad.capacity ∧ env.grow (grown ad.capacity) = false
        · refine .inl ⟨?_, if_pos hfull⟩
          unfold loadHalf
          rw [if_neg hdims, ← hhalf, hname]
          dsimp only
          rw [if_neg (by unfold Sized at hsized; tauto), if_pos hfull]
        · obtain ⟨rank, hload⟩ := loadHalf_sized ad hname hsized hfull
          exact .inr ⟨_, hload, rfl, by rw [if_neg hfull, List.length_append]⟩
      · refine .inr ⟨ad, ?_, by simp [newPair, hsized], by rw [if_neg hsized]⟩
        unfold loadHalf
        rw [if_neg hdims, ← hhalf, hname]
        exact if_pos (by unfold Sized at hsized; tauto)
    | some (base, false) =>
      have hload : ∃ next, loadHalf env ad t = some next ∧ next.capacity = ad.capacity ∧
          next.pairs = updatePair base (withB env t) ad.pairs := by
        unfold loadHalf
        rw [if_neg hdims, ← hhalf, hname]
        dsimp only
        cases hfind : findPair ad.pairs base with
        | none =>
          refine ⟨ad, rfl, rfl, (updatePair_eq_self fun p hp => ?_).symm⟩
          rw [hfind] at hp
          cases hp
        | some p =>
          dsimp only
          split
          · rename_i hrank
            refine ⟨ad, rfl, rfl, (updatePair_eq_self fun q hq => ?_).symm⟩
            rw [hfind] at hq
            cases hq
            exact if_neg hrank
          · rename_i hrank
            refine ⟨_, rfl, rfl, updatePair_congr fun q hq => ?_⟩
            rw [hfind] at hq
            cases hq
            exact (if_pos (not_not.1 hrank)).symm
      obtain ⟨next, hnext, hcap, hpairs⟩ := hload
      refine .inr ⟨next, hnext, hpairs, ?_⟩
      rw [hcap, hpairs, length_updatePair]

theorem pairs_loadHalves (ts : List GgufTensor) (ad : VgLoraAdapter F) :
    (loadHalves env ad ts).pairs =
      (reached env ad.pairs.length ad.capacity ts).foldl (stepPairs env) ad.pairs := by
  induction ts generalizing ad with
  | nil => rfl
  | cons t ts ih =>
    unfold loadHalves
    rcases loadHalf_cases env ad t ts with ⟨hleft, hreached⟩ | ⟨next, hnext, hpairs, hreached⟩
    · rw [hleft, hreached]
      rfl
    · rw [hnext, hreached, List.foldl_cons, ← hpairs]
      exact ih next

end Halves

section PerBase

variable {F : Type*} [CommRing F] {env : LoadEnv F} {base : List UInt8}

/-- The records that are halves of one base. -/
def ofBase (base : List UInt8) (ts : List GgufTensor) : List GgufTensor :=
  ts.filter fun t => (half t).map Prod.fst = some base

variable (env base) in
/-- What a half of the base does to the first pair of the base. -/
def stepBase (o : Option (VgLoraPair F)) (t : GgufTensor) : Option (VgLoraPair F) :=
  if half t = some (base, true) then o.or (newPair env base t) else o.map (withB env t)

theorem findPair_stepPairs (pairs : List (VgLoraPair F)) (t : GgufTensor) :
    findPair (stepPairs env pairs t) base =
      if (half t).map Prod.fst = some base then stepBase env base (findPair pairs base) t
      else findPair pairs base := by
  unfold stepPairs stepBase
  match half t with
  | none => rfl
  | some (name, true) =>
    have hnew : findPair (newPair env name t).toList base =
        if name = base then newPair env base t else none := by
      cases hpair : newPair env name t with
      | none =>
        split
        · rename_i hbase
          exact (hbase ▸ hpair).symm
        · rfl
      | some p =>
        unfold findPair
        have hname := newPair_base hpair
        by_cases hbase : name = base
        · subst hbase
          simp [hname, hpair]
        · simp [hname, hbase]
    dsimp only
    rw [findPair_append, hnew]
    by_cases hbase : name = base
    · simp [hbase]
    · simp [hbase]
  | some (name, false) =>
    dsimp only
    rw [findPair_updatePair (withB_base t)]
    simp

/-- The pair of a base depends on the halves of that base only. -/
theorem findPair_foldl (ts : List GgufTensor) (pairs : List (VgLoraPair F)) :
    findPair (ts.foldl (stepPairs env) pairs) base =
      (ofBase base ts).foldl (stepBase env base) (findPair pairs base) := by
  induction ts generalizing pairs with
  | nil => rfl
  | cons t ts ih =>
    rw [List.foldl_cons, ih, findPair_stepPairs]
    unfold ofBase
    by_cases hbase : (half t).map Prod.fst = some base
    · rw [if_pos hbase, List.filter_cons_of_pos (by simpa using hbase), List.foldl_cons]
    · rw [if_neg hbase, List.filter_cons_of_neg (by simpa using hbase)]

variable (env base) in
/-- The two halves of a base are of matching ranks, and the loader can read and keep them. -/
structure Halves (a b : GgufTensor) : Prop where
  isA : half a = some (base, true)
  isB : half b = some (base, false)
  sized : Sized a
  rank : dim b 0 % 2 ^ 32 = dim a 1 % 2 ^ 32
  outDim : dim b 1 % 2 ^ 32 ≠ 0
  stored : env.dup base = true
  readA : (readFloatTensor env a).isSome
  readB : (readFloatTensor env b).isSome

variable (env base) in
/-- The pair of two halves. -/
def pairOf (a b : GgufTensor) (scaling : F) : VgLoraPair F :=
  ⟨base, (readFloatTensor env a).getD [], readFloatTensor env b, dim a 1 % 2 ^ 32,
    dim a 0 % 2 ^ 32, dim b 1 % 2 ^ 32, scaling⟩

/-- Both halves of the pair have been read. -/
def VgLoraPair.Complete (p : VgLoraPair F) : Prop := p.b.isSome ∧ p.outDim ≠ 0

/-- No two records are the same half of the same base. -/
def DistinctHalves (ts : List GgufTensor) : Prop :=
  ts.Pairwise fun t u => half t = half u → half t = none

instance (ts : List GgufTensor) : Decidable (DistinctHalves ts) :=
  inferInstanceAs (Decidable (ts.Pairwise _))

theorem mem_ofBase {t : GgufTensor} {ts : List GgufTensor} (h : t ∈ ofBase base ts) :
    half t = some (base, true) ∨ half t = some (base, false) := by
  have hbase : (half t).map Prod.fst = some base := by simpa [ofBase] using (List.mem_filter.1 h).2
  match hhalf : half t with
  | none => simp [hhalf] at hbase
  | some (name, true) => simp_all
  | some (name, false) => simp_all

theorem newPair_incomplete {t : GgufTensor} {p : VgLoraPair F}
    (h : newPair env base t = some p) : ¬ p.Complete := by
  unfold newPair at h
  split at h
  · obtain ⟨a, -, rfl⟩ := Option.map_eq_some_iff.1 h
    exact fun hcomplete => Bool.false_ne_true hcomplete.1
  · cases h

theorem stepBase_a {a : GgufTensor} (ha : half a = some (base, true)) :
    stepBase env base none a = newPair env base a := by
  unfold stepBase
  rw [if_pos ha, Option.none_or]

theorem stepBase_b {b : GgufTensor} (hb : half b = some (base, false))
    (o : Option (VgLoraPair F)) : stepBase env base o b = o.map (withB env b) :=
  if_neg (by simp [hb])

/-- An A half with the B half behind it. -/
theorem halves_complete {a b : GgufTensor} (ha : half a = some (base, true))
    (hb : half b = some (base, false)) {p : VgLoraPair F} :
    ((newPair env base a).map (withB env b) = some p ∧ p.Complete) ↔
      Halves env base a b ∧ p = pairOf env base a b 1 := by
  constructor
  · rintro ⟨hpair, hcomplete⟩
    obtain ⟨q, hq, rfl⟩ := Option.map_eq_some_iff.1 hpair
    have hopen := newPair_incomplete hq
    unfold withB at hcomplete ⊢
    split at hcomplete
    · rename_i hrank
      unfold newPair at hq
      split at hq
      · rename_i hsized
        obtain ⟨xs, hxs, rfl⟩ := Option.map_eq_some_iff.1 hq
        have hread : (readFloatTensor env b).isSome := hcomplete.1
        have hout : (if (readFloatTensor env b).isSome then dim b 1 % 2 ^ 32 else 0) ≠ 0 :=
          hcomplete.2
        rw [if_pos hread] at hout
        refine ⟨⟨ha, hb, hsized.1, hrank, hout, hsized.2, by rw [hxs]; rfl, hread⟩, ?_⟩
        rw [if_pos hrank, if_pos hread]
        unfold pairOf
        rw [hxs]
        rfl
      · cases hq
    · exact absurd hcomplete hopen
  · rintro ⟨hhalves, rfl⟩
    obtain ⟨xs, hxs⟩ := Option.isSome_iff_exists.1 hhalves.readA
    refine ⟨?_, hhalves.readB, hhalves.outDim⟩
    unfold newPair withB pairOf
    rw [if_pos (And.intro hhalves.sized hhalves.stored), hxs, Option.map_some, Option.map_some]
    dsimp only
    rw [if_pos hhalves.rank, if_pos hhalves.readB]
    rfl

theorem sublist_ofBase {a b : GgufTensor} {ts : List GgufTensor} (h : Halves env base a b) :
    [a, b].Sublist ts ↔ [a, b].Sublist (ofBase base ts) := by
  constructor
  · intro hsub
    have hfilter := hsub.filter fun t => (half t).map Prod.fst = some base
    rwa [List.filter_cons_of_pos (by simp [h.isA]), List.filter_cons_of_pos (by simp [h.isB])]
      at hfilter
  · exact fun hsub => hsub.trans List.filter_sublist

variable (base) in
/-- A base has no halves, one, or an A and a B half in one of the two orders. -/
theorem ofBase_cases {ts : List GgufTensor} (hdistinct : DistinctHalves ts) :
    (ofBase base ts).length ≤ 1 ∨ ∃ a b, half a = some (base, true) ∧ half b = some (base, false) ∧
      (ofBase base ts = [a, b] ∨ ofBase base ts = [b, a]) := by
  have hpairwise : DistinctHalves (ofBase base ts) := hdistinct.sublist List.filter_sublist
  have hhalf : ∀ t ∈ ofBase base ts, half t = some (base, true) ∨ half t = some (base, false) :=
    fun t ht => mem_ofBase ht
  unfold DistinctHalves at hpairwise
  revert hpairwise hhalf
  generalize ofBase base ts = halves
  intro hpairwise hhalf
  match halves with
  | [] => exact .inl (Nat.zero_le 1)
  | [t] => exact .inl (Nat.le_refl 1)
  | [t, u] =>
    simp only [List.pairwise_cons, List.mem_cons, List.not_mem_nil, or_false] at hpairwise hhalf
    have hne := hpairwise.1 u rfl
    rcases hhalf t (.inl rfl) with ht | ht <;> rcases hhalf u (.inr rfl) with hu | hu
    · simp [ht, hu] at hne
    · exact .inr ⟨t, u, ht, hu, .inl rfl⟩
    · exact .inr ⟨u, t, hu, ht, .inr rfl⟩
    · simp [ht, hu] at hne
  | t :: u :: v :: rest =>
    -- two of three would be the same half
    simp only [List.pairwise_cons, List.mem_cons] at hpairwise hhalf
    have htu := hpairwise.1 u (.inl rfl)
    have htv := hpairwise.1 v (.inr (.inl rfl))
    have huv := hpairwise.2.1 v (.inl rfl)
    rcases hhalf t (.inl rfl) with ht | ht <;> rcases hhalf u (.inr (.inl rfl)) with hu | hu <;>
      rcases hhalf v (.inr (.inr (.inl rfl))) with hv | hv <;> simp [ht, hu, hv] at htu htv huv

/-- An A half first and a B half of its rank behind it: nothing else completes a pair. -/
theorem foldl_stepBase {ts : List GgufTensor} (hdistinct : DistinctHalves ts)
    {p : VgLoraPair F} : ((ofBase base ts).foldl (stepBase env base) none = some p ∧ p.Complete) ↔
      ∃ a b, Halves env base a b ∧ [a, b].Sublist ts ∧ p = pairOf env base a b 1 := by
  rcases ofBase_cases base hdistinct with hshort | ⟨a, b, ha, hb, hboth | hboth⟩
  · constructor
    · rintro ⟨hfold, hcomplete⟩
      exfalso
      match hhalves : ofBase base ts with
      | [] =>
        rw [hhalves] at hfold
        cases hfold
      | [t] =>
        rw [hhalves] at hfold
        rcases mem_ofBase (hhalves ▸ List.mem_singleton_self t) with ht | ht
        · exact newPair_incomplete ((stepBase_a ht).symm.trans hfold) hcomplete
        · cases (stepBase_b ht none).symm.trans hfold
      | t :: u :: rest => simp [hhalves] at hshort
    · rintro ⟨a, b, hhalves, hsub, -⟩
      have hlength := ((sublist_ofBase hhalves).1 hsub).length_le
      simp only [List.length_cons, List.length_nil] at hlength
      omega
  · rw [hboth, List.foldl_cons, List.foldl_cons, List.foldl_nil, stepBase_a ha, stepBase_b hb,
      halves_complete ha hb]
    constructor
    · rintro ⟨hhalves, hp⟩
      exact ⟨a, b, hhalves, (sublist_ofBase hhalves).2 (hboth ▸ List.Sublist.refl _), hp⟩
    · rintro ⟨a', b', hhalves, hsub, hp⟩
      have heq := ((sublist_ofBase hhalves).1 hsub).eq_of_length (by rw [hboth]; rfl)
      rw [hboth] at heq
      cases heq
      exact ⟨hhalves, hp⟩
  · constructor
    · rintro ⟨hfold, hcomplete⟩
      rw [hboth, List.foldl_cons, List.foldl_cons, List.foldl_nil, stepBase_b hb, Option.map_none,
        stepBase_a ha] at hfold
      exact absurd hcomplete (newPair_incomplete hfold)
    · rintro ⟨a', b', hhalves, hsub, -⟩
      have heq := ((sublist_ofBase hhalves).1 hsub).eq_of_length (by rw [hboth]; rfl)
      rw [hboth] at heq
      cases heq
      cases ha.symm.trans hhalves.isB

/-- The bases of the table stay different while no A half comes twice. -/
theorem nodup_foldl {ts : List GgufTensor} {pairs : List (VgLoraPair F)}
    (hnodup : (pairs.map VgLoraPair.base).Nodup)
    (hnew : ∀ t ∈ ts, ∀ base, half t = some (base, true) → base ∉ pairs.map VgLoraPair.base)
    (hdistinct : DistinctHalves ts) :
    ((ts.foldl (stepPairs env) pairs).map VgLoraPair.base).Nodup := by
  induction ts generalizing pairs with
  | nil => exact hnodup
  | cons t ts ih =>
    have hrest : ∀ u ∈ ts, ∀ base, half u = some (base, true) →
        base ∉ pairs.map VgLoraPair.base := fun u hu => hnew u (List.mem_cons_of_mem t hu)
    obtain ⟨hhead, htail⟩ := List.pairwise_cons.1 hdistinct
    rw [List.foldl_cons]
    match hhalf : half t with
    | none =>
      rw [show stepPairs env pairs t = pairs by unfold stepPairs; rw [hhalf]]
      exact ih hnodup hrest htail
    | some (base, false) =>
      have hbases : (stepPairs env pairs t).map VgLoraPair.base = pairs.map VgLoraPair.base := by
        unfold stepPairs
        rw [hhalf]
        exact map_base_updatePair (withB_base t) base pairs
      exact ih (hbases ▸ hnodup) (hbases ▸ hrest) htail
    | some (base, true) =>
      have hstep : stepPairs env pairs t = pairs ++ (newPair env base t).toList := by
        unfold stepPairs
        rw [hhalf]
      cases hpair : newPair env base t with
      | none =>
        rw [hstep, hpair, Option.toList_none, List.append_nil]
        exact ih hnodup hrest htail
      | some p =>
        rw [hstep, hpair, Option.toList_some]
        have hfresh := hnew t List.mem_cons_self base hhalf
        apply ih _ _ htail
        · rw [List.map_append, List.map_singleton, newPair_base hpair]
          exact List.nodup_append.2 ⟨hnodup, List.nodup_singleton base, by
            rintro x hx y hy rfl
            exact hfresh (List.mem_singleton.1 hy ▸ hx)⟩
        · intro u hu name hname hmem
          rw [List.map_append, List.map_singleton, newPair_base hpair, List.mem_append,
            List.mem_singleton] at hmem
          rcases hmem with hmem | rfl
          · exact hrest u hu name hname hmem
          · cases hhalf.symm.trans (hhead u hu (hhalf.trans hname.symm))

end PerBase

section Scaling

variable {F : Type*} [CommRing F] [DecidableEq F] {env : LoadEnv F} {base : List UInt8}

variable (env) in
/-- A pair with the scaling of a tensor, where that is one. -/
def withScaling (t : GgufTensor) (p : VgLoraPair F) : VgLoraPair F :=
  match (readFloatTensor env t).bind List.head? with
  | some s => if env.isfinite s = true ∧ s ≠ 0 then { p with scaling := s } else p
  | none => p

variable (env) in
theorem withScaling_eq (t : GgufTensor) (p : VgLoraPair F) :
    ∃ s, withScaling env t p = { p with scaling := s } := by
  unfold withScaling
  split
  · split
    · exact ⟨_, rfl⟩
    · exact ⟨p.scaling, rfl⟩
  · exact ⟨p.scaling, rfl⟩

theorem withScaling_base (t : GgufTensor) (p : VgLoraPair F) :
    (withScaling env t p).base = p.base := by
  obtain ⟨s, hs⟩ := withScaling_eq env t p
  rw [hs]

theorem loadScaling_eq (pairs : List (VgLoraPair F)) (t : GgufTensor) :
    loadScaling env pairs t = match scalingBase t with
      | none => pairs
      | some base => updatePair base (withScaling env t) pairs := by
  unfold loadScaling
  cases scalingBase t with
  | none => rfl
  | some base =>
    dsimp only
    unfold withScaling
    cases hs : (readFloatTensor env t).bind List.head? with
    | none => exact (updatePair_eq_self fun p _ => rfl).symm
    | some s =>
      dsimp only
      split
      · rfl
      · exact (updatePair_eq_self fun p _ => rfl).symm

variable (env) in
/-- A pair with the scaling that the records give its base. -/
def scaled (base : List UInt8) (ts : List GgufTensor) (p : VgLoraPair F) : VgLoraPair F :=
  (ts.filter fun t => scalingBase t = some base).foldl (fun p t => withScaling env t p) p

theorem findPair_scaling (ts : List GgufTensor) (pairs : List (VgLoraPair F)) :
    findPair (ts.foldl (loadScaling env) pairs) base =
      (findPair pairs base).map (scaled env base ts) := by
  induction ts generalizing pairs with
  | nil => exact Option.map_id'.symm
  | cons t ts ih =>
    rw [List.foldl_cons, ih, loadScaling_eq]
    unfold scaled
    match hscaling : scalingBase t with
    | none => rw [List.filter_cons_of_neg (by simp [hscaling])]
    | some name =>
      dsimp only
      rw [findPair_updatePair (withScaling_base t)]
      by_cases hbase : name = base
      · rw [if_pos hbase, List.filter_cons_of_pos (by simp [hscaling, hbase]), Option.map_map]
        rfl
      · rw [if_neg hbase, List.filter_cons_of_neg (by simp [hscaling, hbase])]

theorem map_base_scaling (ts : List GgufTensor) (pairs : List (VgLoraPair F)) :
    (ts.foldl (loadScaling env) pairs).map VgLoraPair.base = pairs.map VgLoraPair.base := by
  induction ts generalizing pairs with
  | nil => rfl
  | cons t ts ih =>
    rw [List.foldl_cons, ih, loadScaling_eq]
    cases scalingBase t with
    | none => rfl
    | some name => exact map_base_updatePair (withScaling_base t) name pairs

variable (env) in
/-- Only the scaling of a pair changes. -/
theorem scaled_eq (base : List UInt8) (ts : List GgufTensor) (p : VgLoraPair F) :
    ∃ s, scaled env base ts p = { p with scaling := s } := by
  unfold scaled
  generalize ts.filter (fun t => scalingBase t = some base) = ts
  induction ts generalizing p with
  | nil => exact ⟨p.scaling, rfl⟩
  | cons t ts ih =>
    obtain ⟨s, hs⟩ := withScaling_eq env t p
    obtain ⟨s', hs'⟩ := ih (withScaling env t p)
    exact ⟨s', by rw [List.foldl_cons, hs', hs]⟩

/-- No two records scale the same base. -/
def DistinctScalings (ts : List GgufTensor) : Prop :=
  ts.Pairwise fun t u => scalingBase t = scalingBase u → scalingBase t = none

instance (ts : List GgufTensor) : Decidable (DistinctScalings ts) :=
  inferInstanceAs (Decidable (ts.Pairwise _))

/-- One scaling tensor a base is found in any order. -/
theorem scaled_perm {ts us : List GgufTensor} (hperm : ts.Perm us)
    (hdistinct : DistinctScalings ts) (base : List UInt8) (p : VgLoraPair F) :
    scaled env base ts p = scaled env base us p := by
  have hsame : (ts.filter fun t => scalingBase t = some base).Perm
      (us.filter fun t => scalingBase t = some base) := hperm.filter _
  have hshort : (ts.filter fun t => scalingBase t = some base).length ≤ 1 := by
    have hpairwise := hdistinct.sublist
      (List.filter_sublist (p := fun t => decide (scalingBase t = some base)))
    have hbase : ∀ t ∈ ts.filter (fun t => scalingBase t = some base),
        scalingBase t = some base := fun t ht => by simpa using (List.mem_filter.1 ht).2
    revert hpairwise hbase
    generalize ts.filter (fun t => scalingBase t = some base) = found
    intro hpairwise hbase
    match found with
    | [] => exact Nat.zero_le 1
    | [t] => exact Nat.le_refl 1
    | t :: u :: rest =>
      have ht := hbase t List.mem_cons_self
      have hu := hbase u (List.mem_cons_of_mem t List.mem_cons_self)
      cases ht.symm.trans ((List.pairwise_cons.1 hpairwise).1 u List.mem_cons_self (ht.trans hu.symm))
  have heq : ts.filter (fun t => scalingBase t = some base) =
      us.filter fun t => scalingBase t = some base := by
    revert hsame hshort
    generalize ts.filter (fun t => scalingBase t = some base) = found
    intro hsame hshort
    match found with
    | [] => exact hsame.nil_eq
    | [t] => exact (List.perm_singleton.1 hsame.symm).symm
    | t :: u :: rest => simp at hshort
  unfold scaled
  rw [heq]

end Scaling

section Property

variable {F : Type*} [CommRing F] [DecidableEq F] {env : LoadEnv F}

/-- The pairs of a loaded adapter are those of the halves that come in order. -/
theorem mem_pairs {ts : List GgufTensor} {ad : VgLoraAdapter F}
    (hload : vgLoraLoad env ts = .ok ad) (hdistinct : DistinctHalves ts) {p : VgLoraPair F} :
    p ∈ ad.pairs ↔ ∃ a b, Halves env p.base a b ∧ [a, b].Sublist (reached env 0 0 ts) ∧
      p = scaled env p.base ts (pairOf env p.base a b 1) := by
  have hreached : DistinctHalves (reached env 0 0 ts) := hdistinct.sublist (reached_sublist ts 0 0)
  have hpairs : (loadHalves env ⟨[], 0, 0⟩ ts).pairs =
      (reached env 0 0 ts).foldl (stepPairs env) [] := pairs_loadHalves ts ⟨[], 0, 0⟩
  unfold vgLoraLoad at hload
  split at hload
  · cases hload
  · cases hload
    dsimp only
    rw [List.mem_filter, hpairs, mem_iff_findPair, findPair_scaling, findPair_foldl]
    · have hcomplete : (p.b.isSome && p.outDim != 0) = true ↔ p.Complete := by
        simp [VgLoraPair.Complete]
      rw [hcomplete, show findPair ([] : List (VgLoraPair F)) p.base = none from rfl]
      constructor
      · rintro ⟨hfind, hp⟩
        obtain ⟨q, hq, hscaled⟩ := Option.map_eq_some_iff.1 hfind
        have hqc : q.Complete := by
          obtain ⟨s, hs⟩ := scaled_eq env p.base ts q
          rw [← hscaled, hs] at hp
          exact hp
        obtain ⟨a, b, hhalves, hsub, rfl⟩ := (foldl_stepBase hreached).1 ⟨hq, hqc⟩
        exact ⟨a, b, hhalves, hsub, hscaled.symm⟩
      · rintro ⟨a, b, hhalves, hsub, hp⟩
        obtain ⟨hq, hqc⟩ := (foldl_stepBase hreached).2 ⟨a, b, hhalves, hsub, rfl⟩
        refine ⟨by rw [hq]; exact congrArg some hp.symm, ?_⟩
        obtain ⟨s, hs⟩ := scaled_eq env p.base ts (pairOf env p.base a b 1)
        rw [hp, hs]
        exact hqc
    · rw [map_base_scaling]
      exact nodup_foldl List.nodup_nil (fun _ _ _ _ => List.not_mem_nil) hreached

/-- Two records that are the same half are one. -/
theorem DistinctHalves.eq {ts : List GgufTensor} (hdistinct : DistinctHalves ts)
    {t u : GgufTensor} (ht : t ∈ ts) (hu : u ∈ ts) {h : List UInt8 × Bool} (hth : half t = some h)
    (huh : half u = some h) : t = u := by
  by_contra hne
  have hsymm : Std.Symm fun t u : GgufTensor => half t = half u → half t = none :=
    ⟨fun x y hxy hyx => hyx.trans (hxy hyx.symm)⟩
  have hnone := List.Pairwise.forall hdistinct ht hu hne (hth.trans huh.symm)
  cases hth.symm.trans hnone

/-- The records of an adapter may be put in another order exactly when, of each two halves that
would make a pair, the A half comes first in both orders or in none. -/
theorem vgLoraLoad_perm_iff {ts us : List GgufTensor} (hperm : ts.Perm us)
    (hhalves : DistinctHalves ts) (hscalings : DistinctScalings ts) {ad ad' : VgLoraAdapter F}
    (hload : vgLoraLoad env ts = .ok ad) (hload' : vgLoraLoad env us = .ok ad') :
    (∀ p, p ∈ ad.pairs ↔ p ∈ ad'.pairs) ↔ ∀ base a b, Halves env base a b →
      ([a, b].Sublist (reached env 0 0 ts) ↔ [a, b].Sublist (reached env 0 0 us)) := by
  have hhalves' : DistinctHalves us :=
    hhalves.perm hperm fun hxy hyx => hyx.trans (hxy hyx.symm)
  have hscaled (base : List UInt8) (p : VgLoraPair F) :
      scaled env base ts p = scaled env base us p := scaled_perm hperm hscalings base p
  constructor
  · -- the pair of the two halves is in one adapter, so in the other, and of the same halves there
    have hmoves {ts us : List GgufTensor} {ad ad' : VgLoraAdapter F} (hperm : ts.Perm us)
        (hload : vgLoraLoad env ts = .ok ad) (hload' : vgLoraLoad env us = .ok ad')
        (hhalves : DistinctHalves ts) (hhalves' : DistinctHalves us)
        (hsame : ∀ p, p ∈ ad.pairs → p ∈ ad'.pairs) {base : List UInt8} {a b : GgufTensor}
        (h : Halves env base a b) (hsub : [a, b].Sublist (reached env 0 0 ts)) :
        [a, b].Sublist (reached env 0 0 us) := by
      obtain ⟨s, hs⟩ := scaled_eq env base ts (pairOf env base a b 1)
      have hbase : (scaled env base ts (pairOf env base a b 1)).base = base := by rw [hs]; rfl
      obtain ⟨a', b', h', hsub', -⟩ := (mem_pairs hload' hhalves').1 (hsame _
        ((mem_pairs hload hhalves).2 ⟨a, b, hbase.symm ▸ h, hsub, by rw [hbase]⟩))
      rw [hbase] at h'
      have hin (t : GgufTensor) (ht : t ∈ [a, b]) : t ∈ us :=
        hperm.subset ((reached_sublist ts 0 0).subset (hsub.subset ht))
      have hin' (t : GgufTensor) (ht : t ∈ [a', b']) : t ∈ us :=
        (reached_sublist us 0 0).subset (hsub'.subset ht)
      rw [hhalves'.eq (hin a (by simp)) (hin' a' (by simp)) h.isA h'.isA,
        hhalves'.eq (hin b (by simp)) (hin' b' (by simp)) h.isB h'.isB]
      exact hsub'
    intro hsame base a b h
    exact ⟨hmoves hperm hload hload' hhalves hhalves' (fun p => (hsame p).1) h,
      hmoves hperm.symm hload' hload hhalves' hhalves (fun p => (hsame p).2) h⟩
  · intro horder p
    rw [mem_pairs hload hhalves, mem_pairs hload' hhalves']
    constructor
    · rintro ⟨a, b, h, hsub, hp⟩
      exact ⟨a, b, h, (horder _ a b h).1 hsub, hscaled _ _ ▸ hp⟩
    · rintro ⟨a, b, h, hsub, hp⟩
      exact ⟨a, b, h, (horder _ a b h).2 hsub, (hscaled _ _).symm ▸ hp⟩

/-- Every call succeeds, and every tensor is all zeros. -/
def plainEnv : LoadEnv ℚ where
  floats := exactFloats
  isfinite := fun _ => true
  read := fun t => some (List.replicate t.nbytes 0)
  raw := fun _ => true
  out := fun _ => true
  stale := fun _ => 0
  adapter := true
  dup := fun _ => true
  grow := fun _ => true

/-- `w.lora_a` and `w.lora_b`, of one element each. -/
def oneA : GgufTensor := ⟨some (txt "w.lora_a"), 2, [1, 1], 0, 0, 4⟩

def oneB : GgufTensor := ⟨some (txt "w.lora_b"), 2, [1, 1], 0, 32, 4⟩

/-- `w.scaling` -/
def oneScaling : GgufTensor := ⟨some (txt "w.scaling"), 1, [1], 0, 64, 4⟩

theorem halves_one : Halves plainEnv (txt "w") oneA oneB where
  isA := by decide
  isB := by decide
  sized := by decide
  rank := by decide
  outDim := by decide
  stored := rfl
  readA := by decide +kernel
  readB := by decide +kernel

theorem vgLoraLoad_plain (ts : List GgufTensor) : ∃ ad, vgLoraLoad plainEnv ts = .ok ad := ⟨_, rfl⟩

/-- Where the scaling stands does not matter. -/
theorem vgLoraLoad_scalingFirst : ∃ ad ad' : VgLoraAdapter ℚ,
    vgLoraLoad plainEnv [oneA, oneB, oneScaling] = .ok ad ∧
      vgLoraLoad plainEnv [oneScaling, oneA, oneB] = .ok ad' ∧ ∀ p, p ∈ ad.pairs ↔ p ∈ ad'.pairs := by
  have hperm : [oneA, oneB, oneScaling].Perm [oneScaling, oneA, oneB] :=
    (List.Perm.swap oneScaling oneB []).cons oneA |>.trans (List.Perm.swap oneScaling oneA [oneB])
  obtain ⟨ad, hload⟩ := vgLoraLoad_plain [oneA, oneB, oneScaling]
  obtain ⟨ad', hload'⟩ := vgLoraLoad_plain [oneScaling, oneA, oneB]
  refine ⟨ad, ad', hload, hload',
    (vgLoraLoad_perm_iff hperm (by decide) (by decide) hload hload').2 fun base a b h => ?_⟩
  have hscaling : half oneScaling = none := by decide
  have hsame : ofBase base [oneA, oneB, oneScaling] = ofBase base [oneScaling, oneA, oneB] := by
    have hskip : [oneScaling].filter (fun t => (half t).map Prod.fst = some base) = [] := by
      simp [hscaling]
    unfold ofBase
    rw [show [oneA, oneB, oneScaling] = [oneA, oneB] ++ [oneScaling] from rfl,
      show [oneScaling, oneA, oneB] = [oneScaling] ++ [oneA, oneB] from rfl, List.filter_append,
      List.filter_append, hskip, List.append_nil, List.nil_append]
  rw [reached_of_grow fun _ => rfl, reached_of_grow fun _ => rfl]
  refine (sublist_ofBase h).trans ?_
  rw [hsame]
  exact (sublist_ofBase h).symm

/-- With the B half first, the pair is lost. -/
theorem vgLoraLoad_order : ¬ ∀ (env : LoadEnv ℚ) (ts us : List GgufTensor), ts.Perm us →
    DistinctHalves ts → DistinctScalings ts → ∀ ad ad' : VgLoraAdapter ℚ,
    vgLoraLoad env ts = .ok ad → vgLoraLoad env us = .ok ad' → ∀ p, p ∈ ad.pairs ↔ p ∈ ad'.pairs := by
  intro hclaim
  have hdistinct : DistinctHalves [oneA, oneB] := by decide
  have hdistinct' : DistinctHalves [oneB, oneA] := by decide
  obtain ⟨ad, hload⟩ := vgLoraLoad_plain [oneA, oneB]
  obtain ⟨ad', hload'⟩ := vgLoraLoad_plain [oneB, oneA]
  have hsame := hclaim plainEnv [oneA, oneB] [oneB, oneA] (List.Perm.swap oneB oneA []) hdistinct
    (by decide) ad ad' hload hload' (pairOf plainEnv (txt "w") oneA oneB 1)
  have hfirst := hsame.1 ((mem_pairs hload hdistinct).2 ⟨oneA, oneB, halves_one,
    by rw [reached_of_grow fun _ => rfl], rfl⟩)
  obtain ⟨a, b, h, hsub, -⟩ := (mem_pairs hload' hdistinct').1 hfirst
  rw [reached_of_grow fun _ => rfl] at hsub
  cases hsub.eq_of_length rfl
  have hb : half oneB = some (txt "w", false) := halves_one.isB
  cases hb.symm.trans h.isA

end Property

end VgEngine.Lora
