import VgEngine.Decode.Products

/-! The rows that a decode reads outside its layers when no call fails: one of the embedding
table, and those of the output head. -/
namespace VgEngine.Decode
open Lib Bytes Gguf Model

section Embedding

variable {K : Type*} {V S : Type} {g : VgGguf} {cfg : ModelConfig K} {ops : Ops V S}

/-- The embedding table holds the row of a token, and the row can be expanded. -/
def EmbedRuns (g : VgGguf) (cfg : ModelConfig K) (token : Nat) : Prop :=
  ∃ t, find g (txt "token_embd.weight") = some t ∧ ∃ q, quantInfo t.ggmlType = some q ∧
    readable t (token * rowBytes q cfg.nEmbd % 2 ^ 64) (rowBytes q cfg.nEmbd) = true ∧
    (q.kind ≠ 0 → dequantizeStatus q cfg.nEmbd = .ok)

theorem modelGraphEmbed_settles {kind : FfnKind} {token : Nat} (h : token < cfg.nVocab) :
    Logged.Settles (Event.Good kind) (· = .ok) (EmbedRuns g cfg token)
      (modelGraphEmbed (cpuGraph g cfg) allOk ops token : Exec V S _) := by
  have hends {st : Status} (hst : st ≠ .ok) : Logged.Settles (σ := Work V S) (Event.Good kind)
      (· = .ok) False (refuse st) := by
    intro s
    simp [refuse, hst]
  unfold modelGraphEmbed EmbedRuns
  rw [if_neg (by change ¬ ((token : Int) < 0 ∨ (cfg.nVocab : Int) ≤ token); omega)]
  rw [cpuGraph_file]
  cases find g (txt "token_embd.weight") with
  | none => exact (hends (by decide)).iff (by simp)
  | some t =>
  dsimp only
  cases hq : quantInfo t.ggmlType with
  | none =>
    refine (hends (by decide)).iff (iff_of_false id ?_)
    rintro ⟨u, ⟨⟩, q, hq', -⟩
    rw [hq] at hq'
    cases hq'
  | some q =>
  dsimp only
  have hneeds : (∃ u, some t = some u ∧ ∃ q', quantInfo u.ggmlType = some q' ∧
      readable u (token * rowBytes q' cfg.nEmbd % 2 ^ 64) (rowBytes q' cfg.nEmbd) = true ∧
      (q'.kind ≠ 0 → dequantizeStatus q' cfg.nEmbd = .ok)) ↔
      readable t (token * rowBytes q cfg.nEmbd % 2 ^ 64) (rowBytes q cfg.nEmbd) = true ∧
      (q.kind ≠ 0 → dequantizeStatus q cfg.nEmbd = .ok) := by
    constructor
    · rintro ⟨u, ⟨⟩, q', hq', h⟩
      obtain rfl := Option.some.inj (hq.symm.trans hq')
      exact h
    · exact fun h => ⟨t, rfl, q, hq, h⟩
  rw [hneeds]
  refine .known allocate_ready fun ready hready => ?_
  rw [if_pos hready, Int.toNat_natCast]
  change Logged.Settles _ _ _ (if readable t (token * rowBytes q cfg.nEmbd % 2 ^ 64)
    (rowBytes q cfg.nEmbd) = false then _ else _)
  generalize readable t (token * rowBytes q cfg.nEmbd % 2 ^ 64) (rowBytes q cfg.nEmbd) = read
  cases read with
  | false =>
    rw [if_pos rfl]
    exact (hends (by decide)).iff (by simp)
  | true =>
    rw [if_neg (by decide)]
    refine .after (.log trivial) fun _ => ?_
    rw [if_neg (by simp)]
    change Logged.Settles _ _ _ (if q.kind ≠ 0 ∧ dequantizeStatus q cfg.nEmbd ≠ .ok then _ else _)
    by_cases hexpand : q.kind ≠ 0 ∧ dequantizeStatus q cfg.nEmbd ≠ .ok
    · rw [if_pos hexpand]
      exact (hends hexpand.2).iff (by simp [hexpand.1, hexpand.2])
    · rw [if_neg hexpand]
      refine .after (.modify _) fun _ => .pure _ (iff_of_true rfl ⟨rfl, fun hkind => ?_⟩)
      by_contra hbad
      exact hexpand ⟨hkind, hbad⟩

end Embedding

section Head

variable {K : Type*} {V S : Type} {g : VgGguf} {cfg : ModelConfig K} {ops : Ops V S}
variable {kind : FfnKind}

theorem quantInfo_kind {type : Nat} {q : QuantInfo} (h : quantInfo type = some q) :
    q.kind = type := by
  simpa using List.find?_some h

/-- A float head whose first row can be read counts the bytes of its rows without wrapping. -/
def HeadFits (g : VgGguf) (cfg : ModelConfig K) : Prop :=
  ∀ name t, headTensor (cpuGraph g cfg) = some (name, t) → t.ggmlType = 0 →
    rowBytes ⟨0, 1, 4⟩ cfg.nEmbd ≤ t.nbytes → 4 * cfg.nEmbd < 2 ^ 32

theorem readable_iff {t : GgufTensor} {offset size : Nat} :
    readable t offset size = true ↔ offset ≤ t.nbytes ∧ size ≤ t.nbytes - offset := by
  simp [readable]

theorem reads_iff {r : HeadRows} {t : GgufTensor} {v : Nat} :
    r.reads (cpuGraph g cfg) allOk t v = true ↔
      v * r.size % 2 ^ 64 ≤ t.nbytes ∧
        r.count cfg.nVocab v * r.size ≤ t.nbytes - v * r.size % 2 ^ 64 := by
  unfold HeadRows.reads
  rw [Bool.and_eq_true, readable_iff]
  simp [cpuGraph]

/-- The product of a batch of the output head. -/
def headProduct (cfg : ModelConfig K) (name : List UInt8) (t : GgufTensor) (r : HeadRows)
    (i : Nat) : Matmul :=
  let count := r.count cfg.nVocab (i * r.batch)
  ⟨name, t, i * r.batch * r.size % 2 ^ 64, count * r.size, count, cfg.nEmbd⟩

theorem headBatch_meets (name : List UInt8) (t : GgufTensor) (r : HeadRows) (i : Nat) :
    Logged.Meets (Event.Good kind) (fun _ => True)
      (r.reads (cpuGraph g cfg) allOk t (i * r.batch) = true → r.expanded = .ok →
        (headProduct cfg name t r i).Inside)
      (headBatch (cpuGraph g cfg) allOk name t r i : Exec V S _) := by
  unfold headBatch Logged.onlyIf
  dsimp only
  refine .after (.log trivial) fun _ => ?_
  by_cases hreads : r.reads (cpuGraph g cfg) allOk t (i * r.batch) = true
  · rw [if_pos hreads]
    intro s
    refine ⟨trivial, List.forall_mem_singleton.trans ?_⟩
    exact ⟨fun hgood _ => hgood, fun hgood => hgood hreads⟩
  · rw [if_neg hreads]
    exact (Logged.Meets.of_logs (.pure _) fun _ => trivial).iff
      (iff_of_true trivial fun h => absurd h hreads)

/-- A batch that is read lies inside the tensor, unless the bytes of its rows have wrapped. -/
theorem headProduct_inside {name : List UInt8} {t : GgufTensor} {q : QuantInfo} {i : Nat}
    (hq : quantInfo t.ggmlType = some q)
    (hreads : (headRowsOf (cpuGraph g cfg) q).reads (cpuGraph g cfg) allOk t
      (i * (headRowsOf (cpuGraph g cfg) q).batch) = true) :
    (headProduct cfg name t (headRowsOf (cpuGraph g cfg) q) i).Inside ↔
      (headRowsOf (cpuGraph g cfg) q).count cfg.nVocab
          (i * (headRowsOf (cpuGraph g cfg) q).batch) *
        (cfg.nEmbd / q.blockSize * q.bytesPerBlock) ≤
      (headRowsOf (cpuGraph g cfg) q).count cfg.nVocab
          (i * (headRowsOf (cpuGraph g cfg) q).batch) * rowBytes q cfg.nEmbd := by
  obtain ⟨hoffset, hsize⟩ := reads_iff.1 hreads
  unfold Matmul.Inside headProduct
  dsimp only
  rw [hq]
  constructor
  · exact fun h => h.2 q rfl
  · intro h
    constructor
    · omega
    · rintro q' ⟨⟩
      exact h

variable (g) in
/-- The batches that are read lie inside the tensor exactly when no row of floats has more
bytes than are counted. -/
theorem headProducts_inside (name : List UInt8) {t : GgufTensor} {q : QuantInfo}
    (hq : quantInfo t.ggmlType = some q) (h : 0 < cfg.nVocab) {n : Nat} (hn : 0 < n) :
    (∀ i ∈ List.range n, (headRowsOf (cpuGraph g cfg) q).reads (cpuGraph g cfg) allOk t
        (i * (headRowsOf (cpuGraph g cfg) q).batch) = true →
      (headRowsOf (cpuGraph g cfg) q).expanded = .ok →
        (headProduct cfg name t (headRowsOf (cpuGraph g cfg) q) i).Inside) ↔
    (t.ggmlType = 0 → rowBytes ⟨0, 1, 4⟩ cfg.nEmbd ≤ t.nbytes → 4 * cfg.nEmbd < 2 ^ 32) := by
  by_cases htype : t.ggmlType = 0
  · obtain rfl : q = ⟨0, 1, 4⟩ := by
      rw [htype] at hq
      exact (Option.some.inj hq).symm
    have hrow : rowBytes ⟨0, 1, 4⟩ cfg.nEmbd = 4 * cfg.nEmbd % 2 ^ 32 := rfl
    have hmod := Nat.mod_lt (4 * cfg.nEmbd) (show 0 < 2 ^ 32 by decide)
    have hcount (i : Nat) : (headRowsOf (cpuGraph g cfg) ⟨0, 1, 4⟩).count cfg.nVocab
        (i * (headRowsOf (cpuGraph g cfg) ⟨0, 1, 4⟩).batch) = min 1 (cfg.nVocab - i * 1) := rfl
    have hsize : (headRowsOf (cpuGraph g cfg) ⟨0, 1, 4⟩).size = rowBytes ⟨0, 1, 4⟩ cfg.nEmbd := rfl
    constructor
    · intro hall _ hfirst
      have hreads : (headRowsOf (cpuGraph g cfg) ⟨0, 1, 4⟩).reads (cpuGraph g cfg) allOk t
          (0 * (headRowsOf (cpuGraph g cfg) ⟨0, 1, 4⟩).batch) = true := by
        rw [reads_iff, hcount, hsize, Nat.zero_mul, Nat.zero_mul, Nat.zero_mod, Nat.zero_mul,
          Nat.sub_zero, Nat.sub_zero, Nat.min_eq_left h, Nat.one_mul]
        exact ⟨Nat.zero_le _, hfirst⟩
      have hinside := (headProduct_inside hq hreads).1 (hall 0 (List.mem_range.2 hn) hreads rfl)
      rw [hcount, Nat.zero_mul, Nat.sub_zero, Nat.min_eq_left h, Nat.one_mul, Nat.one_mul,
        Nat.div_one, hrow] at hinside
      change cfg.nEmbd * 4 ≤ _ at hinside
      omega
    · intro hfit i _ hreads _
      rw [headProduct_inside hq hreads]
      obtain ⟨hoffset, hbytes⟩ := reads_iff.1 hreads
      rw [hcount, hsize] at hbytes
      rw [hcount, Nat.div_one]
      rcases Nat.eq_zero_or_pos (cfg.nVocab - i * 1) with hnone | hsome
      · rw [hnone, Nat.min_zero, Nat.zero_mul, Nat.zero_mul]
      · rw [Nat.min_eq_left hsome, Nat.one_mul] at hbytes ⊢
        have := hfit htype (by omega)
        rw [Nat.one_mul, hrow]
        change cfg.nEmbd * 4 ≤ _
        omega
  · have hkind : q.kind ≠ 0 := by rwa [quantInfo_kind hq]
    refine iff_of_true (fun i _ hreads _ => ?_) fun h => absurd h htype
    rw [headProduct_inside hq hreads]
    unfold rowBytes
    rw [if_neg hkind]

theorem headRows_meets (name : List UInt8) {t : GgufTensor} {q : QuantInfo}
    (hq : quantInfo t.ggmlType = some q) (h : 0 < cfg.nVocab) :
    Logged.Meets (Event.Good kind) (fun _ => True)
      (t.ggmlType = 0 → rowBytes ⟨0, 1, 4⟩ cfg.nEmbd ≤ t.nbytes → 4 * cfg.nEmbd < 2 ^ 32)
      (headRows (cpuGraph g cfg) allOk ops name t (headRowsOf (cpuGraph g cfg) q) :
        Exec V S _) := by
  have hbatch : 0 < (headRowsOf (cpuGraph g cfg) q).batch := by
    change 0 < if q.kind = 0 then 1 else 256
    split <;> decide
  have hn : 0 < (cfg.nVocab + (headRowsOf (cpuGraph g cfg) q).batch - 1) /
      (headRowsOf (cpuGraph g cfg) q).batch := Nat.div_pos (by omega) hbatch
  unfold headRows
  refine Logged.Meets.iff ?_ (headProducts_inside g name hq h hn)
  refine (Logged.Meets.forM fun i _ => headBatch_meets name t _ i).last (fun _ => .modify _) ?_
  exact fun _ _ _ => trivial

theorem outputHead_meets (h : 0 < cfg.nVocab) :
    Logged.Meets (Event.Good kind) (fun _ => True) (HeadFits g cfg)
      (outputHead (cpuGraph g cfg) allOk ops : Exec V S _) := by
  have hhost (name : List UInt8) (t : GgufTensor) :
      Logged.Meets (Event.Good kind) (fun _ => True)
        (t.ggmlType = 0 → rowBytes ⟨0, 1, 4⟩ cfg.nEmbd ≤ t.nbytes → 4 * cfg.nEmbd < 2 ^ 32)
        (hostHead (cpuGraph g cfg) allOk ops name t : Exec V S _) := by
    unfold hostHead
    cases hq : quantInfo t.ggmlType with
    | none =>
      have htype : t.ggmlType ≠ 0 := by
        intro htype
        rw [htype] at hq
        cases hq
      exact (Logged.Meets.of_logs (.log trivial) fun _ => trivial).iff (by simp [htype])
    | some q =>
      dsimp only
      refine .known allocate_ready fun ready hready => ?_
      rw [if_pos hready]
      exact headRows_meets name hq h
  unfold outputHead HeadFits
  refine .after .get fun w => .after (normalise_logs (passive_good kind) rfl _ _) fun x => ?_
  refine .after (.modify _) fun _ => ?_
  cases headTensor (cpuGraph g cfg) with
  | none =>
    refine (Logged.Meets.of_logs (P := Event.Good kind) (Q := fun _ => True) ?_
      fun _ => trivial).iff (by simp)
    exact Logged.Logs.bind (.log trivial) fun _ => .modify _
  | some head =>
    obtain ⟨name, t⟩ := head
    dsimp only
    rw [if_neg (by simp [cpuGraph])]
    exact (hhost name t).iff (by simp)

end Head

end VgEngine.Decode
