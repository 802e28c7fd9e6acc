import VgEngine.Vulkan.MatvecExact
import VgEngine.Decode.MoeValue
import VgEngine.Decode.Softmax
import VgEngine.Decode.Rope

/-! The shader `attn_scores`, a workgroup of 128 lanes for each query head, next to the attention of the
host. They are the same up to the 4096 keys for which the shader has room. -/
namespace VgEngine.Vulkan
open VgEngine.Lib

/-- The functions of GLSL that the shaders call; `round` is what `int(round(x))` is. -/
structure Glsl (F : Type) where
  rotation : Decode.Libm F
  math : Decode.MoeBlock.Libm F
  round : F → Int

section Orders

/-- The order in which `n` lanes come to act. -/
structure Turns (n : Nat) where
  order : List (Fin n)
  perm : order.Perm (List.finRange n)

/-- The orders in which `n` lanes act in the rounds of a reduction. -/
structure Rounds (n : Nat) where
  order : Nat → List (Unit × Nat)
  perm : ∀ k, (order k).Perm ((List.range n).map fun l => ((), l))

variable {n : Nat}

theorem Turns.nodup (t : Turns n) : t.order.Nodup := t.perm.nodup_iff.2 (List.nodup_finRange n)

theorem Turns.mem (t : Turns n) (l : Fin n) : l ∈ t.order := t.perm.mem_iff.2 (List.mem_finRange l)

/-- The strided loops of all lanes, in their turns, go over each number once. -/
theorem Turns.strided_perm (t : Turns n) (hn : 0 < n) (dim : Nat) :
    (t.order.flatMap fun (l : Fin n) => strided dim n l).Perm (List.range dim) := by
  have hlanes : (List.finRange n).flatMap (fun (l : Fin n) => strided dim n l) =
      (List.range n).flatMap (strided dim n) := by
    rw [← List.map_coe_finRange_eq_range, List.flatMap_map]
  exact (t.perm.flatMap_right _).trans (hlanes ▸ Lib.strided_perm dim n hn)

theorem Turns.mem_strided (t : Turns n) (hn : 0 < n) {dim i : Nat} :
    (∃ l ∈ t.order, i ∈ strided dim n (l : Fin n)) ↔ i < dim := by
  rw [← List.mem_flatMap, (t.strided_perm hn dim).mem_iff, List.mem_range]

theorem Rounds.orders (r : Rounds n) (k : Nat) :
    (r.order k).Nodup ∧ ∀ l < n, ((), l) ∈ r.order k := by
  constructor
  · rw [(r.perm k).nodup_iff]
    exact List.nodup_range.map fun l l' h => by simpa using h
  · intro l hl
    simpa [(r.perm k).mem_iff] using hl

end Orders

section Sweeps

variable {F : Type}

/-- `sc` and `red` -/
structure AttnShared (F : Type) where
  sc : Nat → F
  red : Unit × Nat → F

/-- A lane goes over its scores, puts a value in the place of each, and leaves in its cell of `red`
what it gathers on the way. -/
def sweep (n : Nat) (value : Nat → F → F) (gather : F → F → F) (start : F) (lane : Fin 128)
    (m : AttnShared F) : AttnShared F where
  sc := storeAll m.sc ((strided n 128 lane).map fun j => (j, value j (m.sc j)))
  red := Function.update m.red ((), lane)
    ((strided n 128 lane).foldl (fun acc j => gather acc (value j (m.sc j))) start)

variable {n : Nat} {value : Nat → F → F} {gather : F → F → F} {start : F} {lane : Fin 128}
variable {m : AttnShared F} {j : Nat}

theorem sweep_sc : (sweep n value gather start lane m).sc j =
    if j < n ∧ j % 128 = lane then value j (m.sc j) else m.sc j := by
  split_ifs with hj
  · apply storeAll_of_stored
    · intro s hs hsj
      simp only [List.mem_map] at hs
      obtain ⟨i, -, rfl⟩ := hs
      simp [← hsj]
    · exact ⟨_, List.mem_map_of_mem ((mem_strided lane.isLt).2 hj), rfl⟩
  · apply storeAll_of_unstored
    intro s hs hsj
    simp only [List.mem_map, mem_strided lane.isLt] at hs
    obtain ⟨i, hi, rfl⟩ := hs
    exact hj (hsj ▸ hi)

variable [Zero F]

/-- The scores of a lane, and its cell of `red`. -/
def laneOwn (lane : Fin 128) (m : AttnShared F) : (Nat → F) × F :=
  (fun j => if j % 128 = lane then m.sc j else 0, m.red ((), lane))

theorem laneOwn_sc {lane : Fin 128} {m m' : AttnShared F} (h : laneOwn lane m = laneOwn lane m')
    {j : Nat} (hj : j % 128 = lane) : m.sc j = m'.sc j := by
  have hcell := congrFun (congrArg Prod.fst h) j
  simpa [laneOwn, hj] using hcell

theorem sweep_actsAlone (n : Nat) (value : Nat → F → F) (gather : F → F → F) (start : F) :
    ActsAlone (sweep n value gather start) laneOwn where
  frame lane lane' m hne := by
    have hval : lane.val ≠ lane' := Fin.val_ne_of_ne hne
    ext1
    · funext j
      simp only [laneOwn, sweep_sc]
      split_ifs <;> first | rfl | omega
    · simp [laneOwn, sweep, hval]
  reads lane m m' h := by
    ext1
    · funext j
      simp only [laneOwn, sweep_sc]
      split_ifs with hj
      · rw [laneOwn_sc h hj]
      · rw [laneOwn_sc h hj]
      · rfl
    · simp only [laneOwn, sweep, Function.update_self]
      apply List.foldl_ext
      intro acc j hj
      rw [laneOwn_sc h ((mem_strided lane.isLt).1 hj).2]

variable (t : Turns 128)

/-- Each score below `n` has its value, whatever the turns of the lanes. -/
theorem sweeps_sc (hj : j < n) :
    (inTurn (sweep n value gather start) t.order m).sc j = value j (m.sc j) := by
  have hlane := (sweep_actsAlone n value gather start).inTurn_own t.nodup
    (t.mem ⟨j % 128, Nat.mod_lt j (by decide)⟩) m
  rw [laneOwn_sc hlane rfl, sweep_sc, if_pos ⟨hj, rfl⟩]

theorem sweeps_red (lane : Fin 128) :
    (inTurn (sweep n value gather start) t.order m).red ((), lane) =
      (strided n 128 lane).foldl (fun acc j => gather acc (value j (m.sc j))) start := by
  have hlane := congrArg Prod.snd
    ((sweep_actsAlone n value gather start).inTurn_own t.nodup (t.mem lane) m)
  simpa [laneOwn, sweep] using hlane

end Sweeps

section Shader

variable {F : Type} [Field F]

/-- The push constants. -/
structure AttnScores where
  headDim : Nat
  nHead : Nat
  nKvHead : Nat
  kvStride : Nat
  nKeys : Nat

namespace AttnScores

variable (pc : AttnScores)

/-- `nk` -/
def nk : Nat := min pc.nKeys 4096

/-- `kvh` -/
def kvh (h : Nat) : Nat :=
  let groups := if pc.nKvHead ≠ 0 then pc.nHead / pc.nKvHead else 1
  h / (if groups ≠ 0 then groups else 1)

/-- `qbase` -/
def qbase (h : Nat) : Nat := h * pc.headDim % 2 ^ 32

/-- `kbase` -/
def kbase (h : Nat) : Nat := pc.kvh h * pc.headDim % 2 ^ 32

end AttnScores

/-- The orders of the lanes between the barriers. -/
structure AttnSchedule where
  scores : Turns 128
  maxima : Rounds 128
  exps : Turns 128
  sums : Rounds 128
  outs : Turns 128

variable (gl : Glsl F) (pc : AttnScores) (q k v : Nat → F)

/-- `dot`, with its scale. -/
def AttnScores.dot (h j : Nat) : F :=
  let rbase := (j * pc.kvStride + pc.kbase h) % 2 ^ 32
  (List.range pc.headDim).foldl (fun dot d =>
    dot + q ((pc.qbase h + d) % 2 ^ 32) * k ((rbase + d) % 2 ^ 32)) 0 *
      (1 / gl.math.sqrt (pc.headDim : F))

variable [LinearOrder F]

/-- The scores, and the greatest of each lane. -/
def scoreLane (h : Nat) : Fin 128 → AttnShared F → AttnShared F :=
  sweep pc.nk (fun j _ => pc.dot gl q k h j) (fun mx dot => if mx < dot then dot else mx) (-10 ^ 30)

/-- The exponentials, and the sum of each lane. -/
def expLane (mx : F) : Fin 128 → AttnShared F → AttnShared F :=
  sweep pc.nk (fun _ s => gl.math.exp (s - mx)) (fun part e => part + e) 0

/-- The stores of the workgroup `h` into `o`. -/
def attnGroup (s : AttnSchedule) (h : Nat) (m : AttnShared F) : List (Nat × F) :=
  if pc.nHead ≤ h then []
  else
    let m := inTurn (scoreLane gl pc q k h) s.scores.order m
    let red := treeMax s.maxima.order 7 m.red
    let m := inTurn (expLane gl pc (red ((), 0))) s.exps.order ⟨m.sc, red⟩
    let red := treeReduce s.sums.order 7 m.red
    let inv := if 0 < red ((), 0) then 1 / red ((), 0) else 0
    s.outs.order.flatMap fun (lane : Fin 128) => (strided pc.headDim 128 lane).map fun d =>
      ((pc.qbase h + d) % 2 ^ 32, (List.range pc.nk).foldl (fun acc j =>
        acc + m.sc j * v ((j * pc.kvStride + pc.kbase h + d) % 2 ^ 32)) 0 * inv)

/-- A workgroup that runs: its number, its schedule and what its shared memory holds at first. -/
structure AttnRun (F : Type) where
  wg : Nat
  schedule : AttnSchedule
  shared : AttnShared F

/-- The rows of the keys and the queries are words that 32 bits index. -/
def AttnScores.Fits : Prop :=
  pc.nHead * pc.headDim ≤ 2 ^ 32 ∧ 4096 * pc.kvStride ≤ 2 ^ 32 ∧
    ∀ h < pc.nHead, (pc.kvh h + 1) * pc.headDim ≤ pc.kvStride

end Shader

section Exact

variable {F : Type} [Field F] (gl : Glsl F) (pc : AttnScores) (q k v : Nat → F)

/-- The scaled product of a query with the key of a position. -/
def attnScore (h j : Nat) : F :=
  (∑ d ∈ Finset.range pc.headDim,
    q (h * pc.headDim + d) * k (j * pc.kvStride + pc.kvh h * pc.headDim + d)) *
      (1 / gl.math.sqrt (pc.headDim : F))

/-- The first `n` values under the softmax of their scores. -/
def attnValue [LinearOrder F] (n h d : Nat) : F :=
  ∑ j ∈ Finset.range n, Decode.MoeBlock.softmax gl.math (attnScore gl pc q k h) id n j *
    v (j * pc.kvStride + pc.kvh h * pc.headDim + d)

variable {gl pc q k v} {h j d : Nat}

theorem AttnScores.Fits.bases (hfits : pc.Fits) (hh : h < pc.nHead) :
    pc.qbase h = h * pc.headDim ∧ pc.kbase h = pc.kvh h * pc.headDim := by
  obtain ⟨hq, hk, hrow⟩ := hfits
  have hwidth := hrow h hh
  rw [Nat.succ_mul] at hwidth
  have hhead : (h + 1) * pc.headDim ≤ pc.nHead * pc.headDim := Nat.mul_le_mul_right _ hh
  rw [Nat.succ_mul] at hhead
  rcases Nat.eq_zero_or_pos pc.headDim with hzero | hpos
  · simp [AttnScores.qbase, AttnScores.kbase, hzero]
  · exact ⟨Nat.mod_eq_of_lt (by omega), Nat.mod_eq_of_lt (by omega)⟩

theorem AttnScores.Fits.query (hfits : pc.Fits) (hh : h < pc.nHead) (hd : d < pc.headDim) :
    (pc.qbase h + d) % 2 ^ 32 = h * pc.headDim + d := by
  have hhead : (h + 1) * pc.headDim ≤ pc.nHead * pc.headDim := Nat.mul_le_mul_right _ hh
  rw [Nat.succ_mul] at hhead
  have hq := hfits.1
  rw [(hfits.bases hh).1, Nat.mod_eq_of_lt (by omega)]

theorem AttnScores.Fits.row (hfits : pc.Fits) (hh : h < pc.nHead) (hj : j < pc.nk)
    (hd : d < pc.headDim) : (j * pc.kvStride + pc.kbase h) % 2 ^ 32 =
      j * pc.kvStride + pc.kvh h * pc.headDim ∧
      (j * pc.kvStride + pc.kvh h * pc.headDim + d) % 2 ^ 32 =
        j * pc.kvStride + pc.kvh h * pc.headDim + d := by
  have hwidth := hfits.2.2 h hh
  rw [Nat.succ_mul] at hwidth
  have hj : j + 1 ≤ 4096 := by
    unfold AttnScores.nk at hj
    omega
  have hrows : (j + 1) * pc.kvStride ≤ 4096 * pc.kvStride := Nat.mul_le_mul_right _ hj
  rw [Nat.succ_mul] at hrows
  have hk := hfits.2.1
  rw [(hfits.bases hh).2]
  exact ⟨Nat.mod_eq_of_lt (by omega), Nat.mod_eq_of_lt (by omega)⟩

theorem dot_eq (hfits : pc.Fits) (hh : h < pc.nHead) (hj : j < pc.nk) :
    pc.dot gl q k h j = attnScore gl pc q k h j := by
  unfold AttnScores.dot attnScore
  dsimp only
  rw [foldl_add_range (fun d => q ((pc.qbase h + d) % 2 ^ 32) *
    k (((j * pc.kvStride + pc.kbase h) % 2 ^ 32 + d) % 2 ^ 32)), zero_add]
  congr 1
  refine Finset.sum_congr rfl fun d hd => ?_
  have hd : d < pc.headDim := Finset.mem_range.1 hd
  rw [hfits.query hh hd, (hfits.row hh hj hd).1, (hfits.row hh hj hd).2]

end Exact

section Groups

variable {F : Type} [Field F] {gl : Glsl F} {pc : AttnScores} {q k v : Nat → F} {h : Nat}

variable (gl pc) in
/-- After the exponentials, the scores are their softmax up to a common factor, and the cells of the
lanes add up to it. -/
theorem expLanes_run (s : Turns 128) (mx : F) (score : Nat → F) {m : AttnShared F}
    (hsc : ∀ j < pc.nk, m.sc j = score j) :
    let m' := inTurn (expLane gl pc mx) s.order m
    (∀ j < pc.nk, m'.sc j = gl.math.exp (score j - mx)) ∧
      ∑ l ∈ Finset.range 128, m'.red ((), l) =
        ∑ j ∈ Finset.range pc.nk, gl.math.exp (score j - mx) := by
  intro m'
  constructor
  · intro j hj
    rw [← hsc j hj]
    exact sweeps_sc s hj
  · rw [← sum_strided pc.nk 128 _ (by decide)]
    refine Finset.sum_congr rfl fun l hl => ?_
    have hred : (inTurn (expLane gl pc mx) s.order m).red ((), l) = (strided pc.nk 128 l).foldl
        (fun part j => part + gl.math.exp (m.sc j - mx)) 0 := sweeps_red s ⟨l, Finset.mem_range.1 hl⟩
    refine hred.trans ?_
    rw [foldl_add_list (fun j => gl.math.exp (m.sc j - mx)), zero_add]
    congr 1
    refine List.map_congr_left fun j hj => ?_
    rw [hsc j ((mem_strided (Finset.mem_range.1 hl)).1 hj).1]

variable [LinearOrder F] [IsStrictOrderedRing F]

/-- What the loop over the values adds up to, once it is divided. -/
theorem weighted_eq (hexp : Decode.MoeBlock.ExpLaws gl.math) (n : Nat) (score w : Nat → F) (mx : F) :
    let total := ∑ j ∈ Finset.range n, gl.math.exp (score j - mx)
    (∑ j ∈ Finset.range n, gl.math.exp (score j - mx) * w j) *
        (if 0 < total then 1 / total else 0) =
      ∑ j ∈ Finset.range n, Decode.MoeBlock.softmax gl.math score id n j * w j := by
  intro total
  rcases Nat.eq_zero_or_pos n with rfl | hn
  · simp
  · have htotal : 0 < total :=
      Finset.sum_pos (fun j _ => hexp.pos _) (Finset.nonempty_range_iff.2 hn.ne')
    rw [if_pos htotal, Finset.sum_mul]
    refine Finset.sum_congr rfl fun j _ => ?_
    have hweight : gl.math.exp (score j - mx) / total =
        Decode.MoeBlock.softmax gl.math score id n j :=
      @Decode.MoeBlock.softmax_shift F _ _ gl.math score id n hexp j mx
    rw [← hweight, mul_right_comm, mul_one_div]

/-- A workgroup stores the output of its head. -/
theorem mem_attnGroup (hexp : Decode.MoeBlock.ExpLaws gl.math) (hfits : pc.Fits) (hh : h < pc.nHead)
    (s : AttnSchedule) (m : AttnShared F) {t : Nat × F} :
    t ∈ attnGroup gl pc q k v s h m ↔
      ∃ d < pc.headDim, t = (h * pc.headDim + d, attnValue gl pc q k v pc.nk h d) := by
  have hscores : ∀ j < pc.nk, (inTurn (scoreLane gl pc q k h) s.scores.order m).sc j =
      attnScore gl pc q k h j := fun j hj => (sweeps_sc s.scores hj).trans (dot_eq hfits hh hj)
  unfold attnGroup
  rw [if_neg (Nat.not_le.2 hh)]
  dsimp only
  generalize inTurn (scoreLane gl pc q k h) s.scores.order m = m₁ at hscores ⊢
  generalize treeMax s.maxima.order 7 m₁.red = red
  obtain ⟨hexps, hsum⟩ := expLanes_run gl pc s.exps (red ((), 0))
    (attnScore gl pc q k h) (m := ⟨m₁.sc, red⟩) hscores
  generalize inTurn (expLane gl pc (red ((), 0))) s.exps.order ⟨m₁.sc, red⟩ = m₂ at hexps hsum ⊢
  have htotal : treeReduce s.sums.order 7 m₂.red ((), 0) =
      ∑ j ∈ Finset.range pc.nk, gl.math.exp (attnScore gl pc q k h j - red ((), 0)) :=
    (treeReduce_eq 7 () (fun j _ => s.sums.orders j) m₂.red).trans hsum
  have hstore : ∀ d < pc.headDim, ((pc.qbase h + d) % 2 ^ 32,
      (List.range pc.nk).foldl (fun acc j =>
        acc + m₂.sc j * v ((j * pc.kvStride + pc.kbase h + d) % 2 ^ 32)) 0 *
          (if 0 < treeReduce s.sums.order 7 m₂.red ((), 0) then
            1 / treeReduce s.sums.order 7 m₂.red ((), 0) else 0)) =
      (h * pc.headDim + d, attnValue gl pc q k v pc.nk h d) := by
    intro d hd
    rw [hfits.query hh hd, foldl_add_range, zero_add, htotal, attnValue,
      ← weighted_eq hexp pc.nk _ _ (red ((), 0))]
    congr 2
    refine Finset.sum_congr rfl fun j hj => ?_
    have hj : j < pc.nk := Finset.mem_range.1 hj
    rw [hexps j hj, (hfits.bases hh).2, (hfits.row hh hj hd).2]
  simp only [List.mem_flatMap, List.mem_map]
  constructor
  · rintro ⟨lane, hlane, d, hd, rfl⟩
    have hd : d < pc.headDim := ((Lib.mem_strided lane.isLt).1 hd).1
    exact ⟨d, hd, hstore d hd⟩
  · rintro ⟨d, hd, rfl⟩
    obtain ⟨lane, hlane, hmem⟩ := (s.outs.mem_strided (by decide)).2 hd
    exact ⟨lane, hlane, d, hmem, hstore d hd⟩

omit [IsStrictOrderedRing F] in
/-- The greatest of the scores, from `-1e30` on, so that no exponential is of a positive number. -/
theorem attnMax_isGreatest (hfits : pc.Fits) (hh : h < pc.nHead) (s : AttnSchedule)
    (m : AttnShared F) :
    IsGreatest (insert (-10 ^ 30) (attnScore gl pc q k h '' Set.Iio pc.nk))
      (treeMax s.maxima.order 7 (inTurn (scoreLane gl pc q k h) s.scores.order m).red ((), 0)) := by
  have hlane : ∀ l < 128, IsGreatest
      (insert (-10 ^ 30) (attnScore gl pc q k h '' {j | j ∈ strided pc.nk 128 l}))
      ((inTurn (scoreLane gl pc q k h) s.scores.order m).red ((), l)) := by
    intro l hl
    have himage : attnScore gl pc q k h '' {j | j ∈ strided pc.nk 128 l} =
        pc.dot gl q k h '' {j | j ∈ strided pc.nk 128 l} :=
      Set.image_congr fun j hj => (dot_eq hfits hh ((Lib.mem_strided hl).1 hj).1).symm
    have hcell : (inTurn (scoreLane gl pc q k h) s.scores.order m).red ((), l) =
        (strided pc.nk 128 l).foldl (fun mx j =>
          if mx < pc.dot gl q k h j then pc.dot gl q k h j else mx) (-10 ^ 30) :=
      sweeps_red s.scores ⟨l, hl⟩
    rw [himage, hcell]
    exact foldl_isGreatest _ _ _
  have htree := treeMax_isGreatest 7 () (fun j _ => s.maxima.orders j)
    (inTurn (scoreLane gl pc q k h) s.scores.order m).red
  generalize treeMax s.maxima.order 7 (inTurn (scoreLane gl pc q k h) s.scores.order m).red ((), 0) =
    mx at htree ⊢
  constructor
  · obtain ⟨l, hl, rfl⟩ := htree.1
    rcases (hlane l hl).1 with heq | ⟨j, hj, heq⟩
    · exact .inl heq
    · exact .inr ⟨j, ((Lib.mem_strided hl).1 hj).1, heq⟩
  · rintro x (rfl | ⟨j, hj, rfl⟩)
    · exact ((hlane 0 (by decide)).2 (Set.mem_insert _ _)).trans (htree.2 ⟨0, by simp, rfl⟩)
    · have hl : j % 128 < 128 := Nat.mod_lt j (by decide)
      have hmem : j ∈ strided pc.nk 128 (j % 128) := (Lib.mem_strided hl).2 ⟨hj, rfl⟩
      exact ((hlane _ hl).2 (.inr ⟨j, hmem, rfl⟩)).trans (htree.2 ⟨_, hl, rfl⟩)

variable {runs : List (AttnRun F)} {stores : List (Nat × F)}

/-- A dispatch of a workgroup for each head leaves the outputs of all heads, whichever order its
workgroups, lanes and stores take. -/
theorem attnScores_exact (hexp : Decode.MoeBlock.ExpLaws gl.math) (hfits : pc.Fits)
    (hruns : (runs.map AttnRun.wg).Perm (List.range pc.nHead))
    (hstores : stores.Perm (runs.flatMap fun r => attnGroup gl pc q k v r.schedule r.wg r.shared))
    (o : Nat → F) {d : Nat} (hh : h < pc.nHead) (hd : d < pc.headDim) :
    storeAll o stores (h * pc.headDim + d) = attnValue gl pc q k v pc.nk h d := by
  have hwg : ∀ r ∈ runs, r.wg < pc.nHead := fun r hr =>
    List.mem_range.1 (hruns.mem_iff.1 (List.mem_map_of_mem hr))
  apply storeAll_of_stored
  · intro t ht heq
    obtain ⟨r, hr, ht⟩ := List.mem_flatMap.1 (hstores.mem_iff.1 ht)
    obtain ⟨d', hd', rfl⟩ := (mem_attnGroup hexp hfits (hwg r hr) r.schedule r.shared).1 ht
    obtain ⟨rfl, rfl⟩ := Decode.head_cell_inj hd hd' heq
    rfl
  · obtain ⟨r, hr, rfl⟩ := List.mem_map.1 (hruns.mem_iff.2 (List.mem_range.2 hh))
    have hmem := (mem_attnGroup hexp hfits hh r.schedule r.shared (q := q) (k := k) (v := v)).2
      ⟨d, hd, rfl⟩
    exact ⟨_, hstores.mem_iff.2 (List.mem_flatMap.2 ⟨r, hr, hmem⟩), rfl⟩

end Groups

section Host

open Decode Model Gguf

variable {F : Type} [Field F] [LinearOrder F] [IsStrictOrderedRing F] {gl : Glsl F} {tanh : F → F}

/-- The functions of the shader, for the loops of the host. -/
def Glsl.attn (gl : Glsl F) (tanh : F → F) : AttnLibm F := ⟨gl.math.exp, tanh, gl.math.sqrt⟩

theorem softmaxWeight_eq (hexp : MoeBlock.ExpLaws gl.math) (scores : Nat → F) {pos t : Nat}
    (ht : t ≤ pos) : softmaxWeight (gl.attn tanh) scores pos t =
      MoeBlock.softmax gl.math scores id (pos + 1) t := by
  have hpos : 0 < denominator (gl.attn tanh) scores pos := denominator_pos hexp.pos
  have hshift : gl.math.exp (scores t - maxScore scores pos) / ∑ i ∈ Finset.range (pos + 1),
      gl.math.exp (scores i - maxScore scores pos) = MoeBlock.softmax gl.math scores id (pos + 1) t :=
    @MoeBlock.softmax_shift F _ _ gl.math scores id (pos + 1) hexp t (maxScore scores pos)
  unfold softmaxWeight
  dsimp only
  rw [if_neg (Nat.not_lt.2 ht), if_pos hpos]
  exact hshift

/-- A row of a cache on the device, as the host sees the rows of its pages. -/
def cacheView (cfg : ModelConfig F) (stride width : Nat) (cache : Nat → F) : View F :=
  fun h t d => some (cache (t * stride + cfg.kvHead h * width + d))

/-- The push constants of the dispatch at a position. -/
def attnConstants (cfg : ModelConfig F) (width kvd pos : Nat) : AttnScores :=
  ⟨width, cfg.nHead, cfg.kvHeads, kvd, pos + 1⟩

variable {cfg : ModelConfig F} {g : VgGguf} {layer pos width kvd : Nat} {q k v : Nat → F}

omit [Field F] [IsStrictOrderedRing F] [LinearOrder F] in
theorem kvh_eq (h : Nat) : (attnConstants cfg width kvd pos).kvh h = cfg.kvHead h := by
  have hheads : cfg.kvHeads ≠ 0 := by
    unfold ModelConfig.kvHeads
    split_ifs with hzero
    · exact Nat.one_ne_zero
    · exact hzero
  simp only [AttnScores.kvh, attnConstants, ModelConfig.kvHead, ModelConfig.groupSize, ne_eq,
    hheads, not_false_eq_true, if_true, ite_not]

omit [IsStrictOrderedRing F] in
/-- Without a cap, the host scores as the shader does. -/
theorem score_eq (hcap : cfg.attnLogitSoftcap ≤ 0) (h t : Nat) :
    score (gl.attn tanh) cfg width q (cacheView cfg kvd width k) h t =
      attnScore gl (attnConstants cfg width kvd pos) q k h t := by
  simp only [score, if_neg (not_lt.2 hcap), attnScore, kvh_eq]
  rfl

/-- The head of the host, over all positions up to its own. -/
theorem softmaxAttention_eq (hexp : MoeBlock.ExpLaws gl.math) (hcap : cfg.attnLogitSoftcap ≤ 0)
    (hwidth : headWidth g cfg layer = width) (hkv : kvd / cfg.kvHeads = width) {h d : Nat}
    (hh : h < cfg.nHead) (hd : d < width) :
    softmaxAttention (gl.attn tanh) g cfg layer pos kvd (fun _ => true) q
        (cacheView cfg kvd width k) (cacheView cfg kvd width v) (h * width + d) =
      attnValue gl (attnConstants cfg width kvd pos) q k v (pos + 1) h d := by
  have happly : softmaxAttention (gl.attn tanh) g cfg layer pos kvd (fun _ => true) q
      (cacheView cfg kvd width k) (cacheView cfg kvd width v) (h * (kvd / cfg.kvHeads) + d) =
      ((List.range (pos + 1)).map fun t => softmaxWeight (gl.attn tanh) (score (gl.attn tanh) cfg
        (headWidth g cfg layer) q (cacheView cfg kvd width k) h) pos t *
          (cacheView cfg kvd width v h t d).getD 0).sum :=
    softmaxAttention_apply hh rfl (by rw [hkv]; exact hd)
  have hscore : score (gl.attn tanh) cfg width q (cacheView cfg kvd width k) h =
      attnScore gl (attnConstants cfg width kvd pos) q k h := funext (score_eq hcap h)
  rw [hkv, hwidth] at happly
  rw [happly, attnValue, ← List.sum_toFinset _ List.nodup_range, List.toFinset_range]
  refine Finset.sum_congr rfl fun t ht => ?_
  have ht : t ≤ pos := Nat.lt_succ_iff.1 (Finset.mem_range.1 ht)
  rw [hscore, softmaxWeight_eq hexp _ ht, kvh_eq]
  rfl

end Host

section Dispatch

open Decode Model Gguf

variable {F : Type} [Field F] [LinearOrder F] [IsStrictOrderedRing F] (gl : Glsl F)

/-- What the dispatch of the dense path leaves in `o` is what the loops of the host compute, for all
queries and caches and in every order of workgroups, lanes and stores. -/
def AttnAgrees (tanh : F → F) (g : VgGguf) (cfg : ModelConfig F) (layer width kvd pos : Nat) : Prop :=
  let pc := attnConstants cfg width kvd pos
  ∀ (q k v o : Nat → F) (runs : List (AttnRun F)) (stores : List (Nat × F)),
    (runs.map AttnRun.wg).Perm (List.range cfg.nHead) →
    stores.Perm (runs.flatMap fun r => attnGroup gl pc q k v r.schedule r.wg r.shared) →
    ∀ h < cfg.nHead, ∀ d < width, storeAll o stores (h * width + d) =
      softmaxAttention (gl.attn tanh) g cfg layer pos kvd (fun _ => true) q
        (cacheView cfg kvd width k) (cacheView cfg kvd width v) (h * width + d)

def inOrderTurns (n : Nat) : Turns n := ⟨List.finRange n, .refl _⟩

def inOrderRounds (n : Nat) : Rounds n := ⟨fun _ => (List.range n).map fun l => ((), l), fun _ => .refl _⟩

def attnInOrder : AttnSchedule where
  scores := inOrderTurns 128
  maxima := inOrderRounds 128
  exps := inOrderTurns 128
  sums := inOrderRounds 128
  outs := inOrderTurns 128

/-- The workgroups of a dispatch one after the other. -/
def attnRuns (n : Nat) : List (AttnRun F) := (List.range n).map fun wg => ⟨wg, attnInOrder, ⟨0, 0⟩⟩

variable {gl} {tanh : F → F} {g : VgGguf} {cfg : ModelConfig F} {layer width kvd pos : Nat}

/-- Both are the softmax over the keys that they go over. -/
theorem attnAgrees_iff_values (hexp : MoeBlock.ExpLaws gl.math) (hcap : cfg.attnLogitSoftcap ≤ 0)
    (hwidth : headWidth g cfg layer = width) (hkv : kvd / cfg.kvHeads = width)
    (hfits : (attnConstants cfg width kvd pos).Fits) :
    AttnAgrees gl tanh g cfg layer width kvd pos ↔
      ∀ q k v : Nat → F, ∀ h < cfg.nHead, ∀ d < width,
        attnValue gl (attnConstants cfg width kvd pos) q k v (min (pos + 1) 4096) h d =
          attnValue gl (attnConstants cfg width kvd pos) q k v (pos + 1) h d := by
  constructor
  · intro h q k v i hi d hd
    have hruns : ((attnRuns cfg.nHead : List (AttnRun F)).map AttnRun.wg).Perm
        (List.range cfg.nHead) := by
      simp [attnRuns, Function.comp_def]
    refine Eq.trans ?_ ((h q k v 0 _ _ hruns (.refl _) i hi d hd).trans
      (softmaxAttention_eq hexp hcap hwidth hkv hi hd))
    exact (attnScores_exact hexp hfits hruns (.refl _) 0 hi hd).symm
  · intro h q k v o runs stores hruns hstores i hi d hd
    rw [softmaxAttention_eq hexp hcap hwidth hkv hi hd, ← h q k v i hi d hd]
    exact attnScores_exact hexp hfits hruns hstores o hi hd

omit [IsStrictOrderedRing F] in
/-- With a one in the value rows from row 4096 on, the output is the weight of these rows. -/
theorem attnValue_late (gl : Glsl F) (pc : AttnScores) (hbase : pc.kvh 0 * pc.headDim < pc.kvStride) (n : Nat) :
    attnValue gl pc 0 0 (fun i => if 4096 * pc.kvStride ≤ i then 1 else 0) n 0 0 =
      ∑ j ∈ Finset.range n,
        if 4096 ≤ j then MoeBlock.softmax gl.math (attnScore gl pc 0 0 0) id n j else 0 := by
  refine Finset.sum_congr rfl fun j _ => ?_
  have hrow : 4096 * pc.kvStride ≤ j * pc.kvStride + pc.kvh 0 * pc.headDim + 0 ↔ 4096 ≤ j := by
    constructor
    · intro hle
      by_contra hj
      have hnext : (j + 1) * pc.kvStride ≤ 4096 * pc.kvStride := Nat.mul_le_mul_right _ (by omega)
      rw [Nat.succ_mul] at hnext
      omega
    · intro hj
      have hle : 4096 * pc.kvStride ≤ j * pc.kvStride := Nat.mul_le_mul_right _ hj
      omega
  simp only [hrow, mul_ite, mul_one, mul_zero]

/-- They agree exactly up to position 4095: the shader has room for the scores of 4096 keys. -/
theorem attnScores_agree_iff (hexp : MoeBlock.ExpLaws gl.math) (hcap : cfg.attnLogitSoftcap ≤ 0)
    (hwidth : headWidth g cfg layer = width) (hkv : kvd / cfg.kvHeads = width)
    (hfits : (attnConstants cfg width kvd pos).Fits) (hheads : 0 < cfg.nHead) (hpos : 0 < width) :
    AttnAgrees gl tanh g cfg layer width kvd pos ↔ pos < 4096 := by
  rw [attnAgrees_iff_values hexp hcap hwidth hkv hfits]
  constructor
  · intro h
    by_contra hlong
    have hbase : (attnConstants cfg width kvd pos).kvh 0 * width < kvd := by
      have hstride := hfits.2.2 0 hheads
      rw [Nat.succ_mul] at hstride
      exact Nat.lt_of_lt_of_le (Nat.lt_add_of_pos_right hpos) hstride
    have hvalues := h 0 0 (fun i => if 4096 * kvd ≤ i then 1 else 0) 0 hheads 0 hpos
    rw [Nat.min_eq_right (by omega)] at hvalues
    have hdevice := attnValue_late gl (attnConstants cfg width kvd pos) hbase 4096
    have hhost := attnValue_late gl (attnConstants cfg width kvd pos) hbase (pos + 1)
    have hnone := hdevice.symm.trans (hvalues.trans hhost)
    rw [Finset.sum_eq_zero] at hnone
    · have hweight : ∀ t, 0 < MoeBlock.softmax gl.math
          (attnScore gl (attnConstants cfg width kvd pos) 0 0 0) id (pos + 1) t := fun t =>
        div_pos (hexp.pos _) (Finset.sum_pos (fun _ _ => hexp.pos _) ⟨0, by simp⟩)
      refine (Finset.sum_pos' (fun t _ => ?_) ⟨4096, by simp; omega, ?_⟩).ne hnone
      · split_ifs
        · exact (hweight t).le
        · exact le_rfl
      · rw [if_pos le_rfl]
        exact hweight 4096
    · intro t ht
      exact if_neg (by simpa using ht)
  · intro hshort q k v h hh d hd
    rw [Nat.min_eq_left (by omega)]

noncomputable def realGlsl : Glsl ℝ where
  rotation := ⟨fun b e => b ^ (e : ℝ), Real.cos, Real.sin⟩
  math := MoeBlock.realLibm
  round := round

/-- The last position with all its keys, and the first without. -/
theorem attnScores_agree_last :
    AttnAgrees realGlsl id (VgGguf.blank 0) (MoeBlock.smallConfig ℝ 1 1) 0 1 1 4095 ∧
      ¬ AttnAgrees realGlsl id (VgGguf.blank 0) (MoeBlock.smallConfig ℝ 1 1) 0 1 1 4096 := by
  have hfits : ∀ pos, (attnConstants (MoeBlock.smallConfig ℝ 1 1) 1 1 pos).Fits := by
    intro pos
    refine ⟨by simp [attnConstants, MoeBlock.smallConfig], by simp [attnConstants], fun h hh => ?_⟩
    have hzero : h = 0 := Nat.lt_one_iff.1 hh
    rw [hzero, kvh_eq, ModelConfig.kvHead, Nat.zero_div]
    exact le_rfl
  have hagree : ∀ pos, AttnAgrees realGlsl id (VgGguf.blank 0) (MoeBlock.smallConfig ℝ 1 1) 0 1 1 pos ↔
      pos < 4096 := fun pos =>
    attnScores_agree_iff MoeBlock.realLibm_exp le_rfl (by decide) (by decide) (hfits pos) (by decide)
      (by decide)
  simp [hagree]

end Dispatch

end VgEngine.Vulkan
