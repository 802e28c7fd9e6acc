import VgEngine.Decode.MoeBlock
import Mathlib

/-! What `moe_ffn_layer` computes: its input plus the optional norm of the weighted sum of the
selected experts and the gated shared one, all of them of the normalised input. -/
namespace VgEngine.Decode.MoeBlock
open Lib Lib.Buffers Model

/-- The three matrices of a gated block. -/
structure Mlp (F : Type) where
  gate : Nat → Nat → F
  up : Nat → Nat → F
  down : Nat → Nat → F

/-- The weights of a layer. -/
structure MoeTensors (F : Type) where
  ffnNorm : Nat → F
  router : Nat → Nat → F
  expert : Nat → Mlp F
  shared : Mlp F
  projector : Option (Nat → F)
  postNorm : Option (Nat → F)

section Values

variable {F : Type} [Field F] [LinearOrder F] (libm : Libm F) (cfg : ModelConfig F)
variable (t : MoeTensors F) (h : Nat → F)

def rms (dim : Nat) (eps : F) (weight x : Nat → F) (j : Nat) : F :=
  x j * (1 / libm.sqrt ((∑ i ∈ Finset.range dim, x i * x i) / dim + eps)) * weight j

def product (row : Nat → Nat → F) (n : Nat) (x : Nat → F) (o : Nat) : F :=
  ∑ j ∈ Finset.range n, row o j * x j

def silu (z : F) : F := z / (1 + libm.exp (-z))

/-- `silu(gate x) * (up x)` -/
def Mlp.inner (m : Mlp F) (x : Nat → F) (i : Nat) : F :=
  silu libm (product m.gate cfg.nEmbd x i) * product m.up cfg.nEmbd x i

/-- `down(silu(gate x) * (up x))` -/
def Mlp.value (m : Mlp F) (x : Nat → F) (j : Nat) : F :=
  product m.down cfg.nFf (m.inner libm cfg x) j

/-- The softmax of the logits of the first `n` selected. -/
def softmax (l : Nat → F) (ids : Nat → Nat) (n i : Nat) : F :=
  libm.exp (l (ids i)) / ∑ k ∈ Finset.range n, libm.exp (l (ids k))

/-- The greatest of the logits of the first selected, from `-FLT_MAX` on. -/
def routeMax (l : Nat → F) (ids : Nat → Nat) : Nat → F
  | 0 => -fltMax
  | i + 1 => if routeMax l ids i < l (ids i) then l (ids i) else routeMax l ids i

def blockInput : Nat → F := rms libm cfg.nEmbd cfg.rmsEps t.ffnNorm h

def logits : Nat → F := product t.router cfg.nEmbd (blockInput libm cfg t h)

def usedExperts : Nat := max 1 cfg.nExpertUsed

/-- The expert that is selected in a place. -/
def selected (i : Nat) : Nat :=
  let l := logits libm cfg t h
  (moeRoute (fun a b => decide (l b < l a)) cfg.nExpert (usedExperts cfg)).getD i 0

def routeWeight (i : Nat) : F :=
  softmax libm (logits libm cfg t h) (selected libm cfg t h) (usedExperts cfg) i

/-- The block of a branch. -/
def mlpOf : Branch → Mlp F
  | .routed i => t.expert (selected libm cfg t h i)
  | .shared => t.shared

/-- The output of a branch. -/
def branchValue (b : Branch) : Nat → F :=
  (mlpOf libm cfg t h b).value libm cfg (blockInput libm cfg t h)

/-- The weighted sum of the first `k` selected experts. -/
def routedSum (k j : Nat) : F :=
  ∑ i ∈ Finset.range k, routeWeight libm cfg t h i * branchValue libm cfg t h (.routed i) j

/-- The gate of the shared expert: the sigmoid of its projector, or 1 without one. -/
def gateValue : F :=
  match t.projector with
  | some gw => 1 / (1 + libm.exp (-∑ j ∈ Finset.range cfg.nEmbd, gw j * blockInput libm cfg t h j))
  | none => 1

/-- All experts together. -/
def expertSum (j : Nat) : F :=
  routedSum libm cfg t h (usedExperts cfg) j +
    if cfg.hasSharedExpert then gateValue libm cfg t h * branchValue libm cfg t h .shared j else 0

/-- The norm behind the block, in the models that have one. -/
def postNormed (y : Nat → F) : Nat → F :=
  match t.postNorm with
  | some weight => rms libm cfg.nEmbd cfg.rmsEps weight y
  | none => y

/-- The block as a function of its input. -/
def blockValue (j : Nat) : F := h j + postNormed libm cfg t (expertSum libm cfg t h) j

/-- What each loop of the block is to read. -/
def intended : Purpose → Nat → F
  | .saved | .norm | .residual => h
  | .router | .gate _ | .up _ | .projector => blockInput libm cfg t h
  | .route => logits libm cfg t h
  | .exponent => fun i => libm.exp (logits libm cfg t h (selected libm cfg t h i) -
      routeMax (logits libm cfg t h) (selected libm cfg t h) (usedExperts cfg))
  | .weight => routeWeight libm cfg t h
  | .swigluGate b => product (mlpOf libm cfg t h b).gate cfg.nEmbd (blockInput libm cfg t h)
  | .swigluUp b => product (mlpOf libm cfg t h b).up cfg.nEmbd (blockInput libm cfg t h)
  | .down b => (mlpOf libm cfg t h b).inner libm cfg (blockInput libm cfg t h)
  | .output b => branchValue libm cfg t h b
  | .sum (.routed i) => routedSum libm cfg t h i
  | .sum .shared => routedSum libm cfg t h (usedExperts cfg)
  | .postNorm => expertSum libm cfg t h
  | .total => postNormed libm cfg t (expertSum libm cfg t h)

/-- A load that finds what it is to read. -/
def Finds (e : Load Purpose Buffer F) : Prop :=
  e.value = intended libm cfg t h e.purpose e.index

end Values

section Acquired

variable {F : Type} [Field F] [LinearOrder F]

/-- Every weight that the layer uses is acquired, and its products succeed. -/
structure Acquired (cfg : ModelConfig F) (w : MoeWeights F) (t : MoeTensors F) : Prop where
  ffnNorm : w.ffnNorm = .ok t.ffnNorm
  router : w.ffnGateInp = .ok ⟨.ok, t.router⟩
  gate : ∀ e < cfg.nExpert, w.acquireExpert .gate e = .ok ⟨.ok, (t.expert e).gate⟩
  up : ∀ e < cfg.nExpert, w.acquireExpert .up e = .ok ⟨.ok, (t.expert e).up⟩
  down : ∀ e < cfg.nExpert, w.acquireExpert .down e = .ok ⟨.ok, (t.expert e).down⟩
  shared : cfg.hasSharedExpert = true → w.ffnGateShexp = .ok ⟨.ok, t.shared.gate⟩ ∧
    w.ffnUpShexp = .ok ⟨.ok, t.shared.up⟩ ∧ w.ffnDownShexp = .ok ⟨.ok, t.shared.down⟩
  projector : sharedProjector cfg w = t.projector
  postNorm : postNormWeight cfg w = t.postNorm

/-- The laws of the exponential function that a softmax rests on. -/
structure ExpLaws (libm : Libm F) : Prop where
  pos : ∀ x, 0 < libm.exp x
  sub : ∀ x y, libm.exp (x - y) * libm.exp y = libm.exp x

end Acquired

section Kernels

variable {F : Type} [Field F] {libm : Libm F} {Q : Load Purpose Buffer F → Prop}
variable {m : Buffers Buffer F} {p : Purpose} {v : Nat → F} {n : Nat}

omit [Field F] in
theorem runs_memcpy {dst src : Buffer} (hne : src ≠ dst) (hv : ∀ i < n, m src i = v i)
    (hQ : ∀ i < n, Q ⟨p, src, i, v i⟩) : Logged.Runs Q (memcpy p dst src n) m () (m.fill dst n v) := by
  apply runs_each
  intro i hi m' hother _
  apply runs_load
  · rw [hother src hne, hv i hi]
  · exact hQ i hi

theorem runs_memset {dst : Buffer} :
    Logged.Runs Q (memset dst n : Block F Unit) m () (m.fill dst n fun _ => 0) := by
  apply runs_each
  intro i _ m' _ _
  exact .pure

/-- The norm may be in place. -/
theorem runs_vgCpuRmsnorm {out x : Buffer} {eps : F} {weight : Nat → F}
    (hv : ∀ i < n, m x i = v i) (hQ : ∀ i < n, Q ⟨p, x, i, v i⟩) :
    Logged.Runs Q (vgCpuRmsnorm libm p out x (some weight) n eps) m ()
      (m.fill out n (rms libm n eps weight v)) := by
  have hsquares : Logged.Runs Q (total n fun i => do
      let v ← load p x i
      pure (v * v)) m (∑ i ∈ Finset.range n, v i * v i) m := by
    apply runs_total
    intro i hi
    exact (runs_load (hv i hi) (hQ i hi)).bind .pure
  unfold vgCpuRmsnorm
  apply hsquares.bind
  apply runs_each
  intro i hi m' _ hcell
  have hload : m' x i = v i := by rw [hcell, hv i hi]
  exact (runs_load hload (hQ i hi)).bind .pure

theorem runs_mmDispatch {x y : Buffer} {row : Nat → Nat → F} {outDim : Nat} (hne : x ≠ y)
    (hv : ∀ j < n, m x j = v j) (hQ : ∀ j < n, Q ⟨p, x, j, v j⟩) :
    Logged.Runs Q (mmDispatch p ⟨.ok, row⟩ x y outDim n) m .ok
      (m.fill y outDim (product row n v)) := by
  have hrows : Logged.Runs Q (each y outDim fun o => total n fun j => do
      let v ← load p x j
      pure (row o j * v)) m () (m.fill y outDim (product row n v)) := by
    apply runs_each
    intro o _ m' hother _
    apply runs_total
    intro j hj
    have hload : m' x j = v j := by rw [hother x hne, hv j hj]
    exact (runs_load hload (hQ j hj)).bind .pure
  unfold mmDispatch
  rw [if_pos rfl]
  exact hrows.bind .pure

/-- The activation may be in place. -/
theorem runs_vgCpuSwiglu {b : Branch} {out gate up : Buffer} {g u : Nat → F}
    (hg : ∀ i < n, m gate i = g i) (hu : ∀ i < n, m up i = u i)
    (hQg : ∀ i < n, Q ⟨.swigluGate b, gate, i, g i⟩)
    (hQu : ∀ i < n, Q ⟨.swigluUp b, up, i, u i⟩) :
    Logged.Runs Q (vgCpuSwiglu libm b out gate up n) m ()
      (m.fill out n fun i => silu libm (g i) * u i) := by
  apply runs_each
  intro i hi m' _ hcell
  have hgate : m' gate i = g i := by rw [hcell, hg i hi]
  have hup : m' up i = u i := by rw [hcell, hu i hi]
  exact (runs_load hgate (hQg i hi)).bind ((runs_load hup (hQu i hi)).bind .pure)

theorem runs_accumulate {b : Branch} {hidden : Buffer} {acc y : Nat → F} {w : F}
    (hacc : ∀ j < n, m hidden j = acc j) (hy : ∀ j < n, m .expertDown j = y j)
    (hQacc : ∀ j < n, Q ⟨.sum b, hidden, j, acc j⟩)
    (hQy : ∀ j < n, Q ⟨.output b, .expertDown, j, y j⟩) :
    Logged.Runs Q (accumulate b hidden w n) m () (m.fill hidden n fun j => acc j + w * y j) := by
  apply runs_each
  intro j hj m' _ hcell
  have hsum : m' hidden j = acc j := by rw [hcell, hacc j hj]
  have hout : m' .expertDown j = y j := by rw [hcell, hy j hj]
  exact (runs_load hsum (hQacc j hj)).bind ((runs_load hout (hQy j hj)).bind .pure)

end Kernels

section Route

variable {F : Type} [Field F] [LinearOrder F] {libm : Libm F} {Q : Load Purpose Buffer F → Prop}
variable {m : Buffers Buffer F} {l : Nat → F} {ids : Nat → Nat} {n : Nat}

/-- A common shift of the logits cancels. -/
theorem softmax_shift (hexp : ExpLaws libm) (i : Nat) (c : F) :
    libm.exp (l (ids i) - c) / ∑ k ∈ Finset.range n, libm.exp (l (ids k) - c) =
      softmax libm l ids n i := by
  have hscale : (∑ k ∈ Finset.range n, libm.exp (l (ids k) - c)) * libm.exp c =
      ∑ k ∈ Finset.range n, libm.exp (l (ids k)) := by
    rw [Finset.sum_mul]
    apply Finset.sum_congr rfl
    intro k _
    exact hexp.sub _ c
  rw [softmax, ← hexp.sub (l (ids i)) c, ← hscale]
  exact (mul_div_mul_right _ _ (hexp.pos c).ne').symm

theorem runs_routeMax (hl : ∀ i < n, m .routeLogits (ids i) = l (ids i))
    (hQ : ∀ i < n, Q ⟨.route, .routeLogits, ids i, l (ids i)⟩) :
    Logged.Runs Q (loop (fun i mx => do
      let v ← load .route .routeLogits (ids i)
      pure (if mx < v then v else mx)) n (-fltMax)) m (routeMax l ids n) m := by
  apply @runs_loop _ _ _ _ _ _ _ (routeMax l ids) fun _ => m
  intro i hi
  exact (runs_load (hl i hi) (hQ i hi)).bind .pure

omit [LinearOrder F] in
theorem runs_exponents {val : Nat → F} {mx : F} (hval : ∀ i, val i = libm.exp (l (ids i) - mx))
    (hl : ∀ i < n, m .routeLogits (ids i) = l (ids i))
    (hQ : ∀ i < n, Q ⟨.route, .routeLogits, ids i, l (ids i)⟩)
    (hQval : ∀ i < n, Q ⟨.exponent, .weights, i, val i⟩) :
    Logged.Runs Q (loop (fun i sum => do
      let v ← load .route .routeLogits (ids i)
      store .weights i (libm.exp (v - mx))
      let e ← load .exponent .weights i
      pure (sum + e)) n 0) m (∑ i ∈ Finset.range n, val i) (m.fill .weights n val) := by
  apply runs_fill_total
  intro i hi acc
  have hlogit : m.fill .weights i val .routeLogits (ids i) = l (ids i) := by
    rw [fill_of_ne (by decide), hl i hi]
  have hcell : m.fill .weights (i + 1) val .weights i = val i := fill_apply (Nat.lt_succ_self i)
  apply (runs_load hlogit (hQ i hi)).bind
  rw [← hval i]
  have hstore : Logged.Runs Q (store .weights i (val i)) (m.fill .weights i val) ()
      (m.fill .weights (i + 1) val) := by
    rw [← fill_succ (val i) rfl]
    exact runs_store
  exact hstore.bind ((runs_load hcell (hQval i hi)).bind .pure)

/-- The routing weights are the softmax of the selected logits. -/
theorem runs_routeWeights [IsStrictOrderedRing F] (hexp : ExpLaws libm) (hn : 0 < n)
    (hl : ∀ i < n, m .routeLogits (ids i) = l (ids i))
    (hQ : ∀ i < n, Q ⟨.route, .routeLogits, ids i, l (ids i)⟩)
    (hQval : ∀ i < n, Q ⟨.exponent, .weights, i, libm.exp (l (ids i) - routeMax l ids n)⟩) :
    ∃ m', Logged.Runs Q (routeWeights libm ids n) m () m' ∧ (∀ c ≠ .weights, m' c = m c) ∧
      ∀ i < n, m' .weights i = softmax libm l ids n i := by
  generalize hval : (fun i => libm.exp (l (ids i) - routeMax l ids n)) = val
  have hvals (i : Nat) : val i = libm.exp (l (ids i) - routeMax l ids n) := by rw [← hval]
  have hQvals (i : Nat) (hi : i < n) : Q ⟨.exponent, .weights, i, val i⟩ := by
    rw [hvals]
    exact hQval i hi
  have hpos : 0 < ∑ i ∈ Finset.range n, val i := by
    apply Finset.sum_pos
    · intro i _
      rw [hvals]
      exact hexp.pos _
    · exact Finset.nonempty_range_iff.mpr hn.ne'
  have hdivide : Logged.Runs Q (each .weights n fun i => do
        let v ← load .exponent .weights i
        pure (v / ∑ k ∈ Finset.range n, val k)) (m.fill .weights n val) ()
      ((m.fill .weights n val).fill .weights n fun i => val i / ∑ k ∈ Finset.range n, val k) := by
    apply runs_each
    intro i hi m' _ hcell
    have hload : m' .weights i = val i := by rw [hcell, fill_apply hi]
    exact (runs_load hload (hQvals i hi)).bind .pure
  refine ⟨(m.fill .weights n val).fill .weights n fun i => val i / ∑ k ∈ Finset.range n, val k,
    ?_, ?_, ?_⟩
  · unfold routeWeights
    apply (runs_routeMax hl hQ).bind
    apply (runs_exponents hvals hl hQ hQvals).bind
    rw [if_pos hpos]
    exact hdivide
  · intro c hc
    rw [fill_of_ne hc, fill_of_ne hc]
  · intro i hi
    rw [fill_apply hi, ← hval]
    exact softmax_shift hexp i _

end Route

section Branches

variable {F : Type} [Field F] [LinearOrder F] {libm : Libm F} {cfg : ModelConfig F}
variable {t : MoeTensors F} {h : Nat → F} {m : Buffers Buffer F}

/-- The buffers that a branch leaves as they are. -/
def Kept (m m' : Buffers Buffer F) : Prop :=
  ∀ c, c ≠ .expertGate → c ≠ .expertUp → c ≠ .expertDown → m' c = m c

/-- The steps of a branch up to its output, each on what the one before left. -/
structure BranchRuns (libm : Libm F) (cfg : ModelConfig F) (t : MoeTensors F) (h : Nat → F)
    (b : Branch) (m m₁ m₂ m₃ m₄ : Buffers Buffer F) : Prop where
  gate : Logged.Runs (Finds libm cfg t h) (mmDispatch (.gate b) ⟨.ok, (mlpOf libm cfg t h b).gate⟩
    .workMoeIn .expertGate cfg.nFf cfg.nEmbd) m .ok m₁
  up : Logged.Runs (Finds libm cfg t h) (mmDispatch (.up b) ⟨.ok, (mlpOf libm cfg t h b).up⟩
    .workMoeIn .expertUp cfg.nFf cfg.nEmbd) m₁ .ok m₂
  swiglu : Logged.Runs (Finds libm cfg t h)
    (vgCpuSwiglu libm b .expertGate .expertGate .expertUp cfg.nFf) m₂ () m₃
  down : Logged.Runs (Finds libm cfg t h) (mmDispatch (.down b) ⟨.ok, (mlpOf libm cfg t h b).down⟩
    .expertGate .expertDown cfg.nEmbd cfg.nFf) m₃ .ok m₄
  kept : Kept m m₄
  output : ∀ j < cfg.nEmbd, m₄ .expertDown j = branchValue libm cfg t h b j

theorem exists_branchRuns (hx : ∀ j < cfg.nEmbd, m .workMoeIn j = blockInput libm cfg t h j)
    (b : Branch) : ∃ m₁ m₂ m₃ m₄, BranchRuns libm cfg t h b m m₁ m₂ m₃ m₄ := by
  generalize hmlp : mlpOf libm cfg t h b = mlp
  generalize hin : blockInput libm cfg t h = x at hx
  have hgate := @runs_mmDispatch F _ (Finds libm cfg t h) m (.gate b) x cfg.nEmbd .workMoeIn
    .expertGate mlp.gate cfg.nFf (by decide) hx fun j _ => by rw [← hin]; rfl
  have hup := @runs_mmDispatch F _ (Finds libm cfg t h)
    (m.fill .expertGate cfg.nFf (product mlp.gate cfg.nEmbd x)) (.up b) x cfg.nEmbd .workMoeIn
    .expertUp mlp.up cfg.nFf (by decide) (fun j hj => by rw [fill_of_ne (by decide), hx j hj])
    fun j _ => by rw [← hin]; rfl
  have hswiglu := @runs_vgCpuSwiglu F _ libm (Finds libm cfg t h)
    ((m.fill .expertGate cfg.nFf (product mlp.gate cfg.nEmbd x)).fill .expertUp cfg.nFf
      (product mlp.up cfg.nEmbd x)) cfg.nFf b .expertGate .expertGate .expertUp
    (product mlp.gate cfg.nEmbd x) (product mlp.up cfg.nEmbd x)
    (fun i hi => by rw [fill_of_ne (by decide), fill_apply hi]) (fun i hi => fill_apply hi)
    (fun i _ => by rw [← hmlp, ← hin]; rfl) (fun i _ => by rw [← hmlp, ← hin]; rfl)
  have hdown := @runs_mmDispatch F _ (Finds libm cfg t h)
    (((m.fill .expertGate cfg.nFf (product mlp.gate cfg.nEmbd x)).fill .expertUp cfg.nFf
      (product mlp.up cfg.nEmbd x)).fill .expertGate cfg.nFf (mlp.inner libm cfg x)) (.down b)
    (mlp.inner libm cfg x) cfg.nFf .expertGate .expertDown mlp.down cfg.nEmbd (by decide)
    (fun i hi => fill_apply hi) fun i _ => by rw [← hmlp, ← hin]; rfl
  rw [← hmlp] at hgate hup hdown
  refine ⟨_, _, _, _, hgate, hup, ?_, hdown, ?_, ?_⟩
  · rw [← hmlp] at hswiglu
    exact hswiglu
  · intro c hg hu hd
    rw [fill_of_ne hd, fill_of_ne hg, fill_of_ne hu, fill_of_ne hg]
  · intro j hj
    rw [fill_apply hj, branchValue, hmlp, hin]
    rfl

/-- The buffers between two branches: the block input and the weights are as they were, and the
caller's buffer holds a sum. -/
structure Ready (libm : Libm F) (cfg : ModelConfig F) (t : MoeTensors F) (h acc : Nat → F)
    (m : Buffers Buffer F) : Prop where
  res : ∀ j < cfg.nEmbd, m .workRes j = h j
  moeIn : ∀ j < cfg.nEmbd, m .workMoeIn j = blockInput libm cfg t h j
  weights : ∀ i < usedExperts cfg, m .weights i = routeWeight libm cfg t h i
  hidden : ∀ j < cfg.nEmbd, m .workEmbd j = acc j

theorem Ready.kept {acc : Nat → F} {m' : Buffers Buffer F} (hready : Ready libm cfg t h acc m)
    (hkept : Kept m m') : Ready libm cfg t h acc m' := by
  constructor
  · intro j hj
    rw [hkept .workRes (by decide) (by decide) (by decide), hready.res j hj]
  · intro j hj
    rw [hkept .workMoeIn (by decide) (by decide) (by decide), hready.moeIn j hj]
  · intro i hi
    rw [hkept .weights (by decide) (by decide) (by decide), hready.weights i hi]
  · intro j hj
    rw [hkept .workEmbd (by decide) (by decide) (by decide), hready.hidden j hj]

theorem Ready.fill {acc acc' : Nat → F} (hready : Ready libm cfg t h acc m) :
    Ready libm cfg t h acc' (m.fill .workEmbd cfg.nEmbd acc') := by
  constructor
  · intro j hj
    rw [fill_of_ne (by decide), hready.res j hj]
  · intro j hj
    rw [fill_of_ne (by decide), hready.moeIn j hj]
  · intro i hi
    rw [fill_of_ne (by decide), hready.weights i hi]
  · intro j hj
    rw [fill_apply hj]

/-- The output of a branch on top of a sum. -/
theorem BranchRuns.accumulate {b : Branch} {m₁ m₂ m₃ m₄ : Buffers Buffer F} {acc : Nat → F}
    (hruns : BranchRuns libm cfg t h b m m₁ m₂ m₃ m₄) (hready : Ready libm cfg t h acc m)
    (hacc : intended libm cfg t h (.sum b) = acc) (w : F) :
    Logged.Runs (Finds libm cfg t h) (MoeBlock.accumulate b .workEmbd w cfg.nEmbd) m₄ ()
      (m₄.fill .workEmbd cfg.nEmbd fun j => acc j + w * branchValue libm cfg t h b j) := by
  apply runs_accumulate (hready.kept hruns.kept).hidden hruns.output
  · intro j _
    rw [← hacc]
    rfl
  · intro j _
    rfl

variable {w : MoeWeights F}

/-- One pass adds the output of one expert. -/
theorem runs_runExpert (hw : Acquired cfg w t) {i : Nat} (hi : i < usedExperts cfg)
    (hid : selected libm cfg t h i < cfg.nExpert)
    (hready : Ready libm cfg t h (routedSum libm cfg t h i) m) :
    ∃ m', Logged.Runs (Finds libm cfg t h)
        (runExpert libm cfg w .workMoeIn .workEmbd (selected libm cfg t h) i) m .ok m' ∧
      Ready libm cfg t h (routedSum libm cfg t h (i + 1)) m' := by
  obtain ⟨m₁, m₂, m₃, m₄, hruns⟩ := exists_branchRuns hready.moeIn (.routed i)
  have hweight : Logged.Runs (Finds libm cfg t h) (load .weight .weights i) m₄
      (routeWeight libm cfg t h i) m₄ :=
    runs_load ((hready.kept hruns.kept).weights i hi) rfl
  have hsum := hruns.accumulate hready rfl (routeWeight libm cfg t h i)
  refine ⟨_, ?_, (hready.kept hruns.kept).fill⟩
  unfold runExpert
  simp only [hw.gate _ hid, hw.up _ hid, hw.down _ hid]
  apply hruns.gate.bind
  rw [if_neg (by decide)]
  apply hruns.up.bind
  rw [if_neg (by decide)]
  apply hruns.swiglu.bind
  apply hruns.down.bind
  rw [if_neg (by decide)]
  apply hweight.bind
  have hnext : (fun j => routedSum libm cfg t h i j +
      routeWeight libm cfg t h i * branchValue libm cfg t h (.routed i) j) =
        routedSum libm cfg t h (i + 1) := by
    funext j
    rw [routedSum, routedSum, Finset.sum_range_succ]
  rw [hnext] at hsum
  exact hsum.bind .pure

/-- The loop over the selected experts leaves their weighted sum. -/
theorem runs_runExperts (hw : Acquired cfg w t)
    (hids : ∀ i < usedExperts cfg, selected libm cfg t h i < cfg.nExpert)
    (hready : Ready libm cfg t h (fun _ => 0) m) (k : Nat) (hk : k ≤ usedExperts cfg) :
    ∃ m', Logged.Runs (Finds libm cfg t h)
        (runExperts libm cfg w .workMoeIn .workEmbd (selected libm cfg t h) k) m .ok m' ∧
      Ready libm cfg t h (routedSum libm cfg t h k) m' := by
  induction k with
  | zero =>
    refine ⟨m, .pure, ?_⟩
    have hempty : routedSum libm cfg t h 0 = fun _ => 0 := by
      funext j
      rw [routedSum, Finset.sum_range_zero]
    rw [hempty]
    exact hready
  | succ k ih =>
    obtain ⟨m', hprefix, hbetween⟩ := ih (Nat.le_of_succ_le hk)
    obtain ⟨m'', hpass, hafter⟩ := runs_runExpert hw hk (hids k hk) hbetween
    refine ⟨m'', ?_, hafter⟩
    unfold runExperts
    apply hprefix.bind
    rw [if_neg (by decide)]
    exact hpass

/-- The gate of the shared expert. -/
theorem runs_sharedGate (hw : Acquired cfg w t)
    (hx : ∀ j < cfg.nEmbd, m .workMoeIn j = blockInput libm cfg t h j) :
    Logged.Runs (Finds libm cfg t h) (sharedGate libm cfg w .workMoeIn) m
      (gateValue libm cfg t h) m := by
  unfold sharedGate gateValue
  rw [hw.projector]
  cases t.projector with
  | none => exact .pure
  | some gw =>
    have hdot : Logged.Runs (Finds libm cfg t h) (total cfg.nEmbd fun j => do
        let v ← load .projector .workMoeIn j
        pure (gw j * v)) m
        (∑ j ∈ Finset.range cfg.nEmbd, gw j * blockInput libm cfg t h j) m := by
      apply runs_total
      intro j hj
      have hload : Logged.Runs (Finds libm cfg t h) (load .projector .workMoeIn j) m
          (blockInput libm cfg t h j) m := runs_load (hx j hj) rfl
      exact hload.bind .pure
    exact hdot.bind .pure

/-- The shared expert adds its gated output. -/
theorem runs_runShared (hw : Acquired cfg w t) (hshared : cfg.hasSharedExpert = true)
    (hready : Ready libm cfg t h (routedSum libm cfg t h (usedExperts cfg)) m) :
    ∃ m', Logged.Runs (Finds libm cfg t h) (runShared libm cfg w .workMoeIn .workEmbd) m () m' ∧
      Ready libm cfg t h (expertSum libm cfg t h) m' := by
  obtain ⟨hgate, hup, hdown⟩ := hw.shared hshared
  obtain ⟨m₁, m₂, m₃, m₄, hruns⟩ := exists_branchRuns hready.moeIn .shared
  have hsum := hruns.accumulate hready rfl (gateValue libm cfg t h)
  refine ⟨_, ?_, (hready.kept hruns.kept).fill⟩
  unfold runShared
  apply (runs_sharedGate hw hready.moeIn).bind
  simp only [hgate, hup, hdown]
  apply hruns.gate.bind
  rw [if_neg (by decide)]
  apply hruns.up.bind
  rw [if_neg (by decide)]
  apply hruns.swiglu.bind
  apply hruns.down.bind
  rw [if_neg (by decide)]
  have hnext : (fun j => routedSum libm cfg t h (usedExperts cfg) j +
      gateValue libm cfg t h * branchValue libm cfg t h .shared j) = expertSum libm cfg t h := by
    funext j
    rw [expertSum, if_pos hshared]
  rw [hnext] at hsum
  exact hsum

theorem runs_runPostNorm (hw : Acquired cfg w t)
    (hready : Ready libm cfg t h (expertSum libm cfg t h) m) :
    ∃ m', Logged.Runs (Finds libm cfg t h) (runPostNorm libm cfg w .workEmbd) m () m' ∧
      Ready libm cfg t h (postNormed libm cfg t (expertSum libm cfg t h)) m' := by
  unfold runPostNorm postNormed
  rw [hw.postNorm]
  cases t.postNorm with
  | none => exact ⟨m, .pure, hready⟩
  | some weight =>
    refine ⟨_, ?_, hready.fill⟩
    apply runs_vgCpuRmsnorm hready.hidden
    intro j _
    rfl

end Branches

section Layer

variable {F : Type} [Field F] [LinearOrder F] {libm : Libm F} {cfg : ModelConfig F}
variable {t : MoeTensors F} {w : MoeWeights F} {h : Nat → F} {m : Buffers Buffer F}
variable {memory : RouteMemory}

omit [Field F] [LinearOrder F] in
theorem usedExperts_le (hmany : 1 < cfg.nExpert) (hused : cfg.nExpertUsed ≤ cfg.nExpert) :
    usedExperts cfg ≤ cfg.nExpert :=
  max_le hmany.le hused

/-- The selection by the router's output is the one by the logits. -/
theorem route_eq (horder : memory.order = true) (hmany : 1 < cfg.nExpert)
    (hused : cfg.nExpertUsed ≤ cfg.nExpert) {l : Nat → F}
    (hl : ∀ e < cfg.nExpert, l e = logits libm cfg t h e) :
    vgModelGraphMoeRoute (fun a b => decide (b < a)) cfg.nExpert cfg.nExpertUsed memory (some l)
      none ⟨0, 0, some []⟩ = (.ok, ⟨cfg.nExpert, usedExperts cfg, some (moeRoute (fun a b =>
        decide (logits libm cfg t h b < logits libm cfg t h a)) cfg.nExpert (usedExperts cfg))⟩) := by
  have hExpert : (if 0 < cfg.nExpert then cfg.nExpert else 1) = cfg.nExpert :=
    if_pos (Nat.lt_trans Nat.zero_lt_one hmany)
  have hUsed : (if 0 < cfg.nExpertUsed then cfg.nExpertUsed else 1) = usedExperts cfg := by
    unfold usedExperts
    split_ifs <;> omega
  have hcongr : moeRoute (fun a b => decide (l b < l a)) cfg.nExpert (usedExperts cfg) =
      moeRoute (fun a b => decide (logits libm cfg t h b < logits libm cfg t h a)) cfg.nExpert
        (usedExperts cfg) := by
    apply moeRoute_congr
    intro a ha b hb
    rw [hl a ha, hl b hb]
  have hlength : usedExperts cfg ≤
      (sortOrder (fun a b => decide (l b < l a)) cfg.nExpert).length := by
    rw [sortOrder_eq, List.length_reverse, length_sortedPart]
    exact usedExperts_le hmany hused
  unfold vgModelGraphMoeRoute
  simp only [hExpert, hUsed, horder, reduceCtorEq, false_and, if_false, Bool.true_eq_false]
  rw [range_map_getD hlength, take_sortOrder, hcongr]

theorem selected_lt (hmany : 1 < cfg.nExpert) (hused : cfg.nExpertUsed ≤ cfg.nExpert) {i : Nat}
    (hi : i < usedExperts cfg) : selected libm cfg t h i < cfg.nExpert := by
  have hlength : i < (moeRoute (fun a b => decide (logits libm cfg t h b < logits libm cfg t h a))
      cfg.nExpert (usedExperts cfg)).length := by
    rw [← take_sortOrder, List.length_take, sortOrder_eq, List.length_reverse, length_sortedPart]
    exact lt_min hi (Nat.lt_of_lt_of_le hi (usedExperts_le hmany hused))
  unfold selected
  rw [List.getD_eq_getElem _ _ hlength]
  exact moeRoute_lt (List.getElem_mem hlength)

/-- The block input and the logits of the router. -/
structure Routed (libm : Libm F) (cfg : ModelConfig F) (t : MoeTensors F) (h : Nat → F)
    (m : Buffers Buffer F) : Prop where
  res : ∀ j < cfg.nEmbd, m .workRes j = h j
  moeIn : ∀ j < cfg.nEmbd, m .workMoeIn j = blockInput libm cfg t h j
  logits : ∀ e < cfg.nExpert, m .routeLogits e = logits libm cfg t h e

/-- The loops up to the router, each on what the one before left. -/
theorem exists_routed (hh : m .workEmbd = h) : ∃ m₁ m₂ m₃,
    Logged.Runs (Finds libm cfg t h) (memcpy .saved .workRes .workEmbd cfg.nEmbd) m () m₁ ∧
      Logged.Runs (Finds libm cfg t h) (vgCpuRmsnorm libm .norm .workMoeIn .workEmbd
        (some t.ffnNorm) cfg.nEmbd cfg.rmsEps) m₁ () m₂ ∧
      Logged.Runs (Finds libm cfg t h) (mmDispatch .router ⟨.ok, t.router⟩ .workMoeIn .routeLogits
        cfg.nExpert cfg.nEmbd) m₂ .ok m₃ ∧ Routed libm cfg t h m₃ := by
  have hsave : Logged.Runs (Finds libm cfg t h) (memcpy .saved .workRes .workEmbd cfg.nEmbd) m ()
      (m.fill .workRes cfg.nEmbd h) := by
    apply runs_memcpy (by decide)
    · intro j _
      rw [hh]
    · intro j _
      rfl
  have hnorm : Logged.Runs (Finds libm cfg t h) (vgCpuRmsnorm libm .norm .workMoeIn .workEmbd
      (some t.ffnNorm) cfg.nEmbd cfg.rmsEps) (m.fill .workRes cfg.nEmbd h) ()
      ((m.fill .workRes cfg.nEmbd h).fill .workMoeIn cfg.nEmbd (blockInput libm cfg t h)) := by
    apply runs_vgCpuRmsnorm
    · intro j _
      rw [fill_of_ne (by decide), hh]
    · intro j _
      rfl
  have hrouter : Logged.Runs (Finds libm cfg t h) (mmDispatch .router ⟨.ok, t.router⟩ .workMoeIn
      .routeLogits cfg.nExpert cfg.nEmbd)
      ((m.fill .workRes cfg.nEmbd h).fill .workMoeIn cfg.nEmbd (blockInput libm cfg t h)) .ok
      (((m.fill .workRes cfg.nEmbd h).fill .workMoeIn cfg.nEmbd (blockInput libm cfg t h)).fill
        .routeLogits cfg.nExpert (MoeBlock.logits libm cfg t h)) := by
    apply runs_mmDispatch (by decide)
    · intro j hj
      rw [fill_apply hj]
    · intro j _
      rfl
  refine ⟨_, _, _, hsave, hnorm, hrouter, ?_⟩
  constructor
  · intro j hj
    rw [fill_of_ne (by decide), fill_of_ne (by decide), fill_apply hj]
  · intro j hj
    rw [fill_of_ne (by decide), fill_apply hj]
  · intro e he
    rw [fill_apply he]

/-- The routing weights and the cleared accumulator. -/
theorem exists_ready [IsStrictOrderedRing F] (hexp : ExpLaws libm) (hmany : 1 < cfg.nExpert)
    (hused : cfg.nExpertUsed ≤ cfg.nExpert) (hrouted : Routed libm cfg t h m) : ∃ m₁ m₂,
      Logged.Runs (Finds libm cfg t h)
        (routeWeights libm (selected libm cfg t h) (usedExperts cfg)) m () m₁ ∧
      Logged.Runs (Finds libm cfg t h) (memset .workEmbd cfg.nEmbd) m₁ () m₂ ∧
      Ready libm cfg t h (fun _ => 0) m₂ := by
  have hselected (i : Nat) (hi : i < usedExperts cfg) : m .routeLogits (selected libm cfg t h i) =
      logits libm cfg t h (selected libm cfg t h i) :=
    hrouted.logits _ (selected_lt hmany hused hi)
  have hpos : 0 < usedExperts cfg := Nat.lt_of_lt_of_le Nat.zero_lt_one (le_max_left _ _)
  obtain ⟨m₁, hweights, hother, hsoftmax⟩ := @runs_routeWeights F _ _ libm (Finds libm cfg t h) m
    (logits libm cfg t h) (selected libm cfg t h) (usedExperts cfg) _ hexp hpos hselected
    (fun _ _ => rfl) fun _ _ => rfl
  refine ⟨m₁, _, hweights, runs_memset, ?_⟩
  constructor
  · intro j hj
    rw [fill_of_ne (by decide), hother _ (by decide), hrouted.res j hj]
  · intro j hj
    rw [fill_of_ne (by decide), hother _ (by decide), hrouted.moeIn j hj]
  · intro i hi
    rw [fill_of_ne (by decide), hsoftmax i hi]
    rfl
  · intro j hj
    rw [fill_apply hj]

/-- The shared expert, in the models that have one. -/
theorem exists_shared (hw : Acquired cfg w t)
    (hready : Ready libm cfg t h (routedSum libm cfg t h (usedExperts cfg)) m) : ∃ m',
      Logged.Runs (Finds libm cfg t h) (Logged.onlyIf (cfg.hasSharedExpert = true)
        (runShared libm cfg w .workMoeIn .workEmbd)) m () m' ∧
      Ready libm cfg t h (expertSum libm cfg t h) m' := by
  unfold Logged.onlyIf
  by_cases hshared : cfg.hasSharedExpert = true
  · rw [if_pos hshared]
    exact runs_runShared hw hshared hready
  · rw [if_neg hshared]
    have hnone : expertSum libm cfg t h = routedSum libm cfg t h (usedExperts cfg) := by
      funext j
      rw [expertSum, if_neg hshared, add_zero]
    rw [hnone]
    exact ⟨m, .pure, hready⟩

/-- The residual on top of the block. -/
theorem runs_residual
    (hready : Ready libm cfg t h (postNormed libm cfg t (expertSum libm cfg t h)) m) :
    Logged.Runs (Finds libm cfg t h) (each .workEmbd cfg.nEmbd fun j => do
        let v ← load .total .workEmbd j
        let r ← load .residual .workRes j
        pure (v + r)) m () (m.fill .workEmbd cfg.nEmbd (blockValue libm cfg t h)) := by
  apply runs_each
  intro j hj m' _ hcell
  have htotal : Logged.Runs (Finds libm cfg t h) (load .total .workEmbd j) m'
      (postNormed libm cfg t (expertSum libm cfg t h) j) m' :=
    runs_load (by rw [hcell, hready.hidden j hj]) rfl
  have hresidual : Logged.Runs (Finds libm cfg t h) (load .residual .workRes j) m' (h j) m' :=
    runs_load (by rw [hcell, hready.res j hj]) rfl
  rw [blockValue, add_comm]
  exact htotal.bind (hresidual.bind .pure)

/-- The block returns its value in the caller's buffer, and each of its loads finds what it is to
read: no buffer is overwritten before its last use. -/
theorem moeFfnLayer_value [IsStrictOrderedRing F] (hexp : ExpLaws libm) (hw : Acquired cfg w t)
    (horder : memory.order = true) (hmany : 1 < cfg.nExpert)
    (hused : cfg.nExpertUsed ≤ cfg.nExpert) (hfit : cfg.nExpertUsed ≤ 16)
    (m : Buffers Buffer F) :
    let r := moeFfnLayer libm cfg w memory true .workEmbd m
    r.1.1 = .ok ∧
      (∀ j < cfg.nEmbd, r.1.2 .workEmbd j = blockValue libm cfg t (m .workEmbd) j) ∧
      ∀ e ∈ r.2, Finds libm cfg t (m .workEmbd) e := by
  generalize hh : m .workEmbd = h
  obtain ⟨m₁, m₂, m₃, hsave, hnorm, hrouter, hrouted⟩ := @exists_routed F _ _ libm cfg t h m hh
  obtain ⟨m₄, m₅, hweights, hclear, hready⟩ := exists_ready hexp hmany hused hrouted
  obtain ⟨m₆, hexperts, hready⟩ := runs_runExperts hw (fun i hi => selected_lt hmany hused hi)
    hready (usedExperts cfg) (Nat.le_refl _)
  obtain ⟨m₇, hshared, hready⟩ := exists_shared hw hready
  obtain ⟨m₈, hpost, hready⟩ := runs_runPostNorm hw hready
  have hresidual := runs_residual hready
  have hruns : Logged.Runs (Finds libm cfg t h) (moeFfnLayer libm cfg w memory true .workEmbd) m
      .ok (m₈.fill .workEmbd cfg.nEmbd (blockValue libm cfg t h)) := by
    unfold moeFfnLayer
    simp only [hw.ffnNorm, hw.router, if_true]
    apply hsave.bind
    apply hnorm.bind
    apply hrouter.bind
    rw [if_neg (by decide), if_neg (Nat.not_lt.mpr hfit)]
    apply Logged.Runs.get.bind
    rw [route_eq horder hmany hused hrouted.logits, if_neg fun hne => hne rfl]
    apply hweights.bind
    apply hclear.bind
    apply hexperts.bind
    rw [if_neg (by decide)]
    apply hshared.bind
    apply hpost.bind
    exact hresidual.bind .pure
  obtain ⟨hvalue, hlog⟩ := hruns
  refine ⟨by rw [hvalue], ?_, hlog⟩
  intro j hj
  rw [hvalue]
  dsimp only
  rw [fill_apply hj]

/-- A selection that does not fit the array of 16 ids is refused. -/
theorem moeFfnLayer_refuses (hw : Acquired cfg w t) (hfit : 16 < cfg.nExpertUsed)
    (m : Buffers Buffer F) :
    (moeFfnLayer libm cfg w memory true .workEmbd m).1.1 = .unsupported := by
  obtain ⟨m₁, m₂, m₃, hsave, hnorm, hrouter, -⟩ := @exists_routed F _ _ libm cfg t _ m rfl
  have hruns : Logged.Runs (Finds libm cfg t (m .workEmbd))
      (moeFfnLayer libm cfg w memory true .workEmbd) m .unsupported m₃ := by
    unfold moeFfnLayer
    simp only [hw.ffnNorm, hw.router, if_true]
    apply hsave.bind
    apply hnorm.bind
    apply hrouter.bind
    rw [if_neg (by decide), if_pos hfit]
    exact .pure
  rw [hruns.1]

end Layer

section Small

/-- A routed model with one element a buffer. -/
def smallConfig (F : Type) [Zero F] (experts used : Nat) : ModelConfig F where
  nVocab := 1
  nEmbd := 1
  nHead := 1
  nHeadKv := 1
  nLayer := 1
  nFf := 1
  headDim := 1
  nRot := 1
  rmsEps := 0
  freqBase := 0
  bosId := 0
  eosId := 0
  hasBiases := false
  hasGateUp := true
  hasSubNorm := false
  hasPostNorm := true
  hasSharedExpert := true
  attnLogitSoftcap := 0
  logitSoftcap := 0
  nCtx := 1
  nExpert := experts
  nExpertUsed := used
  slidingWindow := 0

/-- Its weights: the expert of a number multiplies by that number. -/
def smallTensors (F : Type) [Field F] : MoeTensors F where
  ffnNorm := fun _ => 1
  router := fun e _ => e
  expert := fun e => ⟨fun _ _ => e, fun _ _ => e, fun _ _ => e⟩
  shared := ⟨fun _ _ => 1, fun _ _ => 1, fun _ _ => 1⟩
  projector := some fun _ => 1
  postNorm := some fun _ => 1 + 1

def smallWeights (F : Type) [Field F] : MoeWeights F where
  ffnNorm := .ok fun _ => 1
  ffnGateInp := .ok ⟨.ok, fun e _ => e⟩
  acquireExpert := fun _ e => .ok ⟨.ok, fun _ _ => e⟩
  ffnGateInpShexp := .ok ⟨0, 1, 1, fun _ => 1⟩
  ffnGateShexp := .ok ⟨.ok, fun _ _ => 1⟩
  ffnUpShexp := .ok ⟨.ok, fun _ _ => 1⟩
  ffnDownShexp := .ok ⟨.ok, fun _ _ => 1⟩
  ffnPostNorm := .ok ⟨0, 1, 1, fun _ => 1 + 1⟩

theorem smallWeights_acquired (F : Type) [Field F] [LinearOrder F] (experts used : Nat) :
    Acquired (smallConfig F experts used) (smallWeights F) (smallTensors F) where
  ffnNorm := rfl
  router := rfl
  gate _ _ := rfl
  up _ _ := rfl
  down _ _ := rfl
  shared _ := ⟨rfl, rfl, rfl⟩
  projector := rfl
  postNorm := rfl

noncomputable def realLibm : Libm ℝ where
  exp := Real.exp
  sqrt := Real.sqrt

theorem realLibm_exp : ExpLaws realLibm where
  pos := Real.exp_pos
  sub x y := by
    change Real.exp (x - y) * Real.exp y = Real.exp x
    rw [← Real.exp_add, sub_add_cancel]

theorem moeFfnLayer_value_small :
    let r := moeFfnLayer realLibm (smallConfig ℝ 4 2) (smallWeights ℝ) ⟨true, true, true⟩ true
      .workEmbd fun _ _ => 1
    r.1.1 = .ok ∧
      (∀ j < (smallConfig ℝ 4 2).nEmbd, r.1.2 .workEmbd j =
        blockValue realLibm (smallConfig ℝ 4 2) (smallTensors ℝ) (fun _ => 1) j) ∧
      ∀ e ∈ r.2, Finds realLibm (smallConfig ℝ 4 2) (smallTensors ℝ) (fun _ => 1) e :=
by
  have hvalue := @moeFfnLayer_value ℝ _ _ realLibm (smallConfig ℝ 4 2) (smallTensors ℝ)
    (smallWeights ℝ) ⟨true, true, true⟩ _ realLibm_exp (smallWeights_acquired ℝ 4 2) rfl
    (by decide) (by decide) (by decide) fun _ _ => 1
  exact hvalue

/-- All weights are there, and 17 of 32 experts are to be used. -/
theorem moeFfnLayer_seventeen :
    Acquired (smallConfig ℝ 32 17) (smallWeights ℝ) (smallTensors ℝ) ∧
      (moeFfnLayer realLibm (smallConfig ℝ 32 17) (smallWeights ℝ) ⟨true, true, true⟩ true .workEmbd
        fun _ _ => 1).1.1 = .unsupported :=
  ⟨smallWeights_acquired ℝ 32 17, moeFfnLayer_refuses (smallWeights_acquired ℝ 32 17) (by decide) _⟩

end Small

end VgEngine.Decode.MoeBlock
