import Mathlib.Data.List.Basic
import Mathlib.Logic.Relation
import Mathlib.Tactic.MkIffOfInductiveProp

/-! Jobs recorded into one buffer, with barriers between them. A job may overtake every earlier one
that no barrier keeps before it, and what is shared without a barrier may hold anything. -/
namespace VgEngine.Lib.CommandBuffer

/-- A job of a stage. What it leaves in the places it writes depends on what it reads, and every
other place stays as it is. -/
structure Job (σ β α : Type*) where
  stage : σ
  reads : List β
  writes : List β
  run : (β → α) → β → α
  frame : ∀ m b, b ∉ writes → run m b = m b
  reads_only : ∀ m m', (∀ b ∈ reads, m b = m' b) → ∀ b ∈ writes, run m b = run m' b

/-- The jobs of `dst` that come later wait for the jobs of `src` that came before. -/
structure Barrier (σ : Type*) where
  src : σ
  dst : σ
  /-- What the jobs of `src` wrote becomes available. -/
  flushes : Bool
  /-- What is available becomes visible to the jobs of `dst`. -/
  shows : Bool

inductive Item (σ β α : Type*) where
  | job (j : Job σ β α)
  | barrier (b : Barrier σ)

/-- What the barriers since a job have made of it: the stages that wait for it, whether its writes
are available, and the stages that see them. -/
structure Reach (σ : Type*) where
  waits : List σ
  available : Bool
  visible : List σ

section Semantics

variable {σ β α : Type*} [DecidableEq σ]

def Reach.start : Reach σ := ⟨[], false, []⟩

/-- A barrier behind a job of stage `s`. It counts when the job, or a barrier that waits for the
job, is in its first half. -/
def Reach.pass (s : σ) (r : Reach σ) (b : Barrier σ) : Reach σ :=
  if b.src = s ∨ b.src ∈ r.waits then
    let available := r.available || (b.flushes && b.src = s)
    ⟨b.dst :: r.waits, available, if available && b.shows then b.dst :: r.visible else r.visible⟩
  else r

/-- The jobs of a recording that come behind a job of stage `s`, each with the reach of that job. -/
def ahead (s : σ) : Reach σ → List (Item σ β α) → List (Job σ β α × Reach σ)
  | _, [] => []
  | r, .barrier b :: rest => ahead s (r.pass s b) rest
  | r, .job d :: rest => (d, r) :: ahead s r rest

def Reach.after (s : σ) (r : Reach σ) : List (Item σ β α) → Reach σ
  | [] => r
  | .barrier b :: rest => (r.pass s b).after s rest
  | .job _ :: rest => r.after s rest

/-- A recording with the jobs that have run. -/
abbrev Progress (σ β α : Type*) := List (Item σ β α × Bool)

def start (items : List (Item σ β α)) : Progress σ β α := items.map fun i => (i, false)

def items (p : Progress σ β α) : List (Item σ β α) := p.map Prod.fst

/-- The jobs of a part of a recording, whether they have run, and their reach at its end. -/
def behind : Progress σ β α → List (Job σ β α × Bool × Reach σ)
  | [] => []
  | (.barrier _, _) :: rest => behind rest
  | (.job c, ran) :: rest => (c, ran, Reach.start.after c.stage (items rest)) :: behind rest

/-- The jobs that have not run. -/
def left : Progress σ β α → List (Job σ β α)
  | [] => []
  | (.barrier _, _) :: rest => left rest
  | (.job _, true) :: rest => left rest
  | (.job c, false) :: rest => c :: left rest

/-- A job between two parts of a recording gets what is in a place. -/
def ReadSettled (pre post : Progress σ β α) (d : Job σ β α) (b : β) : Prop :=
  (∀ e ∈ behind pre, b ∈ e.1.writes → d.stage ∈ e.2.2.visible) ∧
    ∀ e ∈ ahead d.stage Reach.start (items post), b ∈ e.1.writes → e.1.stage ∈ e.2.waits

/-- What a job between two parts of a recording puts in a place stays there. -/
def WriteSettled (pre post : Progress σ β α) (d : Job σ β α) (b : β) : Prop :=
  (∀ e ∈ behind pre, b ∈ e.1.writes → e.2.2.available ∧ d.stage ∈ e.2.2.waits) ∧
    ∀ e ∈ ahead d.stage Reach.start (items post),
      b ∈ e.1.writes → e.2.available ∧ e.1.stage ∈ e.2.waits

/-- Some job runs that waits for no job before it. Its view of the memory is right in the settled
places only. -/
inductive Step : Progress σ β α × (β → α) → Progress σ β α × (β → α) → Prop
  | run (pre post : Progress σ β α) (d : Job σ β α) (view m m' : β → α)
      (free : ∀ e ∈ behind pre, e.2.1 = false → d.stage ∉ e.2.2.waits)
      (viewed : ∀ b ∈ d.reads, ReadSettled pre post d b → view b = m b)
      (put : ∀ b ∈ d.writes, WriteSettled pre post d b → m' b = d.run view b)
      (kept : ∀ b, b ∉ d.writes → m' b = m b) :
      Step (pre ++ (.job d, false) :: post, m) (pre ++ (.job d, true) :: post, m')

abbrev Steps : Progress σ β α × (β → α) → Progress σ β α × (β → α) → Prop :=
  Relation.ReflTransGen Step

/-- One job after the other. -/
def runAll (js : List (Job σ β α)) (m : β → α) : β → α := js.foldl (fun m j => j.run m) m

/-- A recording in the order of its jobs. -/
def recorded (l : List (Item σ β α)) : (β → α) → β → α := runAll (left (start l))

/-- A submitted recording that has run to its end. -/
def Outcome (l : List (Item σ β α)) (m m' : β → α) : Prop :=
  ∃ p, Steps (start l, m) (p, m') ∧ left p = []

def Conflict (c d : Job σ β α) : Prop :=
  (∃ b ∈ c.writes, b ∈ d.reads ∨ b ∈ d.writes) ∨ ∃ b ∈ c.reads, b ∈ d.writes

/-- What has to hold between a job and a later one that it reaches so. -/
structure Compatible (c : Job σ β α) (r : Reach σ) (d : Job σ β α) : Prop where
  ordered : Conflict c d → d.stage ∈ r.waits
  shown : ∀ b ∈ c.writes, b ∈ d.reads → d.stage ∈ r.visible
  flushed : ∀ b ∈ c.writes, b ∈ d.writes → r.available

/-- Every job is compatible with all jobs behind it. -/
def HazardFree : List (Item σ β α) → Prop
  | [] => True
  | .barrier _ :: rest => HazardFree rest
  | .job c :: rest => (∀ e ∈ ahead c.stage Reach.start rest, Compatible c e.2 e.1) ∧ HazardFree rest

end Semantics

section Memory

variable {σ β α : Type*}

theorem runAll_append (js ks : List (Job σ β α)) (m : β → α) :
    runAll (js ++ ks) m = runAll ks (runAll js m) := List.foldl_append

@[simp] theorem runAll_nil (m : β → α) : runAll ([] : List (Job σ β α)) m = m := rfl

@[simp] theorem runAll_cons (j : Job σ β α) (js : List (Job σ β α)) (m : β → α) :
    runAll (j :: js) m = runAll js (j.run m) := rfl

@[simp] theorem recorded_nil (m : β → α) : recorded ([] : List (Item σ β α)) m = m := rfl

@[simp] theorem recorded_barrier (b : Barrier σ) (l : List (Item σ β α)) (m : β → α) :
    recorded (.barrier b :: l) m = recorded l m := rfl

@[simp] theorem recorded_job (j : Job σ β α) (l : List (Item σ β α)) (m : β → α) :
    recorded (.job j :: l) m = recorded l (j.run m) := rfl

theorem left_append (p q : Progress σ β α) : left (p ++ q) = left p ++ left q := by
  fun_induction left p <;> simp_all [left]

theorem recorded_append (l l' : List (Item σ β α)) (m : β → α) :
    recorded (l ++ l') m = recorded l' (recorded l m) := by
  unfold recorded
  rw [start, List.map_append, ← start, ← start, left_append, runAll_append]

/-- A place that no job writes keeps its contents. -/
theorem recorded_frame {l : List (Item σ β α)} {b : β} (h : ∀ j ∈ left (start l), b ∉ j.writes)
    (m : β → α) : recorded l m b = m b := by
  unfold recorded
  generalize left (start l) = js at h
  induction js generalizing m with
  | nil => rfl
  | cons j js ih =>
    rw [runAll_cons, ih _ fun j' hj' => h j' (List.mem_cons_of_mem _ hj')]
    exact j.frame m b (h j List.mem_cons_self)

theorem items_start (l : List (Item σ β α)) : items (start l) = l := by
  simp [items, start, Function.comp_def]

theorem items_append (p q : Progress σ β α) : items (p ++ q) = items p ++ items q :=
  List.map_append

/-- Jobs without a conflict commute. -/
theorem run_comm {c d : Job σ β α} (h : ¬Conflict c d) (m : β → α) :
    c.run (d.run m) = d.run (c.run m) := by
  unfold Conflict at h
  push Not at h
  funext b
  by_cases hc : b ∈ c.writes
  · have hd : b ∉ d.writes := (h.1 b hc).2
    rw [d.frame _ _ hd]
    refine c.reads_only _ _ (fun a ha => ?_) b hc
    exact d.frame _ _ (h.2 a ha)
  · rw [c.frame _ _ hc]
    by_cases hd : b ∈ d.writes
    · refine d.reads_only _ _ (fun a ha => ?_) b hd
      exact (c.frame _ _ fun hw => (h.1 a hw).1 ha).symm
    · rw [d.frame _ _ hd, d.frame _ _ hd, c.frame _ _ hc]

theorem runAll_run {js : List (Job σ β α)} {d : Job σ β α} (h : ∀ c ∈ js, ¬Conflict c d)
    (m : β → α) : runAll js (d.run m) = d.run (runAll js m) := by
  induction js generalizing m with
  | nil => rfl
  | cons c js ih =>
    rw [runAll_cons, runAll_cons, run_comm (h c List.mem_cons_self),
      ih fun c hc => h c (List.mem_cons_of_mem _ hc)]

end Memory

section Runs

variable {σ β α : Type*} [DecidableEq σ] {l : List (Item σ β α)} {m m' : β → α}

theorem after_append (s : σ) (r : Reach σ) (l l' : List (Item σ β α)) :
    r.after s (l ++ l') = (r.after s l).after s l' := by
  fun_induction Reach.after s r l <;> simp_all [Reach.after]

theorem ahead_append (s : σ) (r : Reach σ) (l l' : List (Item σ β α)) :
    ahead s r (l ++ l') = ahead s r l ++ ahead s (r.after s l) l' := by
  fun_induction ahead s r l <;> simp_all [ahead, Reach.after]

theorem hazardFree_append {l l' : List (Item σ β α)} : HazardFree (l ++ l') ↔
    HazardFree l ∧ HazardFree l' ∧ ∀ e ∈ behind (start l),
      ∀ f ∈ ahead e.1.stage e.2.2 l', Compatible e.1 f.2 f.1 := by
  induction l with
  | nil => simp [HazardFree, behind, start]
  | cons i l ih =>
    cases i with
    | barrier b => exact ih
    | job c =>
      rw [List.cons_append, HazardFree, ih, HazardFree]
      simp only [ahead_append, List.mem_append, or_imp, forall_and, start, List.map_cons, behind,
        List.forall_mem_cons]
      rw [show items (List.map (fun i => (i, false)) l) = l from items_start l]
      tauto

theorem behind_append (p q : Progress σ β α) : behind (p ++ q) =
    ((behind p).map fun e => (e.1, e.2.1, e.2.2.after e.1.stage (items q))) ++ behind q := by
  fun_induction behind p <;> simp_all [behind, items_append, after_append]

theorem mem_behind_start {p : Progress σ β α} {e : Job σ β α × Bool × Reach σ}
    (h : e ∈ behind p) : (e.1, false, e.2.2) ∈ behind (start (items p)) := by
  induction p with
  | nil => cases h
  | cons i p ih =>
    obtain ⟨i, ran⟩ := i
    cases i with
    | barrier b => exact ih h
    | job c =>
      rcases List.mem_cons.1 h with rfl | h
      · refine List.mem_cons.2 (.inl ?_)
        rw [← items_start (items p)]
        rfl
      · exact List.mem_cons_of_mem _ (ih h)

theorem mem_left {p : Progress σ β α} {c : Job σ β α} (h : c ∈ left p) :
    ∃ r, (c, false, r) ∈ behind p := by
  induction p with
  | nil => cases h
  | cons i p ih =>
    obtain ⟨i, ran⟩ := i
    cases i with
    | barrier b => exact ih h
    | job d =>
      cases ran with
      | true =>
        obtain ⟨r, hr⟩ := ih h
        exact ⟨r, List.mem_cons_of_mem _ hr⟩
      | false =>
        rcases List.mem_cons.1 h with rfl | h
        · exact ⟨_, List.mem_cons_self⟩
        · obtain ⟨r, hr⟩ := ih h
          exact ⟨r, List.mem_cons_of_mem _ hr⟩

/-- A job of a recording is compatible with all before it and with all behind it. -/
theorem HazardFree.split {pre post : Progress σ β α} {d : Job σ β α}
    (h : HazardFree (items pre ++ .job d :: items post)) :
    (∀ e ∈ behind pre, Compatible e.1 e.2.2 d) ∧
      ∀ e ∈ ahead d.stage Reach.start (items post), Compatible d e.2 e.1 := by
  rw [hazardFree_append] at h
  obtain ⟨-, hpost, hpre⟩ := h
  refine ⟨fun e he => ?_, hpost.1⟩
  exact hpre _ (mem_behind_start he) (d, e.2.2) List.mem_cons_self

/-- Without hazards a step is the run of a job on the memory as it is, and the jobs that are left
lead to the same memory as before. -/
theorem Step.recorded {s s' : Progress σ β α × (β → α)} (h : Step s s')
    (hfree : HazardFree (items s.1)) :
    items s'.1 = items s.1 ∧ runAll (left s'.1) s'.2 = runAll (left s.1) s.2 := by
  obtain ⟨pre, post, d, view, m, m', free, viewed, put, kept⟩ := h
  dsimp only at hfree ⊢
  rw [items_append] at hfree
  obtain ⟨hpre, hpost⟩ := hfree.split
  have hview : ∀ b ∈ d.reads, view b = m b := by
    intro b hb
    refine viewed b hb ⟨fun e he hw => (hpre e he).shown b hw hb, fun e he hw => ?_⟩
    exact (hpost e he).ordered (.inr ⟨b, hb, hw⟩)
  have hrun : m' = d.run m := by
    funext b
    by_cases hb : b ∈ d.writes
    · rw [put b hb ⟨fun e he hw => ?_, fun e he hw => ?_⟩]
      · exact d.reads_only _ _ hview b hb
      · exact ⟨(hpre e he).flushed b hw hb, (hpre e he).ordered (.inl ⟨b, hw, .inr hb⟩)⟩
      · exact ⟨(hpost e he).flushed b hb hw, (hpost e he).ordered (.inl ⟨b, hb, .inr hw⟩)⟩
    · rw [kept b hb, d.frame _ _ hb]
  -- nothing that is left before the job is in conflict with it
  have hleft : ∀ c ∈ left pre, ¬Conflict c d := by
    intro c hc hconflict
    obtain ⟨r, hr⟩ := mem_left hc
    exact free _ hr rfl ((hpre _ hr).ordered hconflict)
  constructor
  · simp [items]
  · rw [left_append, left_append, left, left, runAll_append, runAll_append, runAll_cons,
      ← runAll_run hleft, hrun]

theorem Steps.recorded {s s' : Progress σ β α × (β → α)} (h : Steps s s')
    (hfree : HazardFree (items s.1)) :
    items s'.1 = items s.1 ∧ runAll (left s'.1) s'.2 = runAll (left s.1) s.2 := by
  induction h with
  | refl => exact ⟨rfl, rfl⟩
  | tail _ hstep ih =>
    obtain ⟨hitems, hrun⟩ := hstep.recorded (ih.1.symm ▸ hfree)
    exact ⟨hitems.trans ih.1, hrun.trans ih.2⟩

/-- A recording without hazards leaves what it leaves in the order of its jobs, in whatever order
they run. -/
theorem HazardFree.outcome (hfree : HazardFree l) (h : Outcome l m m') : m' = recorded l m := by
  obtain ⟨p, hsteps, hp⟩ := h
  have hrun := (Steps.recorded hsteps (by rwa [items_start])).2
  rwa [hp, runAll_nil] at hrun

theorem ran_of_left {p : Progress σ β α} (hp : left p = []) :
    ∀ e ∈ behind p, e.2.1 = true := by
  rintro ⟨c, ran, r⟩ he
  cases ran with
  | true => rfl
  | false =>
    exfalso
    induction p with
    | nil => cases he
    | cons i p ih =>
      obtain ⟨i, flag⟩ := i
      cases i with
      | barrier b => exact ih hp he
      | job d =>
        cases flag with
        | false => cases hp
        | true =>
          rcases List.mem_cons.1 he with heq | he
          · cases heq
          · exact ih hp he

/-- A job that waits for none of those that are left before it may run on the memory as it is. -/
theorem Step.exact (pre post : Progress σ β α) (d : Job σ β α) (m : β → α)
    (free : ∀ e ∈ behind pre, e.2.1 = false → d.stage ∉ e.2.2.waits) :
    Step (pre ++ (.job d, false) :: post, m) (pre ++ (.job d, true) :: post, d.run m) :=
  .run pre post d m m (d.run m) free (fun _ _ _ => rfl) (fun _ _ _ => rfl) fun b hb => d.frame m b hb

/-- The jobs of a part of a recording may run in their order when all before them have run. -/
theorem steps_part (pre post : Progress σ β α) (hpre : left pre = []) (l : List (Item σ β α))
    (m : β → α) : ∃ p, left p = [] ∧
      Steps (pre ++ start l ++ post, m) (pre ++ p ++ post, recorded l m) := by
  induction l generalizing pre m with
  | nil => exact ⟨[], rfl, .refl⟩
  | cons i l ih =>
    cases i with
    | barrier b =>
      have hleft : left (pre ++ [(.barrier b, false)]) = [] := by
        rw [left_append, hpre]
        rfl
      obtain ⟨p, hp, hsteps⟩ := ih _ hleft m
      refine ⟨(.barrier b, false) :: p, hp, ?_⟩
      simpa [start] using hsteps
    | job c =>
      have hleft : left (pre ++ [(.job c, true)]) = [] := by
        rw [left_append, hpre]
        rfl
      obtain ⟨p, hp, hsteps⟩ := ih _ hleft (c.run m)
      have hstep := Step.exact pre (start l ++ post) c m
        fun e he hleft => absurd (ran_of_left hpre e he) (by simp [hleft])
      refine ⟨(.job c, true) :: p, hp, .head ?_ (by simpa using hsteps)⟩
      simpa [start] using hstep

/-- A job may overtake jobs that it does not wait for. -/
theorem outcome_overtake (l mid post : List (Item σ β α)) (d : Job σ β α) (m : β → α)
    (free : ∀ e ∈ behind (start mid), d.stage ∉ e.2.2.waits) :
    Outcome (l ++ mid ++ .job d :: post) m
      (recorded post (recorded mid (d.run (recorded l m)))) := by
  obtain ⟨p, hp, hfirst⟩ := steps_part [] (start (mid ++ .job d :: post)) rfl l m
  have hstep := Step.exact (p ++ start mid) (start post) d (recorded l m) (by
    intro e he hleft
    rw [behind_append, List.mem_append, List.mem_map] at he
    rcases he with ⟨f, hf, rfl⟩ | he
    · exact absurd (ran_of_left hp f hf) (by simpa using hleft)
    · exact free e he)
  obtain ⟨q, hq, hmid⟩ := steps_part p ((.job d, true) :: start post) hp mid
    (d.run (recorded l m))
  have hleft : left (p ++ q ++ [(.job d, true)]) = [] := by
    rw [left_append, left_append, hp, hq]
    rfl
  obtain ⟨r, hr, hlast⟩ := steps_part (p ++ q ++ [(.job d, true)]) [] hleft post
    (recorded mid (d.run (recorded l m)))
  refine ⟨p ++ q ++ (.job d, true) :: r, ?_, by simpa [left_append, hp, hq, left] using hr⟩
  simp only [start, List.map_append, List.map_cons, List.append_assoc, List.nil_append,
    List.append_nil, List.singleton_append] at hfirst hstep hmid hlast ⊢
  exact hfirst.trans (.head hstep (hmid.trans hlast))

/-- The order of the recording is one in which it may run. -/
theorem outcome_recorded (l : List (Item σ β α)) (m : β → α) : Outcome l m (recorded l m) := by
  obtain ⟨p, hp, hsteps⟩ := steps_part [] [] rfl l m
  exact ⟨p, by simpa using hsteps, hp⟩

end Runs

section Chains

variable {σ β α : Type*} [DecidableEq σ] {s : σ} {l : List (Item σ β α)}

/-- Every job is of the stage that the last barrier leads to, and every barrier starts at it. -/
def Chained (s : σ) : List (Item σ β α) → Prop
  | [] => True
  | .barrier b :: rest => (b.src = s ∧ b.flushes ∧ b.shows) ∧ Chained b.dst rest
  | .job d :: rest => d.stage = s ∧ Chained s rest

/-- The jobs up to the next barrier. -/
def group : List (Item σ β α) → List (Job σ β α)
  | .job d :: rest => d :: group rest
  | _ => []

/-- Jobs with no barrier between them are not in conflict. -/
def Apart : List (Item σ β α) → Prop
  | [] => True
  | .barrier _ :: rest => Apart rest
  | .job c :: rest => (∀ d ∈ group rest, ¬Conflict c d) ∧ Apart rest

/-- The jobs of a stage wait for a job and see what it wrote. -/
@[mk_iff] structure Reach.Settled (r : Reach σ) (s : σ) : Prop where
  waits : s ∈ r.waits
  available : r.available
  visible : s ∈ r.visible

omit [DecidableEq σ] in
theorem Reach.Settled.compatible {r : Reach σ} {c d : Job σ β α} (h : r.Settled d.stage) :
    Compatible c r d :=
  ⟨fun _ => h.waits, fun _ _ _ => h.visible, fun _ _ _ => h.available⟩

omit [DecidableEq σ] in
theorem compatible_of_not_conflict {r : Reach σ} {c d : Job σ β α} (h : ¬Conflict c d) :
    Compatible c r d := by
  constructor
  · exact fun hconflict => absurd hconflict h
  · exact fun b hw hr => absurd (.inl ⟨b, hw, .inl hr⟩) h
  · exact fun b hw hw' => absurd (.inl ⟨b, hw, .inr hw'⟩) h

/-- A barrier keeps what is settled. -/
theorem Reach.Settled.pass {r : Reach σ} {t : σ} (h : r.Settled t) (b : Barrier σ) :
    (r.pass s b).Settled t := by
  unfold Reach.pass
  dsimp only
  split
  · refine ⟨List.mem_cons_of_mem _ h.waits, by simp [h.available], ?_⟩
    dsimp only
    split
    · exact List.mem_cons_of_mem _ h.visible
    · exact h.visible
  · exact h

/-- What is settled for the first half of a barrier it settles for the second. -/
theorem Reach.Settled.next {r : Reach σ} {b : Barrier σ} (h : r.Settled b.src) (hb : b.shows) :
    (r.pass s b).Settled b.dst := by
  unfold Reach.pass
  rw [if_pos (.inr h.waits)]
  refine ⟨List.mem_cons_self, by simp [h.available], ?_⟩
  simp [h.available, hb]

/-- The first barrier behind a job settles it. -/
theorem settled_first {b : Barrier σ} (hsrc : b.src = s) (hflush : b.flushes) (hshow : b.shows) :
    (Reach.start.pass s b).Settled b.dst := by
  unfold Reach.pass
  rw [if_pos (.inl hsrc)]
  refine ⟨List.mem_cons_self, by simp [hflush, hsrc], ?_⟩
  simp [hflush, hsrc, hshow]

/-- A job is compatible with those behind it that it is settled for, or not in conflict with. -/
theorem compatible_of_settled {r : Reach σ} {c : Job σ β α}
    (h : ∀ d ∈ left (start l), Conflict c d → r.Settled d.stage) :
    ∀ e ∈ ahead s r l, Compatible c e.2 e.1 := by
  induction l generalizing r with
  | nil => simp [ahead]
  | cons i l ih =>
    cases i with
    | barrier b =>
      rw [ahead]
      exact ih fun d hd hconflict => (h d hd hconflict).pass b
    | job d =>
      rw [ahead, List.forall_mem_cons]
      refine ⟨?_, ih fun d' hd' => h d' (List.mem_cons_of_mem _ hd')⟩
      by_cases hconflict : Conflict c d
      · exact (h d List.mem_cons_self hconflict).compatible
      · exact compatible_of_not_conflict hconflict

/-- Along a chain a job stays settled for the stage of the moment. -/
theorem Chained.compatible {t : σ} {r : Reach σ} {c : Job σ β α} (h : Chained t l)
    (hr : r.Settled t) : ∀ e ∈ ahead s r l, Compatible c e.2 e.1 := by
  induction l generalizing r t with
  | nil => simp [ahead]
  | cons i l ih =>
    cases i with
    | barrier b =>
      obtain ⟨⟨rfl, -, hshow⟩, hrest⟩ := h
      exact ih hrest (hr.next hshow)
    | job d =>
      obtain ⟨rfl, hrest⟩ := h
      rw [ahead, List.forall_mem_cons]
      exact ⟨hr.compatible, ih hrest hr⟩

theorem Chained.compatible_start {c : Job σ β α} (h : Chained c.stage l)
    (hgroup : ∀ d ∈ group l, ¬Conflict c d) :
    ∀ e ∈ ahead c.stage Reach.start l, Compatible c e.2 e.1 := by
  induction l with
  | nil => simp [ahead]
  | cons i l ih =>
    cases i with
    | barrier b =>
      obtain ⟨⟨hsrc, hflush, hshow⟩, hrest⟩ := h
      exact hrest.compatible (settled_first hsrc hflush hshow)
    | job d =>
      rw [ahead, List.forall_mem_cons]
      refine ⟨compatible_of_not_conflict (hgroup d List.mem_cons_self), ih h.2 fun d' hd' => ?_⟩
      exact hgroup d' (List.mem_cons_of_mem _ hd')

/-- Barriers from each group of jobs to the next, of the right stages and with the right accesses,
leave no hazards but those inside a group. -/
theorem Chained.hazardFree (h : Chained s l) (hapart : Apart l) : HazardFree l := by
  induction l generalizing s with
  | nil => trivial
  | cons i l ih =>
    cases i with
    | barrier b => exact ih h.2 hapart
    | job c =>
      obtain ⟨rfl, hrest⟩ := h
      exact ⟨hrest.compatible_start hapart.1, ih hrest hapart.2⟩

end Chains

end VgEngine.Lib.CommandBuffer
