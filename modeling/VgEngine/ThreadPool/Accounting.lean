import VgEngine.ThreadPool.Posix
import Mathlib.Data.List.Perm.Basic

/-! Every task is in one place, the counter counts those that are not accounted for, and the workers
come to the end of them. -/
namespace VgEngine.ThreadPool
open Lib

section Workers

variable {ws ws' : List Worker} {i : Nat} {w : Worker}

theorem perm_of_getElem? {α : Type} {l : List α} {a : α} (h : l[i]? = some a) :
    l.Perm (a :: l.eraseIdx i) := by
  obtain ⟨hlt, rfl⟩ := List.getElem?_eq_some_iff.1 h
  exact (List.getElem_cons_eraseIdx_perm hlt).symm

theorem set_perm_of_getElem? {α : Type} {l : List α} {a : α} (h : l[i]? = some a) (b : α) :
    (l.set i b).Perm (b :: l.eraseIdx i) :=
  List.set_perm_cons_eraseIdx (List.getElem?_eq_some_iff.1 h).1 b

theorem countP_set (h : ws[i]? = some w) (v : Worker) :
    (ws.set i v).countP Worker.busy + w.busy.toNat = ws.countP Worker.busy + v.busy.toNat := by
  rw [(perm_of_getElem? h).countP_eq, (set_perm_of_getElem? h v).countP_eq, List.countP_cons,
    List.countP_cons]
  cases w.busy <;> cases v.busy <;> simp

theorem filterMap_set (h : ws[i]? = some w) (v : Worker) :
    ((ws.set i v).filterMap Worker.task ++ w.task.toList).Perm
      (ws.filterMap Worker.task ++ v.task.toList) := by
  have hold := (perm_of_getElem? h).filterMap Worker.task
  have hnew := (set_perm_of_getElem? h v).filterMap Worker.task
  have hcons (u : Worker) : (u :: ws.eraseIdx i).filterMap Worker.task =
      u.task.toList ++ (ws.eraseIdx i).filterMap Worker.task := by
    rw [List.filterMap_cons]
    cases u.task <;> rfl
  rw [hcons] at hold hnew
  refine (hnew.append_right _).trans (List.Perm.trans ?_ (hold.symm.append_right _))
  rw [List.append_assoc, List.append_assoc]
  refine List.perm_append_comm.trans ?_
  rw [List.append_assoc]
  refine List.perm_append_comm.trans ?_
  rw [List.append_assoc]
  exact List.Perm.append_left _ List.perm_append_comm

/-- A worker that runs no body takes the place of one that runs none either. -/
theorem filterMap_set_none (h : ws[i]? = some w) (hw : w.task = none) {v : Worker}
    (hv : v.task = none) :
    ((ws.set i v).filterMap Worker.task).Perm (ws.filterMap Worker.task) := by
  have hperm := filterMap_set h v
  rwa [hw, hv, Option.toList_none, List.append_nil, List.append_nil] at hperm

theorem mem_set_of_getElem? (h : ws[i]? = some w) (v : Worker) : v ∈ ws.set i v :=
  (set_perm_of_getElem? h v).mem_iff.2 List.mem_cons_self

/-- A signal wakes a worker, or finds all of them awake. -/
theorem signal_spec {woken : Nat} (h : signal ws woken = some ws') :
    (ws'.filterMap Worker.task).Perm (ws.filterMap Worker.task) ∧
      ws'.countP Worker.busy = ws.countP Worker.busy ∧ ws'.length = ws.length ∧
      (ws ≠ [] → ∃ w ∈ ws', w ≠ .asleep) := by
  unfold signal at h
  split_ifs at h with hasleep hw
  · obtain rfl := Option.some.inj h
    refine ⟨filterMap_set_none hw rfl rfl, ?_, List.length_set, fun _ => ?_⟩
    · exact countP_set hw .looking
    · exact ⟨.looking, mem_set_of_getElem? hw .looking, by simp⟩
  · obtain rfl := Option.some.inj h
    refine ⟨List.Perm.refl _, rfl, rfl, fun hne => ?_⟩
    obtain ⟨w, hw⟩ := List.exists_mem_of_ne_nil ws hne
    exact ⟨w, hw, fun heq => hasleep (heq ▸ hw)⟩

end Workers

/-- The queue and the workers: each task is in one place, and while there are tasks in the queue a
worker is awake. This does not depend on the counter. -/
structure Queued (s : Pool) (queued : List Nat) : Prop where
  links : s.queue.Holds queued
  tasks : (queued ++ s.running ++ s.finished).Perm (List.range s.submitted)
  awake : queued ≠ [] → ∃ w ∈ s.workers, w ≠ .asleep
  staffed : s.workers ≠ []

/-- The counter and the calls that wait. -/
structure Counted (s : Pool) (queued : List Nat) : Prop where
  pending : s.nPending = queued.length + s.executing
  waits : ∀ w ∈ s.waiters, w.before ≤ s.submitted ∧
    (w.stage = .returned → ∀ t < w.before, t ∈ s.finished)

section Steps

variable {s s' : Pool} {queued : List Nat} {i : Nat}

theorem Queued.create (nWorkers : Nat) : Queued (.create nWorkers) [] := by
  refine ⟨LinkedQueue.holds_empty, ?_, fun h => absurd rfl h, ?_⟩
  · have hrunning : (Pool.create nWorkers).running = [] := by
      unfold Pool.running Pool.create
      simp [List.filterMap_replicate, Worker.task]
    rw [hrunning]
    exact List.Perm.refl _
  · unfold Pool.create
    dsimp only
    split_ifs with hn
    · simp
    · simpa using hn

theorem Queued.submit (h : Queued s queued) {woken : Nat} (hs : s.submit woken = some s') :
    Queued s' (queued ++ [s.submitted]) ∧ s'.submitted = s.submitted + 1 ∧
      s'.finished = s.finished ∧ s'.executing = s.executing ∧ s'.waiters = s.waiters ∧
      s'.nPending = (s.nPending + 1) % 2 ^ 32 := by
  obtain ⟨ws, hws, rfl⟩ := Option.map_eq_some_iff.1 hs
  obtain ⟨htasks, hbusy, hlength, hawake⟩ := signal_spec hws
  have hnew : s.submitted ∉ queued := by
    intro hmem
    have hrange := h.tasks.mem_iff.1 (List.mem_append_left _ (List.mem_append_left _ hmem))
    exact Nat.lt_irrefl _ (List.mem_range.1 hrange)
  refine ⟨⟨h.links.push hnew, ?_, fun _ => hawake h.staffed, ?_⟩, rfl, rfl, hbusy, rfl, rfl⟩
  · have hmoved : (queued ++ [s.submitted] ++ ws.filterMap Worker.task ++ s.finished).Perm
        (queued ++ s.running ++ s.finished ++ [s.submitted]) := by
      simp only [List.append_assoc]
      refine List.Perm.append_left queued (List.perm_append_comm.trans ?_)
      rw [List.append_assoc]
      exact htasks.append_right _
    refine hmoved.trans ?_
    dsimp only
    rw [List.range_succ]
    exact h.tasks.append_right _
  · intro hnil
    change ws = [] at hnil
    rw [hnil, List.length_nil] at hlength
    exact h.staffed (List.length_eq_zero_iff.1 hlength.symm)

/-- What a worker finds when it looks at the queue. -/
theorem Queued.look (h : Queued s queued) (hw : s.workers[i]? = some .looking) :
    ∃ queued', Queued (s.look i) queued' ∧
      queued.length + s.executing = queued'.length + (s.look i).executing ∧
      ((queued = [] ∧ queued' = [] ∧ s.look i = s.setWorker i .asleep) ∨
        ∃ t queue, queued = t :: queued' ∧
          s.look i = { s.setWorker i (.running t) with queue := queue }) := by
  unfold Pool.look
  cases queued with
  | nil =>
    rw [h.links.pop_nil]
    dsimp only
    have hbusy := countP_set hw .asleep
    refine ⟨[], ⟨h.links, ?_, fun hne => absurd rfl hne, ?_⟩, ?_, Or.inl ⟨rfl, rfl, rfl⟩⟩
    · exact ((filterMap_set_none hw rfl rfl).append_right _).trans h.tasks
    · exact List.ne_nil_of_mem (mem_set_of_getElem? hw .asleep)
    · exact congrArg (0 + ·) hbusy.symm
  | cons t queued =>
    obtain ⟨queue, hpop, hlinks⟩ := h.links.pop_cons
    rw [hpop]
    dsimp only
    have hbusy := countP_set hw (.running t)
    refine ⟨queued, ⟨hlinks, ?_, fun _ => ?_, ?_⟩, ?_, Or.inr ⟨t, queue, rfl, rfl⟩⟩
    · have hrunning := filterMap_set hw (.running t)
      refine List.Perm.trans (List.Perm.append_right _ ?_) h.tasks
      refine (List.Perm.append_left queued ?_).trans List.perm_middle
      exact (List.Perm.of_eq (List.append_nil _).symm).trans
        (hrunning.trans (List.perm_append_singleton t _))
    · exact ⟨_, mem_set_of_getElem? hw (.running t), by simp⟩
    · exact List.ne_nil_of_mem (mem_set_of_getElem? hw (.running t))
    · unfold Pool.executing
      dsimp only [Pool.setWorker]
      simp only [Worker.busy, Bool.toNat_true, Bool.toNat_false] at hbusy
      rw [List.length_cons]
      omega

/-- A worker that neither takes a task nor ends one. -/
theorem Queued.setWorker (h : Queued s queued) {w v : Worker} (hw : s.workers[i]? = some w)
    (htask : w.task = none) (hv : v.task = none) (hawake : v ≠ .asleep) :
    Queued (s.setWorker i v) queued :=
  ⟨h.links,
    (((filterMap_set_none hw htask hv).append_left queued).append_right s.finished).trans h.tasks,
    fun _ => ⟨v, mem_set_of_getElem? hw v, hawake⟩,
    List.ne_nil_of_mem (mem_set_of_getElem? hw v)⟩

/-- The body of a task is over. -/
theorem Queued.body (h : Queued s queued) {t : Nat} (hw : s.workers[i]? = some (.running t)) :
    Queued { s.setWorker i (.ran t) with finished := s.finished ++ [t] } queued := by
  refine ⟨h.links, ?_, fun _ => ⟨.ran t, mem_set_of_getElem? hw _, by simp⟩,
    List.ne_nil_of_mem (mem_set_of_getElem? hw (.ran t))⟩
  refine List.Perm.trans ?_ h.tasks
  rw [List.append_assoc, List.append_assoc]
  refine List.Perm.append_left queued ?_
  have hrunning := filterMap_set hw (.ran t)
  refine (List.Perm.append_left _ List.perm_append_comm).trans ?_
  rw [← List.append_assoc]
  refine List.Perm.append_right _ (hrunning.trans ?_)
  exact List.Perm.of_eq (List.append_nil _)

theorem account_eq (s : Pool) (i : Nat) : ∃ nPending waiters,
    s.account i = { s.setWorker i .looking with nPending := nPending, waiters := waiters } ∧
      nPending = s.nPending - 1 ∧ (waiters = s.waiters ∨ waiters = broadcast s.waiters) := by
  unfold Pool.account
  dsimp only
  split_ifs with hzero hone
  · have hpending : s.nPending = 0 := hzero
    exact ⟨s.nPending, s.waiters, rfl, by omega, Or.inl rfl⟩
  · exact ⟨_, _, rfl, rfl, Or.inr rfl⟩
  · exact ⟨_, _, rfl, rfl, Or.inl rfl⟩

theorem Queued.account (h : Queued s queued) {t : Nat} (hw : s.workers[i]? = some (.ran t)) :
    Queued (s.account i) queued := by
  obtain ⟨nPending, waiters, haccount, -⟩ := account_eq s i
  have hset := h.setWorker hw rfl (show Worker.task .looking = none from rfl) (by simp)
  rw [haccount]
  exact ⟨hset.links, hset.tasks, hset.awake, hset.staffed⟩

/-- One step of anyone keeps each task in its place. -/
theorem Queued.step (h : Queued s queued) {a : Action} (hs : s.step a = some s') :
    ∃ queued', Queued s' queued' := by
  unfold Pool.step at hs
  cases a with
  | submit callocOk woken =>
    dsimp only at hs
    split_ifs at hs
    · exact ⟨_, (h.submit hs).1⟩
    · exact ⟨queued, Option.some.inj hs ▸ h⟩
  | look i =>
    dsimp only at hs
    split_ifs at hs with hw
    obtain ⟨queued', hqueued, -⟩ := h.look hw
    exact ⟨queued', Option.some.inj hs ▸ hqueued⟩
  | wake i =>
    dsimp only at hs
    split_ifs at hs with hw
    have hset := h.setWorker hw rfl (show Worker.task .looking = none from rfl) (by simp)
    exact ⟨queued, Option.some.inj hs ▸ hset⟩
  | body i =>
    dsimp only at hs
    split at hs
    · rename_i t hw
      exact ⟨queued, Option.some.inj hs ▸ h.body hw⟩
    · cases hs
  | account i =>
    dsimp only at hs
    split at hs
    · rename_i t hw
      exact ⟨queued, Option.some.inj hs ▸ h.account hw⟩
    · cases hs
  | wait =>
    obtain rfl := Option.some.inj hs
    exact ⟨queued, h.links, h.tasks, h.awake, h.staffed⟩
  | waitLook j =>
    dsimp only at hs
    split at hs
    · obtain rfl := Option.some.inj hs
      exact ⟨queued, h.links, h.tasks, h.awake, h.staffed⟩
    · cases hs
  | waitWake j =>
    dsimp only at hs
    split at hs
    · obtain rfl := Option.some.inj hs
      exact ⟨queued, h.links, h.tasks, h.awake, h.staffed⟩
    · cases hs

end Steps

section Counting

variable {s s' : Pool} {queued queued' : List Nat}

/-- No worker is between a task and its account, so none runs a body. -/
theorem running_nil (h : s.executing = 0) : s.running = [] := by
  unfold Pool.running
  rw [List.filterMap_eq_nil_iff]
  intro w hw
  have hfree := List.countP_eq_zero.1 h w hw
  cases w <;> simp_all [Worker.task, Worker.busy]

theorem Queued.finished (h : Queued s []) (hrunning : s.running = []) :
    s.finished.Perm (List.range s.submitted) := by
  have htasks := h.tasks
  rwa [hrunning] at htasks

theorem mem_broadcast {waiters : List Waiter} {w : Waiter} (h : w ∈ broadcast waiters) :
    ∃ w' ∈ waiters, w'.before = w.before ∧ (w.stage = .returned → w'.stage = .returned) := by
  obtain ⟨w', hw', rfl⟩ := List.mem_map.1 h
  refine ⟨w', hw', ?_⟩
  split_ifs <;> simp

/-- A step that only adds tasks and finishes them leaves the waiting calls right. -/
theorem Counted.later (h : Counted s queued) (hpending : s'.nPending = queued'.length + s'.executing)
    (hwaiters : s'.waiters = s.waiters ∨ s'.waiters = broadcast s.waiters)
    (hsubmitted : s.submitted ≤ s'.submitted) (hfinished : ∀ t ∈ s.finished, t ∈ s'.finished) :
    Counted s' queued' := by
  refine ⟨hpending, fun w hw => ?_⟩
  have hwas : ∃ w' ∈ s.waiters, w'.before = w.before ∧
      (w.stage = .returned → w'.stage = .returned) := by
    rcases hwaiters with heq | heq
    · exact ⟨w, heq ▸ hw, rfl, id⟩
    · exact mem_broadcast (heq ▸ hw)
  obtain ⟨w', hw', hbefore, hstage⟩ := hwas
  obtain ⟨hle, hreturned⟩ := h.waits w' hw'
  rw [← hbefore]
  exact ⟨Nat.le_trans hle hsubmitted, fun hw t ht => hfinished t (hreturned (hstage hw) t ht)⟩

theorem executing_setWorker {i : Nat} {w : Worker} (hw : s.workers[i]? = some w) (v : Worker) :
    (s.setWorker i v).executing + w.busy.toNat = s.executing + v.busy.toNat :=
  countP_set hw v

/-- There is room on the counter for one more task. -/
def Room (s : Pool) : Action → Prop
  | .submit true _ => s.nPending + 1 < 2 ^ 32
  | _ => True

instance (s : Pool) (a : Action) : Decidable (Room s a) :=
  match a with
  | .submit true _ => inferInstanceAs (Decidable (s.nPending + 1 < 2 ^ 32))
  | .submit false _ => isTrue trivial
  | .look _ => isTrue trivial
  | .wake _ => isTrue trivial
  | .body _ => isTrue trivial
  | .account _ => isTrue trivial
  | .wait => isTrue trivial
  | .waitLook _ => isTrue trivial
  | .waitWake _ => isTrue trivial

theorem Counted.create (nWorkers : Nat) : Counted (.create nWorkers) [] := by
  refine ⟨?_, fun w hw => by cases hw⟩
  unfold Pool.create Pool.executing
  simp [List.countP_replicate, Worker.busy]

theorem Counted.submit (h : Counted s queued) (hqueued : Queued s queued) {woken : Nat}
    (hroom : s.nPending + 1 < 2 ^ 32) (hs : s.submit woken = some s') :
    Counted s' (queued ++ [s.submitted]) := by
  obtain ⟨-, hsubmitted, hfinished, hexecuting, hwaiters, hpending⟩ := hqueued.submit hs
  have hwas := h.pending
  refine h.later ?_ (Or.inl hwaiters) (by omega) (fun t ht => hfinished ▸ ht)
  rw [hpending, Nat.mod_eq_of_lt hroom, hexecuting, List.length_append, List.length_singleton]
  omega

theorem Counted.account (h : Counted s queued) {i t : Nat} (hw : s.workers[i]? = some (.ran t)) :
    Counted (s.account i) queued := by
  obtain ⟨nPending, waiters, haccount, hpending, hwaiters⟩ := account_eq s i
  have hbusy := executing_setWorker hw .looking
  have hwas := h.pending
  rw [haccount]
  refine h.later ?_ hwaiters (Nat.le_refl _) fun t ht => ht
  simp only [Worker.busy, Bool.toNat_true, Bool.toNat_false] at hbusy
  change nPending = queued.length + (s.setWorker i .looking).executing
  omega

/-- A waiting call that moves on: it returns only if nothing is pending. -/
theorem Counted.setWaiter (h : Counted s queued) (hqueued : Queued s queued) {j before : Nat}
    {stage stage' : Stage} (hw : s.waiters[j]? = some ⟨stage, before⟩)
    (hreturned : stage' = .returned → s.nPending = 0) :
    Counted (s.setWaiter j ⟨stage', before⟩) queued := by
  refine ⟨h.pending, fun w hmem => ?_⟩
  rcases List.mem_or_eq_of_mem_set hmem with hmem | rfl
  · exact h.waits w hmem
  · have hle := (h.waits _ (List.mem_of_getElem? hw)).1
    refine ⟨hle, fun hstage t ht => ?_⟩
    have hzero := hreturned hstage
    have hpending := h.pending
    obtain rfl : queued = [] := List.length_eq_zero_iff.1 (by omega)
    have hfinished := hqueued.finished (running_nil (by omega))
    exact hfinished.mem_iff.2 (List.mem_range.2 (Nat.lt_of_lt_of_le ht hle))

/-- One step, with room for what is submitted. -/
theorem Counted.step (h : Counted s queued) (hqueued : Queued s queued) {a : Action}
    (hroom : Room s a) (hs : s.step a = some s') :
    ∃ queued', Queued s' queued' ∧ Counted s' queued' := by
  have hwas := h.pending
  unfold Pool.step at hs
  cases a with
  | submit callocOk woken =>
    dsimp only at hs
    split_ifs at hs with hcalloc
    · subst hcalloc
      exact ⟨_, (hqueued.submit hs).1, h.submit hqueued hroom hs⟩
    · obtain rfl := Option.some.inj hs
      exact ⟨queued, hqueued, h⟩
  | look i =>
    dsimp only at hs
    split_ifs at hs with hw
    obtain rfl := Option.some.inj hs
    obtain ⟨queued', hlooked, hcount, heq⟩ := hqueued.look hw
    refine ⟨queued', hlooked, ?_⟩
    have hfields : (s.look i).nPending = s.nPending ∧ (s.look i).waiters = s.waiters ∧
        (s.look i).submitted = s.submitted ∧ (s.look i).finished = s.finished := by
      rcases heq with ⟨-, -, heq⟩ | ⟨t, queue, -, heq⟩
      all_goals
        rw [heq]
        exact ⟨rfl, rfl, rfl, rfl⟩
    obtain ⟨hpending, hwaiters, hsubmitted, hfinished⟩ := hfields
    exact h.later (by omega) (Or.inl hwaiters) (Nat.le_of_eq hsubmitted.symm) fun t ht => hfinished ▸ ht
  | wake i =>
    dsimp only at hs
    split_ifs at hs with hw
    obtain rfl := Option.some.inj hs
    refine ⟨queued, hqueued.setWorker hw rfl (show Worker.task .looking = none from rfl) (by simp),
      h.later ?_ (Or.inl rfl) (Nat.le_refl _) fun t ht => ht⟩
    have hbusy := executing_setWorker hw .looking
    change s.nPending = _
    simp only [Worker.busy, Bool.toNat_false] at hbusy
    omega
  | body i =>
    dsimp only at hs
    split at hs
    · rename_i t hw
      obtain rfl := Option.some.inj hs
      refine ⟨queued, hqueued.body hw, h.later ?_ (Or.inl rfl) (Nat.le_refl _) fun t ht =>
        List.mem_append_left _ ht⟩
      have hbusy := executing_setWorker hw (.ran t)
      change s.nPending = queued.length + (s.setWorker i (.ran t)).executing
      simp only [Worker.busy, Bool.toNat_true] at hbusy
      omega
    · cases hs
  | account i =>
    dsimp only at hs
    split at hs
    · rename_i t hw
      obtain rfl := Option.some.inj hs
      exact ⟨queued, hqueued.account hw, h.account hw⟩
    · cases hs
  | wait =>
    obtain rfl := Option.some.inj hs
    refine ⟨queued, ⟨hqueued.links, hqueued.tasks, hqueued.awake, hqueued.staffed⟩, hwas, ?_⟩
    intro w hw
    rcases List.mem_append.1 hw with hw | hw
    · exact h.waits w hw
    · obtain rfl := List.mem_singleton.1 hw
      exact ⟨Nat.le_refl _, fun hstage => by cases hstage⟩
  | waitLook j =>
    dsimp only at hs
    split at hs
    · rename_i before hw
      obtain rfl := Option.some.inj hs
      refine ⟨queued, ⟨hqueued.links, hqueued.tasks, hqueued.awake, hqueued.staffed⟩,
        h.setWaiter hqueued hw ?_⟩
      split_ifs with hpositive
      · intro hstage
        cases hstage
      · exact fun _ => Nat.eq_zero_of_not_pos hpositive
    · cases hs
  | waitWake j =>
    dsimp only at hs
    split at hs
    · rename_i before hw
      obtain rfl := Option.some.inj hs
      exact ⟨queued, ⟨hqueued.links, hqueued.tasks, hqueued.awake, hqueued.staffed⟩,
        h.setWaiter hqueued hw fun hstage => by cases hstage⟩
    · cases hs

end Counting

section Ends

variable {s s' : Pool} {queued : List Nat}

/-- What is left to do for a worker, and for all of them. -/
def Worker.weight : Worker → Nat
  | .looking => 1
  | .asleep => 0
  | .running _ => 3
  | .ran _ => 2

def work (s : Pool) (queued : List Nat) : Nat :=
  4 * queued.length + (s.workers.map Worker.weight).sum

theorem sum_weight_set {ws : List Worker} {i : Nat} {w : Worker} (h : ws[i]? = some w) (v : Worker) :
    ((ws.set i v).map Worker.weight).sum + w.weight = (ws.map Worker.weight).sum + v.weight := by
  rw [((perm_of_getElem? h).map Worker.weight).sum_nat,
    ((set_perm_of_getElem? h v).map Worker.weight).sum_nat, List.map_cons, List.map_cons,
    List.sum_cons, List.sum_cons]
  omega

/-- A worker's step comes nearer to the end. -/
theorem Queued.workStep (h : Queued s queued) {a : Action} (ha : a.IsWork)
    (hs : s.step a = some s') :
    ∃ queued', Queued s' queued' ∧ work s' queued' < work s queued ∧ s'.submitted = s.submitted := by
  unfold Pool.step at hs
  cases a with
  | look i =>
    dsimp only at hs
    split_ifs at hs with hw
    obtain rfl := Option.some.inj hs
    obtain ⟨queued', hlooked, -, heq⟩ := h.look hw
    refine ⟨queued', hlooked, ?_⟩
    rcases heq with ⟨rfl, rfl, heq⟩ | ⟨t, queue, rfl, heq⟩
    · have hsum := sum_weight_set hw .asleep
      rw [heq]
      refine ⟨?_, rfl⟩
      unfold work
      simp only [Pool.setWorker, Worker.weight] at hsum ⊢
      omega
    · have hsum := sum_weight_set hw (.running t)
      rw [heq]
      refine ⟨?_, rfl⟩
      unfold work
      simp only [Pool.setWorker, Worker.weight, List.length_cons] at hsum ⊢
      omega
  | body i =>
    dsimp only at hs
    split at hs
    · rename_i t hw
      obtain rfl := Option.some.inj hs
      have hsum := sum_weight_set hw (.ran t)
      refine ⟨queued, h.body hw, ?_, rfl⟩
      unfold work
      simp only [Pool.setWorker, Worker.weight] at hsum ⊢
      omega
    · cases hs
  | account i =>
    dsimp only at hs
    split at hs
    · rename_i t hw
      obtain rfl := Option.some.inj hs
      obtain ⟨nPending, waiters, haccount, -⟩ := account_eq s i
      have hsum := sum_weight_set hw .looking
      refine ⟨queued, h.account hw, ?_, by rw [haccount]; rfl⟩
      rw [haccount]
      unfold work
      simp only [Pool.setWorker, Worker.weight] at hsum ⊢
      omega
    · cases hs
  | submit callocOk woken => cases ha
  | wake i => cases ha
  | wait => cases ha
  | waitLook j => cases ha
  | waitWake j => cases ha

/-- When no worker has a step to take, the queue is empty and nobody is executing. -/
theorem Queued.idle (h : Queued s queued) (hidle : ∀ a : Action, a.IsWork → s.step a = none) :
    queued = [] ∧ s.executing = 0 := by
  have hasleep : ∀ w ∈ s.workers, w = .asleep := by
    intro w hw
    obtain ⟨i, hi⟩ := List.mem_iff_getElem?.1 hw
    cases w with
    | asleep => rfl
    | looking =>
      have hnone := hidle (.look i) trivial
      simp [Pool.step, hi] at hnone
    | running t =>
      have hnone := hidle (.body i) trivial
      simp [Pool.step, hi] at hnone
    | ran t =>
      have hnone := hidle (.account i) trivial
      simp [Pool.step, hi] at hnone
  constructor
  · by_contra hne
    obtain ⟨w, hw, hawake⟩ := h.awake hne
    exact hawake (hasleep w hw)
  · unfold Pool.executing
    rw [List.countP_eq_zero]
    intro w hw
    rw [hasleep w hw]
    simp [Worker.busy]

theorem Queued.finished_of_idle (h : Queued s queued)
    (hidle : ∀ a : Action, a.IsWork → s.step a = none) :
    s.finished.Perm (List.range s.submitted) := by
  obtain ⟨rfl, hexecuting⟩ := h.idle hidle
  exact h.finished (running_nil hexecuting)

/-- The workers can go on until none has a step to take. -/
theorem Queued.exists_idle (h : Queued s queued) : ∃ as s', (∀ a ∈ as, a.IsWork) ∧
    Run.exec Pool.step s as = some s' ∧ ∀ a : Action, a.IsWork → s'.step a = none := by
  induction hwork : work s queued using Nat.strongRecOn generalizing s queued with
  | ind k ih =>
    subst hwork
    by_cases hidle : ∀ a : Action, a.IsWork → s.step a = none
    · exact ⟨[], s, by simp, rfl, hidle⟩
    · simp only [not_forall] at hidle
      obtain ⟨a, ha, hstep⟩ := hidle
      obtain ⟨s₁, hs₁⟩ := Option.ne_none_iff_exists'.1 hstep
      obtain ⟨queued₁, h₁, hless, -⟩ := h.workStep ha hs₁
      obtain ⟨as, s', has, hs', hidle'⟩ := ih _ hless h₁ rfl
      refine ⟨a :: as, s', ?_, ?_, hidle'⟩
      · intro b hb
        rcases List.mem_cons.1 hb with rfl | hb
        · exact ha
        · exact has b hb
      · rw [Run.exec_cons, hs₁]
        exact hs'

theorem Queued.exec_work (h : Queued s queued) {as : List Action} (has : ∀ a ∈ as, a.IsWork)
    (hs : Run.exec Pool.step s as = some s') :
    ∃ queued', Queued s' queued' ∧ work s' queued' + as.length ≤ work s queued ∧
      s'.submitted = s.submitted := by
  induction as generalizing s queued with
  | nil =>
    obtain rfl := Option.some.inj hs
    exact ⟨queued, h, Nat.le_refl _, rfl⟩
  | cons a as ih =>
    obtain ⟨s₁, hs₁, hrest⟩ := Option.bind_eq_some_iff.1 hs
    obtain ⟨queued₁, h₁, hless, hsubmitted⟩ := h.workStep (has a List.mem_cons_self) hs₁
    obtain ⟨queued', h', hle, hsubmitted'⟩ :=
      ih h₁ (fun b hb => has b (List.mem_cons_of_mem a hb)) hrest
    refine ⟨queued', h', ?_, hsubmitted'.trans hsubmitted⟩
    rw [List.length_cons]
    omega

end Ends

theorem Queued.accounted {s : Pool} {queued : List Nat} (h : Queued s queued)
    (hcounted : Counted s queued) : Accounted s where
  pending := ⟨queued, h.links, hcounted.pending, h.tasks⟩
  waits := fun w hw => (hcounted.waits w hw).2
  ends := by
    refine ⟨work s queued, fun as s' has hs => ?_⟩
    obtain ⟨queued', h', hle, hsubmitted⟩ := h.exec_work has hs
    refine ⟨by omega, fun hidle => ?_⟩
    rw [← hsubmitted]
    exact h'.finished_of_idle hidle

theorem always_counted {nWorkers : Nat} {as : List Action}
    (hroom : Run.Guarded Pool.step Room (.create nWorkers) as) :
    Run.Always Pool.step (fun s => ∃ queued, Queued s queued ∧ Counted s queued)
      (.create nWorkers) as := by
  refine Run.always_of_guarded ?_ ⟨[], .create nWorkers, .create nWorkers⟩ hroom
  rintro s a s' ⟨queued, hqueued, hcounted⟩ ha hstep
  exact hcounted.step hqueued ha hstep

/-- In every run whose submissions find room on the counter, all is accounted for. -/
theorem always_accounted (nWorkers : Nat) (as : List Action)
    (hroom : Run.Guarded Pool.step Room (.create nWorkers) as) :
    Run.Always Pool.step Accounted (.create nWorkers) as := by
  refine (always_counted hroom).imp ?_
  rintro s ⟨queued, hqueued, hcounted⟩
  exact hqueued.accounted hcounted

section Example

/-- Two tasks, a worker that sleeps in between, and a call that waits for both. -/
def twoTasks : List Action :=
  [.look 0, .submit true 0, .look 1, .submit true 0, .wait, .waitLook 0, .look 0, .body 1, .body 0,
    .account 0, .account 1, .waitLook 0]

theorem always_accounted_twoTasks :
    Run.Always Pool.step Accounted (.create 2) twoTasks :=
  always_accounted 2 twoTasks (Run.guarded_of_check (by decide +kernel))

/-- Submissions that no worker looks at. -/
theorem exec_submits (n : Nat) : ∃ s queued,
    Run.exec Pool.step (.create 1) (List.replicate n (.submit true 0)) = some s ∧
      Queued s queued ∧ s.nPending = n % 2 ^ 32 ∧ s.submitted = n ∧ s.finished = [] ∧
      s.workers = [.looking] := by
  induction n with
  | zero => exact ⟨_, [], rfl, .create 1, rfl, rfl, rfl, rfl⟩
  | succ n ih =>
    obtain ⟨s, queued, hs, hqueued, hpending, hsubmitted, hfinished, hworkers⟩ := ih
    have hsignal : signal s.workers 0 = some s.workers := by
      rw [hworkers]
      rfl
    have hstep : s.step (.submit true 0) = s.submit 0 := rfl
    have hsubmit : s.submit 0 = some { s with
        queue := s.queue.push s.submitted
        nPending := (s.nPending + 1) % 2 ^ 32
        submitted := s.submitted + 1 } := by
      unfold Pool.submit
      rw [hsignal]
      rfl
    refine ⟨_, _, ?_, (hqueued.submit hsubmit).1, ?_, ?_, hfinished, hworkers⟩
    · rw [List.replicate_succ', Run.exec_append, hs, Option.bind_some, Run.exec_cons, hstep, hsubmit]
      rfl
    · dsimp only
      rw [hpending]
      omega
    · dsimp only
      rw [hsubmitted]

/-- The counter has 32 bits: when it would count `2 ^ 32` tasks in the queue, it is 0. -/
theorem counter_wraps : ¬ ∀ (nWorkers : Nat) (as : List Action),
    Run.Always Pool.step Accounted (.create nWorkers) as := by
  intro hclaim
  obtain ⟨s, queued, hs, hqueued, hpending, hsubmitted, hfinished, hworkers⟩ := exec_submits (2 ^ 32)
  obtain ⟨queued', -, hcount, htasks⟩ :=
    (hclaim 1 _ _ s (List.prefix_refl _) hs).pending
  have hrunning : s.running = [] := by
    unfold Pool.running
    rw [hworkers]
    rfl
  have hlength := htasks.length_eq
  rw [hrunning, hfinished, List.append_nil, List.append_nil, List.length_range, hsubmitted] at hlength
  rw [hpending, Nat.mod_self] at hcount
  omega

end Example

end VgEngine.ThreadPool
