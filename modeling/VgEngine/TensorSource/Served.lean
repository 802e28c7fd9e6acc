import VgEngine.TensorSource.Async
import VgEngine.TensorSource.Pins

/-! Which accepted prefetches are served: all of them, unless there is no thread, or the thread has
found the queue empty for the last time. -/
namespace VgEngine.TensorSource

namespace Io

variable {s s' : Io}

/-- The requests that are not served yet: the one the thread has taken, and the queue. -/
def requests (s : Io) : List IORequest :=
  match s.worker with
  | .working r => r :: s.queue
  | _ => s.queue

/-- Steps of the thread, nobody else taking any. -/
def workerRun (s : Io) (ios : Nat → ServeIo) : Nat → Io
  | 0 => s
  | n + 1 => workerRun (s.workerStep (ios 0)) (fun k => ios (k + 1)) n

/-- No accepted prefetch is lost: its request is in one place, in the queue or with the thread, or
its entry is ready; and a waiter on the entry returns once the thread has taken enough steps. -/
structure Kept (s : Io) : Prop where
  unique : (s.requests.map IORequest.id).Nodup
  held : ∀ e, s.accepted e = true → (s.entries e).ready = true ∨ ∃ r ∈ s.requests, r.entry = e
  completes : ∀ e, s.accepted e = true → ∀ ios, ∃ n, (s.workerRun ios n).wait e ≠ none

/-- The invariant. A thread that will not look at the queue again has left it empty. -/
structure Sound (s : Io) : Prop where
  unique : (s.requests.map IORequest.id).Nodup
  fresh : ∀ r ∈ s.requests, r.id < s.nextId
  held : ∀ e, s.accepted e = true → (s.entries e).ready = true ∨ ∃ r ∈ s.requests, r.entry = e
  absent : s.worker = .absent → s.queue = [] ∧ ∀ e, s.accepted e = false
  checking : s.worker = .checking → s.running = false → s.queue = []
  exited : s.worker = .exited → s.running = false ∧ s.queue = []

/-- The steps that lose no request: a prefetch without a thread must fail; a request is not to be
queued, nor the end announced over a queued one, when the thread has found the queue empty and will
look no more. -/
def Heeds (s : Io) : Action → Prop
  | .sync i o => ∀ c, s.pending[i]? = some c → ∀ l, (acquire s.state c.name c.tier o).1 ≠ .ok l
  | .enqueue _ callocOk =>
    callocOk = true → s.running = false → s.worker ≠ .checking ∧ s.worker ≠ .exited
  | .closeBegin => s.worker = .checking → s.queue = []
  | _ => True

section Steps

/-- A request that is published makes its entry ready, with data or with an error. -/
theorem publish_eq (s : Io) (r : IORequest) (io : ServeIo) : ∃ st e, e.ready = true ∧
    s.publish r io = { s with state := st, entries := Function.update s.entries r.entry e } := by
  unfold publish
  cases Gguf.findTensor s.state.source.file.index r.name with
  | none => exact ⟨_, _, rfl, rfl⟩
  | some t =>
    dsimp only
    split_ifs
    · exact ⟨_, _, rfl, rfl⟩
    · cases (Gguf.ggufRead io.read s.state.source.file t.2 0 t.2.nbytes).1 with
      | error status => exact ⟨_, _, rfl, rfl⟩
      | ok bytes => exact ⟨_, _, rfl, rfl⟩

theorem Sound.opened (file : Gguf.Handle) (cfg : Option Config) (ioWorkers : Nat)
    (entries : Nat → PrefetchEntry) : Sound (Io.opened file cfg ioWorkers entries) := by
  have hqueue : (Io.opened file cfg ioWorkers entries).requests = [] := by
    unfold requests Io.opened
    split_ifs <;> rfl
  constructor
  case unique =>
    rw [hqueue]
    exact List.nodup_nil
  case fresh =>
    rw [hqueue]
    simp
  case held =>
    intro e he
    cases he
  case absent => exact fun _ => ⟨rfl, fun _ => rfl⟩
  case checking => exact fun _ _ => rfl
  case exited =>
    unfold Io.opened
    dsimp only
    split_ifs <;> simp

theorem Sound.polled (h : Sound s) (hw : s.worker = .polling) : Sound s.polled := by
  have hreqs : s.requests = s.queue := by
    unfold requests
    rw [hw]
  unfold Io.polled
  cases hqueue : s.queue with
  | nil =>
    dsimp only
    have hnone : s.requests = [] := hreqs.trans hqueue
    constructor
    case unique => exact List.nodup_nil
    case fresh => simp [requests]
    case held =>
      intro e he
      refine Or.inl ((h.held e he).resolve_right ?_)
      simp [hnone]
    case absent => exact fun hw' => by cases hw'
    case checking => exact fun _ _ => rfl
    case exited => exact fun hw' => by cases hw'
  | cons r queue =>
    dsimp only
    rw [hqueue] at hreqs
    constructor
    case unique =>
      have hunique := h.unique
      rw [hreqs] at hunique
      exact hunique
    case fresh =>
      have hfresh := h.fresh
      rw [hreqs] at hfresh
      exact hfresh
    case held =>
      have hheld := h.held
      rw [hreqs] at hheld
      exact hheld
    case absent => exact fun hw' => by cases hw'
    case checking => exact fun hw' => by cases hw'
    case exited => exact fun hw' => by cases hw'

theorem Sound.checked (h : Sound s) (hw : s.worker = .checking) : Sound s.checked := by
  have hreqs : s.checked.requests = s.requests := by
    unfold requests Io.checked
    rw [hw]
    cases s.running <;> rfl
  constructor
  case unique =>
    rw [hreqs]
    exact h.unique
  case fresh =>
    rw [hreqs]
    exact h.fresh
  case held =>
    rw [hreqs]
    exact h.held
  case absent =>
    unfold Io.checked
    cases s.running <;> simp
  case checking =>
    unfold Io.checked
    cases s.running <;> simp
  case exited =>
    intro hexited
    have hrunning : s.running = false := by
      unfold Io.checked at hexited
      cases hrun : s.running with
      | true => simp [hrun] at hexited
      | false => rfl
    exact ⟨hrunning, h.checking hw hrunning⟩

theorem Sound.served (h : Sound s) {r : IORequest} (hw : s.worker = .working r) (io : ServeIo) :
    Sound { s.publish r io with worker := .polling } := by
  obtain ⟨st, e, hready, hpublish⟩ := publish_eq s r io
  have hreqs : s.requests = r :: s.queue := by
    unfold requests
    rw [hw]
  have hunique := h.unique
  have hfresh := h.fresh
  have hheld := h.held
  rw [hreqs] at hunique hfresh hheld
  rw [hpublish]
  constructor
  case unique => exact (List.nodup_cons.1 hunique).2
  case fresh => exact fun r' hr' => hfresh r' (List.mem_cons_of_mem r hr')
  case held =>
    intro e' he'
    dsimp only
    by_cases hentry : e' = r.entry
    · rw [hentry, Function.update_self]
      exact Or.inl hready
    · rw [Function.update_of_ne hentry]
      rcases hheld e' he' with hready' | ⟨r', hr', hr'e⟩
      · exact Or.inl hready'
      · rcases List.mem_cons.1 hr' with rfl | hr'
        · exact absurd hr'e.symm hentry
        · exact Or.inr ⟨r', hr', hr'e⟩
  case absent => exact fun hw' => by cases hw'
  case checking => exact fun hw' => by cases hw'
  case exited => exact fun hw' => by cases hw'

theorem Sound.workerStep (h : Sound s) (io : ServeIo) : Sound (s.workerStep io) := by
  unfold Io.workerStep
  cases hw : s.worker with
  | absent => exact h
  | polling => exact h.polled hw
  | checking => exact h.checked hw
  | working r => exact h.served hw io
  | exited => exact h

theorem Sound.called (h : Sound s) (entry : Nat) (name : List UInt8) (tier : Tier) :
    Sound (s.called entry name tier) := by
  have hreqs : (s.called entry name tier).requests = s.requests := rfl
  constructor
  case unique => exact h.unique
  case fresh => exact h.fresh
  case held =>
    intro e he
    unfold Io.called at he ⊢
    dsimp only at he ⊢
    by_cases hentry : e = entry
    · rw [hentry, Function.update_self] at he
      cases he
    · rw [Function.update_of_ne hentry] at he ⊢
      exact h.held e he
  case absent =>
    intro hw
    obtain ⟨hqueue, haccepted⟩ := h.absent hw
    refine ⟨hqueue, fun e => ?_⟩
    unfold Io.called
    dsimp only
    by_cases hentry : e = entry
    · rw [hentry, Function.update_self]
    · rw [Function.update_of_ne hentry, haccepted]
  case checking => exact h.checking
  case exited => exact h.exited

theorem Sound.synced (h : Sound s) {i : Nat} {c : PendingCall} {o : Outcome}
    (hfails : ∀ l, (acquire s.state c.name c.tier o).1 ≠ .ok l) : Sound (s.synced i c o) := by
  unfold Io.synced prefetch
  rcases hacquire : acquire s.state c.name c.tier o with ⟨status | l, st⟩
  · exact ⟨h.unique, h.fresh, h.held, h.absent, h.checking, h.exited⟩
  · exact absurd (by rw [hacquire]) (hfails l)

theorem Sound.enqueued (h : Sound s) {i : Nat} {c : PendingCall} {callocOk : Bool}
    (hthread : s.worker ≠ .absent)
    (hlooks : callocOk = true → s.running = false → s.worker ≠ .checking ∧ s.worker ≠ .exited) :
    Sound (s.enqueued i c callocOk) := by
  cases callocOk with
  | false => exact ⟨h.unique, h.fresh, h.held, h.absent, h.checking, h.exited⟩
  | true =>
    have hreqs : (s.enqueued i c true).requests =
        s.requests ++ [⟨s.nextId, c.name, c.tier, c.entry⟩] := by
      unfold requests Io.enqueued accept
      dsimp only [if_true]
      cases s.worker <;> rfl
    constructor
    case unique =>
      rw [hreqs, List.map_append]
      refine List.nodup_append.2 ⟨h.unique, List.nodup_singleton _, ?_⟩
      intro id hid id' hid' heq
      obtain ⟨r, hr, rfl⟩ := List.mem_map.1 hid
      have hlt := h.fresh r hr
      simp only [List.map_cons, List.map_nil, List.mem_singleton] at hid'
      omega
    case fresh =>
      rw [hreqs]
      intro r hr
      change r.id < s.nextId + 1
      rcases List.mem_append.1 hr with hr | hr
      · exact Nat.lt_succ_of_lt (h.fresh r hr)
      · rw [List.mem_singleton.1 hr]
        exact Nat.lt_succ_self _
    case held =>
      rw [hreqs]
      intro e he
      by_cases hentry : e = c.entry
      · exact Or.inr ⟨_, List.mem_append_right _ (List.mem_singleton_self _), hentry.symm⟩
      · have haccepted : s.accepted e = true := by
          unfold Io.enqueued accept at he
          simp only [if_true] at he
          rwa [Function.update_of_ne hentry] at he
        rcases h.held e haccepted with hready | ⟨r, hr, hre⟩
        · exact Or.inl hready
        · exact Or.inr ⟨r, List.mem_append_left _ hr, hre⟩
    case absent => exact fun hw => absurd hw hthread
    case checking => exact fun hw hrunning => absurd hw (hlooks rfl hrunning).1
    case exited =>
      intro hw
      have hrunning := (h.exited hw).1
      exact absurd hw (hlooks rfl hrunning).2

theorem Sound.closeBegin (h : Sound s) (hqueue : s.worker = .checking → s.queue = []) :
    Sound { s with running := false } := by
  refine ⟨h.unique, h.fresh, h.held, h.absent, fun hw _ => hqueue hw, fun hw => ?_⟩
  exact ⟨rfl, (h.exited hw).2⟩

theorem Sound.freed (h : Sound s) (hthread : s.worker = .absent ∨ s.worker = .exited) :
    Sound s.freed := by
  have hreqs : s.requests = s.queue := by
    unfold requests
    rcases hthread with hw | hw <;> rw [hw]
  have hqueue : s.queue = [] := by
    rcases hthread with hw | hw
    · exact (h.absent hw).1
    · exact (h.exited hw).2
  have hfreed : s.freed.requests = [] := by
    unfold requests Io.freed
    rcases hthread with hw | hw <;> rw [hw]
  constructor
  case unique =>
    rw [hfreed]
    exact List.nodup_nil
  case fresh =>
    rw [hfreed]
    simp
  case held =>
    intro e he
    refine Or.inl ((h.held e he).resolve_right ?_)
    simp [hreqs, hqueue]
  case absent => exact fun hw => ⟨rfl, (h.absent hw).2⟩
  case checking => exact fun _ _ => rfl
  case exited => exact fun hw => ⟨(h.exited hw).1, rfl⟩

/-- A step that heeds the condition keeps the invariant. -/
theorem Sound.step (h : Sound s) {a : Action} (hheeds : Heeds s a) (hstep : s.step a = some s') :
    Sound s' := by
  unfold Io.step at hstep
  cases a with
  | call entry name tier =>
    dsimp only at hstep
    split_ifs at hstep
    cases hstep
    exact h.called entry name tier
  | sync i o =>
    dsimp only at hstep
    cases hc : s.pending[i]? with
    | none => simp [hc] at hstep
    | some c =>
      rw [hc] at hstep
      dsimp only at hstep
      split_ifs at hstep
      cases hstep
      exact h.synced (hheeds c hc)
  | enqueue i callocOk =>
    dsimp only at hstep
    cases hc : s.pending[i]? with
    | none => simp [hc] at hstep
    | some c =>
      rw [hc] at hstep
      dsimp only at hstep
      split_ifs at hstep with hthread
      cases hstep
      exact h.enqueued (fun hw => hthread (Or.inr hw)) hheeds
  | poll =>
    dsimp only at hstep
    split_ifs at hstep with hthread
    cases hstep
    exact h.polled (by tauto)
  | check =>
    dsimp only at hstep
    split_ifs at hstep with hthread
    cases hstep
    exact h.checked (by tauto)
  | serve io =>
    dsimp only at hstep
    cases hw : s.worker with
    | working r =>
      rw [hw] at hstep
      dsimp only at hstep
      split_ifs at hstep
      cases hstep
      exact h.served hw io
    | absent => simp [hw] at hstep
    | polling => simp [hw] at hstep
    | checking => simp [hw] at hstep
    | exited => simp [hw] at hstep
  | closeBegin =>
    dsimp only at hstep
    split_ifs at hstep
    cases hstep
    exact h.closeBegin hheeds
  | closeEnd =>
    dsimp only at hstep
    split_ifs at hstep with hthread
    cases hstep
    exact h.freed (by tauto)

end Steps

section Completes

/-- What is left to do for the thread, with the way back to the queue. -/
def work (s : Io) : Nat :=
  3 * s.requests.length +
    match s.worker with
    | .checking => 2
    | .polling => 1
    | _ => 0

theorem workerStep_accepted (s : Io) (io : ServeIo) : (s.workerStep io).accepted = s.accepted := by
  unfold workerStep
  cases hw : s.worker with
  | absent => rfl
  | exited => rfl
  | polling =>
    dsimp only
    unfold polled
    cases s.queue <;> rfl
  | checking => rfl
  | working r =>
    obtain ⟨st, e, -, hpublish⟩ := publish_eq s r io
    dsimp only
    rw [hpublish]

/-- With a request to serve, each step of the thread comes nearer to its end. -/
theorem work_workerStep (h : Sound s) (hne : s.requests ≠ []) (io : ServeIo) :
    (s.workerStep io).work < s.work := by
  unfold workerStep work
  cases hw : s.worker with
  | absent =>
    refine absurd ?_ hne
    unfold requests
    rw [hw]
    exact (h.absent hw).1
  | exited =>
    refine absurd ?_ hne
    unfold requests
    rw [hw]
    exact (h.exited hw).2
  | polling =>
    dsimp only
    unfold requests at hne
    rw [hw] at hne
    unfold requests polled
    rw [hw]
    cases hqueue : s.queue with
    | nil => exact absurd hqueue hne
    | cons r queue =>
      dsimp only
      omega
  | checking =>
    dsimp only
    unfold requests at hne
    rw [hw] at hne
    have hrunning : s.running = true := by
      by_contra hstopped
      exact hne (h.checking hw (by simpa using hstopped))
    unfold requests checked
    rw [hw, hrunning]
    simp
  | working r =>
    obtain ⟨st, e, -, hpublish⟩ := publish_eq s r io
    dsimp only
    rw [hpublish]
    unfold requests
    rw [hw]
    dsimp only
    rw [List.length_cons]
    omega

theorem Sound.completes (h : Sound s) {e : Nat} (he : s.accepted e = true) (ios : Nat → ServeIo) :
    ∃ n, (s.workerRun ios n).wait e ≠ none := by
  induction hwork : s.work using Nat.strong_induction_on generalizing s ios with
  | _ k ih =>
    subst hwork
    rcases h.held e he with hready | ⟨r, hr, -⟩
    · refine ⟨0, ?_⟩
      unfold workerRun wait
      rw [if_pos hready]
      simp
    · have hless := work_workerStep h (List.ne_nil_of_mem hr) (ios 0)
      have haccepted : (s.workerStep (ios 0)).accepted e = true := by
        rw [workerStep_accepted, he]
      obtain ⟨n, hn⟩ := ih _ hless (h.workerStep (ios 0)) haccepted (fun k => ios (k + 1)) rfl
      exact ⟨n + 1, hn⟩

theorem Sound.kept (h : Sound s) : Kept s :=
  ⟨h.unique, h.held, fun _ he ios => h.completes he ios⟩

end Completes

/-- In every run whose steps heed the condition no accepted prefetch is lost, from the opening of
the source to its end. -/
theorem always_kept (file : Gguf.Handle) (cfg : Option Config) (ioWorkers : Nat)
    (entries : Nat → PrefetchEntry) (as : List Action)
    (h : Run.Guarded Io.step Heeds (Io.opened file cfg ioWorkers entries) as) :
    Run.Always Io.step Kept (Io.opened file cfg ioWorkers entries) as := by
  refine Run.Always.imp (fun s hs => Sound.kept hs) ?_
  refine Run.always_of_guarded ?_ (Sound.opened file cfg ioWorkers entries) h
  exact fun s a s' hs ha hstep => hs.step ha hstep

theorem heeds_sync_iff {i : Nat} {o : Outcome} :
    (s.pending[i]?.all fun c => !(acquire s.state c.name c.tier o).1.toBool) = true ↔
      Heeds s (.sync i o) := by
  unfold Heeds
  cases hc : s.pending[i]? with
  | none => simp [hc]
  | some c =>
    simp only [hc, Option.all_some, Option.some.injEq, forall_eq']
    cases (acquire s.state c.name c.tier o).1 <;> simp [Except.toBool]

instance (s : Io) (a : Action) : Decidable (Heeds s a) :=
  match a with
  | .sync _ _ => decidable_of_iff _ heeds_sync_iff
  | .enqueue _ callocOk => inferInstanceAs
      (Decidable (callocOk = true → s.running = false → s.worker ≠ .checking ∧ s.worker ≠ .exited))
  | .closeBegin => inferInstanceAs (Decidable (s.worker = .checking → s.queue = []))
  | .call _ _ _ => isTrue trivial
  | .poll => isTrue trivial
  | .check => isTrue trivial
  | .serve _ => isTrue trivial
  | .closeEnd => isTrue trivial

section Example

def cleared (_ : Nat) : PrefetchEntry := ⟨[], .host, none, 0, false, false⟩

/-- Two prefetches, the second of a tensor that is not there, and the end of the source. -/
def twoPrefetches : List Action :=
  [.call 0 [97] .host, .enqueue 0 true, .poll, .call 1 [120] .host, .enqueue 0 true,
    .serve ⟨true, smooth.read⟩, .closeBegin, .poll, .serve ⟨true, smooth.read⟩, .poll, .check,
    .closeEnd]

theorem always_kept_twoPrefetches :
    Run.Always Io.step Kept (Io.opened threeHandle none 2 cleared) twoPrefetches :=
  always_kept threeHandle none 2 cleared twoPrefetches (Run.guarded_of_check (by decide +kernel))

theorem workerRun_absent (hw : s.worker = .absent) (ios : Nat → ServeIo) (n : Nat) :
    s.workerRun ios n = s := by
  induction n generalizing ios with
  | zero => rfl
  | succ n ih =>
    unfold workerRun workerStep
    rw [hw]
    exact ih _

/-- Without I/O workers a prefetch succeeds, and its entry is never ready. -/
theorem noWorkers_lose :
    ¬ ∀ (file : Gguf.Handle) (cfg : Option Config) (ioWorkers : Nat)
      (entries : Nat → PrefetchEntry) (as : List Action),
      Run.Always Io.step Kept (Io.opened file cfg ioWorkers entries) as := by
  intro hclaim
  have hrun : (Run.exec Io.step (Io.opened threeHandle none 0 cleared)
      [.call 0 [97] .host, .sync 0 smooth]).map
        (fun s => (s.accepted 0, s.worker, (s.entries 0).ready)) = some (true, .absent, false) := by
    decide +kernel
  obtain ⟨s, hs, hfields⟩ := Option.map_eq_some_iff.1 hrun
  obtain ⟨haccepted, hrest⟩ := Prod.mk.inj hfields
  obtain ⟨hworker, hready⟩ := Prod.mk.inj hrest
  have hkept := hclaim threeHandle none 0 cleared _ _ s (List.prefix_refl _) hs
  obtain ⟨n, hn⟩ := hkept.completes 0 haccepted fun _ => ⟨true, smooth.read⟩
  rw [workerRun_absent hworker] at hn
  unfold wait at hn
  rw [hready] at hn
  exact hn rfl

/-- The thread finds the queue empty before the request is queued, and the source is closed before
it looks at `io_running`. -/
example : (Run.exec Io.step (Io.opened threeHandle none 1 cleared)
    [.call 0 [97] .host, .poll, .enqueue 0 true, .closeBegin, .check]).map
      (fun s => (s.accepted 0, s.worker, s.queue.length, (s.entries 0).ready)) =
        some (true, .exited, 1, false) := by
  decide +kernel

end Example

end Io

end VgEngine.TensorSource
