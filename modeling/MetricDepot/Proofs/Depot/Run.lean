import MetricDepot.Depot.Client
import MetricDepot.Proofs.Depot.Turn
/-!
# Runs — a depot among its holders

    A `Site` is one depot with the clock that it reads and the disk that it writes to.
    Holders, the writer, the clock and whoever else uses the disk act on it in any order; an
    `Action` is one thing that one of them does.  A run is a list of actions, and every
    moment of a run is the site after one of its beginnings.

    Holders act only while there is a handle.  What the writer does is decided by its state,
    so the only thing to say is when it goes on; it takes one step at a time.  The disk may be
    exchanged for any other at any time, so that every pattern of failures is among the runs.

    `happens` says what an action can come to: a holder sends messages or does not, the
    writer takes a turn, time passes, or the disk changes.  `invariant_after` is the
    induction along a run that an invariant of requests and site goes through.
-/

namespace MetricDepot

/-- The request in a message, if there is one. -/
def Message.request? : Message → Option Request
  | .write r => some r
  | .flush _ => none
  | .shutdown => none

/-- One depot, the clock that it reads, and the disk that it writes to. -/
structure Site where
  clock : Clock
  depot : Depot
  disk : Disk

/-- What holders, the writer, the clock and others may do. -/
inductive Action where
  | submit (r : Request)
  | flush
  | look
  | beginShutdown
  | endShutdown
  | clone
  | drop
  | wait (millis : Nat)
  | work
  | outside (disk : Disk)

namespace Site

/-- A depot that has just been opened with a catalog. -/
def opened (catalog : Catalog) (target : Option Target) (clock : Clock) (disk : Disk) : Site :=
  ⟨clock, .start catalog target, disk⟩

/-- What a holder does, if there is one. -/
def hold (s : Site) (change : Depot → Depot) : Site :=
  if s.depot.handles = 0 then s else { s with depot := change s.depot }

/-- The depot after a holder has begun a shutdown, or was refused. -/
def begunShutdown (d : Depot) : Depot :=
  match d.beginShutdown with
  | .ok d => d
  | .error _ => d

/-- The depot after a holder who began a shutdown has asked for its end. -/
def endedShutdown (d : Depot) : Depot :=
  match d.stopping, d.endShutdown with
  | true, some (d, _) => d
  | _, _ => d

/-- The site after an action. -/
def perform (s : Site) : Action → Site
  | .submit r => s.hold (·.submit r)
  | .flush => s.hold (·.beginFlush.1)
  | .look => s
  | .beginShutdown => s.hold begunShutdown
  | .endShutdown => s.hold endedShutdown
  | .clone => s.hold Depot.addHandle
  | .drop => s.hold Depot.dropHandle
  | .wait millis => { s with clock := s.clock.later millis }
  | .work =>
      match s.depot.step s.clock s.disk with
      | some (depot, disk) => { s with depot, disk }
      | none => s
  | .outside disk => { s with disk }

/-- The site after a run. -/
def after (s : Site) (run : List Action) : Site := run.foldl perform s

/-- The request that an action puts into the queue, if it puts one there. -/
def accepts? (s : Site) : Action → Option Request
  | .submit r => if s.depot.handles = 0 ∨ s.depot.isClosed then none else some r
  | _ => none

/-- The requests that the queue accepts in a run, in the order of their submission. -/
def accepted (s : Site) : List Action → List Request
  | [] => []
  | a :: rest => (s.accepts? a).toList ++ accepted (s.perform a) rest

-- ── Opening ─────────────────────────────────────────────────────────────────

/-- A depot is opened with the catalog that its file holds. -/
theorem openFile_eq_ok {file : String} {interval : Duration} {files : FileSystem} {d : Depot} :
    Depot.openFile file interval files = .ok d ↔
      ∃ start, Checkpoint.restore file files = .ok start ∧
        Depot.start start (some ⟨file, interval⟩) = d := by
  rw [Depot.openFile]
  constructor
  · intro h
    split at h
    next start hrestore => exact ⟨start, hrestore, Except.ok.inj h⟩
    next => cases h
  · rintro ⟨start, hrestore, rfl⟩
    rw [hrestore]

/-- A file that is not there opens an empty depot. -/
theorem openFile_of_absent {file : String} {files : FileSystem} (interval : Duration)
    (h : files.read file = .error .notFound) :
    Depot.openFile file interval files = .ok (.start .empty (some ⟨file, interval⟩)) := by
  refine openFile_eq_ok.mpr ⟨.empty, ?_, rfl⟩
  have hread : Files.read files file = .error .notFound := h
  rw [Checkpoint.restore, hread]

/-- A site whose depot was just opened with a file. -/
theorem eq_opened_of_openFile {file : String} {interval : Duration} {s : Site}
    (h : Depot.openFile file interval s.disk.files = .ok s.depot) :
    ∃ start clock disk, Checkpoint.restore file disk.files = .ok start ∧
      s = opened start (some ⟨file, interval⟩) clock disk := by
  obtain ⟨clock, d, disk⟩ := s
  obtain ⟨start, hrestore, hstart⟩ := openFile_eq_ok.mp h
  have hstart : Depot.start start (some ⟨file, interval⟩) = d := hstart
  exact ⟨start, clock, disk, hrestore, by rw [opened, hstart]⟩

-- ── Runs one behind another ─────────────────────────────────────────────────

theorem after_append (s : Site) (run more : List Action) :
    s.after (run ++ more) = (s.after run).after more := List.foldl_append

theorem accepted_append (s : Site) (run more : List Action) :
    s.accepted (run ++ more) = s.accepted run ++ (s.after run).accepted more := by
  induction run generalizing s with
  | nil => rfl
  | cons a run ih =>
    show (s.accepts? a).toList ++ (s.perform a).accepted (run ++ more)
      = ((s.accepts? a).toList ++ (s.perform a).accepted run) ++ ((s.perform a).after run).accepted more
    rw [ih, List.append_assoc]

-- ── What an action can come to ──────────────────────────────────────────────

/-- What a holder does to a depot: it puts messages behind those in the queue, and changes
    nothing that the writer has made. -/
structure Sent (messages : List Message) (d d' : Depot) : Prop where
  queue : d'.queue = d.queue ++ messages
  catalog : d'.catalog = d.catalog
  phase : d'.phase = d.phase
  target : d'.target = d.target
  deadline : d'.deadline = d.deadline
  answered : d'.answered = d.answered
  counters : d'.counters = { d.counters with queueDepth := d'.counters.queueDepth }
  isOpen : messages ≠ [] → d.isClosed = false

/-- What an action comes to. -/
inductive Happens (s : Site) (a : Action) : Site → Prop where
  | send (messages : List Message) (depot : Depot) (ha : a ≠ .work) (hsent : Sent messages s.depot depot)
      (haccepts : (s.accepts? a).toList = messages.filterMap Message.request?) :
      Happens s a { s with depot }
  | turn (depot : Depot) (disk : Disk) (ha : a = .work)
      (hturn : Depot.Turn s.clock s.disk s.depot depot disk) :
      Happens s a { s with depot, disk }
  | rest (ha : a = .work) (hrests : s.depot.step s.clock s.disk = none) : Happens s a s
  | pass (millis : Nat) (ha : a = .wait millis) : Happens s a { s with clock := s.clock.later millis }
  | outside (disk : Disk) (ha : a = .outside disk) : Happens s a { s with disk }

theorem Sent.none (d : Depot) : Sent [] d d :=
  ⟨(List.append_nil _).symm, rfl, rfl, rfl, rfl, rfl, rfl, fun h => absurd rfl h⟩

theorem sent_submit {d : Depot} (h : d.isClosed = false) (r : Request) :
    Sent [.write r] d (d.submit r) := by
  have hopen : ¬ d.isClosed = true := by rw [h]; exact Bool.false_ne_true
  rw [Depot.submit, if_neg hopen, Depot.send, if_neg hopen]
  exact ⟨rfl, rfl, rfl, rfl, rfl, rfl, rfl, fun _ => h⟩

theorem submit_of_closed {d : Depot} (h : d.isClosed = true) (r : Request) : d.submit r = d := by
  rw [Depot.submit, if_pos h]

theorem sent_beginFlush (d : Depot) :
    ∃ messages, messages.filterMap Message.request? = [] ∧ Sent messages d d.beginFlush.1 := by
  cases h : d.isClosed with
  | true =>
    refine ⟨[], rfl, ?_⟩
    rw [Depot.beginFlush, if_pos h]
    exact .none d
  | false =>
    have hopen : ¬ d.isClosed = true := by rw [h]; exact Bool.false_ne_true
    refine ⟨[.flush d.tickets], rfl, ?_⟩
    rw [Depot.beginFlush, if_neg hopen, Depot.send, if_neg hopen]
    exact ⟨rfl, rfl, rfl, rfl, rfl, rfl, rfl, fun _ => h⟩

theorem sent_begunShutdown (d : Depot) :
    ∃ messages, messages.filterMap Message.request? = [] ∧ Sent messages d (begunShutdown d) := by
  cases hstopping : d.stopping with
  | true =>
    refine ⟨[], rfl, ?_⟩
    simp only [begunShutdown, Depot.beginShutdown, hstopping, if_true]
    exact .none d
  | false =>
    simp only [begunShutdown, Depot.beginShutdown, hstopping, Bool.false_eq_true, if_false, Depot.send]
    cases h : d.isClosed with
    | true =>
      refine ⟨[], rfl, ?_⟩
      simp only [if_true]
      exact ⟨(List.append_nil _).symm, rfl, rfl, rfl, rfl, rfl, rfl, fun hne => absurd rfl hne⟩
    | false =>
      refine ⟨[.shutdown], rfl, ?_⟩
      simp only [Bool.false_eq_true, if_false]
      exact ⟨rfl, rfl, rfl, rfl, rfl, rfl, rfl, fun _ => h⟩

theorem sent_endedShutdown (d : Depot) : Sent [] d (endedShutdown d) := by
  unfold endedShutdown
  split
  next _ _ hend =>
    obtain ⟨result, -, hresult⟩ := Option.map_eq_some_iff.mp hend
    obtain ⟨rfl, -⟩ := Prod.mk.inj hresult
    exact ⟨(List.append_nil _).symm, rfl, rfl, rfl, rfl, rfl, rfl, fun h => absurd rfl h⟩
  · exact .none d

theorem happens_hold (s : Site) {a : Action} {change : Depot → Depot} (ha : a ≠ .work)
    (haccepts : s.accepts? a = none)
    (hchange : ∀ d, ∃ messages, messages.filterMap Message.request? = [] ∧ Sent messages d (change d)) :
    Happens s a (s.hold change) := by
  unfold hold
  split
  · exact .send [] s.depot ha (.none _) (by rw [haccepts]; rfl)
  · obtain ⟨messages, hrequests, hsent⟩ := hchange s.depot
    exact .send messages (change s.depot) ha hsent (by rw [haccepts, hrequests]; rfl)

theorem happens_submit (s : Site) (r : Request) : Happens s (.submit r) (s.perform (.submit r)) := by
  show Happens s (.submit r) (s.hold (·.submit r))
  have hwork : Action.submit r ≠ .work := fun h => nomatch h
  unfold hold
  split
  next hhandles =>
    refine .send [] s.depot hwork (.none _) ?_
    rw [accepts?, if_pos (Or.inl hhandles)]
    rfl
  next hhandles =>
    show Happens s (.submit r) { s with depot := s.depot.submit r }
    cases hclosed : s.depot.isClosed with
    | true =>
      rw [submit_of_closed hclosed]
      refine .send [] s.depot hwork (.none _) ?_
      rw [accepts?, if_pos (Or.inr hclosed)]
      rfl
    | false =>
      refine .send [.write r] _ hwork (sent_submit hclosed r) ?_
      rw [accepts?, if_neg (by simp [hhandles, hclosed])]
      rfl

/-- **What an action can come to.** -/
theorem happens (s : Site) (a : Action) : Happens s a (s.perform a) := by
  cases a with
  | submit r => exact happens_submit s r
  | flush => exact happens_hold s (by simp) rfl sent_beginFlush
  | look => exact .send [] s.depot (fun h => nomatch h) (.none _) rfl
  | beginShutdown => exact happens_hold s (by simp) rfl sent_begunShutdown
  | endShutdown => exact happens_hold s (by simp) rfl fun d => ⟨[], rfl, sent_endedShutdown d⟩
  | clone =>
    refine happens_hold s (by simp) rfl fun d => ⟨[], rfl, ?_⟩
    exact ⟨(List.append_nil _).symm, rfl, rfl, rfl, rfl, rfl, rfl, fun h => absurd rfl h⟩
  | drop =>
    refine happens_hold s (by simp) rfl fun d => ⟨[], rfl, ?_⟩
    exact ⟨(List.append_nil _).symm, rfl, rfl, rfl, rfl, rfl, rfl, fun h => absurd rfl h⟩
  | wait millis => exact .pass millis rfl
  | outside disk => exact .outside disk rfl
  | work =>
    cases hstep : s.depot.step s.clock s.disk with
    | none =>
      have : s.perform .work = s := by simp only [perform, hstep]
      rw [this]
      exact .rest rfl hstep
    | some next =>
      obtain ⟨depot, disk⟩ := next
      have : s.perform .work = { s with depot, disk } := by simp only [perform, hstep]
      rw [this]
      exact .turn depot disk rfl (Depot.turn_of_step hstep)

-- ── Induction ───────────────────────────────────────────────────────────────

/-- **Induction along a run.** What holds at the beginning, of no accepted requests, and is
    kept by every action together with the request that it gets accepted, holds after every
    run of the requests accepted in it. -/
theorem invariant_after (holds : List Request → Site → Prop)
    (keep : ∀ {requests : List Request} {s s' : Site} {a : Action}, Happens s a s' →
      holds requests s → holds (requests ++ (s.accepts? a).toList) s')
    {s : Site} {requests : List Request} (start : holds requests s) (run : List Action) :
    holds (requests ++ s.accepted run) (s.after run) := by
  induction run generalizing s requests with
  | nil =>
    show holds (requests ++ []) s
    rw [List.append_nil]
    exact start
  | cons a run ih =>
    show holds (requests ++ ((s.accepts? a).toList ++ (s.perform a).accepted run))
      ((s.perform a).after run)
    rw [← List.append_assoc]
    exact ih (keep (happens s a) start)

end Site

end MetricDepot
