import MetricDepot.Proofs.Depot.Order
/-!
# Holders — what reaches the writer from outside

    A holder changes nothing that the writer has made; all that it can do is to tell the
    writer something.  `Tells` lists what that comes to: messages join the queue while it is
    open, the word to stop is noted whether or not it still gets into the queue, a flush takes
    the next ticket, and a depot without handles stays without them.

    So what is kept by whatever the writer is told, and by every turn of the writer, holds all
    along a run: `kept_after`.
-/

namespace MetricDepot

namespace Depot

/-- What a holder may tell the writer. -/
structure Tells (messages : List Message) (d d' : Depot) : Prop where
  phase : d'.phase = d.phase
  target : d'.target = d.target
  queue : d'.queue = d.queue ++ messages
  isOpen : messages ≠ [] → d.isClosed = false
  keeps : d.stopping = true → d'.stopping = true
  word : .shutdown ∈ messages → d'.stopping = true
  noted : d'.stopping = true → d.stopping = true ∨ .shutdown ∈ messages ∨ d.isClosed = true
  ended : d'.stopped = true → d.stopped = true ∨ d.stopping = true
  handles : d.handles = 0 → d'.handles = 0
  applied : d'.applied = d.applied
  answered : d'.answered = d.answered
  tickets : d.tickets ≤ d'.tickets
  numbered : ∀ n, .flush n ∈ messages → d.tickets ≤ n ∧ n < d'.tickets

/-- Who sends no message, and notes no word, tells nothing. -/
theorem tells_nothing {d d' : Depot} (hphase : d'.phase = d.phase) (htarget : d'.target = d.target)
    (hqueue : d'.queue = d.queue) (hstopping : d'.stopping = d.stopping)
    (hended : d'.stopped = true → d.stopped = true ∨ d.stopping = true)
    (hhandles : d.handles = 0 → d'.handles = 0) (happlied : d'.applied = d.applied)
    (hanswered : d'.answered = d.answered) (htickets : d'.tickets = d.tickets) :
    Tells [] d d' where
  phase := hphase
  target := htarget
  queue := hqueue.trans (List.append_nil _).symm
  isOpen h := absurd rfl h
  keeps h := hstopping.trans h
  word h := nomatch h
  noted h := Or.inl (hstopping.symm.trans h)
  ended := hended
  handles := hhandles
  applied := happlied
  answered := hanswered
  tickets := Nat.le_of_eq htickets.symm
  numbered _ h := nomatch h

theorem tells_submit (d : Depot) (r : Request) : ∃ messages, Tells messages d (d.submit r) := by
  cases hclosed : d.isClosed with
  | true =>
    rw [submit, if_pos hclosed]
    exact ⟨[], tells_nothing rfl rfl rfl rfl Or.inl id rfl rfl rfl⟩
  | false =>
    have hopen : ¬ d.isClosed = true := Bool.eq_false_iff.mp hclosed
    rw [submit, if_neg hopen, send, if_neg hopen]
    exact ⟨[.write r], rfl, rfl, rfl, fun _ => hclosed, id, by simp, Or.inl, Or.inl, id, rfl, rfl, Nat.le_refl _,
      by simp⟩

theorem tells_beginFlush (d : Depot) : ∃ messages, Tells messages d d.beginFlush.1 := by
  cases hclosed : d.isClosed with
  | true =>
    rw [beginFlush, if_pos hclosed]
    exact ⟨[], tells_nothing rfl rfl rfl rfl Or.inl id rfl rfl rfl⟩
  | false =>
    have hopen : ¬ d.isClosed = true := Bool.eq_false_iff.mp hclosed
    rw [beginFlush, if_neg hopen, send, if_neg hopen]
    refine ⟨[.flush d.tickets], rfl, rfl, rfl, fun _ => hclosed, id, by simp, Or.inl, Or.inl, id, rfl, rfl,
      Nat.le_succ _, ?_⟩
    intro n hn
    obtain rfl : n = d.tickets := by simpa using hn
    exact ⟨Nat.le_refl _, Nat.lt_succ_self _⟩

theorem tells_begunShutdown (d : Depot) : ∃ messages, Tells messages d (Site.begunShutdown d) := by
  cases hstopping : d.stopping with
  | true =>
    simp only [Site.begunShutdown, beginShutdown, hstopping, if_true]
    exact ⟨[], tells_nothing rfl rfl rfl rfl Or.inl id rfl rfl rfl⟩
  | false =>
    simp only [Site.begunShutdown, beginShutdown, hstopping, Bool.false_eq_true, if_false, send]
    cases hclosed : d.isClosed with
    | true =>
      simp only [if_true]
      exact ⟨[], rfl, rfl, (List.append_nil _).symm, fun h => absurd rfl h, fun _ => rfl, by simp,
        fun _ => Or.inr (Or.inr hclosed), Or.inl, id, rfl, rfl, Nat.le_refl _, by simp⟩
    | false =>
      simp only [Bool.false_eq_true, if_false]
      exact ⟨[.shutdown], rfl, rfl, rfl, fun _ => hclosed, fun _ => rfl, fun _ => rfl,
        fun _ => Or.inr (Or.inl (List.mem_singleton_self _)), Or.inl, id, rfl, rfl, Nat.le_refl _, by simp⟩

theorem tells_endedShutdown (d : Depot) : Tells [] d (Site.endedShutdown d) := by
  unfold Site.endedShutdown
  split
  next _ _ hstopping hend =>
    obtain ⟨result, -, hresult⟩ := Option.map_eq_some_iff.mp hend
    obtain ⟨rfl, -⟩ := Prod.mk.inj hresult
    exact tells_nothing rfl rfl rfl rfl (fun _ => Or.inr hstopping) id rfl rfl rfl
  · exact tells_nothing rfl rfl rfl rfl Or.inl id rfl rfl rfl

theorem tells_addHandle {d : Depot} (h : d.handles ≠ 0) : Tells [] d d.addHandle :=
  tells_nothing rfl rfl rfl rfl Or.inl (fun hnone => absurd hnone h) rfl rfl rfl

theorem tells_dropHandle (d : Depot) : Tells [] d d.dropHandle := by
  refine tells_nothing rfl rfl rfl rfl Or.inl ?_ rfl rfl rfl
  intro hnone
  show d.handles - 1 = 0
  rw [hnone]

/-- The writer leaves alone what holders keep. -/
theorem Turn.holders {clock : Clock} {disk disk' : Disk} {d d' : Depot}
    (h : Turn clock disk d d' disk') :
    d'.handles = d.handles ∧ d'.stopping = d.stopping ∧ d'.stopped = d.stopped ∧
      d'.tickets = d.tickets := by
  cases h <;> exact ⟨rfl, rfl, rfl, rfl⟩

end Depot

namespace Site

open Depot

theorem tells_hold (s : Site) {change : Depot → Depot}
    (hchange : s.depot.handles ≠ 0 → ∃ messages, Tells messages s.depot (change s.depot)) :
    ∃ messages, Tells messages s.depot (s.hold change).depot := by
  rw [hold]
  split
  · exact ⟨[], tells_nothing rfl rfl rfl rfl Or.inl id rfl rfl rfl⟩
  next hhandles => exact hchange hhandles

/-- **Whoever is not the writer at most tells it something.** -/
theorem tells_of_ne (s : Site) {a : Action} (ha : a ≠ .work) :
    ∃ messages, Tells messages s.depot (s.perform a).depot := by
  cases a with
  | submit r => exact tells_hold s fun _ => tells_submit _ r
  | flush => exact tells_hold s fun _ => tells_beginFlush _
  | beginShutdown => exact tells_hold s fun _ => tells_begunShutdown _
  | endShutdown => exact tells_hold s fun _ => ⟨[], tells_endedShutdown _⟩
  | clone => exact tells_hold s fun h => ⟨[], tells_addHandle h⟩
  | drop => exact tells_hold s fun _ => ⟨[], tells_dropHandle _⟩
  | look | wait | outside => exact ⟨[], tells_nothing rfl rfl rfl rfl Or.inl id rfl rfl rfl⟩
  | work => exact absurd rfl ha

/-- **What is kept by all that happens to a depot.** What holds of a depot, and is kept by
    whatever the writer is told and by every turn that it takes, holds after every run. -/
theorem kept_after (holds : Depot → Prop)
    (tell : ∀ {messages : List Message} {d d' : Depot}, Tells messages d d' → holds d → holds d')
    (turn : ∀ {clock : Clock} {disk disk' : Disk} {d d' : Depot}, Turn clock disk d d' disk' →
      holds d → holds d')
    {s : Site} (start : holds s.depot) (run : List Action) : holds (s.after run).depot := by
  induction run generalizing s with
  | nil => exact start
  | cons a run ih =>
    refine ih ?_
    by_cases ha : a = .work
    · subst ha
      have hhappens := happens s .work
      generalize s.perform .work = s' at hhappens
      cases hhappens with
      | send _ _ ha => exact absurd rfl ha
      | turn depot disk _ hturn => exact turn hturn start
      | rest => exact start
      | pass _ ha | outside _ ha => cases ha
    · obtain ⟨messages, htells⟩ := tells_of_ne s ha
      exact tell htells start

/-- The word to stop is never taken back, and when all handles are gone none comes back. -/
theorem leaving_after {s : Site} (h : s.depot.stopping = true ∨ s.depot.handles = 0)
    (run : List Action) :
    (s.after run).depot.stopping = true ∨ (s.after run).depot.handles = 0 := by
  refine kept_after (fun d => d.stopping = true ∨ d.handles = 0) ?_ ?_ h run
  · intro messages d d' htells h
    exact h.imp htells.keeps htells.handles
  · intro clock disk disk' d d' hturn h
    obtain ⟨hhandles, hstopping, -⟩ := hturn.holders
    rw [hhandles, hstopping]
    exact h

end Site

end MetricDepot
