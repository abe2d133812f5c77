import MetricDepot.Proofs.Depot.Closing
/-!
# Flush — what a flush waits for

    A flush takes a ticket, which stands in the queue behind all requests that were accepted
    before it, and returns when the ticket is answered; or it finds the queue closed, and
    returns when that is emptied.  Either way all those requests have been applied
    (`applied_of_flush`), and the flush does return (`flush_returns`).  So it is a barrier at
    every stage of a depot's life (`flush_is_barrier`): the writer answers tickets alike in its
    batches and in the drain, and the queue is closed for good.  The queue closes in the step that
    takes the word to stop; what holders send in between is as if it came just before.

    `Ticketed` follows one ticket through a run.  It waits in the queue, with smaller tickets
    before it and greater ones behind, and so many requests before it as are still owed; or it
    has been answered, and all that was owed is applied; or the writer is dead.
-/

namespace MetricDepot

namespace Depot

variable {clock : Clock} {disk disk' : Disk} {d d' : Depot}

-- ── What a turn takes from the queue ────────────────────────────────────────

/-- What a step of the writer may do to the queue, and to what it counts and answers. -/
inductive Taking (d d' : Depot) : Prop where
  | write (r : Request) (hqueue : d.queue = .write r :: d'.queue) (happlied : d'.applied = d.applied + 1)
      (hanswered : d'.answered = d.answered)
  | flush (ticket : Nat) (hqueue : d.queue = .flush ticket :: d'.queue)
      (happlied : d'.applied = d.applied) (hanswered : d'.answered = ticket + 1)
  | shutdown (hqueue : d.queue = .shutdown :: d'.queue) (happlied : d'.applied = d.applied)
      (hanswered : d'.answered = d.answered)
  | nothing (hqueue : d'.queue = d.queue) (happlied : d'.applied = d.applied)
      (hanswered : d'.answered = d.answered)
  | die (hphase : d'.phase = .killed) (hqueue : d'.queue = []) (hanswered : d'.answered = d.answered)

theorem Turn.taking (h : Turn clock disk d d' disk') : Taking d d' := by
  cases h with
  | takeWrite _ _ r rest _ hqueue => exact .write r hqueue rfl rfl
  | drainWrite r rest _ hqueue => exact .write r hqueue rfl rfl
  | takeFlush _ _ ticket rest _ hqueue => exact .flush ticket hqueue rfl rfl
  | drainFlush ticket rest _ hqueue => exact .flush ticket hqueue rfl rfl
  | takeShutdown _ _ rest _ hqueue => exact .shutdown hqueue rfl rfl
  | drainShutdown rest _ hqueue => exact .shutdown hqueue rfl rfl
  | die => exact .die rfl rfl rfl
  | _ => exact .nothing rfl rfl rfl

/-- No writer comes back from the dead. -/
theorem Turn.live (h : Turn clock disk d d' disk') : d.phase ≠ .killed := by
  cases h with
  | takeWrite _ _ _ _ htakes | takeFlush _ _ _ _ htakes | takeShutdown _ _ _ htakes =>
    exact live_of_takes htakes
  | skipSave hphase | beginSave _ _ hphase | refuseSave _ _ hphase | close hphase
  | endQuietly _ _ hphase | endArmed _ _ hphase | die _ _ hphase | saved hphase
  | saveEffect _ _ _ hphase | saveFault _ _ _ _ hphase | drainWrite _ _ hphase
  | drainFlush _ _ hphase | drainShutdown _ hphase | exitInMemory hphase | beginFinish _ _ hphase
  | refuseFinish _ _ hphase | finished hphase | finishEffect _ _ _ hphase
  | finishFault _ _ _ _ hphase =>
    exact live_of_phase hphase (by simp)

-- ── Numbers ─────────────────────────────────────────────────────────────────

/-- All tickets in the queue, and all that are answered, have been given out. -/
structure Numbered (d : Depot) : Prop where
  answered : d.answered ≤ d.tickets
  queued : ∀ n, .flush n ∈ d.queue → n < d.tickets

theorem Numbered.start (catalog : Catalog) (target : Option Target) :
    Numbered (.start catalog target) :=
  ⟨Nat.le_refl _, fun _ hn => nomatch hn⟩

theorem Numbered.tell {messages : List Message} (h : Numbered d) (htells : Tells messages d d') :
    Numbered d' := by
  refine ⟨?_, ?_⟩
  · rw [htells.answered]
    exact Nat.le_trans h.answered htells.tickets
  · intro n hn
    rw [htells.queue, List.mem_append] at hn
    rcases hn with hbefore | hnew
    · exact Nat.lt_of_lt_of_le (h.queued n hbefore) htells.tickets
    · exact (htells.numbered n hnew).2

theorem Numbered.turn (h : Numbered d) (hturn : Turn clock disk d d' disk') : Numbered d' := by
  have htickets := hturn.holders.2.2.2
  refine ⟨?_, ?_⟩
  · rw [htickets]
    cases hturn.taking with
    | write _ _ _ hanswered | shutdown _ _ hanswered | nothing _ _ hanswered | die _ _ hanswered =>
      rw [hanswered]
      exact h.answered
    | flush ticket hqueue _ hanswered =>
      rw [hanswered]
      exact h.queued ticket (hqueue ▸ List.mem_cons_self)
  · intro n hn
    rw [htickets]
    refine h.queued n ?_
    cases hturn.taking with
    | write _ hqueue | flush _ hqueue | shutdown hqueue =>
      rw [hqueue]
      exact List.mem_cons_of_mem _ hn
    | nothing hqueue => exact hqueue ▸ hn
    | die _ hqueue =>
      rw [hqueue] at hn
      cases hn

-- ── One ticket ──────────────────────────────────────────────────────────────

/-- How far a ticket has come that was taken when so many requests had been accepted. -/
inductive Ticketed (owed ticket : Nat) (d : Depot) : Prop where
  | waits (before behind : List Message) (hqueue : d.queue = before ++ .flush ticket :: behind)
      (hsmaller : ∀ n, .flush n ∈ before → n < ticket) (hgreater : ∀ n, .flush n ∈ behind → ticket < n)
      (hgiven : ticket < d.tickets) (hanswered : d.answered ≤ ticket)
      (howed : owed ≤ d.applied + (before.filterMap Message.request?).length)
  | answered (hanswered : ticket < d.answered) (hgreater : ∀ n, .flush n ∈ d.queue → ticket < n)
      (hgiven : ticket < d.tickets) (howed : owed ≤ d.applied)
  | lost (hphase : d.phase = .killed)

namespace Ticketed

variable {owed ticket : Nat}

theorem tell {messages : List Message} (h : Ticketed owed ticket d) (htells : Tells messages d d') :
    Ticketed owed ticket d' := by
  -- whatever tickets are taken now are greater
  have hnew : ticket < d.tickets → ∀ n, .flush n ∈ messages → ticket < n := by
    intro hgiven n hn
    exact Nat.lt_of_lt_of_le hgiven (htells.numbered n hn).1
  cases h with
  | waits before behind hqueue hsmaller hgreater hgiven hanswered howed =>
    refine .waits before (behind ++ messages) ?_ hsmaller ?_ ?_ ?_ ?_
    · rw [htells.queue, hqueue, List.append_assoc]
      rfl
    · intro n hn
      exact (List.mem_append.mp hn).elim (hgreater n) (hnew hgiven n)
    · exact Nat.lt_of_lt_of_le hgiven htells.tickets
    · rw [htells.answered]
      exact hanswered
    · rw [htells.applied]
      exact howed
  | answered hanswered hgreater hgiven howed =>
    refine .answered ?_ ?_ (Nat.lt_of_lt_of_le hgiven htells.tickets) ?_
    · rw [htells.answered]
      exact hanswered
    · intro n hn
      rw [htells.queue] at hn
      exact (List.mem_append.mp hn).elim (hgreater n) (hnew hgiven n)
    · rw [htells.applied]
      exact howed
  | lost hphase => exact .lost (htells.phase.trans hphase)

/-- An answered ticket stays answered. -/
theorem turn_of_answered (hanswered : ticket < d.answered)
    (hgreater : ∀ n, .flush n ∈ d.queue → ticket < n) (hgiven : ticket < d.tickets)
    (howed : owed ≤ d.applied) (hturn : Turn clock disk d d' disk') : Ticketed owed ticket d' := by
  rw [← hturn.holders.2.2.2] at hgiven
  cases hturn.taking with
  | write r hqueue happlied hsame =>
    rw [hqueue] at hgreater
    refine .answered (hsame ▸ hanswered) (fun n hn => hgreater n (List.mem_cons_of_mem _ hn)) hgiven ?_
    rw [happlied]
    exact Nat.le_succ_of_le howed
  | flush n hqueue happlied hlater =>
    rw [hqueue] at hgreater
    refine .answered ?_ (fun n hn => hgreater n (List.mem_cons_of_mem _ hn)) hgiven (happlied ▸ howed)
    rw [hlater]
    exact Nat.lt_succ_of_lt (hgreater n List.mem_cons_self)
  | shutdown hqueue happlied hsame =>
    rw [hqueue] at hgreater
    exact .answered (hsame ▸ hanswered) (fun n hn => hgreater n (List.mem_cons_of_mem _ hn)) hgiven
      (happlied ▸ howed)
  | nothing hqueue happlied hsame =>
    exact .answered (hsame ▸ hanswered) (hqueue ▸ hgreater) hgiven (happlied ▸ howed)
  | die hphase => exact .lost hphase

/-- A ticket that waits comes nearer with every message that is taken. -/
theorem turn_of_waits {before behind : List Message} (hqueue : d.queue = before ++ .flush ticket :: behind)
    (hsmaller : ∀ n, .flush n ∈ before → n < ticket) (hgreater : ∀ n, .flush n ∈ behind → ticket < n)
    (hgiven : ticket < d.tickets) (hanswered : d.answered ≤ ticket)
    (howed : owed ≤ d.applied + (before.filterMap Message.request?).length)
    (hturn : Turn clock disk d d' disk') : Ticketed owed ticket d' := by
  rw [← hturn.holders.2.2.2] at hgiven
  cases hturn.taking with
  | die hphase => exact .lost hphase
  | nothing hsame happlied hanswers =>
    exact .waits before behind (hsame.trans hqueue) hsmaller hgreater hgiven (hanswers ▸ hanswered)
      (happlied ▸ howed)
  | write r htaken happlied hanswers =>
    rcases List.append_eq_cons_iff.mp (hqueue.symm.trans htaken) with ⟨-, h⟩ | ⟨before, rfl, hrest⟩
    · cases h
    · refine .waits before behind hrest (fun n hn => hsmaller n (List.mem_cons_of_mem _ hn)) hgreater
        hgiven (hanswers ▸ hanswered) ?_
      have hcount : ((Message.write r :: before).filterMap Message.request?).length
          = (before.filterMap Message.request?).length + 1 := rfl
      omega
  | flush n htaken happlied hanswers =>
    rcases List.append_eq_cons_iff.mp (hqueue.symm.trans htaken) with ⟨rfl, h⟩ | ⟨before, rfl, hrest⟩
    · -- this is the ticket
      obtain ⟨hm, hrest⟩ := List.cons.inj h
      obtain rfl := Message.flush.inj hm
      refine .answered (hanswers ▸ Nat.lt_succ_self _) (hrest ▸ hgreater) hgiven ?_
      rw [happlied]
      exact howed
    · refine .waits before behind hrest (fun n hn => hsmaller n (List.mem_cons_of_mem _ hn)) hgreater
        hgiven ?_ (happlied ▸ howed)
      rw [hanswers]
      exact hsmaller n List.mem_cons_self
  | shutdown htaken happlied hanswers =>
    rcases List.append_eq_cons_iff.mp (hqueue.symm.trans htaken) with ⟨-, h⟩ | ⟨before, rfl, hrest⟩
    · cases h
    · exact .waits before behind hrest (fun n hn => hsmaller n (List.mem_cons_of_mem _ hn)) hgreater
        hgiven (hanswers ▸ hanswered) (happlied ▸ howed)

theorem turn (h : Ticketed owed ticket d) (hturn : Turn clock disk d d' disk') :
    Ticketed owed ticket d' := by
  cases h with
  | waits before behind hqueue hsmaller hgreater hgiven hanswered howed =>
    exact turn_of_waits hqueue hsmaller hgreater hgiven hanswered howed hturn
  | answered hanswered hgreater hgiven howed =>
    exact turn_of_answered hanswered hgreater hgiven howed hturn
  | lost hphase => exact absurd hphase hturn.live

end Ticketed

end Depot

-- ── Along a run ─────────────────────────────────────────────────────────────

namespace Site

open Depot

variable {start : Catalog} {target : Option Target} {clock : Clock} {disk : Disk}

theorem numbered_after (start : Catalog) (target : Option Target) (clock : Clock) (disk : Disk)
    (run : List Action) : Numbered ((opened start target clock disk).after run).depot := by
  refine kept_after Numbered ?_ ?_ (Numbered.start start target) run
  · intro messages d d' htells h
    exact h.tell htells
  · intro clock disk disk' d d' hturn h
    exact h.turn hturn

theorem perform_flush {s : Site} (hhandles : s.depot.handles ≠ 0) :
    s.perform .flush = { s with depot := s.depot.beginFlush.1 } := if_neg hhandles

/-- A ticket is owed the requests that were accepted before it was taken. -/
theorem ticketed_after (asked behind : List Action)
    (hhandles : ((opened start target clock disk).after asked).depot.handles ≠ 0)
    (hopen : ((opened start target clock disk).after asked).depot.isClosed = false) :
    Ticketed ((opened start target clock disk).accepted asked).length
      ((opened start target clock disk).after asked).depot.tickets
      ((opened start target clock disk).after (asked ++ .flush :: behind)).depot := by
  have hnumbered := numbered_after start target clock disk asked
  have horder := inOrder_after start target clock disk asked
  rw [after_append]
  generalize (opened start target clock disk).accepted asked = requests at *
  generalize (opened start target clock disk).after asked = s at *
  show Ticketed _ _ ((s.perform .flush).after behind).depot
  refine kept_after (Ticketed requests.length s.depot.tickets) ?_ ?_ ?_ behind
  · intro messages d d' htells h
    exact h.tell htells
  · intro clock disk disk' d d' hturn h
    exact h.turn hturn
  · rw [perform_flush hhandles, beginFlush, if_neg (Bool.eq_false_iff.mp hopen), send,
      if_neg (Bool.eq_false_iff.mp hopen)]
    refine .waits s.depot.queue [] rfl hnumbered.queued (by simp) (Nat.lt_succ_self _)
      hnumbered.answered ?_
    have hlive : s.depot.phase ≠ .killed := by
      intro hkilled
      rw [isClosed, hkilled] at hopen
      cases hopen
    have hwaiting := congrArg List.length (horder.waiting hlive)
    rw [List.length_drop] at hwaiting
    have hwithin := horder.within
    show requests.length ≤ s.depot.applied + s.depot.waiting.length
    omega

/-- **What a flush waits for is done.** When a flush returns, and the writer did not die, all
    requests are applied that had been accepted when the flush was begun. -/
theorem applied_of_flush (asked behind : List Action)
    (hhandles : ((opened start target clock disk).after asked).depot.handles ≠ 0)
    (hreturns : ((opened start target clock disk).after (asked ++ .flush :: behind)).depot.flushReturns
      ((opened start target clock disk).after asked).depot.beginFlush.2 = true)
    (hlive : ((opened start target clock disk).after (asked ++ .flush :: behind)).depot.phase ≠ .killed) :
    ((opened start target clock disk).accepted asked).length
      ≤ ((opened start target clock disk).after (asked ++ .flush :: behind)).depot.applied := by
  have hearlier : ((opened start target clock disk).accepted asked).length
      ≤ ((opened start target clock disk).accepted (asked ++ .flush :: behind)).length := by
    rw [accepted_append, List.length_append]
    exact Nat.le_add_right _ _
  have hdrained : ((opened start target clock disk).after (asked ++ .flush :: behind)).depot.isDrained
      = true → _ := fun h => Nat.le_trans hearlier (applied_of_drained h).2
  cases hclosed : ((opened start target clock disk).after asked).depot.isClosed with
  | true =>
    refine hdrained ?_
    rw [beginFlush, if_pos hclosed, flushReturns, Bool.or_eq_true] at hreturns
    exact hreturns.elim id fun hover => isDrained_of_over hover hlive
  | false =>
    rw [beginFlush, if_neg (Bool.eq_false_iff.mp hclosed), flushReturns, Bool.or_eq_true] at hreturns
    rcases hreturns with hanswered | hover
    · cases ticketed_after asked behind hhandles hclosed with
      | waits _ _ _ _ _ _ hearly => exact absurd (of_decide_eq_true hanswered) (Nat.not_lt.mpr hearly)
      | answered _ _ _ howed => exact howed
      | lost hkilled => exact absurd hkilled hlive
    · exact hdrained (isDrained_of_over hover hlive)

/-- **A flush returns.** Whatever happens before, as soon as the writer goes on for as many steps
    as are ahead of it, every flush that was begun returns. -/
theorem flush_returns (asked behind : List Action)
    (hhandles : ((opened start target clock disk).after asked).depot.handles ≠ 0) {n : Nat}
    (hn : ((opened start target clock disk).after (asked ++ .flush :: behind)).depot.ahead
      ((opened start target clock disk).after (asked ++ .flush :: behind)).clock ≤ n) :
    ((opened start target clock disk).after (asked ++ .flush :: (behind ++ works n))).depot.flushReturns
      ((opened start target clock disk).after asked).depot.beginFlush.2 = true := by
  have hwhole : asked ++ .flush :: (behind ++ works n) = (asked ++ .flush :: behind) ++ works n := by
    rw [List.append_assoc]
    rfl
  have hrests := rests_after_works _ hn
  rw [← after_append, ← hwhole] at hrests
  cases hclosed : ((opened start target clock disk).after asked).depot.isClosed with
  | true =>
    rw [beginFlush, if_pos hclosed, flushReturns, Bool.or_eq_true]
    rcases hrests with ⟨hphase, -⟩ | hover
    · have hstays := closed_after hclosed (.flush :: (behind ++ works n))
      rw [← after_append, isClosed, hphase] at hstays
      cases hstays
    · exact Or.inr hover
  | false =>
    rw [beginFlush, if_neg (Bool.eq_false_iff.mp hclosed), flushReturns, Bool.or_eq_true]
    rcases hrests with ⟨hphase, hqueue, -⟩ | hover
    · cases ticketed_after asked (behind ++ works n) hhandles hclosed with
      | waits _ _ hwaits =>
        rw [hqueue] at hwaits
        cases (List.append_eq_nil_iff.mp hwaits.symm).2
      | answered hanswered => exact Or.inl (decide_eq_true hanswered)
      | lost hkilled => cases hphase.symm.trans hkilled
    · exact Or.inr hover

/-- **A flush is a barrier.** Whatever has happened when a flush is begun, and whatever happens
    from then on: when the flush returns, and the writer did not die, the catalog that readers
    see is that of the beginning after the first of the accepted requests, and among these are
    all that were accepted before the flush, in their order.  And the flush does return, at the
    latest when the writer has gone on for as many steps as are ahead of it. -/
theorem flush_is_barrier (start : Catalog) (target : Option Target) (clock : Clock) (disk : Disk)
    (asked behind : List Action)
    (hhandles : ((opened start target clock disk).after asked).depot.handles ≠ 0) :
    let s := opened start target clock disk
    let wait := (s.after asked).depot.beginFlush.2
    let run := asked ++ .flush :: behind
    let now := s.after run
    (now.depot.flushReturns wait = true → now.depot.phase ≠ .killed →
        now.depot.catalog = start.applyAll ((s.accepted run).take now.depot.applied) ∧
        s.accepted asked <+: (s.accepted run).take now.depot.applied) ∧
      ∀ n, now.depot.ahead now.clock ≤ n →
        (now.after (works n)).depot.flushReturns wait = true := by
  intro s wait run now
  refine ⟨fun hreturns hlive => ⟨?_, ?_⟩, fun n hn => ?_⟩
  · exact (inOrder_after start target clock disk run).catalog
  · have happlied : (s.accepted asked).length ≤ now.depot.applied :=
      applied_of_flush asked behind hhandles hreturns hlive
    have hfirst : s.accepted asked <+: s.accepted run := by
      rw [accepted_append]
      exact List.prefix_append _ _
    exact List.prefix_take_iff.mpr ⟨hfirst, happlied⟩
  · have hlater := flush_returns asked behind hhandles hn
    have hwhole : asked ++ .flush :: (behind ++ works n) = run ++ works n := by
      rw [List.append_assoc]
      rfl
    rw [hwhole, after_append] at hlater
    exact hlater

/-- A depot in memory is told to stop, and its queue is closed while a push still waits in it. A
    flush that is begun then does not return at once, and when it does, the push is applied. -/
theorem flush_waits_for_drain :
    let s := opened .empty none ⟨0, 0⟩ (.sound .empty)
    let asked : List Action := [.beginShutdown, .submit upPush, .work]
    let wait := (s.after asked).depot.beginFlush.2
    (s.after asked).depot.lifecycle = .draining ∧ (s.after asked).depot.isClosed = true ∧
      (s.after (asked ++ [.flush])).depot.flushReturns wait = false ∧
      (s.after (asked ++ .flush :: works 2)).depot.flushReturns wait = true ∧
      (s.after (asked ++ .flush :: works 2)).depot.catalog = Catalog.empty.applyAll [upPush] := by
  intro s asked wait
  have hreturns : (s.after (asked ++ .flush :: works 2)).depot.flushReturns wait = true := by
    decide +kernel
  have hbarrier := flush_is_barrier .empty none ⟨0, 0⟩ (.sound .empty) asked (works 2) (by decide)
  obtain ⟨hcatalog, -⟩ := hbarrier.1 hreturns (fun h => nomatch h)
  exact ⟨rfl, rfl, rfl, hreturns, hcatalog⟩

end Site

end MetricDepot
