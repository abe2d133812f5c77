import MetricDepot.Proofs.Depot.Closing
/-!
# Survival — what the writer can die of

    A depot that was opened by settings lives until it is shut down or left by all its
    holders, as long as the interval of the settings can be added to the time: until then
    requests are accepted, and applied; the depot is well; and a shutdown is answered by the
    outcome of the last checkpoint.

    The condition is needed.  The text of an interval may be any number of seconds that fits
    64 bits, and clocks tell less than that: the first change then kills the writer, although
    the settings were accepted.
-/

namespace MetricDepot

namespace Site

open Depot

/-- A site whose depot was just opened by settings. -/
theorem eq_opened_of_ofSettings {settings : Settings} {s : Site}
    (h : Depot.ofSettings settings s.disk.files = .ok s.depot) :
    ∃ start target clock disk, s = opened start target clock disk ∧
      ∀ t, target = some t → ∃ p, settings.persistence = some p ∧ p.duration = .ok t.interval := by
  rw [Depot.ofSettings] at h
  split at h
  next =>
    obtain ⟨clock, d, disk⟩ := s
    have hd : inMemory = d := Except.ok.inj h
    refine ⟨.empty, none, clock, disk, ?_, fun _ ht => nomatch ht⟩
    rw [← hd]
    rfl
  next p hpersistence =>
    split at h
    next => cases h
    next interval hduration =>
      cases hopen : Depot.openFile p.file interval s.disk.files with
      | error refusal =>
        rw [hopen] at h
        cases h
      | ok d =>
        rw [hopen] at h
        obtain rfl : d = s.depot := Except.ok.inj h
        obtain ⟨start, clock, disk, -, hs⟩ := eq_opened_of_openFile hopen
        refine ⟨start, _, clock, disk, hs, ?_⟩
        intro t ht
        obtain rfl := Option.some.inj ht
        exact ⟨p, hpersistence, hduration⟩

/-- Only who has begun a shutdown ends it. -/
theorem stopping_of_stopped {start : Catalog} {target : Option Target} {clock : Clock} {disk : Disk}
    {run : List Action} (h : ((opened start target clock disk).after run).depot.stopped = true) :
    ((opened start target clock disk).after run).depot.stopping = true := by
  refine kept_after (fun d => d.stopped = true → d.stopping = true) ?_ ?_ ?_ run h
  · intro messages d d' htells hbefore hstopped
    exact htells.keeps ((htells.ended hstopped).elim hbefore id)
  · intro clock disk disk' d d' hturn hbefore hstopped
    obtain ⟨-, hstopping, hsame, -⟩ := hturn.holders
    rw [hstopping]
    exact hbefore (hsame ▸ hstopped)
  · intro hstopped
    cases hstopped

/-- A depot with an open queue runs, unless a shutdown was completed, and its writer lives. -/
theorem running_of_open {d : Depot} (hopen : d.isClosed = false) (hstopped : d.stopped = false) :
    d.lifecycle = .running ∧ d.isOver = false := by
  rw [isClosed] at hopen
  rw [lifecycle, isOver, hstopped]
  split at hopen
  next hphase => simp [hphase]
  next hphase => simp [hphase]
  next hphase => simp [hphase]
  all_goals cases hopen

/-- A depot with an open queue that nobody shuts down is well. -/
theorem health_of_open {d : Depot} (hopen : d.isClosed = false) (hstopping : d.stopping = false)
    (hstopped : d.stopped = false) : d.health = .ok () := by
  obtain ⟨hrunning, hover⟩ := running_of_open hopen hstopped
  rw [health, hrunning, hover, hstopping]
  rfl

/-- A writer that comes to rest, and did not die, has applied all that the queue took. -/
theorem applied_after_works {start : Catalog} {target : Option Target} {clock : Clock} {disk : Disk}
    {run : List Action} {n : Nat}
    (hn : ((opened start target clock disk).after run).depot.ahead
      ((opened start target clock disk).after run).clock ≤ n)
    (hlive : (((opened start target clock disk).after run).after (works n)).depot.phase ≠ .killed) :
    (((opened start target clock disk).after run).after (works n)).depot.catalog
      = start.applyAll ((opened start target clock disk).accepted run) := by
  have hrests := rests_after_works _ hn
  have haccepted := accepted_append (opened start target clock disk) run (works n)
  have horder := inOrder_after start target clock disk (run ++ works n)
  have horderly := orderly_after start target clock disk (run ++ works n)
  rw [accepted_works, List.append_nil] at haccepted
  rw [after_append, haccepted] at horder
  rw [after_append] at horderly
  generalize ((opened start target clock disk).after run).after (works n) = rested at *
  refine horder.catalog_of_complete (horder.complete hlive ?_)
  rcases hrests with ⟨-, hqueue, -⟩ | hover
  · exact hqueue
  · exact horderly.queue_of_drained (isDrained_of_over hover hlive)

/-- **The writer survives as long as the clock allows.** In every run of a depot that settings
    have opened, until the time at which the interval leads out of the clock: the writer is
    alive, and closes the queue only for the word to stop or when all handles are gone.
    Until then the depot is well and accepts requests, all that it accepted are applied after
    so many steps as are ahead of the writer, and no shutdown is answered by the failure of
    the writer. -/
theorem survives_of_run {settings : Settings} {s : Site}
    (hopen : Depot.ofSettings settings s.disk.files = .ok s.depot) (run : List Action)
    (hclock : ∀ p interval, settings.persistence = some p → p.duration = .ok interval →
      (s.after run).clock.millis + interval < Clock.limit) :
    let now := s.after run
    now.depot.phase ≠ .killed ∧
      (now.depot.isClosed = true → now.depot.stopping = true ∨ now.depot.handles = 0) ∧
      (now.depot.stopping = false → now.depot.handles ≠ 0 →
        now.depot.health = .ok () ∧ ∀ r, now.accepts? (.submit r) = some r) ∧
      (∀ n, now.depot.ahead now.clock ≤ n →
        (now.after (works n)).depot.catalog = s.depot.catalog.applyAll (s.accepted run)) ∧
      now.depot.shutdownAnswer? ≠ some (.error .writerFailed) := by
  intro now
  obtain ⟨start, target, clock, disk, rfl, hsettings⟩ := eq_opened_of_ofSettings hopen
  -- the clock stands while the writer works, so it survives that as well
  have hlive : ∀ n, (now.after (works n)).depot.phase ≠ .killed := by
    intro n hkilled
    have hstart : (opened start target clock disk).depot.phase ≠ .killed := fun h => nomatch h
    rw [← after_append] at hkilled
    obtain ⟨t, ht, hlimit⟩ := limit_le_of_killed _ hstart (run ++ works n) hkilled
    obtain ⟨p, hp, hduration⟩ := hsettings t ht
    rw [after_append, after_works] at hlimit
    exact absurd (hclock p t.interval hp hduration) (Nat.not_lt.mpr hlimit)
  have horderly := orderly_after start target clock disk run
  have hcause : now.depot.isClosed = true → now.depot.stopping = true ∨ now.depot.handles = 0 := by
    intro hclosed
    exact (horderly.cause hclosed).imp_right fun h => h.resolve_right (hlive 0)
  refine ⟨hlive 0, hcause, ?_, fun n hn => applied_after_works hn (hlive n), ?_⟩
  · intro hstopping hhandles
    have hopen : now.depot.isClosed = false := by
      refine Bool.eq_false_iff.mpr fun hclosed => ?_
      rcases hcause hclosed with h | h
      · rw [hstopping] at h
        cases h
      · exact hhandles h
    have hstopped : now.depot.stopped = false := by
      refine Bool.eq_false_iff.mpr fun h => ?_
      rw [stopping_of_stopped h] at hstopping
      cases hstopping
    refine ⟨health_of_open hopen hstopping hstopped, ?_⟩
    intro r
    rw [accepts?, if_neg]
    rw [hopen]
    simp [hhandles]
  · intro hfailed
    exact hlive 0 (killed_of_answer hfailed)

-- ── Two intervals ───────────────────────────────────────────────────────────

/-- Settings with a file that is not there open an empty depot. -/
theorem ofSettings_withFile {file interval : String} {duration : Duration} {files : FileSystem}
    (hduration : Duration.parse? interval = some duration)
    (hread : files.read file = .error .notFound) :
    Depot.ofSettings (.withFile file interval) files = .ok (.start .empty (some ⟨file, duration⟩)) := by
  simp only [Depot.ofSettings, Settings.withFile, Persistence.duration, hduration,
    openFile_of_absent duration hread]
  rfl

/-- An empty depot that writes a checkpoint a minute after a change. -/
def everyMinute : Site := opened .empty (some ⟨"depot.ckpt", 60000⟩) ⟨0, 0⟩ (.sound .empty)

/-- A push is applied, and its checkpoint begins when it is due. -/
def oneMinute : List Action := [.submit upPush, .work, .work, .wait 60000, .work]

theorem survives_oneMinute :
    Depot.ofSettings (.withFile "depot.ckpt" "1m") everyMinute.disk.files = .ok everyMinute.depot ∧
      (everyMinute.after oneMinute).depot.health = .ok () := by
  have hduration : Duration.parse? "1m" = some 60000 := by decide +kernel
  have hopen := ofSettings_withFile hduration
    (show everyMinute.disk.files.read "depot.ckpt" = .error .notFound by decide +kernel)
  have hclock : ∀ p interval, (Settings.withFile "depot.ckpt" "1m").persistence = some p →
      p.duration = .ok interval →
      (everyMinute.after oneMinute).clock.millis + interval < Clock.limit := by
    intro p interval hp hinterval
    obtain rfl := Option.some.inj hp
    rw [Persistence.duration, hduration] at hinterval
    obtain rfl := Except.ok.inj hinterval
    decide +kernel
  obtain ⟨-, -, hwell, -⟩ := survives_of_run (s := everyMinute) hopen oneMinute hclock
  exact ⟨hopen, (hwell (by decide +kernel) (by decide +kernel)).1⟩

/-- **An accepted interval kills the writer.** The document is accepted, but the first push
    kills the writer of the depot that it opens: nobody has begun a shutdown, and a handle is
    left, but the depot is not well, accepts no request, and answers a shutdown by the
    failure of the writer. -/
theorem killed_by_interval :
    let settings := Settings.withFile "depot.ckpt" "18446744073709551615s"
    let now := farAhead.after [.submit upPush, .work, .work]
    Settings.ofToml "[persistence]\nfile = \"depot.ckpt\"\ninterval = \"18446744073709551615s\"\n"
        = .ok settings ∧
      Depot.ofSettings settings farAhead.disk.files = .ok farAhead.depot ∧
      now.depot.stopping = false ∧ now.depot.handles = 1 ∧
      now.depot.health = .error .notRunning ∧ (∀ r, now.accepts? (.submit r) = none) ∧
      (now.perform .beginShutdown).depot.shutdownAnswer? = some (.error .writerFailed) := by
  have hduration : Duration.parse? "18446744073709551615s" = some 18446744073709551615000 := by
    decide +kernel
  have hread : farAhead.disk.files.read "depot.ckpt" = .error .notFound := by decide +kernel
  refine ⟨?_, ofSettings_withFile hduration hread, rfl, rfl, ?_, ?_, ?_⟩
  · decide +kernel
  · decide +kernel
  · intro r
    have hclosed : (farAhead.after [.submit upPush, .work, .work]).depot.isClosed = true := by
      decide +kernel
    rw [accepts?, if_pos (Or.inr hclosed)]
  · decide +kernel

end Site

end MetricDepot
