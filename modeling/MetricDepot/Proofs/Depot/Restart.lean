import MetricDepot.Proofs.Catalog.Requests
import MetricDepot.Proofs.Checkpoint.Restored
import MetricDepot.Proofs.Depot.Flush
/-!
# Restarts — two lives of a depot are one

    A depot that is shut down leaves its catalog in the file, and whoever opens the file again
    goes on from there.  What is read back is not quite the catalog, since the NaNs in it
    have become one; but requests cannot tell the two apart.  So it makes no difference to
    the slots whether a depot was restarted between two lists of requests, or took both in
    one life.
-/

namespace MetricDepot

open FileSystem Checkpoint Json

-- ── What a file gives back ──────────────────────────────────────────────────

namespace Checkpoint

/-- A file with the checkpoint of a sound catalog gives back a catalog that is like it. -/
theorem restore_of_encode {file : String} {files : FileSystem} {c : Catalog} {bytes : Bytes}
    (hsound : c.Sound) (hencode : encode c = .ok bytes) (hread : Files.read files file = .ok bytes)
    (hnumbers : ∀ r ∈ records c, ∀ x ∈ r.stored.family.numbers, x.isFinite = true → Survives x) :
    ∃ d, restore file files = .ok d ∧ Catalog.Alike d c := by
  obtain ⟨d, hdecode, hd⟩ := decode_of_encode hsound hencode hnumbers
  refine ⟨d, ?_, .of_canonical hd⟩
  rw [restore, hread]
  cases bytes with
  | nil => cases hdecode
  | cons byte rest => exact hdecode

end Checkpoint

namespace Site

open Depot

-- ── Flushed runs ────────────────────────────────────────────────────────────

/-- A flush was begun in a run when all its requests had been accepted, and has returned. -/
def Flushed (s : Site) (run : List Action) : Prop :=
  ∃ asked behind, run = asked ++ .flush :: behind ∧ (s.after asked).depot.handles ≠ 0 ∧
    s.accepted asked = s.accepted run ∧
    (s.after run).depot.flushReturns (s.after asked).depot.beginFlush.2 = true

/-- A depot that was flushed, and whose writer lives, holds all that was accepted. -/
theorem catalog_of_flushed {start : Catalog} {target : Option Target} {s : Site} {run : List Action}
    (hstart : s.depot = .start start target) (hflushed : s.Flushed run)
    (hlive : (s.after run).depot.phase ≠ .killed) :
    (s.after run).depot.catalog = start.applyAll (s.accepted run) := by
  obtain ⟨asked, behind, rfl, hhandles, haccepted, hreturns⟩ := hflushed
  obtain ⟨clock, d, disk⟩ := s
  obtain rfl : d = .start start target := hstart
  have happlied := applied_of_flush asked behind hhandles hreturns hlive
  have horder := inOrder_after start target clock disk (asked ++ .flush :: behind)
  refine horder.catalog_of_complete ?_
  have hlength := congrArg List.length haccepted
  exact Nat.le_trans (Nat.le_of_eq hlength.symm) happlied

/-- **Requests can be flushed.** A depot with a file that was just opened takes any requests and
    a flush, and after some steps of its writer the flush returns, with the writer alive, if
    the interval can be added to the time. -/
theorem flushed_of_submits {start : Catalog} {target : Target} {s : Site}
    (hstart : s.depot = .start start (some target))
    (hclock : s.clock.millis + target.interval < Clock.limit) (requests : List Request) :
    ∃ run, s.Flushed run ∧ s.accepted run = requests ∧ (s.after run).depot.phase ≠ .killed := by
  obtain ⟨clock, d, disk⟩ := s
  obtain rfl : d = .start start (some target) := hstart
  have hclock : clock.millis + target.interval < Clock.limit := hclock
  show ∃ run, (opened start (some target) clock disk).Flushed run ∧
    (opened start (some target) clock disk).accepted run = requests ∧
    ((opened start (some target) clock disk).after run).depot.phase ≠ .killed
  have hone : (opened start (some target) clock disk).depot.handles ≠ 0 := Nat.one_ne_zero
  have haccepted := accepted_submits hone rfl requests
  have hasked := after_submits hone requests
  have hhandles : ((opened start (some target) clock disk).after (submits requests)).depot.handles ≠ 0 := by
    rw [hasked, submitAll_of_open rfl]
    exact hone
  have hreturns := flush_returns (submits requests) [] hhandles (Nat.le_refl _)
  rw [List.nil_append] at hreturns
  generalize ((opened start (some target) clock disk).after (submits requests ++ [.flush])).depot.ahead
    ((opened start (some target) clock disk).after (submits requests ++ [.flush])).clock = n at hreturns
  have hall : (opened start (some target) clock disk).accepted (submits requests ++ .flush :: works n)
      = requests := by
    rw [accepted_append, haccepted]
    show requests ++ ([] ++ _) = requests
    rw [accepted_works, List.append_nil, List.append_nil]
  refine ⟨submits requests ++ .flush :: works n, ⟨submits requests, works n, rfl, hhandles, ?_, hreturns⟩,
    hall, ?_⟩
  · rw [haccepted, hall]
  · intro hkilled
    have hborn : (opened start (some target) clock disk).depot.phase ≠ .killed := fun h => nomatch h
    obtain ⟨t, ht, hlimit⟩ := limit_le_of_killed _ hborn _ hkilled
    obtain rfl := Option.some.inj ht
    refine absurd hclock (Nat.not_lt.mpr ?_)
    -- neither requests nor steps of the writer move the clock
    rw [after_append] at hlimit
    have hsame : (((opened start (some target) clock disk).after (submits requests)).after
        (.flush :: works n)).clock = clock := by
      show ((((opened start (some target) clock disk).after (submits requests)).perform .flush).after
        (works n)).clock = clock
      rw [after_works, perform_flush hhandles, hasked]
      rfl
    rw [hsame] at hlimit
    exact hlimit

-- ── Restarts ────────────────────────────────────────────────────────────────

/-- **A restart makes no difference.** When a depot was opened from a file that nobody else
    touches, and has been shut down with success, then the file opens again.  Whatever
    requests the depot has got accepted before, and gets accepted afterwards, once they are
    flushed its catalog is like that of a depot which got all of them accepted in one life:
    the same slots hold families that were received at the same times and are the same but
    for their NaNs.  Each of the two can be flushed, if the interval can be added to the time.
    It is supposed that the finite numbers in the checkpoint survive their texts. -/
theorem restart_of_runs {file : String} {interval : Duration} {s : Site}
    (hopen : Depot.openFile file interval s.disk.files = .ok s.depot) {first : List Action}
    (hfirst : Undisturbed file s first)
    (hdone : (s.after first).depot.shutdownAnswer? = some (.ok ()))
    (hnumbers : ∀ r ∈ records (s.after first).depot.catalog, ∀ x ∈ r.stored.family.numbers,
      x.isFinite = true → Survives x) :
    ∃ d, Depot.openFile file interval (s.after first).disk.files = .ok d ∧
      (∀ again once : Site, again.depot = d → once.depot = s.depot → ∀ later whole,
        again.Flushed later → (again.after later).depot.phase ≠ .killed →
        once.Flushed whole → (once.after whole).depot.phase ≠ .killed →
        once.accepted whole = s.accepted first ++ again.accepted later →
        Catalog.Alike (again.after later).depot.catalog (once.after whole).depot.catalog) ∧
      (∀ opened : Site, opened.depot = d ∨ opened.depot = s.depot →
        opened.clock.millis + interval < Clock.limit → ∀ requests,
          ∃ run, opened.Flushed run ∧ opened.accepted run = requests ∧
            (opened.after run).depot.phase ≠ .killed) := by
  obtain ⟨start, clock, disk, hrestore, rfl⟩ := eq_opened_of_openFile hopen
  obtain ⟨result, hphase, hresult⟩ := exited_of_answer hdone (by simp)
  cases result with
  | error fault => cases hresult
  | ok _ =>
    obtain ⟨bytes, hencode, hread⟩ := kept_of_exited hfirst hphase
    have horder := inOrder_after start (some ⟨file, interval⟩) clock disk first
    have hcatalog := horder.catalog_of_complete (applied_of_drained (by rw [isDrained, hphase])).2
    have hsound : ((opened start (some ⟨file, interval⟩) clock disk).after first).depot.catalog.Sound := by
      rw [hcatalog]
      exact (sound_restore hrestore).applyAll _
    obtain ⟨kept, hkept, halike⟩ := restore_of_encode hsound hencode hread hnumbers
    refine ⟨.start kept (some ⟨file, interval⟩), openFile_eq_ok.mpr ⟨kept, hkept, rfl⟩, ?_, ?_⟩
    · intro again once hagain honce later whole hlater hlive hwhole hlive' haccepted
      rw [catalog_of_flushed hagain hlater hlive, catalog_of_flushed honce hwhole hlive', haccepted]
      have happend : start.applyAll ((opened start (some ⟨file, interval⟩) clock disk).accepted first
          ++ again.accepted later)
          = ((opened start (some ⟨file, interval⟩) clock disk).after first).depot.catalog.applyAll
            (again.accepted later) := by
        rw [hcatalog]
        exact List.foldl_append
      rw [happend]
      exact halike.applyAll _
    · intro site hdepot hclock requests
      rcases hdepot with h | h
      · exact flushed_of_submits h hclock requests
      · exact flushed_of_submits h hclock requests

/-- A push with all kinds of numbers is submitted, and a shutdown carried through. -/
def oneLife : List Action := submits Catalog.mixedPush ++ .beginShutdown :: works 9

theorem restart_after_oneLife :
    Undisturbed "depot.ckpt" newest oneLife ∧
      (newest.after oneLife).depot.shutdownAnswer? = some (.ok ()) ∧
      ∃ d, Depot.openFile "depot.ckpt" 0 (newest.after oneLife).disk.files = .ok d ∧
        ∀ again : Site, again.depot = d → again.clock.millis < Clock.limit →
          ∃ run, again.Flushed run ∧ again.accepted run = Catalog.mixedPush := by
  have hopen : Depot.openFile "depot.ckpt" 0 newest.disk.files = .ok newest.depot :=
    openFile_of_absent 0 (by decide +kernel)
  have hrun : Undisturbed "depot.ckpt" newest oneLife := by
    simp [oneLife, submits, Catalog.mixedPush, works, Undisturbed]
  have hdone : (newest.after oneLife).depot.shutdownAnswer? = some (.ok ()) := by decide +kernel
  have hnumbers : ∀ r ∈ records (newest.after oneLife).depot.catalog,
      ∀ x ∈ r.stored.family.numbers, x.isFinite = true → Survives x := by decide +kernel
  obtain ⟨d, hd, -, hflush⟩ := restart_of_runs hopen hrun hdone hnumbers
  refine ⟨hrun, hdone, d, hd, ?_⟩
  intro again hagain hclock
  obtain ⟨run, hflushed, haccepted, -⟩ := hflush again (Or.inl hagain) hclock Catalog.mixedPush
  exact ⟨run, hflushed, haccepted⟩

end Site

end MetricDepot
