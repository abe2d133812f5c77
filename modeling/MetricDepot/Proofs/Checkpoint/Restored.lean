import MetricDepot.Checkpoint.File
import MetricDepot.Proofs.Catalog.Sound
import MetricDepot.Proofs.Checkpoint.Layout
import MetricDepot.Proofs.Json.Yields
/-!
# Restored catalogs — what the reader of checkpoints lets in

    A record is put into the catalog without the checks of a write, but it has been judged
    before: one that is not damaged fits its slot, and a time that was read is never before
    the epoch, since its seconds have no sign.  So every catalog that a checkpoint holds is
    sound, however the checkpoint came to be.

    `Reachable` catalogs are those that begin empty or as a checkpoint holds them, and are
    changed by requests.
-/

namespace MetricDepot

open Json

namespace ReceiveTime

theorem epoch_le_of_ofParts? {seconds nanos : Nat} {t : ReceiveTime}
    (h : ofParts? seconds nanos = some t) : epoch ≤ t := by
  rw [ofParts?, ofNanos?] at h
  split at h
  · rw [← Option.some.inj h]
    show (0 : Int) ≤ seconds * (nanosPerSecond : Nat) + nanos
    exact Int.add_nonneg (Int.mul_nonneg (Int.natCast_nonneg _) (Int.natCast_nonneg _))
      (Int.natCast_nonneg _)
  · cases h

/-- No time that is read lies before the epoch. -/
theorem yields_read : Yields read (fun t => epoch ≤ t) := by
  refine Yields.after fun d => ?_
  refine Yields.after fun seconds => Yields.after fun nanos => ?_
  intro s t rest h
  exact epoch_le_of_ofParts? (Yields.orFail _ s t rest h)

end ReceiveTime

namespace Record

/-- No record that is read was received before the epoch. -/
theorem yields_read : Yields read (fun r => ReceiveTime.epoch ≤ r.stored.received) := by
  have keep : ∀ (d : Draft) (key : String), (∀ t, d.received = some t → ReceiveTime.epoch ≤ t) →
      Yields (field d key) (fun d => ∀ t, d.received = some t → ReceiveTime.epoch ≤ t) := by
    intro d key hd
    -- one branch for each field, of which only that of the time touches what is kept
    refine Yields.ite ?_ (Yields.ite ?_ (Yields.ite ?_ (Yields.ite ?_ (Yields.ite ?_ ?_))))
    · exact Yields.after fun _ => Yields.pure hd
    · exact Yields.after fun _ => Yields.pure hd
    · exact Yields.after fun _ => Yields.pure hd
    · exact Yields.bind (Yields.once ReceiveTime.yields_read) fun _ hread => Yields.pure hread
    · exact Yields.after fun _ => Yields.pure hd
    · exact Yields.after fun _ => Yields.pure hd
  refine Yields.bind (Yields.record (fun _ h => nomatch h) keep) fun d hd => ?_
  refine Yields.after fun job => Yields.after fun inst => Yields.after fun name => ?_
  refine Yields.bind (Yields.orFail _) fun received hreceived => Yields.after fun family => ?_
  exact Yields.pure (hd received hreceived)

end Record

/-- To put in a listing of what fits keeps a catalog sound. -/
theorem Catalog.Sound.insertAll {c : Catalog} (h : c.Sound) {listing : List (Slot × Stored)}
    (hfits : ∀ e ∈ listing, Fits e.1 e.2) : (c.insertAll listing).Sound := by
  induction listing generalizing c with
  | nil => exact h
  | cons e listing ih =>
    exact ih (h.insert (hfits e List.mem_cons_self)) fun e he => hfits e (List.mem_cons_of_mem _ he)

namespace Checkpoint

/-- Records that payloads hold fit their slots. -/
theorem fits_of_holds {payloads : List Bytes} {rs : List Record} (h : List.Forall₂ Holds payloads rs) :
    ∀ r ∈ rs, Fits r.slot r.stored := by
  induction h with
  | nil => exact fun _ hr => nomatch hr
  | @cons payload r payloads rs hholds _ ih =>
    refine List.forall_mem_cons.mpr ⟨?_, ih⟩
    obtain ⟨rest, hrun, -⟩ := document_eq_ok hholds.read
    exact ⟨hholds.consistent.named, hholds.consistent.valid, hholds.consistent.belongs,
      Record.yields_read payload r rest hrun⟩

/-- Every catalog that a checkpoint holds is sound. -/
theorem sound_decode {bytes : Bytes} {c : Catalog} (h : decode bytes = .ok c) : c.Sound := by
  obtain ⟨payloads, rs, hlaid, rfl⟩ := laidOut_of_decode h
  refine Catalog.sound_empty.insertAll fun e he => ?_
  obtain ⟨r, hr, rfl⟩ := List.mem_map.mp he
  exact fits_of_holds hlaid.holds r hr

/-- Every catalog that a depot can be opened with is sound. -/
theorem sound_restore {file : String} {files : FileSystem} {c : Catalog}
    (h : restore file files = .ok c) : c.Sound := by
  rw [restore] at h
  split at h
  · rw [← Except.ok.inj h]
    exact Catalog.sound_empty
  · cases h
  · rw [← Except.ok.inj h]
    exact Catalog.sound_empty
  · exact sound_decode h

end Checkpoint

-- ── Reachable catalogs ──────────────────────────────────────────────────────

namespace Catalog

/-- The catalogs that begin empty, or as a checkpoint holds them, and are changed by requests. -/
inductive Reachable : Catalog → Prop where
  | empty : Reachable .empty
  | decoded {bytes : Bytes} {c : Catalog} (h : Checkpoint.decode bytes = .ok c) : Reachable c
  | apply {c : Catalog} (h : Reachable c) (r : Request) : Reachable (c.apply r).1

/-- What begins sound stays sound. -/
theorem Reachable.sound {c : Catalog} (h : Reachable c) : c.Sound := by
  induction h with
  | empty => exact sound_empty
  | decoded h => exact Checkpoint.sound_decode h
  | apply _ r ih => exact ih.apply r

/-- **Every reachable catalog is sound.** No job and no group in it is empty; every family is
    under its own name, has no flaw, and only samples of the group that it stands in; and no
    time is before the epoch. -/
theorem sound_of_reachable {c : Catalog} (h : Reachable c) : c.Sound := h.sound

/-- A write from before the epoch, of a family with a sample of another group and of a family
    under a key that is not its name; a write to a second group and the deletion of the group;
    and the deletion of a job that was never there. -/
def partlyRefused : List Request :=
  let sample := fun instanceName : String =>
    (⟨SortedMap.ofList [("instance", instanceName), ("job", "job")], .gauge ⟨0⟩, none⟩ : Sample)
  [⟨⟨"job", "one"⟩, ⟨-2, by decide, by decide⟩, .write (SortedMap.ofList
      [("load", ⟨"load", "", .gauge, [sample "one", sample "two"]⟩), ("up", ⟨"down", "", .gauge, []⟩)])⟩,
    .push ⟨"job", "two"⟩ .epoch [⟨"load", "", .gauge, [sample "two"]⟩],
    .delete ⟨"job", "two"⟩ .epoch,
    .delete ⟨"elsewhere", ""⟩ .epoch]

/-- Of all this one sample in one slot is left, received at the epoch. -/
theorem sound_after_refusals :
    (empty.applyAll partlyRefused).slots.map (fun e => (e.1, e.2.received, e.2.family.size)) =
        [(⟨⟨"job", "one"⟩, "load"⟩, .epoch, 1)] ∧
      (empty.applyAll partlyRefused).Sound :=
  ⟨by decide +kernel, sound_of_reachable (.apply (.apply (.apply (.apply .empty _) _) _) _)⟩

end Catalog

end MetricDepot
