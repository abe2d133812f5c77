import MetricDepot.Proofs.Checkpoint.Canonical
import MetricDepot.Proofs.Depot.Restart
/-!
# Quiet runs — a file that comes out as it went in

    A run is quiet when none of its requests would change the catalog that the depot was
    opened with.  Then it stays that catalog, and every checkpoint of the run is its own: when
    the depot was opened from the checkpoint of a catalog, these are the same bytes again.

    The writer of a quiet run is `Calm`.  Batches change nothing, so it never looks for the
    time of a next checkpoint, and cannot die of it; and a catalog that has a checkpoint is no
    reason for a fault, so nothing but the disk makes the last checkpoint fail.
-/

namespace MetricDepot

open FileSystem Checkpoint

-- ── A calm writer ───────────────────────────────────────────────────────────

/-- The writer has changed nothing in its batch, is alive, and blames nothing but the disk. -/
def Phase.Calm : Phase → Prop
  | .batch _ changed => changed = false
  | .exited (.error fault) => ∃ reason, fault = .io reason
  | .killed => False
  | _ => True

namespace Depot

variable {clock : Clock} {disk disk' : Disk} {d d' : Depot}

theorem live_of_calm (h : d.phase.Calm) : d.phase ≠ .killed := by
  intro hkilled
  rw [hkilled] at h
  exact h

theorem unchanged_of_calm (h : d.phase.Calm) {handled : Nat} {changed : Bool}
    (htakes : Takes clock d handled changed) : changed = false := by
  rcases htakes with ⟨-, -, -, hchanged⟩ | ⟨hphase, -⟩
  · exact hchanged
  · rw [hphase] at h
    exact h

/-- A calm writer stays calm, as long as what it applies changes nothing. -/
theorem Turn.calm (h : Turn clock disk d d' disk') (hcalm : d.phase.Calm)
    (hquiet : ∀ r ∈ d.waiting, (d.catalog.apply r).2.changed = false) {bytes : Bytes}
    (hbytes : encode d.catalog = .ok bytes) : d'.phase.Calm := by
  cases h with
  | takeWrite handled changed r rest htakes hqueue =>
    have hnothing : (d.catalog.apply r).2.changed = false := by
      refine hquiet r ?_
      rw [waiting, hqueue]
      exact List.mem_cons_self
    show (changed || (d.catalog.apply r).2.changed) = false
    rw [unchanged_of_calm hcalm htakes, hnothing]
    rfl
  | takeFlush handled changed ticket rest htakes => exact unchanged_of_calm hcalm htakes
  | endArmed _ _ hphase | die _ _ hphase =>
    rw [hphase] at hcalm
    cases hcalm
  | refuseFinish _ fault _ _ _ hfault => cases hbytes.symm.trans hfault
  | finishFault _ _ _ reason => exact ⟨reason, rfl⟩
  | skipSave | drainWrite | drainFlush | drainShutdown => exact hcalm
  | _ => exact trivial

/-- Whoever waits for a calm writer hears that all went well, or of a fault of the disk. -/
theorem answer_of_calm (h : d.phase.Calm) {answer : Except Refusal Unit}
    (hanswer : d.shutdownAnswer? = some answer) :
    d.phase = .exited (.ok ()) ∧ answer = .ok () ∨ ∃ reason, answer = .error (.checkpoint (.io reason)) := by
  have hlive : answer ≠ .error .writerFailed := by
    rintro rfl
    exact live_of_calm h (killed_of_answer hanswer)
  obtain ⟨result, hphase, rfl⟩ := exited_of_answer hanswer hlive
  cases result with
  | ok _ => exact Or.inl ⟨hphase, rfl⟩
  | error fault =>
    rw [hphase] at h
    obtain ⟨reason, rfl⟩ := h
    exact Or.inr ⟨reason, rfl⟩

end Depot

namespace Site

open Depot

-- ── Along a quiet run ───────────────────────────────────────────────────────

/-- No request that is accepted in the run would change the catalog of its beginning. -/
def Quiet (s : Site) (run : List Action) : Prop :=
  ∀ r ∈ s.accepted run, (s.depot.catalog.apply r).2.changed = false

variable {start : Catalog} {target : Option Target} {clock : Clock} {disk : Disk} {run : List Action}
  {bytes : Bytes}

theorem catalog_of_quiet (hsound : start.Sound) (hquiet : Quiet (opened start target clock disk) run) :
    ((opened start target clock disk).after run).depot.catalog = start := by
  rw [(inOrder_after start target clock disk run).catalog]
  exact Catalog.applyAll_eq_self hsound fun r hr => hquiet r (List.mem_of_mem_take hr)

theorem calm_after (hsound : start.Sound) (hbytes : encode start = .ok bytes)
    (hquiet : Quiet (opened start target clock disk) run) :
    ((opened start target clock disk).after run).depot.phase.Calm := by
  induction run using List.reverseRecOn with
  | nil => exact trivial
  | append_singleton run a ih =>
    have hbefore : Quiet (opened start target clock disk) run := by
      intro r hr
      refine hquiet r ?_
      rw [accepted_append]
      exact List.mem_append_left _ hr
    have ih := ih hbefore
    have hcatalog := catalog_of_quiet hsound hbefore
    have horder := inOrder_after start target clock disk run
    rw [after_append]
    show (((opened start target clock disk).after run).perform a).depot.phase.Calm
    generalize (opened start target clock disk).after run = before at *
    have hhappens := happens before a
    generalize before.perform a = now at hhappens ⊢
    cases hhappens with
    | send messages depot _ hsent => exact hsent.phase ▸ ih
    | rest | pass | outside => exact ih
    | turn depot after _ hturn =>
      refine hturn.calm ih ?_ (hcatalog ▸ hbytes)
      intro r hr
      rw [horder.waiting (live_of_calm ih)] at hr
      rw [hcatalog]
      exact hbefore r (List.mem_of_mem_drop hr)

/-- **The file comes out as it went in.** At every moment of a quiet run of a depot that was
    opened from a checkpoint of its catalog, the file holds that checkpoint. -/
theorem read_of_quiet {target : Target} (hsound : start.Sound) (hbytes : encode start = .ok bytes)
    (hread : disk.files.read target.file = .ok bytes)
    (hrun : Undisturbed target.file (opened start (some target) clock disk) run)
    (hquiet : Quiet (opened start (some target) clock disk) run) :
    ((opened start (some target) clock disk).after run).disk.files.read target.file = .ok bytes := by
  have hheld := (durable_after start target clock disk run hrun).held
  cases hsaved : (opened start (some target) clock disk).saved run with
  | none => exact (hheld.untouched hsaved).read bytes hread
  | some k =>
    obtain ⟨-, written, hwritten, hfile⟩ := hheld.checkpoint k hsaved
    rw [Catalog.applyAll_eq_self hsound fun r hr => hquiet r (List.mem_of_mem_take hr)] at hwritten
    rw [hfile, Except.ok.inj (hwritten.symm.trans hbytes)]

-- ── Canonical checkpoints ───────────────────────────────────────────────────

/-- **Checkpoints are canonical.** Let a catalog be reached in whatever way, have a checkpoint, and
    hold no finite number that does not survive its text.  Then it has this checkpoint in
    whatever order its slots come.  Another such catalog has the same checkpoint if and only
    if the two are alike: the same slots hold families that were received at the same times
    and are the same but for their NaNs, which count as one.  What is read from the checkpoint
    has the same checkpoint.  And a file with it opens a depot; as long as nobody else touches
    the file, and no accepted request would change the catalog, the file holds the same bytes
    at every moment.  A shutdown gets its answer, and if that is no fault of the disk, the
    checkpoint was written anew. -/
theorem checkpoint_is_canonical {c : Catalog} (hreach : c.Reachable) (hlegible : c.Legible)
    {bytes : Bytes} (hencode : encode c = .ok bytes) :
    (∀ listing, listing.Perm c.slots → encodeListing listing = .ok bytes) ∧
      (∀ (d : Catalog) (other : Bytes), d.Reachable → d.Legible → encode d = .ok other →
        (bytes = other ↔ Catalog.Alike c d)) ∧
      (∃ e, decode bytes = .ok e ∧ encode e = .ok bytes) ∧
      (∀ (file : String) (interval : Duration) (files : FileSystem), files.read file = .ok bytes →
        ∃ d, Depot.openFile file interval files = .ok d) ∧
      (∀ (file : String) (interval : Duration) (s : Site), s.disk.files.read file = .ok bytes →
        Depot.openFile file interval s.disk.files = .ok s.depot →
        ∀ run, Undisturbed file s run → s.Quiet run →
          let now := s.after run
          now.disk.files.read file = .ok bytes ∧
            (∀ n, now.depot.stopping = true ∨ now.depot.handles = 0 → now.depot.ahead now.clock ≤ n →
              ∃ answer, (now.after (works n)).depot.shutdownAnswer? = some answer) ∧
            (∀ answer, now.depot.shutdownAnswer? = some answer →
              (answer = .ok () ∧ s.saved run ≠ none) ∨
                ∃ reason, answer = .error (.checkpoint (.io reason)))) := by
  have hsound := hreach.sound
  refine ⟨?_, ?_, encode_decode hsound hlegible hencode, ?_, ?_⟩
  · intro listing hperm
    rw [encodeListing_of_perm hperm, hencode]
  · intro d other hreach' hlegible' hencode'
    constructor
    · rintro rfl
      exact alike_of_encode hsound hreach'.sound hlegible hlegible' hencode hencode'
    · intro halike
      rw [encode_of_alike halike, hencode'] at hencode
      exact (Except.ok.inj hencode).symm
  · intro file interval files hread
    obtain ⟨d, hrestore, -⟩ := restore_of_encode hsound hencode hread hlegible
    exact ⟨_, openFile_eq_ok.mpr ⟨d, hrestore, rfl⟩⟩
  · intro file interval s hread hopen run hrun hquiet now
    obtain ⟨start, clock, disk, hrestore, rfl⟩ := eq_opened_of_openFile hopen
    -- what was restored is like the catalog, so it has the same checkpoint
    obtain ⟨d, hrestore', halike⟩ := restore_of_encode hsound hencode hread hlegible
    obtain rfl := Except.ok.inj (hrestore.symm.trans hrestore')
    have hbytes : encode start = .ok bytes := (encode_of_alike halike).trans hencode
    have hstart : start.Sound := sound_restore hrestore
    refine ⟨read_of_quiet hstart hbytes hread hrun hquiet, ?_, ?_⟩
    · intro n hleaving hn
      exact shutdownAnswer?_of_over (over_after_works (orderly_after _ _ _ _ run) hleaving hn)
    · intro answer hanswer
      rcases answer_of_calm (calm_after hstart hbytes hquiet) hanswer with ⟨hphase, hok⟩ | hfault
      · refine Or.inl ⟨hok, ?_⟩
        rw [saved_of_exited hrun hphase]
        exact Option.some_ne_none _
      · exact Or.inr hfault

/-- A push of a sample that is no number, by one of the patterns that stand for that. -/
def nanPush (pattern : UInt64) : Request :=
  .push ⟨"job", ""⟩ .epoch
    [⟨"up", "", .gauge, [⟨SortedMap.ofList [("job", "job")], .gauge ⟨pattern⟩, none⟩]⟩]

/-- Two pushes are submitted, and a shutdown carried through. -/
def twoPushes : List Action :=
  submits (Catalog.mixedPush ++ [nanPush 0x7FF8000000000000]) ++ .beginShutdown :: works 10

theorem checkpoint_is_canonical_twoPushes :
    let c := Catalog.empty.applyAll (Catalog.mixedPush ++ [nanPush 0x7FF8000000000000])
    let d := Catalog.empty.applyAll (nanPush 0xFFF0000000000001 :: Catalog.mixedPush)
    let disk := (newest.after twoPushes).disk
    ∃ bytes e, encode c = .ok bytes ∧ encodeListing c.slots.reverse = .ok bytes ∧
      Catalog.Alike c d ∧ Depot.openFile "depot.ckpt" 0 disk.files = .ok e ∧
      (Site.after ⟨⟨0, 0⟩, e, disk⟩ (.beginShutdown :: works 10)).disk.files.read "depot.ckpt"
        = .ok bytes := by
  intro c d disk
  have hc : c.Reachable := .apply (.apply .empty _) _
  have hd : d.Reachable := .apply (.apply .empty _) _
  have hlegible : c.Legible := by decide +kernel
  have hlegible' : d.Legible := by decide +kernel
  have hsame : (records d).map Record.canonical = (records c).map Record.canonical := by decide +kernel
  have hkept : ∀ s : Site, s = opened .empty (some ⟨"depot.ckpt", 0⟩) ⟨0, 0⟩ (.sound .empty) →
      Undisturbed "depot.ckpt" s twoPushes → (s.after twoPushes).depot.phase = .exited (.ok ()) →
      ∃ bytes, encode (s.after twoPushes).depot.catalog = .ok bytes ∧
        (s.after twoPushes).disk.files.read "depot.ckpt" = .ok bytes := by
    rintro _ rfl hrun hexited
    exact kept_of_exited hrun hexited
  obtain ⟨bytes, hencode, hread⟩ : ∃ bytes, encode c = .ok bytes ∧
      disk.files.read "depot.ckpt" = .ok bytes := by
    have hcatalog : (newest.after twoPushes).depot.catalog = c := by decide +kernel
    rw [← hcatalog]
    exact hkept newest rfl (by simp [twoPushes, submits, Catalog.mixedPush, works, Undisturbed])
      (by decide +kernel)
  have hencode' : encode d = .ok bytes := by
    rw [encode_eq_canonical, hsame, ← encode_eq_canonical, hencode]
  -- from here on it matters no more how catalogs and disk came to be
  clear_value c d disk
  obtain ⟨horder, hlike, -, hopens, hquiet⟩ := checkpoint_is_canonical hc hlegible hencode
  obtain ⟨e, hopen⟩ := hopens "depot.ckpt" 0 disk.files hread
  have hrun : Undisturbed "depot.ckpt" ⟨⟨0, 0⟩, e, disk⟩ (.beginShutdown :: works 10) := by
    simp [works, Undisturbed]
  refine ⟨bytes, e, hencode, horder _ (List.reverse_perm _), ?_, hopen, ?_⟩
  · exact (hlike d _ hd hlegible' hencode').mp rfl
  · have hnothing : Quiet ⟨⟨0, 0⟩, e, disk⟩ (.beginShutdown :: works 10) := by
      intro r hr
      change r ∈ [] ++ Site.accepted _ (works 10) at hr
      rw [accepted_works] at hr
      cases hr
    obtain ⟨hfile, -, -⟩ := hquiet "depot.ckpt" 0 ⟨⟨0, 0⟩, e, disk⟩ hread hopen _ hrun hnothing
    exact hfile

end Site

end MetricDepot
