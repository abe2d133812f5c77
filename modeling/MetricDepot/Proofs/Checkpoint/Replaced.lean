import MetricDepot.Proofs.Checkpoint.Beside
import MetricDepot.Proofs.FileSystem.Linkless
/-!
# Replaced — a replacement happens whole or not at all

    However far a replacement comes, and whatever part of an effect is left where one fails,
    the file system is one of two: `Kept`, as it was but for the staging file and for
    directories on the way that were missing, or `Replaced`, with the new bytes in the file
    and no staging file.

    That the file cannot be damaged rests on the staging file never being on the way to it,
    and never being the same file under another name.  Without links this is so because of
    the name of the staging file.  With links it has to be asked for; what goes wrong
    otherwise is shown at the end.
-/

namespace MetricDepot

namespace Checkpoint

open FileSystem Route Volume

variable {file : String} {fs made cur after : Volume} {q : Path} {trail : List Path} {number : Nat}
  {bytes content : Bytes}

-- ── Kept and replaced ───────────────────────────────────────────────────────

/-- The catalog that is restored from the bytes of a file. -/
def ofBytes : Bytes → Except Fault Catalog
  | [] => .ok .empty
  | bytes => decode bytes

/-- What is restored depends on what is read. -/
theorem restore_congr {σ τ : Type} [Files σ] [Files τ] {files : σ} {other : τ}
    (h : Files.read files file = Files.read other file) : restore file files = restore file other := by
  rw [restore, restore, h]

/-- A file is restored from its bytes. -/
theorem restore_of_read (h : cur.read file = .ok bytes) : restore file cur = ofBytes bytes := by
  have hread : Files.read cur file = .ok bytes := h
  rw [restore, hread]
  cases bytes with
  | nil => rfl
  | cons b bytes => rfl

/-- A file that is not found restores to the empty catalog. -/
theorem restore_of_missing (h : (fs.look true file).found = .error .notFound) : restore file fs = .ok .empty := by
  have hread : Files.read fs file = .error .notFound := by
    show (fs.file file).map fs.contents = .error .notFound
    rw [Volume.file, h]
    rfl
  rw [restore, hread]

/-- The file has not been replaced. All is as before but the staging file and directories on the
    way that were missing, and the file is restored as if these alone had been made: as before,
    that is, unless for want of them it was not found. -/
structure Kept (file : String) (fs made cur : Volume) : Prop where
  way : Extends file fs made
  others : ∀ p, made.place? (stagingOf file) ≠ some p →
    cur.find? p = made.find? p ∧ cur.bytesAt? p = fs.bytesAt? p
  target : ∀ p, made.place? file = some p →
    cur.place? file = some p ∧ cur.find? p = made.find? p ∧ cur.bytesAt? p = fs.bytesAt? p
  read : cur.read file = made.read file
  restored : restore file cur = restore file made
  asBefore : restore file cur = restore file fs ∨
    (fs.look true file).found = .error .notFound ∧ restore file fs = .ok .empty

/-- The file has been replaced, and the staging file is gone. All else is as before but
    directories on the way that were missing. -/
structure Replaced (file : String) (bytes : Bytes) (fs made cur : Volume) : Prop where
  way : Extends file fs made
  others : ∀ p, made.place? (stagingOf file) ≠ some p → made.place? file ≠ some p →
    cur.find? p = made.find? p ∧ cur.bytesAt? p = fs.bytesAt? p
  target : ∃ p, made.place? file = some p ∧ cur.place? file = some p ∧ cur.bytesAt? p = some bytes
  read : cur.read file = .ok bytes
  restored : restore file cur = ofBytes bytes
  unstaged : ∃ q, made.place? (stagingOf file) = some q ∧ cur.place? (stagingOf file) = some q ∧
    cur.find? q = none

/-- What leaves all but the staging file as it is keeps the file. -/
theorem kept_of_others {n : Nat} (hread : cur.read file = (fs.makeWay file n).read file)
    (hplace : ∀ p, (fs.makeWay file n).place? file = some p → cur.place? file = some p)
    (hothers : ∀ p, (fs.makeWay file n).place? (stagingOf file) ≠ some p →
      cur.find? p = (fs.makeWay file n).find? p ∧ cur.bytesAt? p = (fs.makeWay file n).bytesAt? p) :
    Kept file fs (fs.makeWay file n) cur := by
  have hway := extends_makeWay fs file n
  have hothers : ∀ p, (fs.makeWay file n).place? (stagingOf file) ≠ some p →
      cur.find? p = (fs.makeWay file n).find? p ∧ cur.bytesAt? p = fs.bytesAt? p := by
    intro p hp
    obtain ⟨hfind, hbytes⟩ := hothers p hp
    exact ⟨hfind, hbytes.trans (hway.bytesAt? p)⟩
  have hasBefore : restore file cur = restore file fs ∨
      (fs.look true file).found = .error .notFound ∧ restore file fs = .ok .empty := by
    by_cases hmissing : (fs.look true file).found = .error .notFound
    · exact Or.inr ⟨hmissing, restore_of_missing hmissing⟩
    · exact Or.inl (restore_congr (hread.trans (read_makeWay hmissing n)))
  exact ⟨hway, hothers, fun p hp => ⟨hplace p hp, hothers p (place?_stagingOf hp)⟩, hread,
    restore_congr hread, hasBefore⟩

/-- To make the way keeps the file. -/
theorem kept_makeWay (file : String) (fs : Volume) (n : Nat) :
    Kept file fs (fs.makeWay file n) (fs.makeWay file n) :=
  kept_of_others rfl (fun _ hp => hp) fun _ _ => ⟨rfl, rfl⟩

namespace Beside

variable {n : Nat}

/-- A staging file beside it keeps the file. -/
theorem kept (hu : Unlinked file (fs.makeWay file n))
    (h : Beside file q trail number content (fs.makeWay file n) cur) :
    Kept file fs (fs.makeWay file n) cur := by
  refine kept_of_others (h.read hu) (fun p => (h.place?_eq_some hu).mpr) fun p hp => ?_
  have hne : p ≠ q := by
    rintro rfl
    exact hp h.named.place?
  exact ⟨h.others p hne, h.bytesAt? hne⟩

/-- The last step puts the staging file in the place of the file. -/
theorem rename (hu : Unlinked file (fs.makeWay file n))
    (h : Beside file q trail number bytes (fs.makeWay file n) cur)
    (hafter : cur.rename (stagingOf file) file = .ok after) :
    Replaced file bytes fs (fs.makeWay file n) after := by
  obtain ⟨origin, p, moved, hsource, hmoved, hplace, hfree, hdone⟩ := rename_eq_ok hafter
  obtain rfl : q = origin := Option.some.inj ((h.names hu).place?.symm.trans hsource)
  obtain rfl : Entry.file number = moved := Option.some.inj (h.staged.symm.trans hmoved)
  obtain ⟨hnames, hne⟩ := names_of_staging (h.names hu) hplace
  have hmade := (h.place?_eq_some hu).mp hplace
  have hqroot : q ≠ [] := by
    rintro rfl
    cases hmoved
  -- no other name of the staging file is there, so it has been moved
  obtain rfl : after = cur.move q p := by
    rcases hdone with hdone | ⟨other, hother, hthere, -⟩
    · exact hdone
    · obtain rfl := Entry.file.inj hother
      exact absurd (h.alone p hthere) hne
  have hfind := cur.find?_move hqroot (ne_root hfree)
  have hstay : ∀ r, r ≠ p → r ≠ q →
      (cur.move q p).find? r = cur.find? r ∧ (cur.move q p).bytesAt? r = cur.bytesAt? r := by
    intro r hrp hrq
    have hsame : (cur.move q p).find? r = cur.find? r := by rw [hfind, if_neg hrp, if_neg hrq]
    exact ⟨hsame, bytesAt?_congr hsame fun _ _ => rfl⟩
  -- the file is not on its own way, so the way is still there
  have htrail : ∀ r ∈ trail, (cur.move q p).find? r = cur.find? r := by
    intro r hr
    refine (hstay r ?_ (h.ne_of_mem hu r hr)).1
    rintro rfl
    rcases hnames.on_trail hr with hdirectory | hlink
    · exact hfree hdirectory
    · have hlink' : (fs.makeWay file n).isLink r = true := by
        rw [isLink, ← h.others r hne]
        exact hlink
      refine (hu.target r q hmade hlink' h.named.place? h.free).2 ?_
      rw [(names_of_staging h.named hmade).1.look false rfl, List.dropLast_concat]
      exact hr
  have hfile : (cur.move q p).find? p = some (.file number) := by rw [hfind, if_pos rfl, h.staged]
  have hbytes : (cur.move q p).bytesAt? p = some bytes := by
    rw [bytesAt?_of_file hfile, ← h.content]
    rfl
  have hread : (cur.move q p).read file = .ok bytes := by
    refine read_eq_ok.mpr ⟨p, ?_, hbytes⟩
    rw [(hnames.congr htrail).look true (by rw [isLink, hfile]; rfl)]
  refine ⟨extends_makeWay fs file n, fun r hr hr' => ?_, ⟨p, hmade, (hnames.congr htrail).place?, hbytes⟩,
    hread, restore_of_read hread, q, h.named.place?, ((h.names hu).congr htrail).place?, ?_⟩
  · have hrp : r ≠ p := by
      rintro rfl
      exact hr' hmade
    have hrq : r ≠ q := by
      rintro rfl
      exact hr h.named.place?
    obtain ⟨hentry, hsame⟩ := hstay r hrp hrq
    exact ⟨hentry.trans (h.others r hrq),
      hsame.trans ((h.bytesAt? hrq).trans ((extends_makeWay fs file n).bytesAt? r))⟩
  · rw [hfind, if_neg (Ne.symm hne), if_pos rfl]

/-- Writing to the staging file, whole, in part or not at all, keeps the file. -/
theorem kept_append (hu : Unlinked file (fs.makeWay file n))
    (h : Beside file q trail number content (fs.makeWay file n) cur) (bytes : Bytes) :
    Kept file fs (fs.makeWay file n) (Files.outcome cur (cur.append (stagingOf file) bytes)).1 := by
  cases hafter : cur.append (stagingOf file) bytes with
  | ok after => exact (h.append hu hafter).kept hu
  | error reason => exact h.kept hu

end Beside

-- ── How far a replacement has come ──────────────────────────────────────────

variable {d later : Device Volume} {e : Effect} {pending : List Effect}

/-- What a replacement has done to the file system `fs` when `pending` are the effects that it
    has still to do, and the whole way is `n` directories long. -/
inductive Underway (file : String) (bytes : Bytes) (fs : Volume) (n : Nat) : Volume → List Effect → Prop where
  | directories : Underway file bytes fs n fs (.makeDirectories (parentOf file) :: staging file bytes)
  | create : Underway file bytes fs n (fs.makeWay file n) (staging file bytes)
  | append {q : Path} {trail : List Path} {number : Nat} {cur : Volume}
      (h : Beside file q trail number [] (fs.makeWay file n) cur) :
      Underway file bytes fs n cur [.append (stagingOf file) bytes, .sync (stagingOf file),
        .rename (stagingOf file) file]
  | sync {q : Path} {trail : List Path} {number : Nat} {cur : Volume}
      (h : Beside file q trail number bytes (fs.makeWay file n) cur) :
      Underway file bytes fs n cur [.sync (stagingOf file), .rename (stagingOf file) file]
  | rename {q : Path} {trail : List Path} {number : Nat} {cur : Volume}
      (h : Beside file q trail number bytes (fs.makeWay file n) cur) :
      Underway file bytes fs n cur [.rename (stagingOf file) file]
  | done {cur : Volume} (h : Replaced file bytes fs (fs.makeWay file n) cur) :
      Underway file bytes fs n cur []

/-- To make the parent directory is to make the whole way. -/
theorem makeDirectories_parentOf (fs : Volume) (file : String) :
    (Files.makeDirectories fs (parentOf file)).1 = fs.makeWay file (wayOf file).length := by
  rw [Files.makeDirectories, makeWay, List.take_length, wayOf]
  cases ofText (parentOf file) with
  | ok r => rfl
  | error e => rfl

/-- Where that fails, a part of the way has been made. -/
theorem interrupted_parentOf (fs : Volume) (file : String) (done : Nat) :
    ∃ n, Files.interrupted fs done (.makeDirectories (parentOf file)) = fs.makeWay file n := by
  rw [Files.interrupted]
  cases hparent : ofText (parentOf file) with
  | error e => exact ⟨0, rfl⟩
  | ok r =>
    refine ⟨min done r.ancestors.length, ?_⟩
    dsimp only
    rw [makeWay, wayOf, hparent]
    dsimp only
    rw [List.take_append_of_le_length (Nat.min_le_right _ _), ← List.take_eq_take_min]

namespace Underway

variable {n : Nat}

/-- Until all is done the file has not been replaced. -/
theorem kept (hu : Unlinked file (fs.makeWay file n)) (h : Underway file bytes fs n cur (e :: pending)) :
    ∃ made, Kept file fs made cur := by
  cases h with
  | directories => exact ⟨_, kept_makeWay file fs 0⟩
  | create => exact ⟨_, kept_makeWay file fs n⟩
  | append h | sync h | rename h => exact ⟨_, h.kept hu⟩

/-- An effect that fails has not replaced the file, whatever part of it is done. -/
theorem fault (hu : Unlinked file (fs.makeWay file n)) (h : Underway file bytes fs n d.files (e :: pending))
    {reason : IoError} (heffect : d.perform e = (later, .error reason)) : ∃ made, Kept file fs made later.files := by
  have hkept := h.kept hu
  have hended := perform_eq_error heffect
  generalize later.files = ended at hended ⊢
  generalize d.files = cur at h hkept hended
  cases h with
  | directories =>
    rcases hended with ⟨done, rfl⟩ | hended
    · obtain ⟨m, hm⟩ := interrupted_parentOf fs file done
      exact ⟨_, hm ▸ kept_makeWay file fs m⟩
    · have hmade : ended = fs.makeWay file (wayOf file).length := by
        rw [← makeDirectories_parentOf]
        exact (congrArg Prod.fst hended).symm
      exact ⟨_, hmade ▸ kept_makeWay file fs _⟩
  | append h =>
    rcases hended with ⟨done, rfl⟩ | hended
    · exact ⟨_, h.kept_append hu _⟩
    · rw [outcome_eq_error hended]
      exact hkept
  | create | rename h =>
    rcases hended with ⟨done, rfl⟩ | hended
    · exact hkept
    · rw [outcome_eq_error hended]
      exact hkept
  | sync h =>
    rcases hended with ⟨done, rfl⟩ | hended
    · exact hkept
    · cases (Prod.mk.inj hended).2

/-- An effect that is done brings the replacement one stage further. -/
theorem advance (hn : n = (wayOf file).length) (hu : Unlinked file (fs.makeWay file n))
    (h : Underway file bytes fs n d.files (e :: pending)) (heffect : d.perform e = (later, .ok ())) :
    Underway file bytes fs n later.files pending := by
  have hdone := perform_eq_ok heffect
  generalize d.files = cur at h hdone
  cases h with
  | directories =>
    have hfiles : later.files = fs.makeWay file n := by
      rw [hn, ← makeDirectories_parentOf]
      exact (congrArg Prod.fst hdone).symm
    rw [hfiles]
    exact .create
  | create =>
    obtain ⟨q, trail, number, hbeside⟩ := Beside.create hu (outcome_eq_ok hdone)
    exact .append hbeside
  | append h => exact .sync (h.append hu (outcome_eq_ok hdone))
  | sync h =>
    rw [← (Prod.mk.inj hdone).1]
    exact .rename h
  | rename h => exact .done (h.rename hu (outcome_eq_ok hdone))

/-- A replacement that is stopped has come as far as its effects were done, and has not replaced
    the file if one of them failed. -/
theorem performAll (hn : n = (wayOf file).length) (hu : Unlinked file (fs.makeWay file n))
    (h : Underway file bytes fs n d.files pending) (k : Nat) :
    (∀ reason, (d.performAll (pending.take k)).2 = .error reason →
        ∃ made, Kept file fs made (d.performAll (pending.take k)).1.files) ∧
      ((d.performAll (pending.take k)).2 = .ok () →
        Underway file bytes fs n (d.performAll (pending.take k)).1.files (pending.drop k)) := by
  induction k generalizing d pending with
  | zero =>
    refine ⟨fun reason hreason => ?_, fun _ => h⟩
    cases hreason
  | succ k ih =>
    cases pending with
    | nil =>
      refine ⟨fun reason hreason => ?_, fun _ => h⟩
      cases hreason
    | cons e pending =>
      rw [List.take_succ_cons, List.drop_succ_cons, Device.performAll]
      cases heffect : d.perform e with
      | mk later done =>
        cases done with
        | ok _ => exact ih (h.advance hn hu heffect)
        | error reason =>
          refine ⟨fun _ _ => h.fault hu heffect, fun hok => ?_⟩
          cases hok

end Underway

/-- A replacement does its effects and tells of a failure as a fault. -/
theorem replace_eq {σ : Type} [Files σ] (file : String) (bytes : Bytes) (d : Device σ) :
    replace file bytes d = ((d.performAll (replacement file bytes)).1,
      (d.performAll (replacement file bytes)).2.mapError .io) := by
  rw [replace]

/-- Without links the staging file is unlinked. -/
theorem unlinked_of_pictures {v : Volume} {tree : FileSystem} (h : Pictures v tree) : Unlinked file v := by
  constructor
  · exact fun q _ => ⟨h.isLink q, fun number p hq hp => h.single p q number hp hq⟩
  · intro p q _ hlink
    cases (h.isLink p).symm.trans hlink

/-- **Without links every replacement is atomic.** On a disk it ends as on a device with links that
    holds the same, and there nothing is asked for. -/
theorem replace_linkless (file : String) (bytes : Bytes) (disk : Disk) :
    ∃ d : Device Volume, Pictures d.files disk.files ∧ d.faults = disk.faults ∧
      Unlinked file (Files.makeDirectories d.files (parentOf file)).1 ∧
      (replace file bytes d).2 = (replace file bytes disk).2 ∧
      Pictures (replace file bytes d).1.files (replace file bytes disk).1.files ∧
      restore file (replace file bytes d).1.files = restore file (replace file bytes disk).1.files := by
  have hstart := pictures_volume disk.files
  have hmade := simulates_pictures.makeDirectories hstart (parentOf file)
  obtain ⟨hfiles, hdone⟩ :=
    simulates_pictures.performAll ⟨disk.files.volume, disk.faults⟩ disk hstart rfl (replacement file bytes)
  refine ⟨⟨disk.files.volume, disk.faults⟩, hstart, rfl, unlinked_of_pictures hmade.1, ?_⟩
  rw [replace_eq, replace_eq]
  dsimp only
  exact ⟨congrArg (Except.mapError Fault.io) hdone, hfiles, restore_congr (simulates_pictures.read hfiles file)⟩

-- ── Where a replacement is not atomic ───────────────────────────────────────

/-- A file whose other name is that of its staging file. -/
def twice : Volume :=
  .ofNames [(["f"], .file 0), (["f.in_progress"], .file 0)] [Bytes.ofText "old checkpoint"] (by decide)

end Checkpoint

end MetricDepot
