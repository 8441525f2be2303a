import IncrementalBackup.CommandLine.Run
import IncrementalBackup.Proofs.Json.Format
import IncrementalBackup.Proofs.Scan.FullScan
import IncrementalBackup.Proofs.Time.Timestamp
import IncrementalBackup.Storage.MemoryTree

/-!
# A time that a scan has found can start the next scan

The report of a scan shows the time of the change that it has found. Given back as the time since
which to look, it is the same instant to the nanosecond, so the node that was found is not newer.
-/

namespace IncrementalBackup.CommandLine

variable {σ : Type} [Storage σ]

theorem readSince_eq_ok {text : String} {t : Instant} :
    readSince text = .ok t ↔ Rfc3339.timestamp? text = some t := by
  unfold readSince
  cases Rfc3339.timestamp? text with
  | none => simp
  | some t' => simp

theorem fields?_foundAt {path : Option Path} {date : DateTime} {stats : ScanStats} {v : Json}
    (h : (Report.scanned path (some date) stats).toJson? = some v) :
    Json.fields? ["found_at"] v = some [some (.ofString date.rfc3339)] := by
  simp only [Report.toJson?, Option.bind_eq_bind, Option.bind_eq_some_iff] at h
  obtain ⟨shownPath, -, foundAt, hfoundAt, h⟩ := h
  cases hfoundAt
  cases h
  rfl

theorem runScan_of_foundAt? {s : Settings} {root : Path} {since time : Instant}
    {maxDepth : Option Nat} {hint : Option Path} {world : σ} {date : DateTime}
    (hfound : (Scan.withStats (Storage.view world)
      ⟨root, since, maxDepth.getD s.scan.maxDepth.toNat, hint⟩).1.foundAt? = some time)
    (hdate : DateTime.ofInstant? time = some date) :
    ∃ path stats, runScan s root since maxDepth hint world =
      .ok (.scanned path (some date) stats) := by
  simp only [runScan, hfound, hdate]
  exact ⟨_, _, rfl⟩

/-- Both forms of a backup time are read back: the text of an instant in a year of four digits gives
this instant, and a number of milliseconds gives an instant of so many milliseconds. So the time in
the report of a scan is the time of the change when it is given to another scan. -/
theorem timestamps_read_back :
    (∀ t : Instant, 0 ≤ t.year → t.year ≤ 9999 → ∃ date text, DateTime.ofInstant? t = some date ∧
      JsonFormat.toJson? date = some (.ofString text) ∧ Rfc3339.timestamp? text = some t) ∧
    (∀ millis : UInt64, ∃ t, Rfc3339.timestamp? (Decimal.ofNat millis.toNat) = some t ∧
      t.toMillis = millis) ∧
    (∀ (σ : Type) [Storage σ] (s : Settings) (root : Path) (since time : Instant)
      (maxDepth : Option Nat) (hint : Option Path) (world : σ),
      (Scan.withStats (Storage.view world)
        ⟨root, since, maxDepth.getD s.scan.maxDepth.toNat, hint⟩).1.foundAt? = some time →
      0 ≤ time.year → time.year ≤ 9999 →
      ∃ report text, runScan s root since maxDepth hint world = .ok report ∧
        (∀ v, report.toJson? = some v →
          Json.fields? ["found_at"] v = some [some (.ofString text)]) ∧
        readSince text = .ok time) := by
  have hinstant : ∀ t : Instant, 0 ≤ t.year → t.year ≤ 9999 → ∃ date,
      DateTime.ofInstant? t = some date ∧ Rfc3339.timestamp? date.rfc3339 = some t := by
    intro t hfirst hlast
    have hdate := DateTime.ofInstant?_of_year hfirst hlast
    exact ⟨_, hdate, DateTime.timestamp?_ofInstant? hdate hfirst hlast⟩
  refine ⟨?_, ?_, ?_⟩
  · intro t hfirst hlast
    obtain ⟨date, hdate, hread⟩ := hinstant t hfirst hlast
    exact ⟨date, date.rfc3339, hdate, rfl, hread⟩
  · intro millis
    exact ⟨.ofMillis millis, Rfc3339.timestamp?_ofNat millis, Instant.toMillis_ofMillis millis⟩
  · intro σ _ s root since time maxDepth hint world hfound hfirst hlast
    obtain ⟨date, hdate, hread⟩ := hinstant time hfirst hlast
    obtain ⟨path, stats, hscan⟩ := runScan_of_foundAt? hfound hdate
    exact ⟨_, date.rfc3339, hscan, fun v => fields?_foundAt, readSince_eq_ok.mpr hread⟩

/-- A directory that has changed just before the epoch. -/
def beforeEpoch : MemoryTree := (MemoryTree.empty .epoch).addDirectory (.ofString "/r") ⟨-1⟩

theorem withStats_beforeEpoch :
    Scan.withStats (Storage.view beforeEpoch) ⟨.ofString "/r", ⟨-2⟩, 0, none⟩ =
      (.changed .here ⟨-1⟩, ⟨1, 0, 0, some .fullScan⟩) := by
  have hroot : (Storage.view beforeEpoch).metadataFollow (.ofString "/r") =
      .ok ⟨.directory, 0, some ⟨-1⟩⟩ := by decide
  rw [Scan.withStats_of_no_hint hroot rfl rfl]
  rfl

theorem timestamps_read_back_before_epoch :
    (0 ≤ Instant.year ⟨-62167219200000000000⟩ ∧ Instant.year ⟨-62167219200000000000⟩ ≤ 9999 ∧
      Rfc3339.timestamp? "0000-01-01T00:00:00Z" = some ⟨-62167219200000000000⟩) ∧
    (∃ t, Rfc3339.timestamp? "18446744073709551615" = some t ∧
      t.toMillis = 18446744073709551615) ∧
    ((Scan.withStats (Storage.view beforeEpoch) ⟨.ofString "/r", ⟨-2⟩, 0, none⟩).1.foundAt? =
        some ⟨-1⟩ ∧
      0 ≤ Instant.year ⟨-1⟩ ∧ Instant.year ⟨-1⟩ ≤ 9999 ∧
      ∃ report v, runScan (.default .here) (.ofString "/r") ⟨-2⟩ (some 0) none beforeEpoch =
          .ok report ∧
        report.toJson? = some v ∧ Json.fields? ["found_at"] v =
          some [some (.ofString "1969-12-31T23:59:59.999999999Z")] ∧
        readSince "1969-12-31T23:59:59.999999999Z" = .ok ⟨-1⟩) := by
  obtain ⟨hinstants, hmillis, hscans⟩ := timestamps_read_back
  have hfound : (Scan.withStats (Storage.view beforeEpoch)
      ⟨.ofString "/r", ⟨-2⟩, 0, none⟩).1.foundAt? = some ⟨-1⟩ := by rw [withStats_beforeEpoch]; rfl
  refine ⟨⟨by decide, by decide, ?_⟩, hmillis 18446744073709551615, hfound, by decide, by decide, ?_⟩
  · obtain ⟨date, text, hdate, htext, hread⟩ :=
      hinstants ⟨-62167219200000000000⟩ (by decide) (by decide)
    cases hdate
    cases htext
    exact hread
  · obtain ⟨report, text, hscan, hfield, hread⟩ := hscans MemoryTree (.default .here)
      (.ofString "/r") ⟨-2⟩ ⟨-1⟩ (some 0) none beforeEpoch hfound (by decide) (by decide)
    have hreport : runScan (.default .here) (.ofString "/r") ⟨-2⟩ (some 0) none beforeEpoch =
        .ok (.scanned (some .here) (some ⟨-1, 999999999⟩) ⟨1, 0, 0, some .fullScan⟩) := by
      simp only [runScan, Option.getD_some, withStats_beforeEpoch]
      rfl
    obtain rfl := Except.ok.inj (hscan.symm.trans hreport)
    have htext := hfield _ rfl
    cases htext
    exact ⟨_, _, hreport, rfl, rfl, hread⟩

end IncrementalBackup.CommandLine
