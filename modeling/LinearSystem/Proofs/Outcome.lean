import LinearSystem.Command.Run
import LinearSystem.Proofs.Json.Written
import LinearSystem.Proofs.Refusal
import LinearSystem.Stored.Folder

namespace LinearSystem.Command

open Json (Value)
open Json.Reader (runText skip)

/-- The input file holds a system whose parts fit together, and what the command line gives takes
the place of the file's settings. -/
structure Ready (read : String → Except ReadFailure ByteArray) (a : Arguments) (s : StoredSystem)
    (A : DenseMatrix Float s.matrix.length (width s.matrix)) (b : Vector Float s.matrix.length)
    (settings : Settings) : Prop where
  load : StoredSystem.load read a.input = .ok s
  shape : s.toDense = .ok (A, b)
  tolerance : settings.tolerance = a.tolerance.or s.settings.tolerance
  pivoting : settings.pivoting = a.pivoting.getD s.settings.pivoting
  zeroRows : settings.zeroRows = if a.symmetricZeroRow then .symmetric else s.settings.zeroRows

/-- The input of a run is bad. -/
inductive Rejected (read : String → Except ReadFailure ByteArray) (a : Arguments) : Prop
  | load {e} (h : StoredSystem.load read a.input = .error e)
  | shape {s e} (h : StoredSystem.load read a.input = .ok s) (hs : s.toDense = .error e)
  | classify {s A b settings e} (h : Ready read a s A b settings) (hask : a.rankOnly = true)
      (he : classify settings A b.toList = .error e) (hinvalid : e.isInvalidInput = true)
  | solve {s A b settings e} (h : Ready read a s A b settings) (hask : a.rankOnly = false)
      (he : solve settings A b.toList = .error e) (hinvalid : e.isInvalidInput = true)

/-- A run looks for a solution and there is none. -/
inductive Unsolved (read : String → Except ReadFailure ByteArray) (a : Arguments) : Prop
  | zeroRow {s A b settings row rhs} (h : Ready read a s A b settings) (hask : a.rankOnly = false)
      (he : solve settings A b.toList = .error (.zeroRow row rhs))
  | inconsistent {s A b settings r r' d} (h : Ready read a s A b settings)
      (hask : a.rankOnly = false) (he : solve settings A b.toList = .error (.inconsistent r r' d))

/-- A report on what a run found out. -/
inductive Reported (read : String → Except ReadFailure ByteArray) (a : Arguments) : String → Prop
  | ranks {s A b settings r} (h : Ready read a s A b settings) (hask : a.rankOnly = true)
      (hr : classify settings A b.toList = .ok r) : Reported read a (ranksReport r a.format)
  | solution {s A b settings solution} (h : Ready read a s A b settings)
      (hask : a.rankOnly = false) (hs : solve settings A b.toList = .ok solution) :
      Reported read a (solutionReport solution a.format)
  | noSolution {s A b settings e} (h : Ready read a s A b settings) (hask : a.rankOnly = false)
      (he : solve settings A b.toList = .error e) (hno : e.isNoSolution = true) :
      Reported read a (noSolutionReport e a.format)

/-- One object in the format of data, as it is written and as it is read. -/
def IsDataReport (text : String) : Prop :=
  (∃ members, text = (Value.object members).pretty 0) ∧ runText skip text = .ok ()

/-- The ways in which a run ends. -/
inductive Ends (wording : Wording) (read : String → Except ReadFailure ByteArray) (a : Arguments) :
    Outcome → Prop
  | unread {e} (h : StoredSystem.load read a.input = .error e) :
      Ends wording read a (.rejected "" (loadComplaint wording a.input e))
  | misshapen {s e} (h : StoredSystem.load read a.input = .ok s) (hs : s.toDense = .error e) :
      Ends wording read a
        (.rejected "" (line s!"Error: {(LoadError.invalidSystem e).message wording.parser}"))
  | ranks {s A b settings r} (h : Ready read a s A b settings) (hask : a.rankOnly = true)
      (hr : classify settings A b.toList = .ok r) :
      Ends wording read a (.success (heading a s ++ ranksReport r a.format))
  | unranked {s A b settings e} (h : Ready read a s A b settings) (hask : a.rankOnly = true)
      (he : classify settings A b.toList = .error e) :
      Ends wording read a (.rejected (heading a s) (line s!"Error: {e.message}"))
  | solved {s A b settings solution} (h : Ready read a s A b settings) (hask : a.rankOnly = false)
      (hs : solve settings A b.toList = .ok solution) :
      Ends wording read a (.success (heading a s ++ solutionReport solution a.format))
  | unsolved {s A b settings e} (h : Ready read a s A b settings) (hask : a.rankOnly = false)
      (he : solve settings A b.toList = .error e) (hno : e.isNoSolution = true) :
      Ends wording read a (.noSolution (heading a s ++ noSolutionReport e a.format))
  | refused {s A b settings e} (h : Ready read a s A b settings) (hask : a.rankOnly = false)
      (he : solve settings A b.toList = .error e) (hinvalid : e.isNoSolution = false) :
      Ends wording read a (.rejected (heading a s) (line s!"Error: {e.message}"))

variable {wording : Wording} {read : String → Except ReadFailure ByteArray} {a : Arguments}
  {s : StoredSystem} {A : DenseMatrix Float s.matrix.length (width s.matrix)}
  {b : Vector Float s.matrix.length} {settings : Settings} {out : Outcome}

theorem Ready.settings_eq (h : Ready read a s A b settings) : settings = a.settings s.settings := by
  obtain ⟨-, -, htolerance, hpivoting, hzeroRows⟩ := h
  cases settings
  simp_all [Arguments.settings]

theorem ready (hload : StoredSystem.load read a.input = .ok s) (hshape : s.toDense = .ok (A, b)) :
    Ready read a s A b (a.settings s.settings) :=
  ⟨hload, hshape, rfl, rfl, rfl⟩

theorem Ready.respond_eq (h : Ready read a s A b settings) :
    respond wording read a = if a.rankOnly then ranksOutcome a s A b else solveOutcome a s A b := by
  simp only [respond, h.load, h.shape]

theorem Ends.eq_respond (h : Ends wording read a out) : out = respond wording read a := by
  cases h with
  | unread h => simp only [respond, h]
  | misshapen h hs => simp only [respond, h, hs]
  | ranks h hask hr =>
    rw [h.settings_eq] at hr
    rw [h.respond_eq, if_pos hask, ranksOutcome, hr]
  | unranked h hask he =>
    rw [h.settings_eq] at he
    rw [h.respond_eq, if_pos hask, ranksOutcome, he]
  | solved h hask hs =>
    rw [h.settings_eq] at hs
    rw [h.respond_eq, hask, if_neg Bool.false_ne_true, solveOutcome, hs]
  | unsolved h hask he hno =>
    rw [h.settings_eq] at he
    rw [h.respond_eq, hask, if_neg Bool.false_ne_true, solveOutcome, he]
    exact (if_pos hno).symm
  | refused h hask he hinvalid =>
    rw [h.settings_eq] at he
    rw [h.respond_eq, hask, if_neg Bool.false_ne_true, solveOutcome, he]
    exact (if_neg (by simp [hinvalid])).symm

theorem exists_ends (wording : Wording) (read : String → Except ReadFailure ByteArray)
    (a : Arguments) :
    ∃ out, Ends wording read a out := by
  cases hload : StoredSystem.load read a.input with
  | error e => exact ⟨_, .unread hload⟩
  | ok s =>
    cases hshape : s.toDense with
    | error e => exact ⟨_, .misshapen hload hshape⟩
    | ok system =>
      obtain ⟨A, b⟩ := system
      have h := ready hload hshape
      cases hask : a.rankOnly with
      | true =>
        cases hr : classify (a.settings s.settings) A b.toList with
        | ok r => exact ⟨_, .ranks h hask hr⟩
        | error e => exact ⟨_, .unranked h hask hr⟩
      | false =>
        cases hs : solve (a.settings s.settings) A b.toList with
        | ok solution => exact ⟨_, .solved h hask hs⟩
        | error e =>
          cases hno : e.isNoSolution with
          | true => exact ⟨_, .unsolved h hask hs hno⟩
          | false => exact ⟨_, .refused h hask hs hno⟩

theorem ends_respond (wording : Wording) (read : String → Except ReadFailure ByteArray)
    (a : Arguments) :
    Ends wording read a (respond wording read a) := by
  obtain ⟨out, h⟩ := exists_ends wording read a
  exact h.eq_respond ▸ h

theorem run_eq {args : List String} (h : Arguments.ofList? args = some a) :
    run wording read args = respond wording read a := by
  rw [run, h]

/-- No file is looked at but the input file. -/
theorem respond_congr {read' : String → Except ReadFailure ByteArray}
    (h : read' a.input = read a.input) : respond wording read' a = respond wording read a := by
  simp only [respond, StoredSystem.load, h]

section Status

theorem Rejected.status_eq (h : Rejected read a) : (respond wording read a).status = 2 := by
  cases h with
  | load h => rw [← (Ends.unread h).eq_respond]; rfl
  | shape h hs => rw [← (Ends.misshapen h hs).eq_respond]; rfl
  | classify h hask he => rw [← (Ends.unranked h hask he).eq_respond]; rfl
  | solve h hask he hinvalid =>
    rw [SolveError.isInvalidInput, Bool.not_eq_true'] at hinvalid
    rw [← (Ends.refused h hask he hinvalid).eq_respond]; rfl

theorem Unsolved.status_eq (h : Unsolved read a) : (respond wording read a).status = 1 := by
  cases h with
  | zeroRow h hask he => rw [← (Ends.unsolved h hask he rfl).eq_respond]; rfl
  | inconsistent h hask he => rw [← (Ends.unsolved h hask he rfl).eq_respond]; rfl

/-- The status of a run, with its reason. -/
theorem Ends.status (h : Ends wording read a out) :
    out.status = 0 ∨ out.status = 1 ∧ Unsolved read a ∨ out.status = 2 ∧ Rejected read a := by
  cases h with
  | unread h => exact .inr (.inr ⟨rfl, .load h⟩)
  | misshapen h hs => exact .inr (.inr ⟨rfl, .shape h hs⟩)
  | ranks => exact .inl rfl
  | unranked h hask he =>
    exact .inr (.inr ⟨rfl, .classify h hask he (classify_eq_error_iff.mp he).2⟩)
  | solved => exact .inl rfl
  | @unsolved s A b settings e h hask he hno =>
    refine .inr (.inl ⟨rfl, ?_⟩)
    cases e with
    | zeroRow row rhs => exact .zeroRow h hask he
    | inconsistent r r' d => exact .inconsistent h hask he
    | _ => cases hno
  | refused h hask he hinvalid =>
    exact .inr (.inr ⟨rfl, .solve h hask he (by rw [SolveError.isInvalidInput, hinvalid]; rfl)⟩)

theorem status_eq_two_iff : (respond wording read a).status = 2 ↔ Rejected read a := by
  refine ⟨fun hstatus => ?_, Rejected.status_eq⟩
  rcases (ends_respond wording read a).status with hzero | hone | htwo
  · omega
  · omega
  · exact htwo.2

theorem status_eq_one_iff : (respond wording read a).status = 1 ↔ Unsolved read a := by
  refine ⟨fun hstatus => ?_, Unsolved.status_eq⟩
  rcases (ends_respond wording read a).status with hzero | hone | htwo
  · omega
  · exact hone.2
  · omega

theorem status_eq_zero_iff :
    (respond wording read a).status = 0 ↔ ¬Rejected read a ∧ ¬Unsolved read a := by
  rw [← @status_eq_two_iff wording, ← @status_eq_one_iff wording]
  rcases (ends_respond wording read a).status with hzero | hone | htwo
  · omega
  · omega
  · omega

end Status

section Streams

theorem line_ne_empty (text : String) : line text ≠ "" := by
  simp [line]

theorem heading_cases (a : Arguments) (s : StoredSystem) :
    heading a s = "" ∨
      a.format = .text ∧ s.description ≠ "" ∧ heading a s = s.description ++ "\n" := by
  unfold heading
  split
  next => exact .inl rfl
  next hshown =>
    rw [Bool.or_eq_true, not_or] at hshown
    refine .inr ⟨?_, by simpa using hshown.1, rfl⟩
    cases hformat : a.format with
    | text => rfl
    | json => simp [hformat] at hshown

theorem heading_json (h : a.format = .json) (s : StoredSystem) : heading a s = "" := by
  simp [heading, h]

theorem dataReport_eq_line (members : List (String × Value)) :
    ∃ report, dataReport members = report ++ "\n" ∧ IsDataReport report :=
  ⟨(Value.object members).pretty 0, rfl, ⟨members, rfl⟩, Json.runText_skip_pretty _ 0⟩

theorem Reported.exists_dataReport {text : String} (h : Reported read a text)
    (hjson : a.format = .json) : ∃ report, text = report ++ "\n" ∧ IsDataReport report := by
  cases h with
  | ranks =>
    rw [hjson]
    exact dataReport_eq_line _
  | solution =>
    rw [hjson]
    exact dataReport_eq_line _
  | noSolution =>
    rw [hjson]
    exact dataReport_eq_line _

/-- Something is said about a run that is refused, and about no other. -/
theorem Ends.stderr (h : Ends wording read a out) : out.stderr ≠ "" ↔ out.status = 2 := by
  cases h with
  | unread => exact ⟨fun _ => rfl, fun _ => line_ne_empty _⟩
  | misshapen => exact ⟨fun _ => rfl, fun _ => line_ne_empty _⟩
  | unranked => exact ⟨fun _ => rfl, fun _ => line_ne_empty _⟩
  | refused => exact ⟨fun _ => rfl, fun _ => line_ne_empty _⟩
  | ranks => exact ⟨fun hsaid => absurd rfl hsaid, fun hstatus => nomatch hstatus⟩
  | solved => exact ⟨fun hsaid => absurd rfl hsaid, fun hstatus => nomatch hstatus⟩
  | unsolved => exact ⟨fun hsaid => absurd rfl hsaid, fun hstatus => nomatch hstatus⟩

theorem Ends.stdout_of_rejected (h : Ends wording read a out) (hstatus : out.status = 2) :
    out.stdout = "" ∨ a.format = .text ∧ ∃ s A b settings, Ready read a s A b settings ∧
      s.description ≠ "" ∧ out.stdout = s.description ++ "\n" := by
  cases h with
  | unread => exact .inl rfl
  | misshapen => exact .inl rfl
  | @unranked s A b settings e h =>
    refine (heading_cases a s).imp_right fun hshown => ?_
    exact ⟨hshown.1, s, A, b, settings, h, hshown.2⟩
  | @refused s A b settings e h =>
    refine (heading_cases a s).imp_right fun hshown => ?_
    exact ⟨hshown.1, s, A, b, settings, h, hshown.2⟩
  | _ => cases hstatus

theorem Ends.reported (h : Ends wording read a out) (hjson : a.format = .json)
    (hstatus : out.status ≠ 2) : Reported read a out.stdout := by
  have hheading (s : StoredSystem) (text : String) : heading a s ++ text = text := by
    rw [heading_json hjson, String.empty_append]
  cases h with
  | @ranks s A b settings r h hask hr =>
    change Reported read a (heading a s ++ ranksReport r a.format)
    rw [hheading]
    exact .ranks h hask hr
  | @solved s A b settings solution h hask hs =>
    change Reported read a (heading a s ++ solutionReport solution a.format)
    rw [hheading]
    exact .solution h hask hs
  | @unsolved s A b settings e h hask he hno =>
    change Reported read a (heading a s ++ noSolutionReport e a.format)
    rw [hheading]
    exact .noSolution h hask he hno
  | _ => exact absurd rfl hstatus

end Streams

/-- What a run tells its caller, wherever its input file is read from: the status sorts bad input,
systems without a solution and everything else; complaints go with bad input only, and a report in
the format of data stands alone. -/
theorem run_outcome (wording : Wording) (read : String → Except ReadFailure ByteArray)
    {args : List String} {a : Arguments} (h : Arguments.ofList? args = some a) :
    ((run wording read args).status = 2 ↔ Rejected read a) ∧
    ((run wording read args).status = 1 ↔ Unsolved read a) ∧
    ((run wording read args).status = 0 ↔ ¬Rejected read a ∧ ¬Unsolved read a) ∧
    ((run wording read args).stderr ≠ "" ↔ (run wording read args).status = 2) ∧
    ((run wording read args).status = 2 →
      (run wording read args).stdout = "" ∨
        a.format = .text ∧ ∃ s A b settings, Ready read a s A b settings ∧
          s.description ≠ "" ∧ (run wording read args).stdout = s.description ++ "\n") ∧
    (a.format = .json → (run wording read args).status ≠ 2 →
      Reported read a (run wording read args).stdout ∧
        ∃ report, (run wording read args).stdout = report ++ "\n" ∧ IsDataReport report) ∧
    ∀ read', read' a.input = read a.input → run wording read' args = run wording read args := by
  simp only [run_eq h]
  have hends := ends_respond wording read a
  refine ⟨status_eq_two_iff, status_eq_one_iff, status_eq_zero_iff, hends.stderr,
    hends.stdout_of_rejected, fun hjson hstatus => ?_, fun _ => respond_congr⟩
  have hreported := hends.reported hjson hstatus
  exact ⟨hreported, hreported.exists_dataReport hjson⟩

/-- A folder with one file, with a tolerance that no run accepts. -/
def negativeTolerance : Folder :=
  [("s.json", .file
    "\x7b\"matrix\":[[0]],\"rhs\":[1],\"solver\":\x7b\"tolerance\":-1\x7d\x7d".toUTF8)]

/-- With another tolerance on the command line that of the file does no harm. -/
theorem run_outcome_tolerance_overridden :
    let wording : Wording := ⟨fun _ => "usage", fun _ => "malformed"⟩
    let args := ["--input=s.json", "--format=json", "--tolerance=0"]
    ∃ a, Arguments.ofList? args = some a ∧ Unsolved negativeTolerance.read a ∧
      Reported negativeTolerance.read a (run wording negativeTolerance.read args).stdout ∧
      ∃ report, (run wording negativeTolerance.read args).stdout = report ++ "\n" ∧
        IsDataReport report := by
  intro wording args
  have haccepted : (Arguments.ofList? args).map (·.format) = some .json := by
    decide +kernel
  obtain ⟨a, h, hjson⟩ := Option.map_eq_some_iff.mp haccepted
  have hstatus : (run wording negativeTolerance.read args).status = 1 := by
    decide +kernel
  obtain ⟨-, hunsolved, -, -, -, hreport, -⟩ := run_outcome wording negativeTolerance.read h
  exact ⟨a, h, hunsolved.mp hstatus, hreport hjson (by omega)⟩

end LinearSystem.Command
