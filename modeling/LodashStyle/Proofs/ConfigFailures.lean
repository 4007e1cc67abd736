import LodashStyle.Proofs.Precedence

/-!
# How configuration fails

A run first looks for its configuration: in the nearest manifest, in the environment, in a
configuration file and on the command line.  What is wrong there is meant to be reported, and the run
ends with a status.  Two kinds of data escape this: bytes that are no UTF-8, and numbers with more
digits than are read.  They end the run without a status, and nothing else does.

## Key results

- `Store.readDocument_eq_error_iff`, `Npm.detect_eq_data_iff`, `Command.resolve_eq_data_iff`: the data
  that escapes, file by file
- `Config.usable_of_check`: a configuration that is accepted is usable
- `Command.configuration_reported_iff`: the ends of a configuration
-/

namespace LodashStyle

/-! ## Data without a report -/

/-- A fault in the file that a path leads to: bytes that are no UTF-8, or a numeral of the JSON text
    in it that is too long. -/
inductive Store.Faulty (s : Store) (p : FilePath) : DataFault → Prop where
  | undecodable {l : Location} {bytes : List UInt8} {fault : Utf8.DecodeFault} :
      s.follow p = .ok (l, .file bytes) → Utf8.decode bytes = .error fault →
        Faulty s p (.undecodable fault)
  | numeral {l : Location} {bytes : List UInt8} {cs : List Char} {digits : Nat} :
      s.follow p = .ok (l, .file bytes) → Utf8.decode bytes = .ok cs →
        Json.parse (normalizeLines cs) = .error (.numeralTooLong digits) →
          Faulty s p (.numeralTooLong digits)

/-- A file with a fault in its data is there. -/
theorem Store.Faulty.follow {s : Store} {p : FilePath} {fault : DataFault} (h : s.Faulty p fault) :
    ∃ l bytes, s.follow p = .ok (l, .file bytes) := by
  cases h with
  | undecodable hfollow _ => exact ⟨_, _, hfollow⟩
  | numeral hfollow _ _ => exact ⟨_, _, hfollow⟩

/-- A path that leads to a file is read as what its bytes decode to. -/
theorem Store.readText_of_file {s : Store} {p : FilePath} {l : Location} {bytes : List UInt8}
    (h : s.follow p = .ok (l, .file bytes)) :
    s.readText p = match Utf8.decode bytes with
      | .ok cs => .ok (normalizeLines cs)
      | .error fault => .error (.undecodable fault) := by
  rw [readText, readBytes, h]
  rfl

/-- A path that leads to no file is not read for a reason that can be reported. -/
theorem Store.readText_of_no_file {s : Store} {p : FilePath}
    (h : ¬∃ l bytes, s.follow p = .ok (l, .file bytes)) :
    ∃ reason, s.readText p = .error (.file reason p.text) := by
  unfold readText readBytes
  cases hfollow : s.follow p with
  | error reason => exact ⟨reason, rfl⟩
  | ok found =>
    obtain ⟨l, e⟩ := found
    cases e with
    | directory => exact ⟨.isDirectory, rfl⟩
    | file bytes => exact absurd ⟨l, bytes, hfollow⟩ h

/-- The reading of a file fails at a fault in it only; a file that is missing, or one whose text is
    malformed, is read as such. -/
theorem Store.readDocument_eq_error_iff {s : Store} {p : FilePath} {fault : DataFault} :
    s.readDocument p = .error fault ↔ s.Faulty p fault := by
  by_cases hfile : ∃ l bytes, s.follow p = .ok (l, .file bytes)
  · obtain ⟨l, bytes, hfollow⟩ := hfile
    rw [readDocument, readText_of_file hfollow]
    constructor
    · intro h
      cases hdecode : Utf8.decode bytes with
      | error e =>
        rw [hdecode] at h
        obtain rfl := Except.error.inj h
        exact .undecodable hfollow hdecode
      | ok cs =>
        rw [hdecode] at h
        dsimp only at h
        -- A text that is malformed is found to be so; only a numeral can stop the reading.
        split at h
        · cases h
        · cases h
        · rename_i digits hparse
          obtain rfl := Except.error.inj h
          exact .numeral hfollow hdecode hparse
    · intro h
      cases h with
      | undecodable hfollow' hdecode =>
        obtain ⟨-, heq⟩ := Prod.mk.inj (Except.ok.inj (hfollow.symm.trans hfollow'))
        rw [FileEntry.file.inj heq, hdecode]
      | numeral hfollow' hdecode hparse =>
        obtain ⟨-, heq⟩ := Prod.mk.inj (Except.ok.inj (hfollow.symm.trans hfollow'))
        rw [FileEntry.file.inj heq, hdecode]
        dsimp only
        rw [hparse]
  · refine iff_of_false (fun h => ?_) fun h => hfile h.follow
    obtain ⟨reason, hreason⟩ := readText_of_no_file hfile
    rw [readDocument, hreason] at h
    cases h

/-! ## Manifests -/

namespace Npm

/-- The manifest nearest to a path. -/
def nearest? (s : Store) (p : FilePath) : Option FilePath :=
  ((upward (searchStart s p)).map manifestIn).find? fun m => (s.follow m).isOk

/-- A fault at which the search for a major fails without a report: one of the manifest, or a number
    of the declared range that is too long. -/
inductive Faulty (s : Store) (p : FilePath) : DataFault → Prop where
  | manifest {m : FilePath} {fault : DataFault} :
      nearest? s p = some m → s.Faulty m fault → Faulty s p fault
  | range {m : FilePath} {members : Json.Members} {range : Text} {digits : Nat} :
      nearest? s p = some m → s.readDocument m = .ok (.value (.object members)) →
        declaredRange? members = some range → majorOf range = .error (.numeralTooLong digits) →
          Faulty s p (.numeralTooLong digits)

/-- What the search in one manifest comes to. -/
theorem outcome_majorIn (s : Store) (m : FilePath) :
    (majorIn s m).outcome =
      match s.readDocument m with
      | .error fault => .error (.data fault)
      | .ok (.value (.object members)) =>
        match declaredRange? members with
        | none => .ok none
        | some range => ((majorOf range).mapError .ofRange).map some
      | .ok _ => .ok none := by
  unfold majorIn
  cases s.readDocument m with
  | error fault => rfl
  | ok document =>
    cases document with
    | unreadable reason => rfl
    | value v =>
      cases v with
      | object members =>
        dsimp only
        cases declaredRange? members with
        | none => rfl
        | some range =>
          dsimp only
          rw [Run.outcome_bind, Run.outcome_ofExcept]
          cases majorOf range <;> rfl
      | _ => rfl

theorem detect_eq (s : Store) (p : FilePath) :
    detect s p = match nearest? s p with
      | none => pure none
      | some m => majorIn s m :=
  rfl

/-- Looking for the version fails over the data of the nearest manifest only. -/
theorem detect_eq_data_iff {s : Store} {p : FilePath} {fault : DataFault} :
    (detect s p).outcome = .error (.data fault) ↔ Faulty s p fault := by
  rw [detect_eq]
  constructor
  · intro h
    cases hm : nearest? s p with
    | none =>
      rw [hm] at h
      cases h
    | some m =>
      rw [hm] at h
      dsimp only at h
      rw [outcome_majorIn] at h
      split at h
      · rename_i fault' hfault
        obtain rfl := DetectError.data.inj (Except.error.inj h)
        exact .manifest hm (Store.readDocument_eq_error_iff.1 hfault)
      · rename_i members hmembers
        split at h
        · cases h
        · rename_i range hrange
          cases hmajor : majorOf range with
          | ok major =>
            rw [hmajor] at h
            cases h
          | error failure =>
            rw [hmajor] at h
            -- A range that is refused can be reported, unlike a number that is too long.
            cases failure with
            | refused error => cases h
            | numeralTooLong digits =>
              obtain rfl := DetectError.data.inj (Except.error.inj h)
              exact .range hm hmembers hrange hmajor
      · cases h
  · intro h
    cases h with
    | manifest hm hfaulty =>
      rw [hm]
      dsimp only
      rw [outcome_majorIn, Store.readDocument_eq_error_iff.2 hfaulty]
    | range hm hmembers hrange hmajor =>
      rw [hm]
      dsimp only
      rw [outcome_majorIn, hmembers]
      dsimp only
      rw [hrange]
      dsimp only
      rw [hmajor]
      rfl

end Npm

/-! ## Configurations that are accepted -/

/-- A configuration with a release that is known, a depth at which there is nesting, some rule to run
    and an identifier, if any, that is one. -/
structure Config.Usable (c : Config) : Prop where
  version : c.settings.library.major = 3 ∨ c.settings.library.major = 4
  depth : 2 ≤ c.chaining.depth
  rules : ∃ r, c.rules.contains r = true
  pragma : ∀ name, c.settings.pragma = some name → Text.isIdentifier name = true

/-- A pragma that is accepted is an identifier. -/
theorem Given.isIdentifier_of_pragma {v : Json} {name : Text} (h : pragma v = .ok (some name)) :
    Text.isIdentifier name = true := by
  unfold pragma at h
  split at h
  · exact nomatch h
  · exact nomatch Except.ok.inj h
  · dsimp only at h
    split at h
    · exact nomatch Except.ok.inj h
    · split at h
      · rename_i hname
        rwa [← Option.some.inj (Except.ok.inj h)]
      · exact nomatch h

/-- A configuration that passes the checks can be used. -/
theorem Config.usable_of_check {v : Json} {c : Config} (h : Config.check v = .ok c) : c.Usable where
  version := by cases c.settings.library <;> decide
  depth := c.chaining.two_le_depth
  rules := by
    obtain hchaining | hpath := Bool.or_eq_true_iff.1 c.rules.nonempty
    · exact ⟨.chaining, hchaining⟩
    · exact ⟨.pathStyle, hpath⟩
  pragma := by
    intro name hname
    obtain ⟨g, hg, rfl⟩ := map_eq_ok h
    obtain ⟨members, rfl, -⟩ := Given.check_eq_ok_iff.1 hg
    -- The identifier was read from what is given, or it is the default.
    have hgiven := ConfigOption.reads_givenIn hg .pragma
    have hvalue : some name = (ConfigOption.givenIn g .pragma).getD (ConfigOption.valueIn {} .pragma) :=
      hname.symm.trans (ConfigOption.valueIn_complete g .pragma)
    cases hx : ConfigOption.givenIn g .pragma with
    | none =>
      rw [hx] at hvalue
      obtain rfl : name = "_" := Option.some.inj hvalue
      decide
    | some x =>
      rw [hx] at hvalue hgiven
      obtain ⟨v, -, hread⟩ := hgiven.of_some
      obtain rfl : some name = x := hvalue
      exact Given.isIdentifier_of_pragma hread

/-! ## The configuration of a run -/

namespace Layers

/-- The layer of the manifest fails as the detection does. -/
theorem manifest_eq_error_iff {s : Store} {around : FilePath} {fault : DataFault} :
    (manifest s around).outcome = .error fault ↔ Npm.Faulty s around fault := by
  rw [← Npm.detect_eq_data_iff]
  unfold manifest
  dsimp only
  split
  · rename_i major hmajor
    simp [hmajor, outcome_detected]
  · rename_i error hrange
    simp [hrange]
  · rename_i fault' hfault
    simp [hfault]

/-- Reading a configuration fails over its data, as any file does. -/
theorem readConfig_eq_data_iff {s : Store} {p : FilePath} {fault : DataFault} :
    s.readConfig p = .error (.data fault) ↔ s.Faulty p fault := by
  rw [← Store.readDocument_eq_error_iff]
  unfold Store.readConfig
  split
  · rename_i fault' hfault
    simp [hfault]
  · rename_i reason hreason
    simp [hreason]
  · rename_i members hmembers
    rw [hmembers]
    cases Given.check (.object members) <;> simp [Except.mapError]
  · rename_i v _ hdocument
    simp [hdocument]

/-- The layer of the file fails over the file that is given. -/
theorem file_eq_data_iff {s : Store} {path : Option FilePath} {fault : DataFault} :
    file s path = .error (.data fault) ↔ ∃ p, path = some p ∧ s.Faulty p fault := by
  cases path with
  | none => simp [file]
  | some p => simp [file, map_eq_error_iff, readConfig_eq_data_iff]

end Layers

namespace Command

/-- The configuration of a run fails without a report at a fault of the manifest, or else of the
    configuration file. -/
theorem resolve_eq_data_iff {a : Arguments} {s : Store} {env : Environment} {fault : DataFault} :
    (a.resolve s env).outcome = .error (.data fault) ↔
      Npm.Faulty s (FilePath.parse (a.files.headD [])) fault ∨
        (∀ other, ¬Npm.Faulty s (FilePath.parse (a.files.headD [])) other) ∧
          ∃ p, a.configFile? = some p ∧ s.Faulty p fault := by
  unfold Arguments.resolve Config.resolve
  simp only [Run.outcome_bind, Run.outcome_ofExcept, Run.mapError, ← Layers.manifest_eq_error_iff,
    ← Layers.file_eq_data_iff]
  -- The manifest is read first, so that a fault of the file shows only where the manifest has none.
  cases (Layers.manifest s (FilePath.parse (a.files.headD []))).outcome with
  | error fault' => simp [Except.mapError, bind, Except.bind]
  | ok manifest =>
    cases Layers.file s a.configFile? with
    | error failure => simp [Except.mapError, bind, Except.bind]
    | ok file =>
      dsimp only [bind, Except.bind, Except.mapError]
      cases Config.check (.object (Layers.merge [manifest, Layers.environment env, file, a.layer])) <;>
        simp

/-- What a run does once its configuration is there or is not: it goes on to its files, or it ends
    with a status, or it ends without one. -/
def ConfigEnd (a : Arguments) (s : Store) (env : Environment) : Except ConfigFailure Config → Prop
  | .ok c => c.Usable ∧ ∃ before, runWith a s env =
      finish a (lintFiles c a.fix ⟨s, [], [], 0, none⟩ (s.collect (a.files.map FilePath.parse))) before
  | .error (.refused _) => (runWith a s env).ending = .status 2 ∧ (runWith a s env).store = s
  | .error (.data fault) => (runWith a s env).ending = .crashed (.data fault)

/-- Resolving the options ends in one of the ways named. -/
theorem configEnd_resolve (a : Arguments) (s : Store) (env : Environment) :
    ConfigEnd a s env (a.resolve s env).outcome := by
  unfold ConfigEnd
  split
  · rename_i c hc
    -- The last step of the search is the check of the merged layers.
    obtain ⟨manifest, -, hfile⟩ := Run.bind_eq_ok_iff.1 hc
    obtain ⟨file, -, hcheck⟩ := Run.bind_eq_ok_iff.1 hfile
    refine ⟨Config.usable_of_check (mapError_eq_ok_iff.1 hcheck), (a.resolve s env).log, ?_⟩
    simp only [runWith, hc]
  · rename_i e he
    simp only [runWith, he, and_self]
  · rename_i fault hfault
    simp only [runWith, hfault]

/-- **Failures of the configuration.**  The configuration of a run is a usable one or an error that is
    reported exactly when no fault of the data stands in the way: neither in the nearest manifest nor in
    the configuration file there are bytes that are no UTF-8 or numbers that are too long.  With a
    configuration the run goes on to its files, with an error that is reported it ends with status 2 and
    leaves the store alone, and at a fault it ends without a status. -/
theorem configuration_reported_iff (a : Arguments) (s : Store) (env : Environment) :
    ((∃ c, (a.resolve s env).outcome = .ok c ∧ c.Usable) ∨
        (∃ e, (a.resolve s env).outcome = .error (.refused e)) ↔
      (∀ fault, ¬Npm.Faulty s (FilePath.parse (a.files.headD [])) fault) ∧
        ∀ p, a.configFile? = some p → ∀ fault, ¬s.Faulty p fault) ∧
      ConfigEnd a s env (a.resolve s env).outcome := by
  have hend := configEnd_resolve a s env
  refine ⟨?_, hend⟩
  have hfaults : (∀ fault, (a.resolve s env).outcome ≠ .error (.data fault)) ↔
      (∀ fault, ¬Npm.Faulty s (FilePath.parse (a.files.headD [])) fault) ∧
        ∀ p, a.configFile? = some p → ∀ fault, ¬s.Faulty p fault := by
    simp only [Ne, resolve_eq_data_iff]
    constructor
    · intro h
      have hmanifest := fun fault hfault => h fault (.inl hfault)
      exact ⟨hmanifest, fun p hp fault hfault => h fault (.inr ⟨hmanifest, p, hp, hfault⟩)⟩
    · rintro ⟨hmanifest, hfile⟩ fault (hfault | ⟨-, p, hp, hfault⟩)
      · exact hmanifest fault hfault
      · exact hfile p hp fault hfault
  rw [← hfaults]
  -- The outcome is one of three kinds, and only the third has no report.
  cases houtcome : (a.resolve s env).outcome with
  | ok c =>
    rw [houtcome] at hend
    exact iff_of_true (.inl ⟨c, rfl, hend.1⟩) nofun
  | error failure =>
    cases failure with
    | refused e => exact iff_of_true (.inr ⟨e, rfl⟩) nofun
    | data fault => exact iff_of_false nofun fun h => h fault rfl

/-- A configuration file that is no UTF-8 is not reported. -/
theorem undecodable_config_not_reported :
    let s : Store := ⟨[], [([("a.js" : Text)], .file []), ([("c.json" : Text)], .file [0xFF])]⟩
    let a : Arguments := { Arguments.none with files := ["a.js"], config := .value (FilePath.parse "c.json") }
    ¬((∃ c, (a.resolve s ⟨none, none⟩).outcome = .ok c ∧ c.Usable) ∨
      ∃ e, (a.resolve s ⟨none, none⟩).outcome = .error (.refused e)) := by
  intro s a
  rw [(configuration_reported_iff a s ⟨none, none⟩).1]
  rintro ⟨-, hfile⟩
  have hfollow : s.follow (FilePath.parse "c.json") = .ok ([("c.json" : Text)], .file [0xFF]) :=
    eq_ok_of_toOption (by decide +kernel)
  exact hfile _ rfl _ (.undecodable hfollow rfl)

end Command

end LodashStyle
