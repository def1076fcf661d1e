import BundleReach.Audit
import BundleReach.Proofs.FileTree.WellFormed
import BundleReach.Proofs.Outcome
import BundleReach.Proofs.Plain
import BundleReach.Toml.Document

/-!
# Settings are loaded whole or refused

A settings file that is loaded gives an audit settings that take up each of its entries, and one
that is not is refused.  Yet there are two other outcomes.  The bytes of a file need not be a text,
and that is no refusal.  And where a file does not say how many modules may be read at once, it is
what the user has asked for elsewhere, which need not be one or more.

* `Loader.Documented` — what is relied on of a loader of settings files.
* `Settings.Sets` — what the entries of a table make of one setting.
* `Settings.From` — the settings that a table gives, all of its entries taken up.
* `Settings.ofSection_eq_ok_iff`, `Settings.refuses_of_ofSection` — a table gives them or is
  refused.
* `Settings.ofContent_ends_iff` — what comes of the content of a file, whatever it is.
* `settings_loaded_or_refused_iff` — where a file is loaded as it should be, or refused.
-/

namespace BundleReach

open Text (Bytes decode)

/-- What is relied on of a loader of settings files: it tells of bytes that are no text as such, and
of whatever else is wrong with a file as malformed. -/
structure Toml.Loader.Documented (load : Toml.Loader) : Prop where
  badText : ∀ content bad, load content = .error (.badText bad) ↔ decode content = .error bad
  noMisuse : ∀ content m, load content ≠ .error (.misuse m)

namespace Settings

variable {env : Environment} {file : Path} {entries : Table String Toml.Value} {name : String}
  {v : Toml.Value} {loaded : LoadedSettings}

/-! ## The entry that counts -/

/-- Of the entries of a table, the last one that names a setting holds a value. -/
def LastNamed (entries : Table String Toml.Value) (name : String) (v : Toml.Value) : Prop :=
  ∃ before key after, entries = before ++ (key, v) :: after ∧ keyName key = name ∧
    ∀ e ∈ after, keyName e.1 ≠ name

/-- No entry of a table names a setting. -/
def Unnamed (entries : Table String Toml.Value) (name : String) : Prop :=
  ∀ e ∈ entries, keyName e.1 ≠ name

theorem valueOf_eq_none_iff : valueOf entries name = none ↔ Unnamed entries name := by
  simp [valueOf, Unnamed]

theorem valueOf_eq_some_iff : valueOf entries name = some v ↔ LastNamed entries name v := by
  simp only [valueOf, Option.map_eq_some_iff, List.find?_eq_some_iff_append, Prod.exists]
  constructor
  · rintro ⟨key, v, ⟨hname, later, earlier, hsplit, hlater⟩, rfl⟩
    refine ⟨earlier.reverse, key, later.reverse, ?_, by simpa using hname, fun e he => ?_⟩
    · rw [← entries.reverse_reverse, hsplit]
      simp
    · simpa using hlater e (List.mem_reverse.1 he)
  · rintro ⟨before, key, after, rfl, hname, hafter⟩
    refine ⟨key, v, ⟨by simpa using hname, after.reverse, before.reverse, by simp,
      fun e he => ?_⟩, rfl⟩
    simpa using hafter e (List.mem_reverse.1 he)

/-! ## Values that settings can have -/

theorem text?_eq_some_iff {s : String} : v.text? = some s ↔ v = .text s := by
  cases v <;> simp [Toml.Value.text?]

theorem mapM_text?_eq_some_iff {items : List Toml.Value} {texts : List String} :
    items.mapM Toml.Value.text? = some texts ↔ items = texts.map .text := by
  induction items generalizing texts with
  | nil => cases texts <;> simp
  | cons item items ih =>
    simp only [List.mapM_cons, Option.bind_eq_bind, Option.bind_eq_some_iff, text?_eq_some_iff,
      ih]
    constructor
    · rintro ⟨s, rfl, rest, rfl, h⟩
      obtain rfl := Option.some.inj h
      rfl
    · intro h
      obtain ⟨s, rest, rfl, hitem, hitems⟩ := List.map_eq_cons_iff.1 h.symm
      exact ⟨s, hitem.symm, rest, hitems.symm, rfl⟩

theorem textsOf_eq_some_iff {texts : List String} :
    textsOf v = some texts ↔ v = .list (texts.map .text) := by
  cases v with
  | list items => simp [textsOf, mapM_text?_eq_some_iff]
  | _ => simp [textsOf]

/-- A value is a number from one on; true is one. -/
inductive Counts : Toml.Value → Numeral.Whole → Prop where
  | number {n : Int} (positive : 1 ≤ n) : Counts (.int n) (.number n)
  | flag : Counts (.bool true) (.flag true)

theorem positiveOf_eq_some_iff {w : Numeral.Whole} : positiveOf v = some w ↔ Counts v w := by
  constructor
  · intro h
    unfold positiveOf at h
    split at h
    · split at h
      · rename_i n hn
        cases h
        exact .number hn
      · cases h
    · rename_i b
      cases b
      · cases h
      · cases h
        exact .flag
    · cases h
  · rintro (hn | _)
    · simp [positiveOf, hn]
    · rfl

theorem Counts.one_le {w : Numeral.Whole} (h : Counts v w) : 1 ≤ w.value := by
  cases h with
  | number hn => exact hn
  | flag => decide

/-! ## One setting -/

/-- What the entries of a table make of a setting: the last one that names it is of the right form,
or none names it and it is left as it was. -/
def Sets (entries : Table String Toml.Value) (name : String) (rightForm : Toml.Value → Prop)
    (asItWas : Prop) : Prop :=
  (∃ v, LastNamed entries name v ∧ rightForm v) ∨ (Unnamed entries name ∧ asItWas)

section

variable {α : Type} {read : Toml.Value → Option α} {fault : SettingsFault} {otherwise a : α}

theorem given_eq_ok_iff {rightForm : Toml.Value → Prop}
    (hread : ∀ v, read v = some a ↔ rightForm v) :
    given (valueOf entries name) read fault otherwise = .ok a ↔
      Sets entries name rightForm (a = otherwise) := by
  simp only [Sets, ← valueOf_eq_some_iff, ← valueOf_eq_none_iff, ← hread]
  cases valueOf entries name with
  | none => simp [given, eq_comm]
  | some v => cases hv : read v <;> simp [given, hv]

/-- Where a setting has no value that it can have, one fault tells so. -/
theorem eq_of_given_eq_error {fault' : SettingsFault}
    (h : given (valueOf entries name) read fault otherwise = .error fault') : fault' = fault := by
  unfold given at h
  split at h
  · cases h
  · split at h
    · cases h
    · exact (Except.error.inj h).symm

end

/-! ## Tables of settings -/

/-- The setting of a name is what a value says. -/
inductive Holds (s : Settings) : String → Toml.Value → Prop where
  | bundlesFolder : Holds s "bundles_dir" (.text s.bundlesFolder)
  | extensions : Holds s "extensions" (.list (s.extensions.map .text))
  | externals : Holds s "externals" (.list (s.externals.map .text))
  | workers {v : Toml.Value} (counts : Counts v s.workers) : Holds s "workers" v

/-- Settings are those that a table gives; the entries that name none of them are kept aside. -/
structure From (env : Environment) (entries : Table String Toml.Value)
    (loaded : LoadedSettings) : Prop where
  bundlesFolder : Sets entries "bundles_dir" (· = .text loaded.settings.bundlesFolder)
    (loaded.settings.bundlesFolder = (initial env.workers).bundlesFolder)
  extensions : Sets entries "extensions" (· = .list (loaded.settings.extensions.map .text))
    (loaded.settings.extensions = (initial env.workers).extensions)
  externals : Sets entries "externals" (· = .list (loaded.settings.externals.map .text))
    (loaded.settings.externals = (initial env.workers).externals)
  workers : Sets entries "workers" (Counts · loaded.settings.workers)
    (loaded.settings.workers = (initial env.workers).workers)
  extra : loaded.extra = entries.filter fun e => !names.contains (keyName e.1)

/-- An entry is taken up: the setting that it names is what the last entry of that name says,
or the entry is kept aside. -/
def TakenUp (entries : Table String Toml.Value) (loaded : LoadedSettings)
    (e : String × Toml.Value) : Prop :=
  (∃ v, LastNamed entries (keyName e.1) v ∧ Holds loaded.settings (keyName e.1) v) ∨
    e ∈ loaded.extra

/-- An entry that names a setting finds it set. -/
theorem Sets.exists_of_mem {rightForm : Toml.Value → Prop} {asItWas : Prop}
    (h : Sets entries name rightForm asItWas) {e : String × Toml.Value} (he : e ∈ entries)
    (hname : keyName e.1 = name) : ∃ v, LastNamed entries name v ∧ rightForm v :=
  h.resolve_right fun hnone => hnone.1 e he hname

namespace From

/-- Somebody is there to do the work where the table says how many, or else where the user does. -/
theorem one_le_workers_iff (h : From env entries loaded) :
    1 ≤ loaded.settings.workers.value ↔ (Unnamed entries "workers" → 1 ≤ env.workers) := by
  rcases h.workers with ⟨v, hlast, hv⟩ | ⟨hnone, hsame⟩
  · refine iff_of_true hv.one_le fun hnone => ?_
    rw [← valueOf_eq_some_iff] at hlast
    rw [← valueOf_eq_none_iff, hlast] at hnone
    cases hnone
  · rw [hsame]
    exact ⟨fun hpos _ => hpos, fun hpos => hpos hnone⟩

/-- No entry gets lost. -/
theorem takenUp (h : From env entries loaded) {e : String × Toml.Value} (he : e ∈ entries) :
    TakenUp entries loaded e := by
  by_cases hnamed : keyName e.1 ∈ names
  · left
    simp only [names, List.mem_cons, List.not_mem_nil, or_false] at hnamed
    rcases hnamed with hname | hname | hname | hname
    · obtain ⟨v, hlast, rfl⟩ := h.bundlesFolder.exists_of_mem he hname
      exact ⟨_, hname ▸ hlast, hname ▸ .bundlesFolder⟩
    · obtain ⟨v, hlast, rfl⟩ := h.extensions.exists_of_mem he hname
      exact ⟨_, hname ▸ hlast, hname ▸ .extensions⟩
    · obtain ⟨v, hlast, rfl⟩ := h.externals.exists_of_mem he hname
      exact ⟨_, hname ▸ hlast, hname ▸ .externals⟩
    · obtain ⟨v, hlast, hv⟩ := h.workers.exists_of_mem he hname
      exact ⟨_, hname ▸ hlast, hname ▸ .workers hv⟩
  · right
    rw [h.extra]
    simp [he, hnamed]

end From

/-- A table is taken for settings where it gives settings, and for none but these. -/
theorem ofSection_eq_ok_iff :
    ofSection env file entries = .ok loaded ↔ From env entries loaded := by
  simp only [ofSection, bind_eq_ok_iff, pure_eq_ok_iff,
    given_eq_ok_iff (fun _ => textsOf_eq_some_iff),
    given_eq_ok_iff (fun _ => positiveOf_eq_some_iff),
    given_eq_ok_iff (fun _ => text?_eq_some_iff)]
  constructor
  · rintro ⟨extensions, hextensions, externals, hexternals, workers, hworkers, bundlesFolder,
      hbundlesFolder, rfl⟩
    exact ⟨hbundlesFolder, hextensions, hexternals, hworkers, rfl⟩
  · intro h
    refine ⟨_, h.extensions, _, h.externals, _, h.workers, _, h.bundlesFolder, ?_⟩
    rw [← h.extra]

/-- A fault for which an output's settings are to blame. -/
def Refuses (fault : SettingsFault) : Prop := (AuditFault.settings fault).isConfiguration = true

/-- A table that is not taken for settings is refused. -/
theorem refuses_of_ofSection {fault : SettingsFault}
    (h : ofSection env file entries = .error fault) : Refuses fault := by
  simp only [ofSection, bind_eq_error_iff] at h
  rcases h with h | ⟨_, -, h | ⟨_, -, h | ⟨_, -, h | ⟨_, -, h⟩⟩⟩⟩
  · rw [eq_of_given_eq_error h]
    rfl
  · rw [eq_of_given_eq_error h]
    rfl
  · rw [eq_of_given_eq_error h]
    rfl
  · rw [eq_of_given_eq_error h]
    rfl
  · cases h

/-! ## Files of settings -/

/-- The table for audits within a table; where there is none, it is as good as empty. -/
def ForAudits (whole entries : Table String Toml.Value) : Prop :=
  (Table.find? "audit" whole = none ∧ entries = []) ∨
    ∃ v, Table.find? "audit" whole = some v ∧ v.entries? = some entries

variable {content : Bytes} {fault : SettingsFault}

/-- An empty table leaves everything as it was. -/
theorem ofSection_nil : ofSection env file [] = .ok ⟨initial env.workers, []⟩ := rfl

theorem ofContent_eq_ok_iff :
    ofContent env file content = .ok loaded ↔ ∃ whole entries,
      env.loadToml content = .ok whole ∧ ForAudits whole entries ∧ From env entries loaded := by
  have hfrom : ∀ entries, From env entries loaded ↔ ofSection env file entries = .ok loaded :=
    fun _ => ofSection_eq_ok_iff.symm
  unfold ofContent ForAudits
  cases hload : env.loadToml content with
  | error fault => cases fault <;> simp
  | ok whole =>
    simp only [Except.ok.injEq, exists_and_left, exists_eq_left', hfrom]
    cases hfind : Table.find? "audit" whole with
    | none => simp [ofSection_nil]
    | some v => cases hv : v.entries? <;> simp [hv]

section

variable (hload : env.loadToml.Documented)

include hload

theorem ofContent_of_badText {bad : Text.DecodeError} (h : decode content = .error bad) :
    ofContent env file content = .error (.badText bad) := by
  rw [ofContent, (hload.badText content bad).2 h]

/-- A file that is a text and not taken for settings is refused. -/
theorem refuses_of_decode {cs : List Char} (hcs : decode content = .ok cs)
    (h : ofContent env file content = .error fault) : Refuses fault := by
  unfold ofContent at h
  split at h
  · cases h
    rfl
  · rename_i bad hbad
    rw [hload.badText, hcs] at hbad
    cases hbad
  · rename_i m hm
    exact absurd hm (hload.noMisuse content m)
  · split at h
    · cases h
    · split at h
      · exact refuses_of_ofSection h
      · cases h
        rfl

/-- A content has settings made of it with somebody to do the work, or is refused, unless it is no
text or leaves the number of workers to a user who has asked for less than one. -/
theorem ofContent_ends_iff :
    (∃ loaded, ofContent env file content = .ok loaded ∧ 1 ≤ loaded.settings.workers.value) ∨
      (∃ fault, ofContent env file content = .error fault ∧ Refuses fault) ↔
    (∃ cs, decode content = .ok cs) ∧
      ∀ whole entries loaded, env.loadToml content = .ok whole → ForAudits whole entries →
        From env entries loaded → Unnamed entries "workers" → 1 ≤ env.workers := by
  constructor
  · intro hend
    constructor
    · cases hcs : decode content with
      | ok cs => exact ⟨cs, rfl⟩
      | error bad =>
        -- Bytes that are no text are neither loaded nor refused.
        rw [ofContent_of_badText hload hcs] at hend
        rcases hend with ⟨loaded, hloaded, -⟩ | ⟨fault, hfault, hrefuses⟩
        · cases hloaded
        · cases hfault
          simp [Refuses, AuditFault.isConfiguration] at hrefuses
    · intro whole entries loaded hwhole haudits hfrom
      have hok : ofContent env file content = .ok loaded :=
        ofContent_eq_ok_iff.2 ⟨whole, entries, hwhole, haudits, hfrom⟩
      rw [hok] at hend
      rcases hend with ⟨loaded', hloaded, hpos⟩ | ⟨fault, hfault, -⟩
      · obtain rfl := Except.ok.inj hloaded
        exact hfrom.one_le_workers_iff.1 hpos
      · cases hfault
  · rintro ⟨⟨cs, hcs⟩, hasked⟩
    cases hend : ofContent env file content with
    | error fault => exact .inr ⟨fault, rfl, refuses_of_decode hload hcs hend⟩
    | ok loaded =>
      obtain ⟨whole, entries, hwhole, haudits, hfrom⟩ := ofContent_eq_ok_iff.1 hend
      exact .inl ⟨loaded, rfl,
        hfrom.one_le_workers_iff.2 (hasked whole entries loaded hwhole haudits hfrom)⟩

end

end Settings

open Settings

variable {env : Environment} {t : FileTree} {root : Option Path} {file : Path}

/-- A settings file is a file. -/
theorem isFile_of_settingsFile? {userFile : Path}
    (h : settingsFile? t root userFile = some file) : t.isFile file = true := by
  simp only [settingsFile?] at h
  cases hown : (root.map (·.child settingsName)).filter t.isFile with
  | some own =>
    rw [hown] at h
    obtain rfl := Option.some.inj h
    exact (Option.filter_eq_some_iff.1 hown).2
  | none =>
    rw [hown] at h
    by_cases huser : t.isFile userFile = true
    · simp only [huser] at h
      exact Option.some.inj h ▸ huser
    · simp [huser] at h

/-- A settings file is read, and its content decides. -/
theorem exists_loadSettings_eq (h : settingsFile? t root env.userFile = some file) :
    ∃ content, t.read file = .ok content ∧
      loadSettings env t root = ofContent env file content := by
  obtain ⟨content, hcontent⟩ := FileTree.exists_read_of_isFile (isFile_of_settingsFile? h)
  refine ⟨content, hcontent, ?_⟩
  simp only [loadSettings, h, hcontent]

/-- Settings have been loaded with which an audit can go on. -/
def SettingsLoaded (env : Environment) (t : FileTree) (root : Option Path) : Prop :=
  ∃ loaded, loadSettings env t root = .ok loaded ∧ 1 ≤ loaded.settings.workers.value

/-- Settings have been refused. -/
def SettingsRefused (env : Environment) (t : FileTree) (root : Option Path) : Prop :=
  ∃ fault, loadSettings env t root = .error fault ∧ Refuses fault

/-- Without a settings file, settings are what every audit starts from.  With one, whatever its
bytes are, they are loaded where the file holds a table whose part for audits gives settings, and
then each of its entries is taken up.  So settings are loaded with somebody to do the work, or
refused, but for two cases: the bytes are no text, or nothing in the file says how many modules may
be read at once and what the user has asked for is less than one. -/
theorem settings_loaded_or_refused_iff (env : Environment) (hload : env.loadToml.Documented)
    (t : FileTree) (root : Option Path) :
    (settingsFile? t root env.userFile = none →
      loadSettings env t root = .ok ⟨.initial env.workers, []⟩ ∧
        (SettingsLoaded env t root ↔ 1 ≤ env.workers)) ∧
    ∀ file, settingsFile? t root env.userFile = some file →
      ∃ content, t.read file = .ok content ∧
        (∀ loaded, loadSettings env t root = .ok loaded ↔
          ∃ whole entries, env.loadToml content = .ok whole ∧ ForAudits whole entries ∧
            From env entries loaded ∧ ∀ e ∈ entries, TakenUp entries loaded e) ∧
        (SettingsLoaded env t root ∨ SettingsRefused env t root ↔
          (∃ cs, decode content = .ok cs) ∧
            ∀ whole entries loaded, env.loadToml content = .ok whole → ForAudits whole entries →
              From env entries loaded → Unnamed entries "workers" → 1 ≤ env.workers) ∧
        ∀ bad, decode content = .error bad →
          loadSettings env t root = .error (.badText bad) := by
  refine ⟨fun hnone => ?_, fun file hfile => ?_⟩
  · have hinitial : loadSettings env t root = .ok ⟨.initial env.workers, []⟩ := by
      rw [loadSettings, hnone]
    refine ⟨hinitial, ?_⟩
    rw [SettingsLoaded, hinitial]
    simp only [Except.ok.injEq, exists_eq_left']
    rfl
  obtain ⟨content, hcontent, heq⟩ := exists_loadSettings_eq hfile
  rw [SettingsLoaded, SettingsRefused, heq]
  refine ⟨content, hcontent, fun loaded => ?_, ofContent_ends_iff hload,
    fun bad hbad => ofContent_of_badText hload hbad⟩
  rw [ofContent_eq_ok_iff]
  refine exists_congr fun whole => exists_congr fun entries =>
    and_congr_right fun _ => and_congr_right fun _ => ?_
  exact ⟨fun hfrom => ⟨hfrom, fun e he => hfrom.takenUp he⟩, And.left⟩

/-! ## A loader that keeps to it -/

theorem load_badText_iff {content : Bytes} {bad : Text.DecodeError} :
    Toml.load content = .error (.badText bad) ↔ decode content = .error bad := by
  unfold Toml.load
  cases decode content with
  | error fault => simp
  | ok cs =>
    dsimp only
    cases Toml.read (Text.unifyLineEnds cs) with
    | error fault => cases fault <;> simp
    | ok whole => simp

/-- The loader that tells of whatever else is wrong with a text as malformed. -/
def carefulLoader : Toml.Loader := fun content =>
  (Toml.load content).mapError fun
    | .misuse m => .malformed m.message
    | fault => fault

theorem documented_carefulLoader : carefulLoader.Documented := by
  refine ⟨fun content bad => ?_, fun content m => ?_⟩
  · rw [← load_badText_iff, carefulLoader]
    cases Toml.load content with
    | ok whole => simp [Except.mapError]
    | error fault => cases fault <;> simp [Except.mapError]
  · rw [carefulLoader]
    cases Toml.load content with
    | ok whole => simp [Except.mapError]
    | error fault => cases fault <;> simp [Except.mapError]

/-- What an audit is run with where the user has asked for some number of workers. -/
def carefulEnvironment (workers : Int) : Environment :=
  { plainEnvironment [] with loadToml := carefulLoader, workers }

/-- An output with a settings file. -/
def settledOutput (content : Bytes) : FileTree where
  entries := [(["app"], .folder), (["app", ".bundle-audit.toml"], .file content)]

/-- The root of the output. -/
def settledRoot : Option Path := some ⟨.root, ["app"]⟩

/-- A settings file with an octet that begins no character. -/
def tornContent : Bytes := "[audit]\nx = \"".toUTF8.toList ++ [0xff, 0x22, 0x0a]

/-- A settings file that does not say how many modules may be read at once. -/
def silentContent : Bytes := "[audit]\nbundles-dir = \"out\"\nx = 1\n".toUTF8.toList

/-- The one file is neither loaded nor refused, the other one only where the user has asked for a
positive number. -/
theorem settings_loaded_or_refused_iff_torn :
    carefulLoader.Documented ∧
      loadSettings (carefulEnvironment 4) (settledOutput tornContent) settledRoot =
        .error (.badText ⟨13, 1, 0xff, .startByte⟩) ∧
      ¬ (SettingsLoaded (carefulEnvironment 4) (settledOutput tornContent) settledRoot ∨
        SettingsRefused (carefulEnvironment 4) (settledOutput tornContent) settledRoot) ∧
      SettingsLoaded (carefulEnvironment 4) (settledOutput silentContent) settledRoot ∧
      ¬ (SettingsLoaded (carefulEnvironment 0) (settledOutput silentContent) settledRoot ∨
        SettingsRefused (carefulEnvironment 0) (settledOutput silentContent) settledRoot) := by
  obtain ⟨content, hcontent, -, hends, hbad⟩ :=
    (settings_loaded_or_refused_iff (carefulEnvironment 4) documented_carefulLoader
      (settledOutput tornContent) settledRoot).2
        ⟨.root, ["app", ".bundle-audit.toml"]⟩ (by decide +kernel)
  have htorn : (settledOutput tornContent).read ⟨.root, ["app", ".bundle-audit.toml"]⟩ =
      .ok tornContent := by
    decide +kernel
  obtain rfl := Except.ok.inj (htorn.symm.trans hcontent)
  have hdecode : decode tornContent = .error ⟨13, 1, 0xff, .startByte⟩ := by decide +kernel
  have hfour : ∃ loaded, loadSettings (carefulEnvironment 4) (settledOutput silentContent)
      settledRoot = .ok loaded ∧ 1 ≤ loaded.settings.workers.value := by
    decide +kernel
  have hnone : ∃ loaded, loadSettings (carefulEnvironment 0) (settledOutput silentContent)
      settledRoot = .ok loaded ∧ ¬ 1 ≤ loaded.settings.workers.value := by
    decide +kernel
  refine ⟨documented_carefulLoader, hbad _ hdecode, fun hend => ?_, hfour, ?_⟩
  · obtain ⟨⟨cs, hcs⟩, -⟩ := hends.1 hend
    rw [hdecode] at hcs
    cases hcs
  · obtain ⟨loaded, hloaded, hpos⟩ := hnone
    rintro (⟨loaded', hloaded', hpos'⟩ | ⟨fault, hfault, -⟩)
    · rw [hloaded] at hloaded'
      obtain rfl := Except.ok.inj hloaded'
      exact hpos hpos'
    · rw [hloaded] at hfault
      cases hfault

end BundleReach
