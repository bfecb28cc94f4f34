import ElementCatalog.Proofs.Command.OnDisk

/-!
# Changing a setting from the command line

The settings file gives the settings, what it leaves out has a default, and environment variables
take precedence over both. A command line that changes one setting loads them all, and saves them
all with the change. What the variables give is saved with them: the other setting stays in the file
as it was exactly if no variable gives it another value (`run_changedOnly_iff`). Where there is no
directory for the file, such a command line succeeds and nothing is saved.
-/

namespace ElementCatalog

/-- A setting that is kept in the file. -/
inductive Setting where
  /-- The root directory of the index stores. -/
  | storeDirectory
  /-- The naming configuration. -/
  | namingConfig
deriving DecidableEq, Repr

namespace Setting

/-- The keys of the setting on the command line. -/
def keys : Setting → List String
  | storeDirectory => ["store-dir"]
  | namingConfig => ["naming-config", "naming"]

/-- The environment variable that takes precedence over the setting in the file. -/
def variableName : Setting → String
  | storeDirectory => "EG_STORE_DIR"
  | namingConfig => "EG_NAMING_CONFIG"

/-- A key belongs to one setting. -/
theorem eq_of_mem_keys {setting other : Setting} {key : String} (h : key ∈ setting.keys)
    (hother : key ∈ other.keys) : setting = other := by
  cases setting <;> cases other <;> simp_all [keys]

end Setting

/-- The kind of what can be read is that of a file. -/
theorem Disk.kindOf_of_readText {disk : Disk} {path text : String}
    (h : disk.readText path = .ok text) : disk.kindOf path = .ok .file := by
  obtain ⟨location, hlocate, hnode⟩ := readText_eq_ok_iff.1 h
  simp [kindOf, find, hlocate, hnode, bind, Except.bind, pure, Except.pure]

namespace Settings

variable {settings changed settings' : Settings} {disk after : Disk} {surroundings : Surroundings}

/-- The value of a setting, if it has one. -/
def get? (settings : Settings) : Setting → Option String
  | .storeDirectory => some settings.storeDir
  | .namingConfig => settings.namingConfig

/-- A variable takes precedence over what is in the file. -/
theorem get?_override (environment : Environment) (settings : Settings) (setting : Setting) :
    (settings.override environment).get? setting =
      (environment.get? setting.variableName).or (settings.get? setting) := by
  cases setting with
  | storeDirectory =>
    simp only [get?, override, Setting.variableName]
    cases environment.get? "EG_STORE_DIR" <;> rfl
  | namingConfig => rfl

/-- A key changes the setting that it stands for, and no other. -/
theorem exists_of_change?_eq_some {key value : String}
    (h : settings.change? value key = some changed) :
    ∃ setting : Setting, key ∈ setting.keys ∧ changed.get? setting = some value ∧
      ∀ other ≠ setting, changed.get? other = settings.get? other := by
  unfold change? at h
  split at h
  case h_1 =>
    obtain rfl := Option.some.inj h
    refine ⟨.storeDirectory, by decide, rfl, fun other hother => ?_⟩
    cases other with
    | storeDirectory => exact absurd rfl hother
    | namingConfig => rfl
  case h_2 | h_3 =>
    obtain rfl := Option.some.inj h
    refine ⟨.namingConfig, by decide, rfl, fun other hother => ?_⟩
    cases other with
    | storeDirectory => rfl
    | namingConfig => exact absurd rfl hother
  case h_4 => cases h

/-- Settings read back from their text. -/
theorem ofText_pretty (settings : Settings) : ofText settings.toJson.pretty = .ok settings := by
  rw [ofText, Json.Document.read_pretty]
  obtain ⟨storeDir, namingConfig⟩ := settings
  cases namingConfig <;> rfl

/-- The settings that the file holds on a disk, with the default ones where there is no file. -/
inductive HeldOn (disk : Disk) (surroundings : Surroundings) : Settings → Prop
  /-- There is no directory for the file. -/
  | noDirectory (missing : surroundings.settingsFile? = none) : HeldOn disk surroundings standard
  /-- There is no file. -/
  | noFile {path : String} {error : FileError} (place : surroundings.settingsFile? = some path)
      (missing : disk.kindOf path = .error error) : HeldOn disk surroundings standard
  /-- The file has a text that settings are read from. -/
  | file {path text : String} {settings : Settings} (place : surroundings.settingsFile? = some path)
      (found : disk.readText path = .ok text) (read : ofText text = .ok settings) :
      HeldOn disk surroundings settings

/-- The file holds its settings alone. -/
theorem HeldOn.unique (h : settings.HeldOn disk surroundings)
    (h' : settings'.HeldOn disk surroundings) : settings = settings' := by
  cases h with
  | noDirectory missing =>
    cases h' with
    | noDirectory => rfl
    | noFile place => cases missing.symm.trans place
    | file place => cases missing.symm.trans place
  | noFile place missing =>
    cases h' with
    | noDirectory => rfl
    | noFile => rfl
    | file place' found =>
      obtain rfl := Option.some.inj (place.symm.trans place')
      cases missing.symm.trans (Disk.kindOf_of_readText found)
  | file place found read =>
    cases h' with
    | noDirectory missing => cases missing.symm.trans place
    | noFile place' missing =>
      obtain rfl := Option.some.inj (place.symm.trans place')
      cases missing.symm.trans (Disk.kindOf_of_readText found)
    | file place' found' read' =>
      obtain rfl := Option.some.inj (place.symm.trans place')
      obtain rfl := Except.ok.inj (found.symm.trans found')
      exact Except.ok.inj (read.symm.trans read')

/-- From one disk to another, the file changed in one setting, which has the given value now. The
others are what the file held before. -/
def ChangedOnly (disk after : Disk) (surroundings : Surroundings) (setting : Setting)
    (value : String) : Prop :=
  ∃ path held saved, surroundings.settingsFile? = some path ∧
    HeldOn disk surroundings held ∧ after.HasDocument (Record.ofDraft record) path saved ∧
    saved.get? setting = some value ∧ ∀ other ≠ setting, saved.get? other = held.get? other

/-- The file, if there is a place for it, has the given value for one setting. Each other setting
has the value that a variable gives it, or else the one that it was held with. -/
def SavedMerged (held : Settings) (after : Disk) (surroundings : Surroundings) (setting : Setting)
    (value : String) : Prop :=
  ∀ path, surroundings.settingsFile? = some path → ∃ saved,
    after.HasDocument (Record.ofDraft record) path saved ∧ saved.get? setting = some value ∧
    ∀ other ≠ setting, saved.get? other =
      (surroundings.environment.get? other.variableName).or (held.get? other)

/-- A file that is saved so changed in one setting only exactly if there is a place for it and no
variable gives another setting another value. -/
theorem SavedMerged.changedOnly_iff {setting : Setting} {value : String} {held : Settings}
    (hsaved : held.SavedMerged after surroundings setting value)
    (heldOn : held.HeldOn disk surroundings) :
    ChangedOnly disk after surroundings setting value ↔
      (∃ path, surroundings.settingsFile? = some path) ∧
      ∀ other ≠ setting, ∀ text, surroundings.environment.get? other.variableName = some text →
        held.get? other = some text := by
  constructor
  · rintro ⟨path, held', kept, hplace, heldOn', hkept, -, hothers⟩
    obtain rfl := heldOn.unique heldOn'
    obtain ⟨saved, hdocument, -, hgiven⟩ := hsaved path hplace
    obtain rfl := hdocument.unique hkept
    refine ⟨⟨path, hplace⟩, fun other hother text htext => ?_⟩
    rw [← hothers other hother, hgiven other hother, htext, Option.some_or]
  · rintro ⟨⟨path, hplace⟩, hfree⟩
    obtain ⟨saved, hdocument, hvalue, hgiven⟩ := hsaved path hplace
    refine ⟨path, held, saved, hplace, heldOn, hdocument, hvalue, fun other hother => ?_⟩
    rw [hgiven other hother]
    cases htext : surroundings.environment.get? other.variableName with
    | none => rw [Option.none_or]
    | some text => rw [Option.some_or, hfree other hother text htext]

end Settings

namespace Request

variable {disk after : Disk} {surroundings : Surroundings} {settings : Settings}

/-- Looking at the settings file finds the settings that it holds, and leaves the disk. -/
theorem heldOn_of_runOn_ofFile
    (h : runOn disk (Settings.ofFile surroundings) = (.ok settings, after)) :
    settings.HeldOn disk surroundings ∧ after = disk := by
  rw [Settings.ofFile] at h
  split at h
  · next hplace =>
    obtain ⟨hsettings, rfl⟩ := Prod.mk.inj h
    obtain rfl := Except.ok.inj hsettings
    exact ⟨.noDirectory hplace, rfl⟩
  · next path hplace =>
    have hkind : runOn disk (FileSystem.kindOf path) = (.ok (disk.kindOf path), disk) := rfl
    have htext : runOn disk (FileSystem.readText path) = (.ok (disk.readText path), disk) := rfl
    rw [runOn_bind, hkind] at h
    dsimp only at h
    split at h
    · next error hmissing =>
      obtain ⟨hsettings, rfl⟩ := Prod.mk.inj h
      obtain rfl := Except.ok.inj hsettings
      exact ⟨.noFile hplace hmissing, rfl⟩
    · rw [runOn_bind, htext] at h
      dsimp only at h
      split at h
      · cases h
      · next text hfound =>
        split at h
        · cases h
        · next found hread =>
          obtain ⟨hsettings, rfl⟩ := Prod.mk.inj h
          obtain rfl := Except.ok.inj hsettings
          exact ⟨.file hplace hfound hread, rfl⟩

/-- Loaded settings are those that the file holds, under those that variables give. -/
theorem exists_heldOn_of_runOn_load
    (h : runOn disk (Settings.load surroundings) = (.ok settings, after)) :
    ∃ held : Settings, held.HeldOn disk surroundings ∧
      settings = held.override surroundings.environment ∧ after = disk := by
  rw [Settings.load, ← bind_pure_comp, runOn_bind_eq_ok_iff] at h
  obtain ⟨held, middle, hheld, h⟩ := h
  obtain ⟨heldOn, rfl⟩ := heldOn_of_runOn_ofFile hheld
  obtain ⟨hsettings, rfl⟩ := Prod.mk.inj h
  exact ⟨held, heldOn, (Except.ok.inj hsettings).symm, rfl⟩

/-- A text that was written is found at its path. -/
theorem readText_of_runOn_writeText {path text : String}
    (h : runOn disk (FileSystem.writeText path text) = (.ok (.ok ()), after)) :
    after.readText path = .ok text := by
  have hrun : runOn disk (FileSystem.writeText path text) =
      (.ok (Disk.attempt (Disk.writeText path text) disk).1,
        (Disk.attempt (Disk.writeText path text) disk).2) := rfl
  rw [hrun, Disk.attempt] at h
  split at h
  · next changed hchanged =>
    obtain rfl : changed = after := (Prod.mk.inj h).2
    exact Disk.readText_writeText hchanged
  · cases h

/-- Saved settings are in their file. Without a directory for it, nothing happens. -/
theorem readText_of_runOn_save (h : runOn disk (settings.save surroundings) = (.ok (), after)) :
    (∀ path, surroundings.settingsFile? = some path →
      after.readText path = .ok settings.toJson.pretty) ∧
    (surroundings.settingsFile? = none → after = disk) := by
  have hplace : surroundings.settingsFile? =
      surroundings.settingsDirectory?.map (Path.join · "config.json") := rfl
  cases hdirectory : surroundings.settingsDirectory? with
  | none =>
    rw [hdirectory, Option.map_none] at hplace
    rw [Settings.save, hdirectory] at h
    refine ⟨fun path hpath => ?_, fun _ => (Prod.mk.inj h).2.symm⟩
    rw [hplace] at hpath
    cases hpath
  | some directory =>
    rw [hdirectory, Option.map_some] at hplace
    refine ⟨fun path hpath => ?_, fun hnone => ?_⟩
    · rw [Settings.save, hdirectory, hpath] at h
      simp only [runOn_bind_eq_ok_iff] at h
      obtain ⟨created, middle, hcreate, h⟩ := h
      cases created with
      | error error =>
        obtain ⟨_, _, hthrow, -⟩ := runOn_bind_eq_ok_iff.1 h
        cases hthrow
      | ok _ =>
        obtain ⟨written, final, hwrite, h⟩ := runOn_bind_eq_ok_iff.1 h
        cases written with
        | error error => cases h
        | ok _ =>
          obtain rfl : final = after := (Prod.mk.inj h).2
          exact readText_of_runOn_writeText hwrite
    · rw [hplace] at hnone
      cases hnone

/-- A changed setting is in the file, and so are the others, each with the value that a variable
gives it, or else with the one that the file held. Without a directory for the file, the disk stays
as it is. -/
theorem exists_saved_of_runOn_changeSetting {key value : String} {printed : Printed}
    (h : runOn disk ((changeSetting key value).perform surroundings) = (.ok printed, after)) :
    ∃ (held : Settings) (setting : Setting),
      held.HeldOn disk surroundings ∧ key ∈ setting.keys ∧
      held.SavedMerged after surroundings setting value ∧
      (surroundings.settingsFile? = none → after = disk) := by
  rw [perform] at h
  obtain ⟨settings, middle, hload, hrun⟩ := runOn_bind_eq_ok_iff.1 h
  obtain ⟨held, heldOn, rfl, rfl⟩ := exists_heldOn_of_runOn_load hload
  change runOn _ (runChangeSetting surroundings _ key value) = _ at hrun
  rw [runChangeSetting] at hrun
  split at hrun
  · cases hrun
  · next changed hchange =>
    obtain ⟨setting, hkey, hvalue, hothers⟩ := Settings.exists_of_change?_eq_some hchange
    obtain ⟨_, final, hsave, hprint⟩ := runOn_bind_eq_ok_iff.1 hrun
    obtain rfl : final = after := (Prod.mk.inj hprint).2
    obtain ⟨hsaved, hnone⟩ := readText_of_runOn_save hsave
    refine ⟨held, setting, heldOn, hkey, fun path hpath => ?_, hnone⟩
    refine ⟨changed, ⟨_, hsaved path hpath, Settings.ofText_pretty changed⟩, hvalue, ?_⟩
    intro other hother
    rw [hothers other hother, Settings.get?_override]

end Request

namespace Surroundings

/-- Looking for a variables file leaves the disk. -/
theorem exists_run_findEnvironmentFile (disk : Disk) (directories : List String) :
    ∃ found, (findEnvironmentFile directories : StateM Disk (Option String)).run disk =
      (found, disk) := by
  induction directories with
  | nil => exact ⟨none, rfl⟩
  | cons directory outer ih =>
    have hkind (path : String) :
        (FileSystem.kindOf path : StateM Disk _).run disk = (disk.kindOf path, disk) := rfl
    rw [findEnvironmentFile, StateT.run_bind, hkind]
    cases disk.kindOf (Path.join directory ".env") with
    | ok kind =>
      cases kind with
      | file => exact ⟨_, rfl⟩
      | directory => exact ih
    | error error =>
      cases error with
      | notFound => exact ih
      | failed => exact ⟨_, rfl⟩

/-- The variables of a file are added without a change of the disk. -/
theorem exists_run_withEnvironmentFile (surroundings : Surroundings) (disk : Disk) :
    ∃ seen, (surroundings.withEnvironmentFile : StateM Disk (Option Surroundings)).run disk =
      (seen, disk) := by
  have htext (path : String) :
      (FileSystem.readText path : StateM Disk _).run disk = (disk.readText path, disk) := rfl
  obtain ⟨found, hfound⟩ :=
    exists_run_findEnvironmentFile disk (Path.ancestors surroundings.workingDirectory)
  rw [withEnvironmentFile, StateT.run_bind, hfound]
  cases found with
  | none => exact ⟨_, rfl⟩
  | some path =>
    show ∃ seen, ((FileSystem.readText path >>= _ : StateM Disk _).run disk) = (seen, disk)
    rw [StateT.run_bind, htext]
    cases disk.readText path <;> exact ⟨_, rfl⟩

end Surroundings

variable {disk after : Disk} {surroundings : Surroundings} {arguments : List String}
  {request : Request} {outcome : Outcome}

/-- A command line that succeeds is performed with the variables of its file. -/
theorem exists_runOn_of_run (hparse : Request.parse arguments = .ok request)
    (hrun : (run surroundings arguments : StateM Disk Outcome).run disk = (outcome, after))
    (success : outcome.code = 0) :
    ∃ seen printed,
      (surroundings.withEnvironmentFile : StateM Disk _).run disk = (some seen, disk) ∧
      Request.runOn disk (request.perform seen) = (.ok printed, after) := by
  obtain ⟨seen?, hseen⟩ := surroundings.exists_run_withEnvironmentFile disk
  rw [run, hparse] at hrun
  dsimp only at hrun
  rw [StateT.run_bind, hseen] at hrun
  cases seen? with
  | none =>
    obtain rfl := (Prod.mk.inj hrun).1
    cases success
  | some seen =>
    let performed : ExceptT String (StateM Disk) Printed := request.perform seen
    change (performed.run >>= _ : StateM Disk Outcome).run disk = _ at hrun
    rcases hperform : performed.run.run disk with ⟨result, final⟩
    rw [StateT.run_bind, hperform] at hrun
    cases result with
    | error message =>
      obtain rfl := (Prod.mk.inj hrun).1
      cases success
    | ok printed =>
      obtain rfl : final = after := (Prod.mk.inj hrun).2
      exact ⟨seen, printed, hseen, hperform⟩

/-- Changing a setting from the command line saves its new value, and saves each other setting as a
variable gives it, or else as the file held it. So the file changed only in that setting exactly if
there is a directory for it and no variable gives another setting another value than the file
held. -/
theorem run_changedOnly_iff {key value : String}
    (hparse : Request.parse arguments = .ok (.changeSetting key value))
    (hrun : (run surroundings arguments : StateM Disk Outcome).run disk = (outcome, after))
    (success : outcome.code = 0) :
    ∃ (seen : Surroundings) (held : Settings) (setting : Setting),
      (surroundings.withEnvironmentFile : StateM Disk _).run disk = (some seen, disk) ∧
      held.HeldOn disk seen ∧ key ∈ setting.keys ∧ held.SavedMerged after seen setting value ∧
      (seen.settingsFile? = none → after = disk) ∧
      (Settings.ChangedOnly disk after seen setting value ↔
        (∃ path, seen.settingsFile? = some path) ∧
        ∀ other ≠ setting, ∀ text, seen.environment.get? other.variableName = some text →
          held.get? other = some text) := by
  obtain ⟨seen, printed, hseen, hperform⟩ := exists_runOn_of_run hparse hrun success
  obtain ⟨held, setting, heldOn, hkey, hsaved, hnone⟩ :=
    Request.exists_saved_of_runOn_changeSetting hperform
  exact ⟨seen, held, setting, hseen, heldOn, hkey, hsaved, hnone,
    hsaved.changedOnly_iff heldOn⟩

/-- Someone with a home directory, and with the given variables. -/
def someoneWith (environment : Environment) : Surroundings :=
  ⟨("HOME", "/h") :: environment, "/", none⟩

/-- A disk with a settings file in that home directory. -/
def settingsDisk (settings : Settings) : Disk :=
  (⟨∅, []⟩ : Disk).withFile ["h", ".config", "eg", "config.json"] settings.toJson.pretty

/-- That settings file holds the settings. -/
theorem heldOn_settingsDisk (environment : Environment) (settings : Settings)
    (h : (someoneWith environment).settingsFile? = some "/h/.config/eg/config.json") :
    settings.HeldOn (settingsDisk settings) (someoneWith environment) :=
  .file h rfl settings.ofText_pretty

/-- There is no variables file. -/
theorem eq_someoneWith_of_run {environment : Environment} {settings : Settings}
    {seen : Surroundings} {after : Disk}
    (h : ((someoneWith environment).withEnvironmentFile : StateM Disk _).run
      (settingsDisk settings) = (some seen, after)) : someoneWith environment = seen := by
  have hnone : ((someoneWith environment).withEnvironmentFile : StateM Disk _).run
      (settingsDisk settings) = (some (someoneWith environment), settingsDisk settings) := by
    have hancestors : Path.ancestors "/" = ["/"] := rfl
    rw [Surroundings.withEnvironmentFile, someoneWith, hancestors]
    rfl
  exact Option.some.inj (Prod.mk.inj (hnone.symm.trans h)).1

/-- A variable for the setting that is changed does not stand in the way of the other one. -/
theorem run_changedOnly_overridden_itself :
    let surroundings := someoneWith [("EG_STORE_DIR", "elsewhere")]
    let disk := settingsDisk ⟨"here", some "mine.json"⟩
    let arguments := ["config", "set", "store-dir", "st"]
    let ended := (run surroundings arguments : StateM Disk Outcome).run disk
    Request.parse arguments = .ok (.changeSetting "store-dir" "st") ∧ ended.1.code = 0 ∧
      Settings.ChangedOnly disk ended.2 surroundings .storeDirectory "st" := by
  intro surroundings disk arguments ended
  have hparse : Request.parse arguments = .ok (.changeSetting "store-dir" "st") := rfl
  have success : ended.1.code = 0 := by decide +kernel
  obtain ⟨seen, held, setting, hseen, heldOn, hkey, -, -, hiff⟩ :=
    run_changedOnly_iff hparse (rfl : _ = (ended.1, ended.2)) success
  obtain rfl := eq_someoneWith_of_run hseen
  obtain rfl : setting = .storeDirectory := Setting.eq_of_mem_keys hkey (by decide)
  refine ⟨hparse, success, hiff.2 ⟨⟨_, rfl⟩, fun other hother text htext => ?_⟩⟩
  cases other with
  | storeDirectory => exact absurd rfl hother
  | namingConfig =>
    have hfree : surroundings.environment.get? Setting.namingConfig.variableName = none := by decide
    cases hfree.symm.trans htext

/-- A variable for the other setting is saved in the place of what the file held. -/
theorem run_not_changedOnly_overridden :
    let surroundings := someoneWith [("EG_NAMING_CONFIG", "other.json")]
    let disk := settingsDisk ⟨".", some "mine.json"⟩
    let arguments := ["config", "set", "store-dir", "st"]
    let ended := (run surroundings arguments : StateM Disk Outcome).run disk
    Request.parse arguments = .ok (.changeSetting "store-dir" "st") ∧ ended.1.code = 0 ∧
      ¬ Settings.ChangedOnly disk ended.2 surroundings .storeDirectory "st" := by
  intro surroundings disk arguments ended
  have hparse : Request.parse arguments = .ok (.changeSetting "store-dir" "st") := rfl
  have success : ended.1.code = 0 := by decide +kernel
  obtain ⟨seen, printed, hseen, hperform⟩ :=
    exists_runOn_of_run hparse (rfl : _ = (ended.1, ended.2)) success
  obtain rfl := eq_someoneWith_of_run hseen
  obtain ⟨held, setting, heldOn, hkey, hsaved, -⟩ :=
    Request.exists_saved_of_runOn_changeSetting hperform
  obtain rfl : setting = .storeDirectory := Setting.eq_of_mem_keys hkey (by decide)
  obtain rfl := heldOn.unique (heldOn_settingsDisk _ _ rfl)
  refine ⟨hparse, success, fun h => ?_⟩
  exact absurd (((hsaved.changedOnly_iff heldOn).1 h).2 .namingConfig (by decide)
    "other.json" rfl) (by decide)

end ElementCatalog
