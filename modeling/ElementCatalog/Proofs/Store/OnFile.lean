import ElementCatalog.Proofs.Store.Document
import ElementCatalog.Proofs.Store.Execution

/-!
# Operations of a store on a file

A store on a file has its entries twice: in the file, and in mind once they have been read. What can
be seen of both is a `FileView`, and `FileView.Holds` says that both stand for the same map, which
is empty as long as there is no file.

The steps of file operations are given by the file system. Any of them can fail, as long as the file
stays as it was (`FileAccess`). Whatever fails, an operation does all that it should or nothing that
can be seen later: it ends with the map changed in the file and in mind, or with both as they were,
and then a step has failed (`obeys_viewFile`, `obeys_changeFile`).
-/

namespace ElementCatalog

/-- What can be seen of a store on a file. -/
structure FileView (α : Type) where
  /-- The text of the file, if it exists. -/
  text : Option String
  /-- The text of the file that a new document is written to first, if it exists. -/
  draft : Option String
  /-- The entries that are kept in mind, if there are. -/
  kept : Option (Std.ExtTreeMap String α)
  /-- How many steps of file operations have failed. -/
  failures : Nat

namespace FileView

variable {α : Type} {v w v' : FileView α} {codec : Codec α} {map : Std.ExtTreeMap String α}

/-- A step fails, which leaves the file and what is kept in mind. -/
def Fails (v v' : FileView α) : Prop :=
  ∃ draft, v' = { v with draft := draft, failures := v.failures + 1 }

/-- A step of a file operation either succeeds with an effect or fails. -/
def Steps (v w : FileView α) (outcome : Except IndexError (Except FileError Unit))
    (v' : FileView α) : Prop :=
  (outcome = .ok (.ok ()) ∧ v' = w) ∨ ∃ error, outcome = .ok (.error error) ∧ v.Fails v'

/-- The file and what is kept in mind stand for a map of values that read back. -/
structure Holds (codec : Codec α) (v : FileView α) (map : Std.ExtTreeMap String α) : Prop where
  /-- Nothing is kept in mind or the map is. -/
  kept : v.kept = none ∨ v.kept = some map
  /-- There is no file and the map is empty, or the text of the file reads as the map. -/
  text : (v.text = none ∧ map = ∅) ∨
    ∃ text, v.text = some text ∧ Store.entriesOfText codec text = .ok map
  /-- The values read back from what is written for them. -/
  readsBack : codec.ReadsBackAll map

/-- A failed step changes nothing that a store relies on. -/
theorem Fails.holds (h : v.Fails v') (hv : v.Holds codec map) : v'.Holds codec map := by
  obtain ⟨draft, rfl⟩ := h
  exact ⟨hv.kept, hv.text, hv.readsBack⟩

theorem Fails.text_eq (h : v.Fails v') : v'.text = v.text := by
  obtain ⟨draft, rfl⟩ := h
  rfl

theorem Fails.failures_lt (h : v.Fails v') : v.failures < v'.failures := by
  obtain ⟨draft, rfl⟩ := h
  exact Nat.lt_succ_self v.failures

end FileView

/-- A file system as a store on a file meets it, where no one else writes its files. A step may fail
at any time, and then leaves the file as it was. -/
structure FileAccess {m : Type → Type} [Monad m] [MonadExceptOf IndexError m] [FileSystem m]
    {σ α : Type} (execution : Execution m σ) (view : σ → FileView α) (file : StoreFile)
    (cache : Cell m (Option (Std.ExtTreeMap String α))) : Prop where
  /-- An error that is thrown changes nothing. -/
  throws {β : Type} (error : IndexError) :
    execution.Obeys view (throw error : m β) fun v outcome v' => outcome = .error error ∧ v' = v
  /-- What is kept in mind can be looked up. -/
  recalls : execution.Obeys view cache.read fun v outcome v' => outcome = .ok v.kept ∧ v' = v
  /-- Something is kept in mind. -/
  keeps (kept : Option (Std.ExtTreeMap String α)) :
    execution.Obeys view (cache.write kept) fun v outcome v' =>
      outcome = .ok () ∧ v' = { v with kept := kept }
  /-- The file is read. Only a file that does not exist is not found. -/
  readText : execution.Obeys view (FileSystem.readText file.path) fun v outcome v' =>
    (outcome = .ok (v.text.elim (.error .notFound) .ok) ∧ v' = v) ∨
      (outcome = .ok (.error .failed) ∧ v.Fails v')
  /-- The directory of the file is made. -/
  createDirectories :
    execution.Obeys view (FileSystem.createDirectories file.directory) fun v => v.Steps v
  /-- A new document is written beside the file. -/
  writeText (text : String) :
    execution.Obeys view (FileSystem.writeText file.temporary text) fun v =>
      v.Steps { v with draft := some text }
  /-- The new document takes the place of the file. -/
  rename : execution.Obeys view (FileSystem.rename file.temporary file.path) fun v =>
    v.Steps { v with text := v.draft, draft := none }

namespace FileAccess

variable {m : Type → Type} [Monad m] [MonadExceptOf IndexError m] [FileSystem m] {σ α β : Type}
  {execution : Execution m σ} {view : σ → FileView α} {file : StoreFile} {codec : Codec α}
  {cache : Cell m (Option (Std.ExtTreeMap String α))}

/-- An action behind a step that is required to succeed runs after the effect of the step, or not at
all. -/
theorem obeys_require (access : FileAccess execution view file cache)
    {step : m (Except FileError Unit)} {next : m β} {effect : FileView α → FileView α}
    {relation : FileView α → Except IndexError β → FileView α → Prop}
    (hstep : execution.Obeys view step fun v => v.Steps (effect v))
    (hnext : execution.Obeys view next relation) :
    execution.Obeys view (step >>= fun result => Store.requireFile result >>= fun _ => next)
      fun v outcome v' =>
        relation (effect v) outcome v' ∨ (outcome = .error .file ∧ v.Fails v') := by
  have hrequire (result : Except FileError Unit) :
      execution.Obeys view (Store.requireFile result >>= fun _ => next) fun v outcome v' =>
        (result = .ok () ∧ relation v outcome v') ∨
          ((∃ error, result = .error error) ∧ outcome = .error .file ∧ v' = v) := by
    cases result with
    | ok result =>
      refine ((Execution.obeys_pure ()).bind fun _ => hnext).mono ?_
      rintro v outcome v' (⟨_, middle, ⟨-, rfl⟩, h⟩ | ⟨error, ⟨herror, -⟩, -⟩)
      · exact .inl ⟨rfl, h⟩
      · cases herror
    | error error =>
      refine ((access.throws IndexError.file).bind fun _ => hnext).mono ?_
      rintro v outcome v' (⟨_, middle, ⟨hvalue, -⟩, -⟩ | ⟨error', ⟨herror, rfl⟩, rfl⟩)
      · cases hvalue
      · cases herror
        exact .inr ⟨⟨error, rfl⟩, rfl, rfl⟩
  refine (hstep.bind hrequire).mono ?_
  rintro v outcome v' (⟨result, middle, hresult, hrest⟩ | ⟨error, hresult, -⟩)
  · rcases hresult with ⟨hok, rfl⟩ | ⟨error, herror, hfails⟩
    · -- The step has succeeded, so the action ran after it.
      rcases hrest with ⟨-, h⟩ | ⟨⟨error, rfl⟩, -⟩
      · exact .inl h
      · cases hok
    · -- The step has failed, and its failure is thrown.
      rcases hrest with ⟨rfl, -⟩ | ⟨-, rfl, rfl⟩
      · cases herror
      · exact .inr ⟨rfl, hfails⟩
  · -- A step always returns, be it an error.
    rcases hresult with ⟨h, -⟩ | ⟨_, h, -⟩ <;> cases h

/-- A document is saved as a whole, or a step fails. -/
theorem obeys_saveFile [LawfulMonad m] (access : FileAccess execution view file cache)
    (map : Std.ExtTreeMap String α) :
    execution.Obeys view (Store.saveFile codec file map) fun v outcome v' =>
      (outcome = .ok () ∧
        v' = { v with text := some (Store.textOfEntries codec map), draft := none }) ∨
      (outcome = .error .file ∧ v.Fails v') := by
  have hrename := access.obeys_require access.rename (Execution.obeys_pure ())
  have hwrite := access.obeys_require (access.writeText (Store.textOfEntries codec map)) hrename
  have hcreate := access.obeys_require access.createDirectories hwrite
  have heq : Store.saveFile (m := m) codec file map = (do
      Store.requireFile (← FileSystem.createDirectories file.directory)
      Store.requireFile (← FileSystem.writeText file.temporary (Store.textOfEntries codec map))
      Store.requireFile (← FileSystem.rename file.temporary file.path)
      pure ()) := by
    simp [Store.saveFile]
  rw [heq]
  refine hcreate.mono ?_
  rintro v outcome v' (((⟨rfl, rfl⟩ | ⟨rfl, draft, rfl⟩) | ⟨rfl, draft, rfl⟩) | h)
  · exact .inl ⟨rfl, rfl⟩
  · exact .inr ⟨rfl, draft, rfl⟩
  · exact .inr ⟨rfl, draft, rfl⟩
  · exact .inr h

/-- What has been read of the file gives the map that the file holds, or its failure is thrown. -/
theorem obeys_loadFile (access : FileAccess execution view file cache) :
    execution.Obeys view (Store.loadFile codec file) fun v outcome v' =>
      ∀ map, v.Holds codec map →
        (outcome = .ok map ∧ v' = v) ∨ (outcome = .error .file ∧ v.Fails v') := by
  unfold Store.loadFile
  refine (access.readText.bind (?_ : ∀ answer, execution.Obeys view _ fun v outcome v' =>
    v' = v ∧
      (∀ text map, answer = .ok text → Store.entriesOfText codec text = .ok map →
        outcome = .ok map) ∧
      (answer = .error .notFound → outcome = .ok ∅) ∧
      (answer = .error .failed → outcome = .error .file))).mono ?_
  · intro answer
    split
    · next text =>
      split
      · next map hmap =>
        refine (Execution.obeys_pure map).mono ?_
        rintro v outcome v' ⟨rfl, rfl⟩
        refine ⟨rfl, ?_, by rintro ⟨⟩, by rintro ⟨⟩⟩
        rintro _ map' ⟨rfl⟩ hmap'
        rw [hmap] at hmap'
        cases hmap'
        rfl
      · next error hmap =>
        refine (access.throws _).mono ?_
        rintro v outcome v' ⟨rfl, rfl⟩
        refine ⟨rfl, ?_, by rintro ⟨⟩, by rintro ⟨⟩⟩
        rintro _ map' ⟨rfl⟩ hmap'
        rw [hmap] at hmap'
        cases hmap'
    · refine (Execution.obeys_pure ∅).mono ?_
      rintro v outcome v' ⟨rfl, rfl⟩
      exact ⟨rfl, by rintro _ _ ⟨⟩, fun _ => rfl, by rintro ⟨⟩⟩
    · refine (access.throws _).mono ?_
      rintro v outcome v' ⟨rfl, rfl⟩
      exact ⟨rfl, by rintro _ _ ⟨⟩, by rintro ⟨⟩, fun _ => rfl⟩
  · rintro v outcome v' (⟨answer, middle, hread, rfl, htext, habsent, hfailed⟩ |
      ⟨error, hread, -⟩) map holds
    · rcases hread with ⟨hread, rfl⟩ | ⟨hread, hfails⟩
      · -- The answer is what the file is, which stands for the map.
        left
        rcases holds.text with ⟨hnone, rfl⟩ | ⟨text, hsome, hmap⟩
        · rw [hnone] at hread
          exact ⟨habsent (Except.ok.inj hread), rfl⟩
        · rw [hsome] at hread
          exact ⟨htext text map (Except.ok.inj hread) hmap, rfl⟩
      · exact .inr ⟨hfailed (Except.ok.inj hread), hfails⟩
    · rcases hread with ⟨h, -⟩ | ⟨h, -⟩ <;> cases h

/-- The entries are those of the map that the store holds, or the file cannot be read. -/
theorem obeys_currentEntries (access : FileAccess execution view file cache) :
    execution.Obeys view (Store.currentEntries codec file cache) fun v outcome v' =>
      ∀ map, v.Holds codec map →
        (outcome = .ok map ∧ v' = v) ∨ (outcome = .error .file ∧ v.Fails v') := by
  unfold Store.currentEntries
  refine (access.recalls.bind (?_ : ∀ kept, execution.Obeys view _ fun v outcome v' =>
    ∀ map, v.Holds codec map → (kept = none ∨ kept = some map) →
      (outcome = .ok map ∧ v' = v) ∨ (outcome = .error .file ∧ v.Fails v'))).mono ?_
  · intro kept
    cases kept with
    | some kept =>
      refine (Execution.obeys_pure kept).mono ?_
      rintro v outcome v' ⟨rfl, rfl⟩ map - (h | h)
      · cases h
      · cases h
        exact .inl ⟨rfl, rfl⟩
    | none =>
      refine access.obeys_loadFile.mono ?_
      intro v outcome v' h map holds _
      exact h map holds
  · rintro v outcome v' (⟨kept, middle, ⟨hread, rfl⟩, h⟩ | ⟨error, ⟨herror, -⟩, -⟩) map holds
    · cases hread
      exact h map holds holds.kept
    · cases herror

/-- An action on the entries runs on those of the map that the store holds, or not at all. -/
theorem obeys_withEntries (access : FileAccess execution view file cache)
    {next : Std.ExtTreeMap String α → m β}
    {relation : Std.ExtTreeMap String α → FileView α → Except IndexError β → FileView α → Prop}
    (hnext : ∀ map, execution.Obeys view (next map) (relation map)) :
    execution.Obeys view (Store.currentEntries codec file cache >>= next) fun v outcome v' =>
      ∀ map, v.Holds codec map →
        relation map v outcome v' ∨ (outcome = .error .file ∧ v.Fails v') := by
  refine (access.obeys_currentEntries.bind hnext).mono ?_
  rintro v outcome v' (⟨entries, middle, hentries, h⟩ | ⟨error, hentries, rfl⟩) map holds
  · rcases hentries map holds with ⟨hok, rfl⟩ | ⟨herror, -⟩
    · cases hok
      exact .inl h
    · cases herror
  · rcases hentries map holds with ⟨hok, -⟩ | ⟨herror, hfails⟩
    · cases hok
    · cases herror
      exact .inr ⟨rfl, hfails⟩

/-- Whoever looks at the entries sees the map that the store holds, or a step fails. -/
theorem obeys_viewFile (access : FileAccess execution view file cache)
    (look : Std.ExtTreeMap String α → β) :
    execution.Obeys view (Store.viewFile codec file cache look) fun v outcome v' =>
      ∀ map, v.Holds codec map →
        (outcome = .ok (look map) ∧ v'.Holds codec map ∧ v'.failures = v.failures) ∨
          (outcome = .error .file ∧ v.Fails v') := by
  refine (access.obeys_withEntries fun map =>
    (access.keeps (some map)).bind fun _ => Execution.obeys_pure (look map)).mono ?_
  intro v outcome v' h map holds
  rcases h map holds with (⟨_, _, ⟨-, rfl⟩, rfl, rfl⟩ | ⟨error, ⟨herror, -⟩, -⟩) | hfails
  · exact .inl ⟨rfl, ⟨.inr rfl, holds.text, holds.readsBack⟩, rfl⟩
  · cases herror
  · exact .inr hfails

/-- The map is changed in the file and in mind, or a step fails. -/
theorem obeys_changeFile [LawfulMonad m] (access : FileAccess execution view file cache)
    {change : Std.ExtTreeMap String α → Std.ExtTreeMap String α}
    (hchange : ∀ map, codec.ReadsBackAll map → codec.ReadsBackAll (change map)) :
    execution.Obeys view (Store.changeFile codec file cache change) fun v outcome v' =>
      ∀ map, v.Holds codec map →
        (outcome = .ok () ∧ v'.Holds codec (change map) ∧ v'.failures = v.failures) ∨
          (outcome = .error .file ∧ v.Fails v') := by
  refine (access.obeys_withEntries fun map =>
    (access.obeys_saveFile (change map)).bind fun _ => access.keeps (some (change map))).mono ?_
  intro v outcome v' h map holds
  rcases h map holds with (⟨_, saved, hsaved, rfl, rfl⟩ | ⟨error, hsaved, rfl⟩) | hfails
  · rcases hsaved with ⟨-, rfl⟩ | ⟨herror, -⟩
    · -- The document that was written reads as the new map.
      have hread := Store.entriesOfText_textOfEntries (hchange map holds.readsBack)
      exact .inl ⟨rfl, ⟨.inr rfl, .inr ⟨_, rfl, hread⟩, hchange map holds.readsBack⟩, rfl⟩
    · cases herror
  · rcases hsaved with ⟨hok, -⟩ | ⟨herror, hfails⟩
    · cases hok
    · cases herror
      exact .inr ⟨rfl, hfails⟩
  · exact .inr hfails

end FileAccess

end ElementCatalog
