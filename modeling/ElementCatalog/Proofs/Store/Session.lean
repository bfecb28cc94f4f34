import ElementCatalog.Proofs.Store.OnFile

/-!
# Sessions on a file

Whoever uses a store makes calls one after another. A store on a file can be opened anew between two
calls, and every call of it can fail. In such a session (`play`) the calls that succeed answer what
the store in memory answers after the changes that have succeeded before, and a call that fails
leaves no trace (`onFile_refines_inMemory`).
-/

namespace ElementCatalog

namespace Store

/-- A call of a store. -/
inductive Call (α : Type) where
  /-- Asks for the value under a key. -/
  | get (key : String)
  /-- Asks for the values under keys. -/
  | getMany (keys : List String)
  /-- Puts a value under a key. -/
  | set (key : String) (value : α)
  /-- Puts values under keys. -/
  | setAll (entries : List (String × α))
  /-- Removes keys. -/
  | deleteAll (keys : List String)
  /-- Removes all keys. -/
  | clear
  /-- Asks for all keys. -/
  | keys
  /-- Asks for all keys with their values. -/
  | entries

variable {m : Type → Type} {α : Type}

namespace Call

/-- What a call answers. -/
def Answer : Call α → Type
  | get _ => Option α
  | getMany _ => List (Option α)
  | keys => List String
  | entries => List (String × α)
  | set _ _ | setAll _ | deleteAll _ | clear => Unit

/-- A call made on a store. -/
def perform (store : Store m α) : (call : Call α) → m call.Answer
  | get key => store.get key
  | getMany list => store.getMany list
  | set key value => store.set key value
  | setAll list => store.setAll list
  | deleteAll list => store.deleteAll list
  | clear => store.clear
  | keys => store.keys
  | entries => store.entries

/-- Whether a call changes the store. -/
def mutates : Call α → Bool
  | set _ _ | setAll _ | deleteAll _ | clear => true
  | get _ | getMany _ | keys | entries => false

/-- All values that a call puts into the store have a property. -/
def Puts (p : α → Prop) : Call α → Prop
  | set _ value => p value
  | setAll list => ∀ entry ∈ list, p entry.2
  | _ => True

end Call

/-- The store in memory, with the map as its state. -/
def memory : Store (StateM (Std.ExtTreeMap String α)) α :=
  inMemory (Cell.ofPart id fun map _ => map)

/-- A call that does not change the store leaves the map in memory. -/
theorem run_memory_of_not_mutates {call : Call α} (h : call.mutates = false)
    (map : Std.ExtTreeMap String α) : ((call.perform memory).run map).2 = map := by
  cases call with
  | get key | getMany keys | keys | entries => rfl
  | set key value | setAll entries | deleteAll keys | clear => cases h

/-- What someone does in a session. -/
inductive Event (α : Type) where
  /-- A call. -/
  | call (call : Call α)
  /-- Opening the store anew. -/
  | reopen

/-- A call that was made, and its outcome. -/
structure Record (α : Type) where
  /-- The call. -/
  call : Call α
  /-- Its outcome. -/
  outcome : Except IndexError call.Answer

namespace Record

/-- Whether a call was made that changes the store and succeeded. -/
def hasChanged (record : Record α) : Bool :=
  record.call.mutates && record.outcome.isOk

/-- What the store in memory holds after just those of some calls that have changed something. -/
def replay (map : Std.ExtTreeMap String α) (records : List (Record α)) :
    Std.ExtTreeMap String α :=
  (records.filter hasChanged).foldl (fun map record => ((record.call.perform memory).run map).2) map

theorem replay_cons (map : Std.ExtTreeMap String α) (record : Record α)
    (records : List (Record α)) :
    replay map (record :: records) = replay (replay map [record]) records := by
  by_cases h : record.hasChanged = true
  · simp [replay, h]
  · simp [replay, h]

/-- A call that succeeds leaves in memory what it leaves there, be it a change or not. -/
theorem replay_ok {call : Call α} (answer : call.Answer) (map : Std.ExtTreeMap String α) :
    replay map [⟨call, .ok answer⟩] = ((call.perform memory).run map).2 := by
  by_cases h : call.mutates = true
  · simp [replay, hasChanged, h, Except.isOk, Except.toBool]
  · rw [Bool.not_eq_true] at h
    rw [run_memory_of_not_mutates h]
    simp [replay, hasChanged, h]

/-- A call that fails leaves nothing. -/
theorem replay_error {call : Call α} (error : IndexError) (map : Std.ExtTreeMap String α) :
    replay map [⟨call, .error error⟩] = map := by
  simp [replay, hasChanged, Except.isOk, Except.toBool]

end Record

variable [Monad m] [MonadExceptOf IndexError m] [FileSystem m] {σ : Type}
  (execution : Execution m σ) (codec : Codec α) (file : StoreFile)
  (cache : Cell m (Option (Std.ExtTreeMap String α)))

/-- A session: the calls that are made with their outcomes, and the state at the end. A store that
is opened anew keeps nothing in mind. -/
def play : List (Event α) → σ → List (Record α) × σ
  | [], s => ([], s)
  | .call call :: rest, s =>
    let (outcome, after) := execution.run (call.perform (onFile codec file cache)) s
    let (records, last) := play rest after
    (⟨call, outcome⟩ :: records, last)
  | .reopen :: rest, s => play rest (execution.run (cache.write none) s).2

variable {execution codec file cache} {view : σ → FileView α}

/-- A call of a store on a file does what it does in memory, or a step fails. -/
theorem obeys_perform [LawfulMonad m] (access : FileAccess execution view file cache)
    {call : Call α} (hputs : call.Puts codec.ReadsBack) :
    execution.Obeys view (call.perform (onFile codec file cache)) fun v outcome v' =>
      ∀ map, v.Holds codec map →
        (outcome = .ok ((call.perform memory).run map).1 ∧
          v'.Holds codec ((call.perform memory).run map).2 ∧ v'.failures = v.failures) ∨
        (outcome = .error .file ∧ v.Fails v') := by
  -- Nothing is done for no entries and for no keys.
  have hnothing : execution.Obeys view (pure () : m Unit) fun v outcome v' =>
      ∀ map, v.Holds codec map →
        (outcome = .ok () ∧ v'.Holds codec map ∧ v'.failures = v.failures) ∨
          (outcome = .error .file ∧ v.Fails v') := by
    refine (Execution.obeys_pure ()).mono ?_
    rintro v outcome v' ⟨rfl, rfl⟩ map holds
    exact .inl ⟨rfl, holds, rfl⟩
  cases call with
  | get key => exact access.obeys_viewFile fun map => map[key]?
  | getMany keys => exact access.obeys_viewFile fun map => keys.map fun key => map[key]?
  | keys => exact access.obeys_viewFile fun map => map.keys
  | entries => exact access.obeys_viewFile fun map => map.toList
  | set key value => exact access.obeys_changeFile fun map h => h.insert key hputs
  | setAll entries =>
    show execution.Obeys view (if entries.isEmpty then pure ()
      else changeFile codec file cache (insertAll entries)) _
    cases entries with
    | nil => exact hnothing
    | cons entry rest => exact access.obeys_changeFile fun map h => h.insertAll hputs
  | deleteAll keys =>
    show execution.Obeys view (if keys.isEmpty then pure ()
      else changeFile codec file cache (eraseAll keys)) _
    cases keys with
    | nil => exact hnothing
    | cons key rest => exact access.obeys_changeFile fun map h => h.eraseAll (key :: rest)
  | clear => exact access.obeys_changeFile fun map _ => Codec.readsBackAll_empty

/-- Throughout a session a store holds what the store in memory holds after the successful
changes. -/
theorem holds_play [LawfulMonad m] (access : FileAccess execution view file cache)
    {events : List (Event α)}
    (hputs : ∀ call, .call call ∈ events → call.Puts codec.ReadsBack) {s : σ}
    {map : Std.ExtTreeMap String α} (holds : (view s).Holds codec map) :
    (view (play execution codec file cache events s).2).Holds codec
      (Record.replay map (play execution codec file cache events s).1) := by
  induction events generalizing s map with
  | nil => exact holds
  | cons event rest ih =>
    have hrest : ∀ call, .call call ∈ rest → call.Puts codec.ReadsBack := fun call hcall =>
      hputs call (List.mem_cons_of_mem _ hcall)
    cases event with
    | call call =>
      have hcall := obeys_perform access (hputs call List.mem_cons_self) s map holds
      rcases hrun : execution.run (call.perform (onFile codec file cache)) s with ⟨outcome, after⟩
      rw [hrun] at hcall
      simp only [play, hrun]
      rw [Record.replay_cons]
      rcases hcall with ⟨hok, hholds, -⟩ | ⟨herror, hfails⟩
      · obtain rfl : outcome = _ := hok
        rw [Record.replay_ok]
        exact ih hrest hholds
      · obtain rfl : outcome = _ := herror
        rw [Record.replay_error]
        exact ih hrest (hfails.holds holds)
    | reopen =>
      -- What is kept in mind is lost, and the file still holds the map.
      obtain ⟨-, hkept⟩ := access.keeps none s
      apply ih hrest
      rw [hkept]
      exact ⟨.inl rfl, holds.text, holds.readsBack⟩

/-- A store on a file refines the store in memory. In a session that starts without a file, in which
any step of a file operation can fail and the store can be opened anew at any time, each call ends
in one of two ways. It succeeds, and answers what the store in memory answers after just the
successful changes before it. Or a step of it fails, and then the call fails and the file stays as it
was. -/
theorem onFile_refines_inMemory [LawfulMonad m] (access : FileAccess execution view file cache)
    {start : σ} (absent : (view start).text = none) (fresh : (view start).kept = none)
    (earlier : List (Event α)) (call : Call α)
    (puts : ∀ made, .call made ∈ earlier ++ [.call call] → made.Puts codec.Keeps) :
    let session := play execution codec file cache earlier start
    let result := execution.run (call.perform (onFile codec file cache)) session.2
    (result.1 = .ok ((call.perform memory).run (Record.replay ∅ session.1)).1 ∧
        (view result.2).failures = (view session.2).failures) ∨
      (result.1 = .error .file ∧ (view result.2).text = (view session.2).text ∧
        (view session.2).failures < (view result.2).failures) := by
  intro session result
  have hreads : ∀ made, .call made ∈ earlier ++ [.call call] → made.Puts codec.ReadsBack := by
    intro made hmade
    have hkeeps := puts made hmade
    cases made with
    | set key value => exact Codec.Keeps.readsBack hkeeps
    | setAll list => exact fun entry hentry => (hkeeps entry hentry).readsBack
    | _ => trivial
  have hstart : (view start).Holds codec ∅ :=
    ⟨.inl fresh, .inl ⟨absent, rfl⟩, Codec.readsBackAll_empty⟩
  have hsession : (view session.2).Holds codec (Record.replay ∅ session.1) :=
    holds_play access (fun made hmade => hreads made (List.mem_append_left _ hmade)) hstart
  have hcall := hreads call (List.mem_append_right _ (List.mem_singleton_self _))
  rcases obeys_perform access hcall session.2 _ hsession with ⟨hok, -, hfailures⟩ | ⟨herror, hfails⟩
  · exact .inl ⟨hok, hfailures⟩
  · exact .inr ⟨herror, hfails.text_eq, hfails.failures_lt⟩

end Store

/-! ## Files that fail -/

/-- Files by their paths. Some operations on them fail. Directories are there whenever a file needs
them. -/
structure FlakyFiles where
  /-- The texts of the files. -/
  texts : Std.ExtTreeMap String String
  /-- Whether each of the next operations fails. Those after them succeed. -/
  plan : List Bool
  /-- How many operations have failed. -/
  failures : Nat

namespace FlakyFiles

/-- An operation that is made unless it is planned to fail. -/
def attempt {β : Type} (operation : FlakyFiles → Except FileError β × FlakyFiles) :
    StateM FlakyFiles (Except FileError β) := fun files =>
  match files.plan with
  | true :: rest => (.error .failed, { files with plan := rest, failures := files.failures + 1 })
  | plan => operation { files with plan := plan.tail }

instance : FileSystem (StateM FlakyFiles) where
  readText path := attempt fun files => (files.texts[path]?.elim (.error .notFound) .ok, files)
  writeText path text := attempt fun files =>
    (.ok (), { files with texts := files.texts.insert path text })
  createDirectories _ := attempt fun files => (.ok (), files)
  rename source target := attempt fun files =>
    match files.texts[source]? with
    | some text => (.ok (), { files with texts := (files.texts.erase source).insert target text })
    | none => (.error .notFound, { files with failures := files.failures + 1 })
  kindOf path := attempt fun files =>
    (if path ∈ files.texts then .ok .file else .error .notFound, files)

variable {α κ : Type} {get : κ → Option (Std.ExtTreeMap String α)}
  {put : Option (Std.ExtTreeMap String α) → κ → κ} {file : StoreFile}

/-- What can be seen of a store on a flaky file, with what is kept in mind beside the files. -/
def view (file : StoreFile) (get : κ → Option (Std.ExtTreeMap String α)) (s : κ × FlakyFiles) :
    FileView α where
  text := s.2.texts[file.path]?
  draft := s.2.texts[file.temporary]?
  kept := get s.1
  failures := s.2.failures

/-- A step that is made or planned to fail is one that succeeds with its effect or fails. -/
theorem obeys_attempt {operation : FlakyFiles → Except FileError Unit × FlakyFiles}
    {effect : FileView α → FileView α}
    (h : ∀ (caches : κ) (files : FlakyFiles),
      (view file get (caches, files)).Steps (effect (view file get (caches, files)))
        (.ok (operation files).1) (view file get (caches, (operation files).2))) :
    (Execution.layered κ FlakyFiles).Obeys (view file get)
      (ExceptT.lift (StateT.lift (attempt operation))) fun v => v.Steps (effect v) := by
  rintro ⟨caches, texts, plan, failures⟩
  rcases plan with _ | ⟨_ | _, rest⟩
  · exact h caches ⟨texts, [], failures⟩
  · exact h caches ⟨texts, rest, failures⟩
  · exact .inr ⟨_, rfl, _, rfl⟩

/-- Flaky files are as a store on a file needs them. -/
theorem access (hput : ∀ kept caches, get (put kept caches) = kept)
    (hfile : file.path ≠ file.temporary) :
    FileAccess (Execution.layered κ FlakyFiles) (view file get) file
      (Cell.lift (Cell.ofPart get put)) where
  throws error s := ⟨rfl, rfl⟩
  recalls s := ⟨rfl, rfl⟩
  keeps kept s := by
    refine ⟨rfl, ?_⟩
    show view file get (put kept s.1, s.2) = _
    rw [view, hput]
    rfl
  readText := by
    rintro ⟨caches, texts, plan, failures⟩
    rcases plan with _ | ⟨_ | _, rest⟩
    · exact .inl ⟨rfl, rfl⟩
    · exact .inl ⟨rfl, rfl⟩
    · exact .inr ⟨rfl, _, rfl⟩
  createDirectories := obeys_attempt fun caches files => .inl ⟨rfl, rfl⟩
  writeText text := by
    refine obeys_attempt fun caches files => .inl ⟨rfl, ?_⟩
    -- The new document does not touch the file.
    have htext : (files.texts.insert file.temporary text)[file.path]? =
        files.texts[file.path]? := by
      simp [Std.ExtTreeMap.getElem?_insert, hfile.symm]
    simp [view, htext]
  rename := by
    refine obeys_attempt fun caches files => ?_
    rcases hdraft : files.texts[file.temporary]? with _ | text
    · -- Without a new document there is nothing to rename.
      exact .inr ⟨.notFound, rfl, _, rfl⟩
    · refine .inl ⟨rfl, ?_⟩
      simp [view, hdraft, hfile]

end FlakyFiles

namespace Store

/-- A session with an index in which the first change fails at its last step. The second change is
what is found after the index is opened anew. -/
theorem onFile_refines_inMemory_flaky :
    let execution := Execution.layered IndexCaches FlakyFiles
    let stores := IndexStores.onFiles (m := StateM FlakyFiles) ""
    let cache := Cell.lift
      (Cell.ofPart IndexCaches.index fun map caches => { caches with index := map })
    let start : IndexCaches × FlakyFiles := (.empty, ⟨∅, [false, false, false, true], 0⟩)
    let id : ElementId := .ofType "adapter" "type"
    let earlier := [.call (.set "2024" [id]), .call (.set "2025" [id]), .reopen]
    let session := play execution .ids (IndexStores.indexFile "") cache earlier start
    session.1.map (fun record => record.outcome.isOk) = [false, true] ∧
      (execution.run stores.index.entries session.2).1 = .ok [("2025", [id])] := by
  intro execution stores cache start id earlier session
  refine ⟨by decide +kernel, ?_⟩
  let view := FlakyFiles.view (IndexStores.indexFile "") IndexCaches.index
  have access : FileAccess execution view (IndexStores.indexFile "") cache :=
    FlakyFiles.access (fun _ _ => rfl) (by decide)
  have absent : (view start).text = none := rfl
  have fresh : (view start).kept = none := rfl
  have hid : ∀ other ∈ [id], ElementId.parse other.fullName = .ok other := by decide
  have puts : ∀ made, .call made ∈ earlier ++ [.call .entries] →
      made.Puts (Codec.Keeps .ids) := by
    intro made hmade
    simp only [earlier, List.cons_append, List.nil_append, List.mem_cons, List.not_mem_nil,
      or_false, Event.call.injEq, reduceCtorEq, false_or] at hmade
    rcases hmade with rfl | rfl | rfl
    · exact .ids hid
    · exact .ids hid
    · trivial
  have hcall := onFile_refines_inMemory access absent fresh earlier .entries puts
  have hsession : play execution .ids (IndexStores.indexFile "") cache earlier start = session :=
    rfl
  have hentries : Call.perform (onFile .ids (IndexStores.indexFile "") cache) .entries =
      stores.index.entries := rfl
  rw [hsession, hentries] at hcall
  have hmemory : (Record.replay ∅ session.1).toList = [("2025", [id])] := by decide +kernel
  have hfailures : (view (execution.run stores.index.entries session.2).2).failures =
      (view session.2).failures := by decide +kernel
  -- From here on the session need not be played again.
  clear_value session
  rcases hcall with ⟨hok, -⟩ | ⟨-, -, hfails⟩
  · rw [← hmemory]
    exact hok
  · exact absurd hfails (hfailures ▸ Nat.lt_irrefl _)

end Store

end ElementCatalog
