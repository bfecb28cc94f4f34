import ElementCatalog.Proofs.Reading.Draft
import ElementCatalog.Reading.Record
import ElementCatalog.Reading.Tagged

/-!
# What readers keep

A record is completed from parts that its fields were stored in one after another, whether it is
read from a draft or from a finished tree. What holds of the parts at the start, and is kept by
storing any field, thus holds of the parts that a record is completed from.

## Main results

* `Record.exists_complete_of_ofJson`, `Record.exists_complete_of_ofDraft`: a record that is read is
  completed from parts that keep what its fields keep;
* `Json.Draft.exists_read_of_mem_items`: every item of a list that is read was read.
-/

namespace ElementCatalog

open Json (Ending Draft)

/-- Steps succeed by one after the other succeeding. -/
theorem exists_of_bind_eq_ok {ε α β : Type} {first : Except ε α} {next : α → Except ε β}
    {result : β} (h : first >>= next = .ok result) :
    ∃ value, first = .ok value ∧ next value = .ok result := by
  cases first with
  | error _ => cases h
  | ok value => exact ⟨value, rfl, h⟩

/-- What is made of a result that succeeds is made of its value. -/
theorem exists_of_map_eq_ok {ε α β : Type} {make : α → β} {first : Except ε α} {result : β}
    (h : make <$> first = .ok result) : ∃ value, first = .ok value ∧ make value = result := by
  cases first with
  | error _ => cases h
  | ok value => exact ⟨value, rfl, Except.ok.inj h⟩

/-- Telling errors in another way makes no result of an error. -/
theorem eq_ok_of_mapError_eq_ok {ε δ α : Type} {tell : ε → δ} {first : Except ε α} {result : α}
    (h : first.mapError tell = .ok result) : first = .ok result := by
  cases first with
  | error _ => cases h
  | ok value => exact congrArg Except.ok (Except.ok.inj h)

/-- Every result of steps made one after another is that of some step. -/
theorem exists_of_mem_mapM {ε α β : Type} {step : α → Except ε β} {parts : List α}
    {results : List β} (h : parts.mapM step = .ok results) {result : β} (hmem : result ∈ results) :
    ∃ part ∈ parts, step part = .ok result := by
  induction parts generalizing results with
  | nil =>
    obtain rfl : [] = results := Except.ok.inj h
    exact absurd hmem List.not_mem_nil
  | cons part rest ih =>
    rw [List.mapM_cons] at h
    obtain ⟨first, hfirst, h⟩ := exists_of_bind_eq_ok h
    obtain ⟨others, hothers, h⟩ := exists_of_bind_eq_ok h
    obtain rfl : first :: others = results := Except.ok.inj h
    rcases List.mem_cons.1 hmem with rfl | hmem
    · exact ⟨part, List.mem_cons_self, hfirst⟩
    · obtain ⟨found, hfound, hresult⟩ := ih hothers hmem
      exact ⟨found, List.mem_cons_of_mem _ hfound, hresult⟩

namespace Json.Draft

mutual

/-- What a draft becomes goes no deeper than there was room. -/
theorem depth_le_of_settle {room : Nat} : ∀ {draft : Draft} {tree : Json},
    settle room draft = .ok tree → tree.depth ≤ room
  | .atom held, tree, h => by
    cases held <;> cases h <;> exact Nat.zero_le room
  | .list items ending, tree, h => by
    cases room with
    | zero => cases h
    | succ room =>
      obtain ⟨settled, hsettled, h⟩ := exists_of_bind_eq_ok h
      obtain ⟨-, -, h⟩ := exists_of_bind_eq_ok h
      obtain rfl := Except.ok.inj h
      exact Nat.succ_le_succ (itemDepth_le_of_settleItems hsettled)
  | .object members ending, tree, h => by
    cases room with
    | zero => cases h
    | succ room =>
      obtain ⟨settled, hsettled, h⟩ := exists_of_bind_eq_ok h
      obtain ⟨-, -, h⟩ := exists_of_bind_eq_ok h
      obtain rfl := Except.ok.inj h
      exact Nat.succ_le_succ (memberDepth_le_of_settleMembers hsettled)

/-- Finished items go no deeper than there was room. -/
theorem itemDepth_le_of_settleItems {room : Nat} : ∀ {items : List Draft} {trees : List Json},
    settleItems room items = .ok trees → itemDepth trees ≤ room
  | [], trees, h => by
    obtain rfl := Except.ok.inj h
    exact Nat.zero_le room
  | item :: rest, trees, h => by
    obtain ⟨first, hfirst, h⟩ := exists_of_bind_eq_ok h
    obtain ⟨others, hothers, h⟩ := exists_of_bind_eq_ok h
    obtain rfl := Except.ok.inj h
    exact max_le (depth_le_of_settle hfirst) (itemDepth_le_of_settleItems hothers)

/-- Finished members go no deeper than there was room. -/
theorem memberDepth_le_of_settleMembers {room : Nat} :
    ∀ {members : List (Key × Draft)} {trees : List (String × Json)},
    settleMembers room members = .ok trees → memberDepth trees ≤ room
  | [], trees, h => by
    obtain rfl := Except.ok.inj h
    exact Nat.zero_le room
  | member :: rest, trees, h => by
    obtain ⟨key, -, h⟩ := exists_of_bind_eq_ok h
    obtain ⟨first, hfirst, h⟩ := exists_of_bind_eq_ok h
    obtain ⟨others, hothers, h⟩ := exists_of_bind_eq_ok h
    obtain rfl := Except.ok.inj h
    exact max_le (depth_le_of_settle hfirst) (memberDepth_le_of_settleMembers hothers)

end

/-- A finished tree goes no deeper than there was room. -/
theorem depth_le_of_tree {room : Nat} {draft : Draft} {tree : Json}
    (h : Draft.tree room draft = .ok tree) : tree.depth ≤ room :=
  depth_le_of_settle (eq_ok_of_mapError_eq_ok h)

end Json.Draft

/-- What is read from a text is read from the draft of its root. -/
theorem Json.Document.exists_reader_of_read {α : Type} {reader : Nat → Draft → Read α}
    {text : String} {value : α} (h : read reader text = .ok value) :
    ∃ draft, reader depthLimit draft = .ok value := by
  obtain ⟨found, hfound, h⟩ := exists_of_bind_eq_ok h
  split at h
  · cases h
  · obtain rfl := Except.ok.inj h
    exact ⟨_, hfound⟩

/-- There is room inside of a container exactly if there is room for one level. -/
theorem Json.Draft.roomInside_eq_ok_iff {room inside : Nat} :
    Draft.roomInside room = .ok inside ↔ room = inside + 1 := by
  cases room with
  | zero => exact iff_of_false (fun h => by cases h) (Nat.succ_ne_zero inside).symm
  | succ room => simp [Draft.roomInside]

/-- Every item of a list that is read was read, with one level less. -/
theorem Json.Draft.exists_read_of_mem_items {α : Type} {read : Nat → Draft → Read α} {room : Nat}
    {draft : Draft} {items : List α} (h : Draft.items read room draft = .ok items) {item : α}
    (hmem : item ∈ items) : ∃ inside part, room = inside + 1 ∧ read inside part = .ok item := by
  match draft with
  | .list drafts ending =>
    obtain ⟨inside, hinside, h⟩ := exists_of_bind_eq_ok h
    obtain ⟨found, hfound, h⟩ := exists_of_bind_eq_ok h
    obtain ⟨-, -, h⟩ := exists_of_bind_eq_ok h
    obtain rfl : found = items := Except.ok.inj h
    obtain ⟨part, -, hpart⟩ := exists_of_mem_mapM hfound hmem
    exact ⟨inside, part, roomInside_eq_ok_iff.1 hinside, hpart⟩
  | .atom _ | .object _ _ => cases h

/-- Every value of a dictionary that is read was read. -/
theorem Json.Draft.exists_read_of_mem_members {α : Type} {read : Nat → Draft → Read α} {room : Nat}
    {draft : Draft} {members : List (String × α)} (h : Draft.members read room draft = .ok members)
    {member : String × α} (hmem : member ∈ members) :
    ∃ inside part, read inside part = .ok member.2 := by
  cases draft with
  | object drafts ending =>
    obtain ⟨inside, -, h⟩ := exists_of_bind_eq_ok h
    obtain ⟨found, hfound, h⟩ := exists_of_bind_eq_ok h
    obtain ⟨-, -, h⟩ := exists_of_bind_eq_ok h
    obtain rfl : found = members := Except.ok.inj h
    obtain ⟨part, -, hpart⟩ := exists_of_mem_mapM hfound hmem
    obtain ⟨key, -, hpart⟩ := exists_of_bind_eq_ok hpart
    obtain ⟨value, hvalue, hpart⟩ := exists_of_bind_eq_ok hpart
    obtain rfl := Except.ok.inj hpart
    exact ⟨inside, part.2, hvalue⟩
  | atom held | list items ending => cases h

namespace Record

variable {σ ν ε α : Type} {holds : σ → Prop}

/-- What holds of parts still holds with any of the fields stored, where it is read from an allowed
node. -/
def Keeps (allowed : ν → Prop) (holds : σ → Prop) (fields : List (Field σ ν ε)) : Prop :=
  ∀ field ∈ fields, ∀ parts node stored, allowed node →
    holds parts → field.store parts node = .ok stored → holds stored

/-- There is nothing to keep without fields. -/
theorem keeps_nil {allowed : ν → Prop} : @Keeps σ ν ε allowed holds [] :=
  fun _ hfield => absurd hfield List.not_mem_nil

/-- A field that fills one part keeps what holds with whatever it reads in that part. -/
theorem keeps_cons_slot {allowed : ν → Prop} {name : String} {get : σ → Option α}
    {put : σ → α → σ} {read : ν → Except ε α} {fields : List (Field σ ν ε)}
    (hput : ∀ parts node value, allowed node → holds parts → read node = .ok value →
      holds (put parts value))
    (keeps : Keeps allowed holds fields) :
    Keeps allowed holds (.slot name get put read :: fields) := by
  refine List.forall_mem_cons.2 ⟨fun parts node stored hnode hparts hstored => ?_, keeps⟩
  obtain ⟨value, hvalue, rfl⟩ := exists_of_map_eq_ok hstored
  exact hput parts node value hnode hparts hvalue

/-- A part that has to be there is there if nothing is missing. -/
theorem eq_some_of_required_eq_ok {missing : String → ShapeError} {name : String}
    {part : Option α} {value : α} (h : required missing name part = .ok value) :
    part = some value := by
  cases part with
  | none => cases h
  | some found => exact congrArg some (Except.ok.inj h)

/-- A field with a name is one of the fields. -/
theorem mem_of_field?_eq_some {record : Record σ ν ε α} {name : String} {field : Field σ ν ε}
    (h : record.field? name = some field) : field ∈ record.fields :=
  List.mem_of_find?_eq_some h

/-- Reading members keeps what the fields keep. -/
theorem holds_of_readMembers {record : Record σ Json ShapeError α} {allowed : Json → Prop}
    (keeps : Keeps allowed holds record.fields) {members : List (String × Json)}
    (hallowed : ∀ member ∈ members, allowed member.2) {parts stored : σ} (hparts : holds parts)
    (h : record.readMembers parts members = .ok stored) : holds stored := by
  induction members generalizing parts with
  | nil => exact Except.ok.inj h ▸ hparts
  | cons member rest ih =>
    obtain ⟨hmember, hrest⟩ := List.forall_mem_cons.1 hallowed
    rw [readMembers] at h
    split at h
    · exact ih hrest hparts h
    · next field hfield =>
      split at h
      · cases h
      · obtain ⟨next, hnext, h⟩ := exists_of_bind_eq_ok h
        exact ih hrest
          (keeps field (mem_of_field?_eq_some hfield) _ _ _ hmember hparts hnext) h

/-- Reading items keeps what the fields keep. -/
theorem holds_of_readItems {fields : List (Field σ Json ShapeError)} {allowed : Json → Prop}
    (keeps : Keeps allowed holds fields) {items : List Json}
    (hallowed : ∀ item ∈ items, allowed item) {parts stored : σ} (hparts : holds parts)
    (h : readItems fields parts items = .ok stored) : holds stored := by
  induction items generalizing fields parts with
  | nil =>
    rw [readItems] at h
    exact Except.ok.inj h ▸ hparts
  | cons item rest ih =>
    obtain ⟨hitem, hrest⟩ := List.forall_mem_cons.1 hallowed
    cases fields with
    | nil => cases h
    | cons field fields =>
      obtain ⟨next, hnext, h⟩ := exists_of_bind_eq_ok h
      refine ih (fun other hother => keeps other (List.mem_cons_of_mem _ hother)) hrest ?_ h
      exact keeps field List.mem_cons_self _ _ _ hitem hparts hnext

/-- A record that is read from a finished tree is completed from parts that keep what its fields
keep, given what they are read from: parts of the tree that go less deep. -/
theorem exists_complete_of_ofJson {record : Record σ Json ShapeError α} {tree : Json}
    (keeps : Keeps (fun node => node.depth < tree.depth) holds record.fields)
    (start : holds record.start) {result : α} (h : record.ofJson tree = .ok result) :
    ∃ missing parts, holds parts ∧ record.complete missing parts = .ok result := by
  match tree with
  | .object members =>
    obtain ⟨parts, hparts, h⟩ := exists_of_bind_eq_ok h
    have hallowed := Json.memberDepth_le_iff.1 (Nat.le_refl (Json.memberDepth members))
    exact ⟨_, parts, holds_of_readMembers keeps
      (fun member hmember => Nat.lt_succ_of_le (hallowed member hmember)) start hparts, h⟩
  | .list items =>
    obtain ⟨parts, hparts, h⟩ := exists_of_bind_eq_ok h
    have hallowed := Json.itemDepth_le_iff.1 (Nat.le_refl (Json.itemDepth items))
    exact ⟨_, parts, holds_of_readItems keeps
      (fun item hitem => Nat.lt_succ_of_le (hallowed item hitem)) start hparts, h⟩
  | .null | .bool _ | .number _ | .string _ => cases h

/-- A member of a draft under the name of a field that was not read before is stored. -/
theorem scanMembers_cons_of_field? {record : Record σ Draft DocumentError α} {ending : Ending}
    {key : String} {value : Draft} {rest : List (Json.Key × Draft)} {parts stored : σ}
    {field : Field σ Draft DocumentError} (hfield : record.field? key = some field)
    (hset : field.isSet parts = false) (hstore : field.store parts value = .ok stored) :
    record.scanMembers ending parts ((.ok key, value) :: rest) =
      record.scanMembers ending stored rest := by
  have hkey : Read.ofText (.ok key) = .ok key := rfl
  simp only [scanMembers, hkey, bind, Except.bind, hfield, hset, hstore]
  rfl

/-- Reading members of a draft keeps what the fields keep. -/
theorem holds_of_scanMembers {record : Record σ Draft DocumentError α} {ending : Ending}
    (keeps : Keeps (fun _ => True) holds record.fields) {members : List (Json.Key × Draft)}
    {parts stored : σ}
    (hparts : holds parts) (h : record.scanMembers ending parts members = .ok stored) :
    holds stored := by
  induction members generalizing parts with
  | nil =>
    rw [scanMembers] at h
    obtain ⟨-, -, h⟩ := exists_of_bind_eq_ok h
    exact Except.ok.inj h ▸ hparts
  | cons member rest ih =>
    rw [scanMembers] at h
    obtain ⟨key, -, h⟩ := exists_of_bind_eq_ok h
    split at h
    · obtain ⟨-, -, h⟩ := exists_of_bind_eq_ok h
      exact ih hparts h
    · next field hfield =>
      split at h
      · cases h
      · obtain ⟨next, hnext, h⟩ := exists_of_bind_eq_ok h
        exact ih (keeps field (mem_of_field?_eq_some hfield) _ _ _ trivial hparts hnext) h

/-- Reading items of a draft keeps what the fields keep. -/
theorem holds_of_scanItems {fields : List (Field σ Draft DocumentError)} {ending : Ending}
    (keeps : Keeps (fun _ => True) holds fields) {items : List Draft} {parts stored : σ}
    (hparts : holds parts)
    (h : scanItems ending fields parts items = .ok stored) : holds stored := by
  induction items generalizing fields parts with
  | nil =>
    -- The end is looked at in another way if fields are left out.
    cases fields with
    | nil | cons _ _ =>
      obtain ⟨-, -, h⟩ := exists_of_bind_eq_ok h
      exact Except.ok.inj h ▸ hparts
  | cons item rest ih =>
    cases fields with
    | nil => cases h
    | cons field fields =>
      obtain ⟨next, hnext, h⟩ := exists_of_bind_eq_ok h
      refine ih (fun other hother => keeps other (List.mem_cons_of_mem _ hother)) ?_ h
      exact keeps field List.mem_cons_self _ _ _ trivial hparts hnext

/-- A record that is read from a draft is completed from parts that keep what its fields keep, which
are read with one level less. -/
theorem exists_complete_of_ofDraft {record : Nat → Record σ Draft DocumentError α} {room : Nat}
    (keeps : ∀ inside, room = inside + 1 → Keeps (fun _ => True) holds (record inside).fields)
    (start : ∀ inside, holds (record inside).start)
    {draft : Draft} {result : α} (h : ofDraft record room draft = .ok result) :
    ∃ inside missing parts, holds parts ∧ (record inside).complete missing parts = .ok result := by
  match draft with
  | .object members ending =>
    obtain ⟨inside, hinside, h⟩ := exists_of_bind_eq_ok h
    obtain ⟨parts, hparts, h⟩ := exists_of_bind_eq_ok h
    have keeps := keeps inside (Draft.roomInside_eq_ok_iff.1 hinside)
    exact ⟨inside, _, parts, holds_of_scanMembers keeps (start inside) hparts,
      eq_ok_of_mapError_eq_ok h⟩
  | .list items ending =>
    obtain ⟨inside, hinside, h⟩ := exists_of_bind_eq_ok h
    obtain ⟨parts, hparts, h⟩ := exists_of_bind_eq_ok h
    have keeps := keeps inside (Draft.roomInside_eq_ok_iff.1 hinside)
    exact ⟨inside, _, parts, holds_of_scanItems keeps (start inside) hparts,
      eq_ok_of_mapError_eq_ok h⟩
  | .atom _ => cases h

end Record

end ElementCatalog
