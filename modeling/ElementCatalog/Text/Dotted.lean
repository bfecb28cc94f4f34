/-!
# Dotted text

Identifiers and value paths are written as segments with a dot between neighbours. This module
holds the two directions, `Dotted.split` and `Dotted.join`, on texts and on their characters.

Splitting loses nothing (`join_split`), and it finds the segments again whenever there is at
least one and none of them contains a dot (`split_join`).
-/

namespace ElementCatalog.Dotted

/-- The character between two segments. -/
def separator : Char := '.'

/-- The segments of a character list: one more than it has separators. -/
def segments : List Char → List (List Char)
  | [] => [[]]
  | c :: rest =>
    if c = separator then [] :: segments rest
    else (segments rest).modifyHead (c :: ·)

/-- Segments written one after another with a separator between neighbours. -/
def joined : List (List Char) → List Char
  | [] => []
  | [segment] => segment
  | segment :: next :: rest => segment ++ separator :: joined (next :: rest)

/-- The segments of a text. The empty text has one empty segment. -/
def split (text : String) : List String :=
  (segments text.toList).map String.ofList

/-- The text with the given segments. -/
def join (parts : List String) : String :=
  String.ofList (joined (parts.map String.toList))

/-- A text that can stand as one segment. -/
def DotFree (text : String) : Prop :=
  separator ∉ text.toList

instance (text : String) : Decidable (DotFree text) := by
  unfold DotFree
  infer_instance

/-- Every character list has a segment. -/
theorem segments_ne_nil (chars : List Char) : segments chars ≠ [] := by
  induction chars with
  | nil => simp [segments]
  | cons c rest ih =>
    rw [segments]
    split
    · simp
    · cases h : segments rest with
      | nil => exact absurd h ih
      | cons _ _ => simp

/-- A character in front of the first segment comes in front of the joined list. -/
theorem joined_modifyHead (c : Char) {parts : List (List Char)} (h : parts ≠ []) :
    joined (parts.modifyHead (c :: ·)) = c :: joined parts := by
  match parts with
  | [] => exact absurd rfl h
  | [_] => rfl
  | _ :: _ :: _ => rfl

/-- Joining the segments of a character list gives the list back. -/
theorem joined_segments (chars : List Char) : joined (segments chars) = chars := by
  induction chars with
  | nil => rfl
  | cons c rest ih =>
    rw [segments]
    split
    · next h =>
      cases hs : segments rest with
      | nil => exact absurd hs (segments_ne_nil rest)
      | cons _ _ => rw [hs] at ih; simp [joined, ih, h]
    · rw [joined_modifyHead c (segments_ne_nil rest), ih]

/-- A character list without a separator is its only segment. -/
theorem segments_of_not_mem {segment : List Char} (h : separator ∉ segment) :
    segments segment = [segment] := by
  induction segment with
  | nil => rfl
  | cons c rest ih =>
    simp only [List.mem_cons, not_or] at h
    rw [segments, if_neg (Ne.symm h.1), ih h.2]
    rfl

/-- What stands before the first separator is the first segment. -/
theorem segments_append_separator {segment : List Char} (h : separator ∉ segment)
    (rest : List Char) :
    segments (segment ++ separator :: rest) = segment :: segments rest := by
  induction segment with
  | nil => simp [segments]
  | cons c tail ih =>
    simp only [List.mem_cons, not_or] at h
    rw [List.cons_append, segments, if_neg (Ne.symm h.1), ih h.2]
    rfl

/-- Segments without a separator are found again in the joined list. -/
theorem segments_joined {parts : List (List Char)} (hne : parts ≠ [])
    (h : ∀ part ∈ parts, separator ∉ part) : segments (joined parts) = parts := by
  induction parts with
  | nil => exact absurd rfl hne
  | cons part rest ih =>
    cases rest with
    | nil => exact segments_of_not_mem (h part List.mem_cons_self)
    | cons next rest =>
      rw [joined, segments_append_separator (h part List.mem_cons_self),
        ih (by simp) fun p hp => h p (List.mem_cons_of_mem _ hp)]

/-- No segment contains a separator. -/
theorem separator_not_mem_of_mem_segments {chars segment : List Char}
    (h : segment ∈ segments chars) : separator ∉ segment := by
  induction chars generalizing segment with
  | nil => simp_all [segments]
  | cons c rest ih =>
    rw [segments] at h
    split at h
    · rcases List.mem_cons.1 h with rfl | h
      · simp
      · exact ih h
    · next hc =>
      cases hs : segments rest with
      | nil => exact absurd hs (segments_ne_nil rest)
      | cons first others =>
        rw [hs] at h ih
        rcases List.mem_cons.1 h with rfl | h
        · simpa [Ne.symm hc] using ih List.mem_cons_self
        · exact ih (List.mem_cons_of_mem _ h)

/-- Every text has a segment. -/
theorem split_ne_nil (text : String) : split text ≠ [] := by
  simp [split, segments_ne_nil]

/-- Joining the segments of a text gives the text back. -/
@[simp]
theorem join_split (text : String) : join (split text) = text := by
  simp [join, split, Function.comp_def, joined_segments]

/-- Segments without dots are found again in the joined text. -/
theorem split_join {parts : List String} (hne : parts ≠ []) (h : ∀ part ∈ parts, DotFree part) :
    split (join parts) = parts := by
  rw [split, join, String.toList_ofList, segments_joined (by simpa using hne)]
  · simp [Function.comp_def]
  · simpa [DotFree] using h

/-- No segment of a text contains a dot. -/
theorem dotFree_of_mem_split {text part : String} (h : part ∈ split text) : DotFree part := by
  simp only [split, List.mem_map] at h
  obtain ⟨segment, hs, rfl⟩ := h
  simpa [DotFree] using separator_not_mem_of_mem_segments hs

end ElementCatalog.Dotted
