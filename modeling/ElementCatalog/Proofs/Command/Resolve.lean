import ElementCatalog.Proofs.Command.OnDisk
import ElementCatalog.Proofs.Naming.Identifiers
import ElementCatalog.Proofs.Naming.Loaded

/-!
# Naming from the command line

A request to name instances reads the rules and a graph, names the instances, and prints or writes
the graph with the new names. What it prints and writes is the same document, which always stands for
a graph. It stands for the named graph exactly if no map in a value of the graph looks like a
reference (`Request.runResolve_reads_back_iff`).
-/

namespace ElementCatalog.Request

variable {disk after : Disk} {settings : Settings} {graph : String} {naming : Option String}
  {config : NamingConfig} {loaded : ElementGraph} {elements : List Element} {report : NamingReport}

/-- Without a file to write to, the named graph is printed and the disk stays as it is. -/
theorem runOn_runResolve_none (hconfig : runOn disk (loadNaming settings naming) = (.ok config, disk))
    (hloaded : disk.HasDocument ElementGraph.ofDraft graph loaded)
    (hresolve : config.resolve loaded.elements = .ok (elements, report)) :
    runOn disk (runResolve settings graph naming none) =
      (.ok ⟨({ loaded with elements := elements } : ElementGraph).toJson.pretty ++ "\n",
        report.summary ++ "\n"⟩, disk) := by
  have hread := runOn_readDocument_eq_ok_iff.2 ⟨hloaded, rfl⟩
  simp only [runResolve, runOn_bind, hconfig, hread, hresolve]
  rfl

/-- The named graph is written to a file if that can be written. -/
theorem exists_runOn_runResolve_some
    (hconfig : runOn disk (loadNaming settings naming) = (.ok config, disk))
    (hloaded : disk.HasDocument ElementGraph.ofDraft graph loaded)
    (hresolve : config.resolve loaded.elements = .ok (elements, report)) {path : String}
    (hwrite : disk.writeText path
      ({ loaded with elements := elements } : ElementGraph).toJson.pretty = .ok after) :
    ∃ printed, runOn disk (runResolve settings graph naming (some path)) = (.ok printed, after) := by
  have hread := runOn_readDocument_eq_ok_iff.2 ⟨hloaded, rfl⟩
  have hwritten : runOn disk (FileSystem.writeText path
      ({ loaded with elements := elements } : ElementGraph).toJson.pretty) =
        (.ok (.ok ()), after) := by
    show (Except.ok (Disk.attempt (Disk.writeText path _) disk).1,
      (Disk.attempt (Disk.writeText path _) disk).2) = _
    rw [Disk.attempt, hwrite]
  simp only [runResolve, runOn_bind, hconfig, hread, hresolve, hwritten]
  exact ⟨_, rfl⟩

/-- The document of a named graph stands for a graph. -/
theorem exists_read_rename {text : String}
    (htext : Json.Document.read ElementGraph.ofDraft text = .ok loaded) :
    ∃ found, Json.Document.read ElementGraph.ofDraft ({ loaded with
      elements := (config.rename loaded.elements).1 } : ElementGraph).toJson.pretty = .ok found :=
  ⟨_, ElementGraph.read_pretty (NamingConfig.loaded_rename (ElementGraph.loaded_of_read htext))⟩

/-- The document of a named graph stands for that graph exactly if no map in a value of the graph
that was named looks like a reference. -/
theorem read_rename_eq_iff {text : String}
    (htext : Json.Document.read ElementGraph.ofDraft text = .ok loaded) :
    Json.Document.read ElementGraph.ofDraft ({ loaded with
        elements := (config.rename loaded.elements).1 } : ElementGraph).toJson.pretty =
          .ok { loaded with elements := (config.rename loaded.elements).1 } ↔
      ∀ element ∈ loaded.elements, ∀ value ∈ element.values, ¬ value.HoldsReferenceMap := by
  have named : ∀ element ∈ (config.rename loaded.elements).1, element.Loaded ElementGraph.valueRoom :=
    NamingConfig.loaded_rename (ElementGraph.loaded_of_read htext)
  rw [ElementGraph.read_pretty named, Except.ok.injEq, ElementGraph.reread_eq_iff named]
  exact NamingConfig.forall_not_holdsReferenceMap_rename (ElementGraph.wellFormed_of_read htext)

/-- With rules that can be followed, naming a graph succeeds, and what is printed and written stands
for a graph. It stands for the named graph exactly if no map in a value of the graph looks like a
reference. -/
theorem runResolve_reads_back_iff
    (hconfig : runOn disk (loadNaming settings naming) = (.ok config, disk))
    (valid : config.check = .ok ())
    (hloaded : disk.HasDocument ElementGraph.ofDraft graph loaded) :
    ∃ elements report, config.resolve loaded.elements = .ok (elements, report) ∧
      let named : ElementGraph := { loaded with elements := elements }
      let document := named.toJson.pretty
      runOn disk (runResolve settings graph naming none) =
          (.ok ⟨document ++ "\n", report.summary ++ "\n"⟩, disk) ∧
        (∀ path after, disk.writeText path document = .ok after →
          (∃ printed,
            runOn disk (runResolve settings graph naming (some path)) = (.ok printed, after)) ∧
          after.readText path = .ok document) ∧
        (∃ found, Json.Document.read ElementGraph.ofDraft document = .ok found) ∧
        (Json.Document.read ElementGraph.ofDraft document = .ok named ↔
          ∀ element ∈ loaded.elements, ∀ value ∈ element.values, ¬ value.HoldsReferenceMap) := by
  have hresolve := NamingConfig.resolve_eq_ok valid loaded.elements
  obtain ⟨text, -, htext⟩ := id hloaded
  refine ⟨(config.rename loaded.elements).1, (config.rename loaded.elements).2, hresolve,
    runOn_runResolve_none hconfig hloaded hresolve, ?_, exists_read_rename htext,
    read_rename_eq_iff htext⟩
  intro path after hwrite
  exact ⟨exists_runOn_runResolve_some hconfig hloaded hresolve hwrite, Disk.readText_writeText hwrite⟩

/-- The document of a graph with one instance, which has a field. -/
def fieldDocument (value : Json) : Json :=
  .object [("elements", .list [.object [("kind", .string "instance"),
    ("elem_id", .string "a.t.instance.x"), ("value", .object [("n", value)])]])]

/-- The graph with one instance, which has a field. -/
def fieldGraph (value : Value) : ElementGraph :=
  ⟨[.ofInstance (.declare "a" "t" "x" [("n", value)])], ∅⟩

/-- The document of rules by which instances are named after their field. -/
def rulesDocument : Json :=
  .object [("types", .object [("t", .object [("idFields", .list [.string "&n"])])])]

/-- A disk with the rules and the graph. -/
def namingDisk (value : Json) : Disk :=
  ((⟨∅, []⟩ : Disk).withFile ["graph"] (fieldDocument value).pretty).withFile ["rules"]
    rulesDocument.pretty

/-- The rules are loaded. -/
theorem runOn_loadNaming_namingDisk (value : Json) :
    runOn (namingDisk value) (loadNaming .standard (some "rules")) =
      (.ok NamingConfig.fieldRules, namingDisk value) := by
  have hrules : NamingConfig.ofText rulesDocument.pretty = .ok NamingConfig.fieldRules := by
    rw [NamingConfig.ofText, Json.Document.read_pretty]
    rfl
  have htext : runOn (namingDisk value) (FileSystem.readText "rules") =
      (.ok (.ok rulesDocument.pretty), namingDisk value) :=
    rfl
  show runOn (namingDisk value) (FileSystem.readText "rules" >>= fun found => _) = _
  rw [runOn_bind, htext]
  simp only [hrules]
  rfl

/-- The graph is loaded that a reader makes of its document. -/
theorem hasDocument_namingDisk {value : Json} {found : ElementGraph}
    (h : ElementGraph.ofDraft Json.depthLimit (fieldDocument value).toDraft = .ok found) :
    (namingDisk value).HasDocument ElementGraph.ofDraft "graph" found :=
  ⟨_, rfl, (Json.Document.read_pretty ElementGraph.ofDraft (fieldDocument value)).trans h⟩

/-- An instance that refers to another one is named after it, and the named graph reads back. -/
theorem runResolve_reads_back_reference :
    let value := Json.object [("$ref", .string "a.u.instance.y"), ("$value", .string "s")]
    let loaded := fieldGraph (.reference (.ofInstance "a" "u" "y") (some (.string "s")))
    runOn (namingDisk value) (loadNaming .standard (some "rules")) =
        (.ok NamingConfig.fieldRules, namingDisk value) ∧
      NamingConfig.fieldRules.check = .ok () ∧
      (namingDisk value).HasDocument ElementGraph.ofDraft "graph" loaded ∧
      ∃ elements report document,
        NamingConfig.fieldRules.resolve loaded.elements = .ok (elements, report) ∧
        report.renamed = [(.ofInstance "a" "t" "x", .ofInstance "a" "t" "y")] ∧
        runOn (namingDisk value) (runResolve .standard "graph" (some "rules") none) =
          (.ok ⟨document ++ "\n", report.summary ++ "\n"⟩, namingDisk value) ∧
        Json.Document.read ElementGraph.ofDraft document =
          .ok { loaded with elements := elements } := by
  intro value loaded
  have hconfig := runOn_loadNaming_namingDisk value
  have valid : NamingConfig.fieldRules.check = .ok () := by decide
  have hloaded : (namingDisk value).HasDocument ElementGraph.ofDraft "graph" loaded :=
    hasDocument_namingDisk rfl
  obtain ⟨elements, report, hresolve, hrun, -, -, hiff⟩ :=
    runResolve_reads_back_iff hconfig valid hloaded
  have hrenamed : (NamingConfig.fieldRules.rename loaded.elements).2.renamed =
      [(.ofInstance "a" "t" "x", .ofInstance "a" "t" "y")] := by
    decide +kernel
  have hreport := Except.ok.inj ((NamingConfig.resolve_eq_ok valid _).symm.trans hresolve)
  refine ⟨hconfig, valid, hloaded, elements, report, _, hresolve, ?_, hrun, hiff.2 ?_⟩
  · rwa [hreport] at hrenamed
  · -- The only value is the reference, and its snapshot is a text.
    refine List.forall_mem_singleton.2 (List.forall_mem_singleton.2 ?_)
    rw [Value.holdsReferenceMap_reference]
    rintro ⟨_, ⟨⟩, members, ⟨⟩, -⟩

/-- A map with a repeated key that looks like a reference reads back as one. -/
theorem runResolve_not_reads_back_repeated_key :
    let value := Json.object [("$ref", .string "a.u.instance.y"), ("$ref", .string "a.u.instance.y")]
    let loaded := fieldGraph (.map [("$ref", .string "a.u.instance.y")])
    runOn (namingDisk value) (loadNaming .standard (some "rules")) =
        (.ok NamingConfig.fieldRules, namingDisk value) ∧
      NamingConfig.fieldRules.check = .ok () ∧
      (namingDisk value).HasDocument ElementGraph.ofDraft "graph" loaded ∧
      ∃ elements report document,
        NamingConfig.fieldRules.resolve loaded.elements = .ok (elements, report) ∧
        runOn (namingDisk value) (runResolve .standard "graph" (some "rules") none) =
          (.ok ⟨document ++ "\n", report.summary ++ "\n"⟩, namingDisk value) ∧
        Json.Document.read ElementGraph.ofDraft document ≠
          .ok { loaded with elements := elements } := by
  intro value loaded
  have hconfig := runOn_loadNaming_namingDisk value
  have valid : NamingConfig.fieldRules.check = .ok () := by decide
  have hloaded : (namingDisk value).HasDocument ElementGraph.ofDraft "graph" loaded :=
    hasDocument_namingDisk rfl
  obtain ⟨text, -, htext⟩ := id hloaded
  have hresolve := NamingConfig.resolve_eq_ok valid loaded.elements
  have hiff := @read_rename_eq_iff NamingConfig.fieldRules loaded text htext
  -- What the instances are named is of no interest here.
  generalize NamingConfig.fieldRules.rename loaded.elements = renamed at hresolve hiff
  refine ⟨hconfig, valid, hloaded, renamed.1, renamed.2, _, hresolve,
    runOn_runResolve_none hconfig hloaded hresolve, fun hread => ?_⟩
  have hkeeps := hiff.1 hread _ (List.mem_singleton_self _)
    (.map [("$ref", .string "a.u.instance.y")]) (List.mem_singleton_self _)
  exact hkeeps ⟨_, .self, by decide, "a.u.instance.y", .ofInstance "a" "u" "y", rfl,
    by decide +kernel⟩

end ElementCatalog.Request
