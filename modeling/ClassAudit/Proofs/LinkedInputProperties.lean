import ClassAudit.Proofs.CanonicalMeaningProperties
import ClassAudit.Proofs.ExpansionProperties
import ClassAudit.Proofs.LintProperties

/-!
# Links to directories as inputs

The class files that lie in a directory are listed when the directory is given as an input, and a
command that succeeds has decoded them and found nothing. A link to the directory stands for none
of them, although it means the same directory, and nothing reports that.
-/

set_option autoImplicit false

namespace ClassAudit

/-- A class file that lies directly in a directory. -/
def LiesDirectly (entries : List (Bytes × FileNode)) (name data : Bytes) : Prop :=
  (name, .file data) ∈ entries ∧ isClassFileName name = true

theorem mem_of_joinListings {listings : List (Bytes × Listing)} {files shown : List Bytes}
    {name file : Bytes} (joined : joinListings listings = .ok files)
    (member : (name, .ok shown) ∈ listings) (listed : file ∈ shown) : file ∈ files := by
  obtain ⟨lists, mapped, same⟩ := bind_eq_ok joined
  cases same
  obtain ⟨outcome, included, same⟩ := mem_of_mapM mapped (List.mem_mergeSort.mpr member)
  cases same
  exact List.mem_flatten.mpr ⟨shown, included, listed⟩

theorem Path.join_ne_self {path name : Bytes} (isName : Path.IsName name) :
    Path.join path name ≠ path := by
  intro same
  have parts : Path.cleanParts (Path.join path name) = Path.cleanParts path ++ [name] :=
    Path.cleanParts_join isName
  rw [same] at parts
  exact List.cons_ne_nil name [] (List.self_eq_append_right.mp parts)

namespace Disk

variable {disk : Disk} {input : Bytes} {entries : List (Bytes × FileNode)}

theorem walk_of_link {target : Bytes} (isDirectory : disk.stat input = .ok (.directory entries))
    (isLink : disk.linkStat input = .ok (.link target)) :
    disk.walk [input] = .ok (if isClassFileName (Path.baseName input) then [input] else []) :=
  (walk_singleton disk input).trans (walkInput_of_link isDirectory isLink)

theorem mem_walk_of_liesDirectly {files : List Bytes} {name data : Bytes}
    (isDirectory : disk.stat input = .ok (.directory entries))
    (real : disk.linkStat input = .ok (.directory entries))
    (walked : disk.walk [input] = .ok files) (lies : LiesDirectly entries name data) :
    Path.join input name ∈ files := by
  rw [walk_singleton, walkInput_of_directory isDirectory real, mapError_eq_ok_iff] at walked
  have shown : disk.entryListing input (name, .file data) = .ok [Path.join input name] :=
    if_pos lies.2
  have member := List.mem_map_of_mem (f := fun entry => (entry.1, disk.entryListing input entry))
    lies.1
  rw [shown] at member
  exact mem_of_joinListings walked member (List.mem_singleton_self _)

theorem walk_of_mem {inputs files : List Bytes} (walked : disk.walk inputs = .ok files)
    (given : input ∈ inputs) :
    ∃ listed, disk.walk [input] = .ok listed ∧ ∀ file ∈ listed, file ∈ files := by
  obtain ⟨lists, mapped, same⟩ := bind_eq_ok walked
  cases same
  obtain ⟨listed, included, found⟩ := mem_of_mapM mapped given
  refine ⟨listed, (walk_singleton disk input).trans found, ?_⟩
  intro file member
  exact List.mem_flatten.mpr ⟨listed, included, member⟩

end Disk

theorem LintRequest.Covers.of_names {disk : Disk} {request : LintRequest} {rules others : List Rule}
    {files inputs : List Bytes} {config : Bytes} (covers : request.Covers disk others files)
    (named : request.Names config inputs) (configured : disk.Configures config rules) :
    others = rules ∧ disk.walk inputs = .ok files := by
  obtain ⟨found, given, targeted, loaded, walked⟩ := covers
  cases (LintRequest.target_eq_ok_iff.mpr named).symm.trans
    (LintRequest.target_eq_ok_iff.mpr targeted)
  cases (Disk.loadRules_eq_ok_iff.mpr configured).symm.trans (Disk.loadRules_eq_ok_iff.mpr loaded)
  exact ⟨rfl, walked⟩

/-- A command that succeeds has decoded what lies in a directory that was given to it, and no rule
has found anything. -/
theorem LintRun.decoded_of_success {disk : Disk} {input : Bytes}
    {entries : List (Bytes × FileNode)} {request : LintRequest} {trace : LintTrace}
    {rules : List Rule} {inputs : List Bytes} {config name data : Bytes}
    (run : LintRun disk request trace) (succeeded : exitCode trace.verdict = 0)
    (named : request.Names config inputs) (configured : disk.Configures config rules)
    (given : input ∈ inputs) (wellFormed : disk.root.WellFormed)
    (isDirectory : disk.stat input = .ok (.directory entries))
    (real : disk.linkStat input = .ok (.directory entries))
    (settled : disk.stat (Path.clean input) = .ok (.directory entries))
    (lies : LiesDirectly entries name data) :
    ∃ file, decode (openOptions request.strict).mode data = .ok file ∧
      ∀ rule ∈ rules, (evaluate (Path.join input name) file rule).violations = [] := by
  obtain ⟨others, files, covers, passes⟩ := run.exitCode_eq_zero_iff.mp succeeded
  obtain ⟨rfl, walked⟩ := covers.of_names named configured
  obtain ⟨listed, walkedInput, included⟩ := Disk.walk_of_mem walked given
  have member := Disk.mem_walk_of_liesDirectly isDirectory real walkedInput lies
  obtain ⟨file, opened, clean⟩ := passes _ (included _ member)
  exact ⟨file, Disk.decode_of_openClass wellFormed settled lies.1 opened, clean⟩

/-- A directory that is given as an input is covered unless a link leads to it. The link stands for
itself or for nothing; all class files of the directory are listed exactly if the input is no link
or there are none. If the path also means the directory when it is cleaned, success says that all of
them decode and pass. -/
theorem directory_input_covered_unless_linked {disk : Disk} {input : Bytes}
    {entries : List (Bytes × FileNode)} (wellFormed : disk.root.WellFormed)
    (isDirectory : disk.stat input = .ok (.directory entries)) :
    (∀ target, disk.linkStat input = .ok (.link target) →
      disk.walk [input] = .ok (if isClassFileName (Path.baseName input) then [input] else [])) ∧
    (∀ files, disk.walk [input] = .ok files →
      ((∀ name data, LiesDirectly entries name data → Path.join input name ∈ files) ↔
        disk.linkStat input = .ok (.directory entries) ∨
          ∀ name data, ¬ LiesDirectly entries name data)) ∧
    (disk.linkStat input = .ok (.directory entries) →
      disk.stat (Path.clean input) = .ok (.directory entries) →
      ∀ request trace config inputs rules, LintRun disk request trace →
        exitCode trace.verdict = 0 → request.Names config inputs →
        disk.Configures config rules → input ∈ inputs →
        ∀ name data, LiesDirectly entries name data →
          ∃ file, decode (openOptions request.strict).mode data = .ok file ∧
            ∀ rule ∈ rules, (evaluate (Path.join input name) file rule).violations = []) := by
  have names := (Disk.wellFormed_of_stat wellFormed isDirectory [] entries rfl).2
  refine ⟨fun target isLink => Disk.walk_of_link isDirectory isLink, ?_, ?_⟩
  · intro files walked
    constructor
    · intro covered
      rcases Disk.linkStat_of_stat isDirectory with real | ⟨target, isLink⟩
      · exact .inl real
      · refine .inr ?_
        intro name data lies
        have listed := covered name data lies
        have isName := (names (name, .file data) lies.1).toIsName
        cases (Disk.walk_of_link isDirectory isLink).symm.trans walked
        split at listed
        · exact Path.join_ne_self isName (List.mem_singleton.mp listed)
        · cases listed
    · intro held name data lies
      rcases held with real | none
      · exact Disk.mem_walk_of_liesDirectly isDirectory real walked lies
      · exact absurd lies (none name data)
  · intro real settled request trace config inputs rules run succeeded named configured given name
      data lies
    exact run.decoded_of_success succeeded named configured given wellFormed isDirectory real
      settled lies

/-- A configuration, a directory with a class file in it, and a link to the directory. -/
def treeWithLink (data : Bytes) : Disk :=
  ⟨.directory [("r.toml", .file "no_binary_in_names=1"),
    ("d", .directory [("A.class", .file data)]), ("l", .link "d")], []⟩

theorem treeWithLink_wellFormed (data : Bytes) : (treeWithLink data).root.WellFormed := by
  have distinct : (["r.toml", "d", "l"] : List Bytes).Nodup := by decide
  have named : FileNode.EntryName "A.class" := by decide
  have inner : (FileNode.directory [("A.class", .file data)]).WellFormed :=
    .of_entries (List.nodup_singleton _) (List.forall_mem_singleton.mpr ⟨named, .of_leaf rfl⟩)
  refine .of_entries distinct ?_
  simp only [List.forall_mem_cons]
  exact ⟨⟨by decide, .of_leaf rfl⟩, ⟨by decide, inner⟩, ⟨by decide, .of_leaf rfl⟩,
    List.forall_mem_nil _⟩

/-- A command about one input. -/
def requestFor (input : Bytes) : LintRequest := ⟨"r.toml", [input], 1, false, false, .plain⟩

theorem directory_input_covered_unless_linked_adding :
    (treeWithLink addingClass.encode).root.WellFormed ∧
      (treeWithLink addingClass.encode).stat "d" =
        .ok (.directory [("A.class", .file addingClass.encode)]) ∧
      exitCode (lint (treeWithLink addingClass.encode) (requestFor "d")).verdict = 0 ∧
      ∃ rules, (treeWithLink addingClass.encode).Configures "r.toml" rules ∧
        ∃ file, decode .bestEffort addingClass.encode = .ok file ∧
          ∀ rule ∈ rules, (evaluate "d/A.class" file rule).violations = [] := by
  have wellFormed := treeWithLink_wellFormed addingClass.encode
  have isDirectory : (treeWithLink addingClass.encode).stat "d" =
      .ok (.directory [("A.class", .file addingClass.encode)]) := rfl
  have real : (treeWithLink addingClass.encode).linkStat "d" =
      .ok (.directory [("A.class", .file addingClass.encode)]) := rfl
  have settled : (treeWithLink addingClass.encode).stat (Path.clean "d") =
      .ok (.directory [("A.class", .file addingClass.encode)]) := rfl
  have succeeded :
      exitCode (lint (treeWithLink addingClass.encode) (requestFor "d")).verdict = 0 := by
    decide +kernel
  have named : (requestFor "d").Names "r.toml" ["d"] := ⟨by decide, .inl ⟨by decide, rfl, rfl⟩⟩
  obtain ⟨opened, run⟩ := exists_lintRun (treeWithLink addingClass.encode) (requestFor "d")
  obtain ⟨rules, files, covers⟩ := run.covers_of_success succeeded
  obtain ⟨config, inputs, targeted, configured, -⟩ := covers
  cases (LintRequest.target_eq_ok_iff.mpr named).symm.trans
    (LintRequest.target_eq_ok_iff.mpr targeted)
  obtain ⟨-, -, covered⟩ := directory_input_covered_unless_linked wellFormed isDirectory
  refine ⟨wellFormed, isDirectory, succeeded, rules, configured, ?_⟩
  exact covered real settled _ _ _ _ _ run succeeded named configured List.mem_cons_self "A.class"
    addingClass.encode ⟨List.mem_cons_self, by decide⟩

/-- Of two paths that mean the same directory, the link is accepted although nothing in the
directory decodes. -/
theorem linked_directory_dropped :
    (treeWithLink []).root.WellFormed ∧
      (treeWithLink []).stat "l" = .ok (.directory [("A.class", .file [])]) ∧
      LiesDirectly [("A.class", .file [])] "A.class" [] ∧
      (treeWithLink []).walk ["l"] = .ok [] ∧
      (∀ file, decode .bestEffort [] ≠ .ok file) ∧
      exitCode (lint (treeWithLink []) (requestFor "l")).verdict = 0 ∧
      exitCode (lint (treeWithLink []) (requestFor "d")).verdict = 1 := by
  have refused : (decode .bestEffort []).toOption = none := by decide
  refine ⟨treeWithLink_wellFormed [], rfl, ⟨List.mem_cons_self, by decide⟩, by decide +kernel, ?_,
    by decide +kernel, by decide +kernel⟩
  intro file decoded
  rw [decoded] at refused
  cases refused

end ClassAudit
