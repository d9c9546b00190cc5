import HtmlTemplate.Proofs.Ordering
import HtmlTemplate.Proofs.Paths
import HtmlTemplate.Workspace.Command
/-!
The components in a directory.  They are sorted by their names and then by their paths, so that it
does not show in which order the directory is listed; and as the last template registered under a
name is the one that stays, of two files of one name the one that sorts last is the component.
-/

namespace HtmlTemplate

/-! ### Component files -/

namespace Workspace

/-- A file whose name is a text: one that is not empty, a dot, and the extension of a component.  It
is listed by the name before the dot and with its path. -/
inductive IsComponent (directory : Text) : Entry → Text × Text → Prop where
  | file {stem extension : Text} : stem ≠ [] → extension ∈ componentExtensions →
      IsComponent directory ⟨(stem ++ '.' :: extension).utf8, true⟩
        (stem, Path.join directory (stem ++ '.' :: extension))

variable {directory : Text} {entry : Entry} {entries others : List Entry} {file : Text × Text}

theorem ne_nil_of_mem_componentExtensions {extension : Text}
    (h : extension ∈ componentExtensions) : extension.utf8 ≠ [] ∧ Path.dot ∉ extension.utf8 := by
  simp only [componentExtensions, List.mem_cons, List.not_mem_nil, or_false] at h
  rcases h with rfl | rfl <;> decide

theorem utf8_name (stem extension : Text) :
    (stem ++ '.' :: extension).utf8 = stem.utf8 ++ Path.dot :: extension.utf8 :=
  Text.utf8_append stem ('.' :: extension)

theorem componentOf?_eq_some_iff :
    componentOf? directory entry = some file ↔ IsComponent directory entry file := by
  obtain ⟨name, isFile⟩ := entry
  constructor
  · intro h
    obtain ⟨extension, hextension, h⟩ := Option.bind_eq_some_iff.mp h
    obtain ⟨hwanted, h⟩ := Option.ite_none_right_eq_some.mp h
    obtain ⟨stem, hstem, h⟩ := Option.bind_eq_some_iff.mp h
    cases h
    obtain ⟨rfl, hmem⟩ : isFile = true ∧ extension ∈ componentExtensions := by
      simpa using hwanted
    obtain ⟨held, hheld, hspelled⟩ := Option.bind_eq_some_iff.mp hextension
    obtain rfl := Text.ofUtf8?_eq_some_iff.mp hspelled
    have hne := (ne_nil_of_mem_componentExtensions hmem).1
    have hparts : Path.stemAndExtension name = (stem.utf8, some extension.utf8) :=
      Prod.ext (Text.ofUtf8?_eq_some_iff.mp hstem).symm hheld
    obtain ⟨rfl, hnil, -⟩ := (Path.stemAndExtension_eq_iff hne).mp hparts
    rw [← utf8_name]
    exact .file (mt Text.utf8_eq_nil_iff.mpr hnil) hmem
  · rintro ⟨hstem, hmem⟩
    obtain ⟨hne, hdot⟩ := ne_nil_of_mem_componentExtensions hmem
    have hparts := (Path.stemAndExtension_eq_iff hne).mpr
      ⟨utf8_name .., mt Text.utf8_eq_nil_iff.mp hstem, hdot⟩
    simp [componentOf?, hparts, Text.ofUtf8?_utf8, hmem]

/-! ### Sorting -/

/-- The order of component files: by name, and of one name by path. -/
def IsBefore (a b : Text × Text) : Prop := a.1 < b.1 ∨ a.1 = b.1 ∧ a.2 < b.2

theorem comesBefore_iff {a b : Text × Text} : comesBefore a b = true ↔ IsBefore a b ∨ a = b := by
  simp only [comesBefore, IsBefore, Bool.or_eq_true, Bool.and_eq_true, decide_eq_true_eq,
    Prod.ext_iff, and_or_left, or_assoc]

theorem IsBefore.trans {a b c : Text × Text} (hab : IsBefore a b) (hbc : IsBefore b c) :
    IsBefore a c := by
  rcases hab with hab | ⟨hab, hab'⟩
  · rcases hbc with hbc | ⟨hbc, -⟩
    · exact .inl (List.lt_trans hab hbc)
    · exact .inl (hbc ▸ hab)
  · rcases hbc with hbc | ⟨hbc, hbc'⟩
    · exact .inl (hab ▸ hbc)
    · exact .inr ⟨hab.trans hbc, List.lt_trans hab' hbc'⟩

theorem not_isBefore_self (a : Text × Text) : ¬ IsBefore a a := by
  rintro (h | ⟨-, h⟩) <;> exact List.lt_irrefl _ h

theorem isBefore_or_eq_or_isBefore (a b : Text × Text) :
    IsBefore a b ∨ a = b ∨ IsBefore b a := by
  rcases Text.lt_or_eq_or_lt a.1 b.1 with h | h | h
  · exact .inl (.inl h)
  · rcases Text.lt_or_eq_or_lt a.2 b.2 with h' | h' | h'
    · exact .inl (.inr ⟨h, h'⟩)
    · exact .inr (.inl (Prod.ext h h'))
    · exact .inr (.inr (.inr ⟨h.symm, h'⟩))
  · exact .inr (.inr (.inl h))

theorem pairwise_comesBefore (files : List (Text × Text)) :
    (files.mergeSort comesBefore).Pairwise fun a b => comesBefore a b = true := by
  refine List.pairwise_mergeSort (fun a b c hab hbc => ?_) (fun a b => ?_) files
  · rw [comesBefore_iff] at hab hbc ⊢
    rcases hab with hab | rfl
    · rcases hbc with hbc | rfl
      · exact .inl (hab.trans hbc)
      · exact .inl hab
    · exact hbc
  · rw [Bool.or_eq_true, comesBefore_iff, comesBefore_iff]
    rcases isBefore_or_eq_or_isBefore a b with h | h | h
    · exact .inl (.inl h)
    · exact .inl (.inr h)
    · exact .inr (.inl h)

/-- Sorting forgets the order of a listing. -/
theorem sortedComponents_eq_of_perm (directory : Text) (h : entries.Perm others) :
    sortedComponents directory others = sortedComponents directory entries := by
  refine List.Perm.eq_of_pairwise (fun a b _ _ hab hba => ?_) (pairwise_comesBefore _)
    (pairwise_comesBefore _) ?_
  · rcases comesBefore_iff.mp hab with hab | heq
    · rcases comesBefore_iff.mp hba with hba | heq
      · exact absurd (hab.trans hba) (not_isBefore_self a)
      · exact heq.symm
    · exact heq
  · exact (List.mergeSort_perm _ _).trans
      ((h.symm.filterMap _).trans (List.mergeSort_perm _ _).symm)

theorem mem_sortedComponents_iff :
    file ∈ sortedComponents directory entries ↔
      ∃ entry ∈ entries, IsComponent directory entry file := by
  rw [sortedComponents, (List.mergeSort_perm _ _).mem_iff, List.mem_filterMap]
  simp only [componentOf?_eq_some_iff]

/-- The path of a component ends in the name of its entry. -/
theorem IsComponent.exists_name (h : IsComponent directory entry file) :
    ∃ name : Text, entry.name = name.utf8 ∧ file.2 = Path.join directory name := by
  cases h
  exact ⟨_, rfl, rfl⟩

/-- Names that have an extension lead to their files: they are neither of the two that are dots. -/
theorem isPlainName_of_mem_componentExtensions {stem extension : Text} (hstem : stem ≠ [])
    (hmem : extension ∈ componentExtensions)
    (hslash : '/'.toUInt8 ∉ (stem ++ '.' :: extension).utf8) :
    Path.IsPlainName (stem ++ '.' :: extension) := by
  have hextension : extension ≠ [] :=
    mt Text.utf8_eq_nil_iff.mpr (ne_nil_of_mem_componentExtensions hmem).1
  have hlength : 2 < (stem ++ '.' :: extension).length := by
    have hstem := List.length_pos_iff.mpr hstem
    have hextension := List.length_pos_iff.mpr hextension
    rw [List.length_append, List.length_cons]
    omega
  refine ⟨?_, fun hin => hslash (List.mem_flatMap.mpr ⟨'/', hin, by decide⟩), ?_, ?_⟩ <;>
    exact fun heq => absurd hlength (by rw [heq]; decide)

/-- What is read by the path of a component is what the file of its entry holds. -/
theorem IsComponent.readsAt {files : Files} {listing : Listing}
    (h : IsComponent directory entry file) (hlisting : files.listing? directory = some listing)
    (hentry : entry ∈ listing.entries) (hslash : '/'.toUInt8 ∉ entry.name) :
    files.ReadsAt file.2 (Path.place directory ++ [entry.name]) := by
  obtain ⟨hstem, hmem⟩ := h
  exact Files.readsAt_of_mem_listing hlisting
    (isPlainName_of_mem_componentExtensions hstem hmem hslash) hentry

theorem pairwise_sortedComponents (h : (entries.map Entry.name).Nodup) :
    (sortedComponents directory entries).Pairwise IsBefore := by
  have hfound : (entries.filterMap (componentOf? directory)).Nodup := by
    rw [List.Nodup, List.pairwise_map] at h
    refine h.filterMap _ fun entry other hne file hfile file' hfile' heq => hne ?_
    obtain ⟨name, hname, hpath⟩ := (componentOf?_eq_some_iff.mp hfile).exists_name
    obtain ⟨name', hname', hpath'⟩ := (componentOf?_eq_some_iff.mp hfile').exists_name
    obtain ⟨lead, hlead⟩ := Path.exists_join directory
    rw [heq, hpath', hlead, hlead, List.append_cancel_left_eq] at hpath
    rw [hname, hname', hpath]
  have hnodup : (sortedComponents directory entries).Nodup :=
    (List.mergeSort_perm _ _).nodup_iff.mpr hfound
  refine ((pairwise_comesBefore _).and hnodup).imp fun h => ?_
  exact (comesBefore_iff.mp h.1).resolve_right h.2

end Workspace

/-! ### Registering -/

/-- The template that is registered under a name. -/
def App.template? (app : App) (name : Text) : Option Template :=
  (app.components.get? name).map Component.template

theorem App.template?_register (app : App) (name key : Text) (template : Template)
    (setup : Option Setup) :
    (app.register name template setup).template? key =
      if name = key then some template else app.template? key := by
  rw [template?, register, Registry.get?_register]
  split <;> rfl

namespace Workspace

/-- An app with the templates in some files. -/
def registerAll (files : Files) (app : App) (found : List (Text × Text)) : App :=
  found.foldl (fun app file => app.register file.1 (fileTemplate files file.2) none) app

variable {files : Files} {directory source name path : Text} {entries : List Entry}
  {found : List (Text × Text)}

theorem template?_registerAll_of_not_mem (app : App) (h : ∀ file ∈ found, file.1 ≠ name) :
    (registerAll files app found).template? name = app.template? name := by
  induction found generalizing app with
  | nil => rfl
  | cons file found ih =>
      obtain ⟨hfile, hfound⟩ := List.forall_mem_cons.mp h
      exact (ih _ hfound).trans ((App.template?_register ..).trans (if_neg hfile))

/-- Of sorted files of one name the last one is the template. -/
theorem template?_registerAll_of_last (app : App) (hsorted : found.Pairwise IsBefore)
    (hmem : (name, path) ∈ found) (hlast : ∀ other, (name, other) ∈ found → ¬ path < other) :
    (registerAll files app found).template? name = some (fileTemplate files path) := by
  obtain ⟨before, after, rfl⟩ := List.append_of_mem hmem
  have hafter : ∀ file ∈ after, file.1 ≠ name := by
    rintro ⟨other, later⟩ hfile rfl
    have hbefore := (List.pairwise_cons.mp (List.pairwise_append.mp hsorted).2.1).1 _ hfile
    rcases hbefore with hless | ⟨-, hless⟩
    · exact List.lt_irrefl _ hless
    · exact hlast later (List.mem_append_right _ (List.mem_cons_of_mem _ hfile)) hless
  rw [registerAll, List.foldl_append, List.foldl_cons]
  exact (template?_registerAll_of_not_mem _ hafter).trans
    ((App.template?_register ..).trans (if_pos rfl))

/-- A template that is supplied from a file: whenever it is asked for, the answer is the text that
is read from the file, or why none is read. -/
inductive IsSuppliedBy (files : Files) (path : Text) : Template → Prop where
  | supplier {supplier : Nat → Except Text Text} :
      (∀ loads content, files.read path = .ok content → supplier loads = .ok content) →
      (∀ loads error, files.read path = .error error → supplier loads =
        .error ("failed to read ".toList ++ path ++ ": ".toList ++ error.message.toList)) →
      IsSuppliedBy files path (.supplied supplier)

theorem isSuppliedBy_fileTemplate (files : Files) (path : Text) :
    IsSuppliedBy files path (fileTemplate files path) := by
  refine .supplier (fun loads content hread => ?_) fun loads error hread => ?_
  · rw [hread]
    rfl
  · rw [hread]
    rfl

/-- The template that a name has: the entry template for the root, and for any other name what is
supplied from the file of that name, of which the one with the first extension is preferred. -/
inductive Registers (files : Files) (directory source : Text) (entries : List Entry) :
    Text → Option Template → Prop where
  | entry : Registers files directory source entries rootName (some (.markup source))
  | vue {name : Text} {template : Template} : name ≠ rootName → name ≠ [] →
      ⟨(name ++ ".vue".toList).utf8, true⟩ ∈ entries →
      IsSuppliedBy files (Path.join directory (name ++ ".vue".toList)) template →
      Registers files directory source entries name (some template)
  | html {name : Text} {template : Template} : name ≠ rootName → name ≠ [] →
      ⟨(name ++ ".vue".toList).utf8, true⟩ ∉ entries →
      ⟨(name ++ ".html".toList).utf8, true⟩ ∈ entries →
      IsSuppliedBy files (Path.join directory (name ++ ".html".toList)) template →
      Registers files directory source entries name (some template)
  | absent {name : Text} : name ≠ rootName →
      (name ≠ [] → ⟨(name ++ ".vue".toList).utf8, true⟩ ∉ entries ∧
        ⟨(name ++ ".html".toList).utf8, true⟩ ∉ entries) →
      Registers files directory source entries name none

theorem IsSuppliedBy.unique {template other : Template} (h : IsSuppliedBy files path template)
    (h' : IsSuppliedBy files path other) : template = other := by
  obtain ⟨hcontent, herror⟩ := h
  obtain ⟨hcontent', herror'⟩ := h'
  congr 1
  funext loads
  cases hread : files.read path with
  | ok content => rw [hcontent loads content hread, hcontent' loads content hread]
  | error error => rw [herror loads error hread, herror' loads error hread]

theorem Registers.unique {template other : Option Template}
    (h : Registers files directory source entries name template)
    (h' : Registers files directory source entries name other) : template = other := by
  cases h with
  | entry => cases h' <;> simp_all
  | vue _ _ _ hsupplied =>
      cases h' with
      | vue _ _ _ hsupplied' => rw [hsupplied.unique hsupplied']
      | _ => simp_all
  | html _ _ _ _ hsupplied =>
      cases h' with
      | html _ _ _ _ hsupplied' => rw [hsupplied.unique hsupplied']
      | _ => simp_all
  | absent => cases h' <;> simp_all

theorem mem_sortedComponents_name_iff :
    (name, path) ∈ sortedComponents directory entries ↔
      name ≠ [] ∧
        ((path = Path.join directory (name ++ ".vue".toList) ∧
            ⟨(name ++ ".vue".toList).utf8, true⟩ ∈ entries) ∨
          (path = Path.join directory (name ++ ".html".toList) ∧
            ⟨(name ++ ".html".toList).utf8, true⟩ ∈ entries)) := by
  rw [mem_sortedComponents_iff]
  constructor
  · rintro ⟨entry, hentry, hname, hextension⟩
    refine ⟨hname, ?_⟩
    simp only [componentExtensions, List.mem_cons, List.not_mem_nil, or_false] at hextension
    rcases hextension with rfl | rfl
    · exact .inl ⟨rfl, hentry⟩
    · exact .inr ⟨rfl, hentry⟩
  · rintro ⟨hname, ⟨rfl, hentry⟩ | ⟨rfl, hentry⟩⟩
    · exact ⟨_, hentry, .file hname (by decide)⟩
    · exact ⟨_, hentry, .file hname (by decide)⟩

theorem html_lt_vue (directory name : Text) :
    Path.join directory (name ++ ".html".toList) < Path.join directory (name ++ ".vue".toList) := by
  obtain ⟨lead, hlead⟩ := Path.exists_join directory
  rw [hlead, hlead]
  exact List.append_left_lt (List.append_left_lt (by decide))

theorem registers_registerAll (files : Files) (source : Text) {app : App}
    (happ : ∀ name, app.template? name = none) (hnames : (entries.map Entry.name).Nodup)
    (name : Text) :
    Registers files directory source entries name
      (((registerAll files app (sortedComponents directory entries)).register rootName
        (.markup source) none).template? name) := by
  have hsorted : (sortedComponents directory entries).Pairwise IsBefore :=
    pairwise_sortedComponents hnames
  rw [App.template?_register]
  split
  · next hroot =>
      rw [← hroot]
      exact .entry
  next hroot =>
  by_cases hvue : name ≠ [] ∧ ⟨(name ++ ".vue".toList).utf8, true⟩ ∈ entries
  · rw [template?_registerAll_of_last app hsorted
      (mem_sortedComponents_name_iff.mpr ⟨hvue.1, .inl ⟨rfl, hvue.2⟩⟩)]
    · exact .vue (Ne.symm hroot) hvue.1 hvue.2 (isSuppliedBy_fileTemplate files _)
    · intro other hother
      rcases (mem_sortedComponents_name_iff.mp hother).2 with ⟨rfl, -⟩ | ⟨rfl, -⟩
      · exact List.lt_irrefl _
      · exact List.lt_asymm (html_lt_vue directory name)
  by_cases hhtml : name ≠ [] ∧ ⟨(name ++ ".html".toList).utf8, true⟩ ∈ entries
  · have hnot : ⟨(name ++ ".vue".toList).utf8, true⟩ ∉ entries := fun hmem => hvue ⟨hhtml.1, hmem⟩
    rw [template?_registerAll_of_last app hsorted
      (mem_sortedComponents_name_iff.mpr ⟨hhtml.1, .inr ⟨rfl, hhtml.2⟩⟩)]
    · exact .html (Ne.symm hroot) hhtml.1 hnot hhtml.2 (isSuppliedBy_fileTemplate files _)
    · intro other hother
      rcases (mem_sortedComponents_name_iff.mp hother).2 with ⟨-, hmem⟩ | ⟨rfl, -⟩
      · exact absurd hmem hnot
      · exact List.lt_irrefl _
  · rw [template?_registerAll_of_not_mem, happ]
    · exact .absent (Ne.symm hroot) fun hne =>
        ⟨fun hmem => hvue ⟨hne, hmem⟩, fun hmem => hhtml ⟨hne, hmem⟩⟩
    · rintro ⟨stem, path⟩ hfile rfl
      obtain ⟨hne, ⟨-, hmem⟩ | ⟨-, hmem⟩⟩ := mem_sortedComponents_name_iff.mp hfile
      · exact hvue ⟨hne, hmem⟩
      · exact hhtml ⟨hne, hmem⟩

end Workspace

/-! ### Listing in another order -/

/-- Two listings of the same entries, of which both break off alike, if they do. -/
structure Listing.IsReordering (listing other : Listing) : Prop where
  entries : listing.entries.Perm other.entries
  fault? : other.fault? = listing.fault?

namespace Files

/-- Two sets of files of which the second differs from the first in nothing but the order in which
its directories are listed. -/
structure IsReordering (files others : Files) : Prop where
  read : ∀ path, others.read path = files.read path
  listing? : ∀ path, Option.Rel Listing.IsReordering (files.listing? path) (others.listing? path)

theorem nodup_eraseDups {α : Type} [BEq α] [LawfulBEq α] (as : List α) : as.eraseDups.Nodup := by
  induction hlength : as.length using Nat.strongRecOn generalizing as with
  | ind n ih =>
      cases as with
      | nil => exact List.nodup_nil
      | cons a as =>
          rw [List.eraseDups_cons, List.nodup_cons, List.mem_eraseDups]
          refine ⟨by simp, ih _ ?_ _ rfl⟩
          rw [← hlength]
          exact Nat.lt_succ_of_le (List.length_filter_le _ _)

theorem perm_eraseDups {α : Type} [BEq α] [LawfulBEq α] {as bs : List α} (h : as.Perm bs) :
    as.eraseDups.Perm bs.eraseDups := by
  rw [List.perm_ext_iff_of_nodup (nodup_eraseDups as) (nodup_eraseDups bs)]
  intro a
  rw [List.mem_eraseDups, List.mem_eraseDups, h.mem_iff]

theorem find?_place_eq_some_iff {contents : List (Place × List UInt8)} {place : Place}
    {file : Place × List UInt8} (h : (contents.map Prod.fst).Nodup) :
    contents.find? (fun file => file.1 = place) = some file ↔ file ∈ contents ∧ file.1 = place := by
  constructor
  · intro hfind
    exact ⟨List.mem_of_find?_eq_some hfind, by simpa using List.find?_some hfind⟩
  · rintro ⟨hmem, rfl⟩
    obtain ⟨before, after, rfl⟩ := List.append_of_mem hmem
    rw [List.map_append, List.map_cons, List.nodup_append] at h
    refine List.find?_eq_some_iff_append.mpr ⟨by simp, before, after, rfl, fun other hother => ?_⟩
    have hne := h.2.2 other.1 (List.mem_map_of_mem hother) file.1 (List.mem_cons_self ..)
    simpa using hne

/-- Files and directories may be held in any order. -/
theorem isReordering_of_perm {files others : Files}
    (hcontents : files.contents.Perm others.contents)
    (hplaces : (files.contents.map Prod.fst).Nodup)
    (hdirectories : files.directories.Perm others.directories)
    (hfaults : others.faults = files.faults) : files.IsReordering others := by
  have hdirectory : others.isDirectory = files.isDirectory := by
    funext place
    rw [isDirectory, isDirectory, hdirectories.contains_eq]
  have hfile (place : Place) : others.isFile place = files.isFile place := by
    rw [isFile, isFile, hcontents.any_eq]
  have hfind (place : Place) : others.contents.find? (fun file => file.1 = place) =
      files.contents.find? (fun file => file.1 = place) := by
    refine Option.ext fun file => ?_
    rw [find?_place_eq_some_iff ((hcontents.map _).nodup_iff.mp hplaces),
      find?_place_eq_some_iff hplaces, hcontents.mem_iff]
  refine ⟨fun path => ?_, fun path => ?_⟩
  · simp only [read, absence, hdirectory, hfile, hfind]
  · have hopen : others.isOpen path = files.isOpen path := by rw [isOpen, isOpen, hdirectory]
    simp only [listing?, hopen, hdirectory, hfaults]
    split
    · refine .some ⟨?_, rfl⟩
      exact ((hcontents.filterMap _).map _).append
        ((perm_eraseDups (hdirectories.filterMap _)).map _)
    · exact .none

end Files

namespace Workspace

variable {files others : Files}

theorem fileTemplate_eq_of_isReordering (h : files.IsReordering others) :
    fileTemplate others = fileTemplate files := by
  funext path
  rw [fileTemplate, fileTemplate, h.read path]

theorem componentFiles_eq_of_isReordering (h : files.IsReordering others) (directory : Text) :
    componentFiles others directory = componentFiles files directory := by
  have hlisting := h.listing? directory
  unfold componentFiles
  generalize files.listing? directory = first, others.listing? directory = second at hlisting
  cases hlisting with
  | none => rfl
  | @some listing other hsame =>
      obtain ⟨entries, fault⟩ := listing
      obtain ⟨others, fault⟩ := other
      obtain ⟨hperm, rfl⟩ := hsame
      cases fault with
      | none => exact congrArg Except.ok (sortedComponents_eq_of_perm directory hperm)
      | some report => rfl

theorem buildApp_eq_of_isReordering (h : files.IsReordering others) (template : Text)
    (components : Option Text) (limit : Nat) :
    buildApp others template components limit = buildApp files template components limit := by
  unfold buildApp
  rw [readFile, readFile, h.read template, fileTemplate_eq_of_isReordering h]
  cases components with
  | none => rfl
  | some directory => simp only [componentFiles_eq_of_isReordering h directory]

theorem buildApp_eq {template source directory : Text} {entries : List Entry}
    (hsource : files.read template = .ok source)
    (hlisting : files.listing? directory = some ⟨entries, none⟩) (limit : Nat) :
    buildApp files template (some directory) limit =
      .ok ((registerAll files { App.ofMethods .empty with limit := limit }
        (sortedComponents directory entries)).register rootName (.markup source) none) := by
  rw [buildApp, readFile, hsource]
  simp only [componentFiles, hlisting]
  rfl

/-- It cannot be told in which order the directories are listed: component files are found, and an
app is built, as from the same files listed in another order.  The files that are found in a listed
directory are its components, sorted strictly, whatever the order of the list, and by the path of
each of them its own file is read; and an app that is built with them has under each name the
template that is meant for it. -/
theorem buildApp_of_isReordering (h : files.IsReordering others) (directory template : Text)
    (limit : Nat) :
    componentFiles others directory = componentFiles files directory ∧
    buildApp others template (some directory) limit =
      buildApp files template (some directory) limit ∧
    ∀ entries, files.listing? directory = some ⟨entries, none⟩ → (entries.map Entry.name).Nodup →
      ∃ found, componentFiles files directory = .ok found ∧
        (∀ listed, entries.Perm listed → sortedComponents directory listed = found) ∧
        found.Pairwise IsBefore ∧
        (∀ file, file ∈ found ↔ ∃ entry ∈ entries, IsComponent directory entry file) ∧
        (∀ file, ∀ entry ∈ entries, IsComponent directory entry file →
          '/'.toUInt8 ∉ entry.name →
            files.ReadsAt file.2 (Path.place directory ++ [entry.name])) ∧
        ∀ source, files.read template = .ok source →
          ∃ app, buildApp files template (some directory) limit = .ok app ∧
            ∀ name, Registers files directory source entries name (app.template? name) := by
  refine ⟨componentFiles_eq_of_isReordering h directory,
    buildApp_eq_of_isReordering h template (some directory) limit, ?_⟩
  intro entries hlisting hnames
  refine ⟨sortedComponents directory entries, ?_,
    fun listed hperm => sortedComponents_eq_of_perm directory hperm,
    pairwise_sortedComponents hnames, fun file => mem_sortedComponents_iff,
    fun file entry hentry hcomponent => hcomponent.readsAt hlisting hentry,
    fun source hsource => ?_⟩
  · rw [componentFiles, hlisting]
  · exact ⟨_, buildApp_eq hsource hlisting limit,
      registers_registerAll files source (fun _ => rfl) hnames⟩

theorem buildApp_of_isReordering_reversed :
    let place (name : String) : Place := [Text.utf8 "c".toList, Text.utf8 name.toList]
    let contents : List (Place × List UInt8) :=
      [(place "a.html", []), (place "root.vue", []), (place "a.vue", Text.utf8 "<b></b>".toList),
        ([Text.utf8 "page".toList], Text.utf8 "<p></p>".toList)]
    let files : Files := ⟨contents, [[Text.utf8 "c".toList]], []⟩
    let others : Files := ⟨contents.reverse, [[Text.utf8 "c".toList]], []⟩
    files.IsReordering others ∧ ∃ app supplier,
      buildApp others "page".toList (some "c".toList) 64 = .ok app ∧
        app.template? "a".toList = some (.supplied supplier) ∧
        supplier 0 = .ok "<b></b>".toList ∧
        app.template? rootName = some (.markup "<p></p>".toList) := by
  intro place contents files others
  have hreordering : files.IsReordering others :=
    Files.isReordering_of_perm (List.reverse_perm contents).symm (by decide) (.refl _) rfl
  have hlisting : files.listing? "c".toList = some
      ⟨["a.html", "root.vue", "a.vue"].map fun name => ⟨Text.utf8 name.toList, true⟩, none⟩ := by
    decide
  have hsource : files.read "page".toList = .ok "<p></p>".toList :=
    Outcome.eq_ok_of_toOption (by decide +kernel)
  have hread : files.read "c/a.vue".toList = .ok "<b></b>".toList :=
    Outcome.eq_ok_of_toOption (by decide +kernel)
  obtain ⟨-, happ, hlisted⟩ :=
    buildApp_of_isReordering hreordering "c".toList "page".toList 64
  obtain ⟨found, -, -, -, -, -, hbuilt⟩ := hlisted _ hlisting (by decide)
  obtain ⟨app, hok, hregisters⟩ := hbuilt _ hsource
  have hvue := (hregisters "a".toList).unique (.vue (by decide) (by decide) (by decide)
    (isSuppliedBy_fileTemplate files "c/a.vue".toList))
  refine ⟨hreordering, app, _, happ.trans hok, hvue, ?_, ?_⟩
  · rw [hread]
    rfl
  · exact (hregisters rootName).unique .entry

/-- A file with the extension of a component is none if what stands before the extension is not
a text. -/
theorem componentFiles_of_unspelled :
    let name : FileName := 0xFF :: Text.utf8 ".vue".toList
    let files : Files := ⟨[([Text.utf8 "c".toList, name], [])], [[Text.utf8 "c".toList]], []⟩
    files.listing? "c".toList = some ⟨[⟨name, true⟩], none⟩ ∧
      Path.stemAndExtension name = ([0xFF], some (Text.utf8 "vue".toList)) ∧
      componentFiles files "c".toList = .ok [] := by
  intro name files
  have hlisting : files.listing? "c".toList = some ⟨[⟨name, true⟩], none⟩ := by decide
  have hnone : componentOf? "c".toList ⟨name, true⟩ = none := by decide +kernel
  have hfound : sortedComponents "c".toList [⟨name, true⟩] = [] := by
    rw [sortedComponents, List.filterMap_cons_none hnone, List.filterMap_nil, List.mergeSort_nil]
  refine ⟨hlisting, by decide, ?_⟩
  rw [componentFiles, hlisting]
  exact congrArg Except.ok hfound

end Workspace

end HtmlTemplate
