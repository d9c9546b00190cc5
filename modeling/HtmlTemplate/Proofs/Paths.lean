import HtmlTemplate.Proofs.Pieces
import HtmlTemplate.Workspace.Files
/-!
Names and paths of files.  A name is taken apart at its last dot, and a path through a directory
leads on to what the directory has under a name, so that a file that is listed can be read by the
path that is put together for it.
-/

namespace HtmlTemplate

namespace Path

/-! ### Names -/

section

variable {α : Type} [DecidableEq α] {a : α} {s before after : List α}

theorem breakAtLast_append (before : List α) (hafter : a ∉ after) :
    breakAtLast a (before ++ a :: after) = some (before, after) := by
  have hrun : ∀ d ∈ after.reverse, decide (d ≠ a) = true := by
    intro d hd
    rw [decide_eq_true_eq]
    rintro rfl
    exact hafter (List.mem_reverse.mp hd)
  have hback : (before ++ a :: after).reverse = after.reverse ++ a :: before.reverse := by simp
  obtain ⟨htake, hdrop⟩ := Text.takeWhile_append_of_head (p := fun d => d ≠ a)
    (t := a :: before.reverse) hrun (by simp)
  have hmem : (after.reverse ++ a :: before.reverse).contains a = true := by simp
  simp only [breakAtLast, hback, hmem, htake, hdrop, if_true, List.drop_one, List.tail_cons,
    List.reverse_reverse]

theorem breakAtLast_of_not_mem (h : a ∉ s) : breakAtLast a s = none := by
  simp [breakAtLast, h]

theorem breakAtLast_eq_some_iff :
    breakAtLast a s = some (before, after) ↔ s = before ++ a :: after ∧ a ∉ after := by
  constructor
  · intro h
    by_cases hmem : a ∈ s
    · obtain ⟨first, rest, rfl, hrest⟩ : ∃ first rest, s = first ++ a :: rest ∧ a ∉ rest := by
        obtain ⟨rest, first, hback, hrest⟩ :=
          List.eq_append_cons_of_mem (List.mem_reverse.mpr hmem)
        refine ⟨first.reverse, rest.reverse, ?_, fun hmem => hrest (List.mem_reverse.mp hmem)⟩
        rw [← List.reverse_reverse s, hback]
        simp
      rw [breakAtLast_append first hrest] at h
      cases h
      exact ⟨rfl, hrest⟩
    · rw [breakAtLast_of_not_mem hmem] at h
      cases h
  · rintro ⟨rfl, hafter⟩
    exact breakAtLast_append before hafter

end

variable {name stem extension : FileName}

theorem stemAndExtension_eq_iff (hne : extension ≠ []) :
    stemAndExtension name = (stem, some extension) ↔
      name = stem ++ dot :: extension ∧ stem ≠ [] ∧ dot ∉ extension := by
  unfold stemAndExtension
  constructor
  · intro h
    split at h
    · cases h
    · split at h
      · cases h
      · next hbreak =>
          split at h
          · cases h
          · next hstem =>
              cases h
              obtain ⟨hname, hdot⟩ := breakAtLast_eq_some_iff.mp hbreak
              exact ⟨hname, by simpa using hstem, hdot⟩
  · rintro ⟨rfl, hstem, hdot⟩
    have hparent : stem ++ dot :: extension ≠ parentName := by
      intro heq
      rcases List.append_eq_cons_iff.mp heq with ⟨rfl, -⟩ | ⟨rest, rfl, hrest⟩
      · exact hstem rfl
      · rcases List.append_eq_cons_iff.mp hrest.symm with ⟨rfl, hextension⟩ | ⟨more, rfl, hmore⟩
        · cases hextension
          exact hne rfl
        · simp at hmore
    rw [if_neg hparent, breakAtLast_append stem hdot]
    simp [hstem]

/-! ### Paths through a directory -/

theorem exists_join (directory : Text) : ∃ lead, ∀ name, join directory name = lead ++ name := by
  cases hplain : directory.isEmpty || directory.getLast? = some '/' with
  | true => exact ⟨directory, fun name => by rw [join, if_pos hplain]⟩
  | false => exact ⟨directory ++ ['/'], fun name => by simp [join, hplain]⟩

/-- The path to a name in a directory, whether the path of the directory ends in a slash or not. -/
theorem exists_join_eq {directory : Text} (hne : directory ≠ []) :
    ∃ lead rest, (rest = [] ∨ rest = ['/']) ∧ directory = lead ++ rest ∧
      ∀ name, join directory name = lead ++ '/' :: name := by
  by_cases hslash : directory.getLast? = some '/'
  · obtain ⟨lead, rfl⟩ := List.getLast?_eq_some_iff.mp hslash
    refine ⟨lead, ['/'], .inr rfl, rfl, fun name => ?_⟩
    simp [join]
  · refine ⟨directory, [], .inl rfl, by simp, fun name => ?_⟩
    simp [join, hne, hslash]

/-- A name that a path can end in so as to lead to what has this name. -/
structure IsPlainName (name : Text) : Prop where
  ne_nil : name ≠ []
  no_slash : '/' ∉ name
  ne_dot : name ≠ ['.']
  ne_parent : name ≠ ['.', '.']

variable {directory entry : Text}

theorem IsPlainName.splitWhere_append (h : IsPlainName entry) (lead : Text) :
    Text.splitWhere (· = '/') (lead ++ '/' :: entry) =
      Text.splitWhere (· = '/') lead ++ [entry] := by
  have hpiece : ∀ c ∈ entry, decide (c = '/') = false := by
    intro c hc
    rw [decide_eq_false_iff_not]
    rintro rfl
    exact h.no_slash hc
  rw [Text.splitWhere_append_cons (by simp), Text.splitWhere_eq_singleton hpiece]

theorem names_join (hne : directory ≠ []) (h : IsPlainName entry) :
    names (join directory entry) = names directory ++ [entry.utf8] := by
  obtain ⟨lead, rest, hrest, rfl, hjoin⟩ := exists_join_eq hne
  have hhead : (lead ++ '/' :: entry).head? = (lead ++ rest).head? := by
    cases lead with
    | nil =>
        rcases hrest with rfl | rfl
        · exact absurd rfl hne
        · rfl
    | cons c lead => rfl
  have hsplit := h.splitWhere_append lead
  have hfirst : (Text.splitWhere (· = '/') (lead ++ rest)).filter
        (fun name => name ≠ [] && name ≠ ['.']) =
      (Text.splitWhere (· = '/') lead).filter (fun name => name ≠ [] && name ≠ ['.']) := by
    rcases hrest with rfl | rfl
    · rw [List.append_nil]
    · rw [Text.splitWhere_append_cons (by simp), List.filter_append]
      simp [Text.splitWhere]
  unfold names
  rw [hjoin, hhead, hsplit, hfirst, List.filter_append]
  simp only [ne_eq, decide_not, List.filter_cons, List.filter_nil, h.ne_nil, h.ne_dot]
  split <;> simp

theorem step_eq_append {here : Place} {name : FileName} (h : name ≠ parentName) :
    step here name = here ++ [name] := by
  simp [step, h]

theorem IsPlainName.utf8_ne (h : IsPlainName entry) : entry.utf8 ≠ parentName :=
  mt Text.utf8_inj.mp h.ne_parent

/-- What a path passes on its way through some names is where they lead from one to the next. -/
theorem passed_append (here : Place) (first : List FileName) (name : FileName) :
    passed here (first ++ [name]) = passed here first ++ [step (first.foldl step here) name] := by
  induction first generalizing here with
  | nil => rfl
  | cons next first ih => rw [List.cons_append, passed, passed, ih]; rfl

theorem place_join (hne : directory ≠ []) (h : IsPlainName entry) :
    place (join directory entry) = place directory ++ [entry.utf8] := by
  rw [place, names_join hne h, List.foldl_append]
  exact step_eq_append h.utf8_ne

theorem onTheWay_join (hne : directory ≠ []) (h : IsPlainName entry) :
    onTheWay (join directory entry) = passed [] (names directory) := by
  rw [onTheWay, names_join hne h, passed_append, List.dropLast_concat]

theorem namesDirectory_join (hne : directory ≠ []) (h : IsPlainName entry) :
    namesDirectory (join directory entry) = false := by
  obtain ⟨lead, rest, -, -, hjoin⟩ := exists_join_eq hne
  rw [namesDirectory, hjoin, h.splitWhere_append, List.getLast?_concat]
  simp [h.ne_nil, h.ne_dot, h.ne_parent]

theorem join_ne_nil (hne : directory ≠ []) : join directory entry ≠ [] := by
  obtain ⟨lead, rest, -, -, hjoin⟩ := exists_join_eq hne
  simp [hjoin]

/-- A path passes what is on the way, and at last the place that it leads to. -/
theorem mem_passed {path : Text} {passedPlace : Place} (h : passedPlace ∈ passed [] (names path)) :
    passedPlace ∈ onTheWay path ∨ passedPlace = place path := by
  rw [onTheWay, place]
  rcases List.eq_nil_or_concat (names path) with hnames | ⟨first, name, hnames⟩
  · rw [hnames] at h
    cases h
  · rw [List.concat_eq_append] at hnames
    rw [hnames, passed_append, List.dropLast_concat, List.foldl_append]
    rw [hnames, passed_append] at h
    exact (List.mem_append.mp h).imp_right List.mem_singleton.mp

end Path

namespace Files

variable {files : Files} {path directory entry : Text} {listing : Listing} {name : FileName}

/-- A directory is listed if the path to it is not empty and passes nothing but directories. -/
theorem ne_nil_and_isDirectory_of_listing (h : files.listing? directory = some listing) :
    directory ≠ [] ∧
      ∀ place ∈ Path.passed [] (Path.names directory), files.isDirectory place = true := by
  obtain ⟨hlisted, -⟩ := Option.ite_none_right_eq_some.mp h
  simp only [Bool.and_eq_true, Bool.not_eq_true', List.isEmpty_eq_false_iff] at hlisted
  obtain ⟨⟨hne, hopen⟩, hdirectory⟩ := hlisted
  refine ⟨hne, fun place hplace => ?_⟩
  rcases Path.mem_passed hplace with hway | rfl
  · exact List.all_eq_true.mp hopen place hway
  · exact hdirectory

/-- What a directory lists as a file has some content in it. -/
theorem exists_content_of_mem_listing (h : files.listing? directory = some listing)
    (hmem : ⟨name, true⟩ ∈ listing.entries) :
    ∃ held, (Path.place directory ++ [name], held) ∈ files.contents := by
  obtain ⟨-, hentries⟩ := Option.ite_none_right_eq_some.mp h
  cases hentries
  simp only [List.mem_append, List.mem_map, List.mem_filterMap] at hmem
  rcases hmem with ⟨inner, ⟨file, hfile, hin⟩, heq⟩ | ⟨outer, -, heq⟩
  · cases heq
    obtain ⟨-, hplace⟩ := Option.filter_eq_some_iff.mp hin
    rw [decide_eq_true_eq] at hplace
    exact ⟨file.2, hplace ▸ hfile⟩
  · cases heq

/-- What is read by a path is the text that a file at some place spells, if it spells one. -/
def ReadsAt (files : Files) (path : Text) (place : Place) : Prop :=
  ∃ held, (place, held) ∈ files.contents ∧
    files.read path = (Text.ofUtf8? held).elim (.error .invalidUtf8) .ok

theorem readsAt_place (hopen : ∀ place ∈ Path.onTheWay path, files.isDirectory place = true)
    (hne : path ≠ []) (hfile : Path.namesDirectory path = false)
    (h : ∃ held, (Path.place path, held) ∈ files.contents) :
    files.ReadsAt path (Path.place path) := by
  have hway : (Path.onTheWay path).find? (fun place => !files.isDirectory place) = none := by
    rw [List.find?_eq_none]
    intro place hplace
    simp [hopen place hplace]
  obtain ⟨⟨place, held⟩, hfind⟩ : ∃ file,
      files.contents.find? (fun file => file.1 = Path.place path) = some file := by
    obtain ⟨held, hheld⟩ := h
    exact Option.isSome_iff_exists.mp (List.find?_isSome.mpr ⟨_, hheld, by simp⟩)
  obtain rfl : place = Path.place path := by simpa using List.find?_some hfind
  refine ⟨held, List.mem_of_find?_eq_some hfind, ?_⟩
  simp only [read, hway, List.isEmpty_eq_false_iff.mpr hne, hfile, hfind, Bool.false_eq_true,
    if_false]
  cases Text.ofUtf8? held <;> rfl

/-- A file that a directory lists is read by the path that leads through the directory to it. -/
theorem readsAt_of_mem_listing (h : files.listing? directory = some listing)
    (hname : Path.IsPlainName entry) (hmem : ⟨entry.utf8, true⟩ ∈ listing.entries) :
    files.ReadsAt (Path.join directory entry) (Path.place directory ++ [entry.utf8]) := by
  obtain ⟨hne, hopen⟩ := ne_nil_and_isDirectory_of_listing h
  rw [← Path.place_join hne hname]
  refine readsAt_place ?_ (Path.join_ne_nil hne) (Path.namesDirectory_join hne hname) ?_
  · rw [Path.onTheWay_join hne hname]
    exact hopen
  · rw [Path.place_join hne hname]
    exact exists_content_of_mem_listing h hmem

end Files

end HtmlTemplate
