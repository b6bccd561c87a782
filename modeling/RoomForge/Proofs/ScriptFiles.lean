import RoomForge.Game.Decoder
import RoomForge.Proofs.FileChanges
import RoomForge.Proofs.Loaded

set_option autoImplicit false

/-! # The files of scripts

A script's file is named after the script, with the extension of script files instead of what stands
behind the last dot of the script's name. So a name without such a dot has a file of its own, and
names that differ behind their last dots share one: `scripts_are_read_by_their_stems`, for every
format of manifests.

Section 6.3 of the specification has the extension behind every name. `second_version_is_not_read`
is a manifest for which the two differ.
-/

namespace RoomForge.Game

open RoomForge.Room

/-! ## Names in paths -/

/-- A name that leads to a file or directory of its own, in whichever directory it stands. -/
structure IsComponent (name : String) : Prop where
  ne_empty : name ≠ ""
  ne_dot : name ≠ "."
  ne_dots : name ≠ ".."
  no_slash : '/' ∉ name.toList

/-- A character that a row doesn't hold is not met from its end either. -/
theorem forall_ne_of_not_mem {row : List Char} {c : Char} (h : c ∉ row) :
    ∀ other ∈ row.reverse, decide (other ≠ c) = true := by
  intro other hother
  rw [List.mem_reverse] at hother
  exact decide_eq_true fun heq => h (heq ▸ hother)

namespace Path

/-- What a path puts in front of a name: nothing, or something that ends in a slash. -/
def lead (path : Path) : List Char :=
  match path.text.toList.getLast? with
  | none => []
  | some '/' => path.text.toList
  | some _ => path.text.toList ++ ['/']

theorem lead_cases (path : Path) : path.lead = [] ∨ ∃ base, path.lead = base ++ ['/'] := by
  unfold lead
  split
  · exact .inl rfl
  · next hlast =>
    obtain ⟨base, hbase⟩ := List.getLast?_eq_some_iff.mp hlast
    exact .inr ⟨base, hbase⟩
  · exact .inr ⟨_, rfl⟩

theorem isAbsolute_eq_false {name : String} (h : '/' ∉ name.toList) :
    (Path.mk name).isAbsolute = false := by
  unfold isAbsolute
  cases hname : name.toList with
  | nil => rfl
  | cons first rest =>
    rw [hname, List.mem_cons, not_or] at h
    simpa using Ne.symm h.1

theorem join_eq (path : Path) {name : String} (h : '/' ∉ name.toList) :
    path.join name = ⟨String.ofList (path.lead ++ name.toList)⟩ := by
  unfold join lead
  rw [isAbsolute_eq_false h, if_neg (by simp)]
  cases path.text.toList.getLast? with
  | none => simp
  | some last =>
    by_cases hlast : last = '/'
    · simp [hlast]
    · simp [String.append_assoc]

theorem trimBack_eq_self {back : List Char} (hslash : ∀ rest, back ≠ '/' :: rest)
    (hdot : ∀ rest, back ≠ '.' :: '/' :: rest) : trimBack back = back := by
  unfold trimBack
  split
  · exact absurd rfl (hslash _)
  · exact absurd rfl (hdot _)
  · rfl

/-- The characters of a name are no trailing slashes or dots of the path that it ends. -/
theorem trimBack_of_isComponent {name : String} (h : IsComponent name) (front : List Char) :
    trimBack (name.toList.reverse ++ front) = name.toList.reverse ++ front := by
  have hnil : name.toList.reverse ≠ [] := by simpa using h.ne_empty
  obtain ⟨last, more, hrev⟩ := List.exists_cons_of_ne_nil hnil
  have hnone : '/' ∉ last :: more := by
    rw [← hrev, List.mem_reverse]
    exact h.no_slash
  rw [hrev]
  apply trimBack_eq_self
  · intro rest heq
    exact hnone (by simp [(List.cons.inj heq).1])
  · intro rest heq
    obtain ⟨rfl, hmore⟩ := List.cons.inj heq
    cases more with
    | nil => exact h.ne_dot (String.toList_inj.mp (List.reverse_eq_iff.mp hrev))
    | cons other more => exact hnone (by simp [(List.cons.inj hmore).1])

/-- A name at the end of a path is its last name. -/
theorem splitName?_of_isComponent (path : Path) {name : String} (h : IsComponent name) :
    splitName? ⟨String.ofList (path.lead ++ name.toList)⟩ = some (name, path.lead.reverse) := by
  have hnames : ¬ (name.toList = [] ∨ name.toList = ['.'] ∨ name.toList = ['.', '.']) := by
    rintro (heq | heq | heq)
    · exact h.ne_empty (String.toList_inj.mp heq)
    · exact h.ne_dot (String.toList_inj.mp heq)
    · exact h.ne_dots (String.toList_inj.mp heq)
  have hlead : path.lead.reverse.takeWhile (· ≠ '/') = [] ∧
      path.lead.reverse.dropWhile (· ≠ '/') = path.lead.reverse := by
    rcases path.lead_cases with hlead | ⟨base, hlead⟩ <;> simp [hlead]
  have hall := forall_ne_of_not_mem h.no_slash
  unfold splitName?
  simp only [String.toList_ofList, List.reverse_append, trimBack_of_isComponent h,
    List.takeWhile_append_of_pos hall, List.dropWhile_append_of_pos hall, hlead.1, hlead.2,
    List.append_nil, List.reverse_reverse]
  rw [if_neg hnames, String.ofList_toList]

/-- The names of a path come before the one that is joined to it. -/
theorem exists_names_join (path : Path) : ∃ front, ∀ name : String, '/' ∉ name.toList →
    (path.join name).names = front ++ [name] := by
  rcases path.lead_cases with hlead | ⟨base, hlead⟩
  · refine ⟨[], fun name hname => ?_⟩
    rw [join_eq path hname, hlead]
    simp [names, List.splitOn_eq_singleton hname]
  · refine ⟨(base.splitOn '/').map String.ofList, fun name hname => ?_⟩
    rw [join_eq path hname, hlead]
    have hsplit : (base ++ '/' :: name.toList).splitOn '/' = base.splitOn '/' ++ [name.toList] := by
      rw [← List.splitOn_eq_singleton hname]
      exact List.splitOnP_append_cons base name.toList (beq_self_eq_true '/')
    simp [names, hsplit]

theorem isAbsolute_join (path : Path) {name : String} (h : '/' ∉ name.toList) :
    (path.join name).isAbsolute = (path.lead.head? == some '/') := by
  rw [join_eq path h, isAbsolute, String.toList_ofList, List.head?_append]
  cases path.lead.head? with
  | some first => rfl
  | none => exact isAbsolute_eq_false h

/-! ## Stems -/

theorem stem_of_dot {front ext : List Char} (hfront : front ≠ []) (hext : '.' ∉ ext) :
    stem (front ++ '.' :: ext) = front := by
  have hall := forall_ne_of_not_mem hext
  have hback : (front ++ '.' :: ext).reverse.dropWhile (· ≠ '.') = '.' :: front.reverse := by
    rw [List.reverse_append, List.reverse_cons, List.append_assoc,
      List.dropWhile_append_of_pos hall]
    simp
  obtain ⟨last, rest, hfront⟩ := List.exists_cons_of_ne_nil (List.reverse_ne_nil_iff.mpr hfront)
  unfold stem
  rw [hback, hfront]
  exact List.reverse_eq_iff.mpr hfront.symm

theorem stem_of_no_dot {name : List Char} (h : '.' ∉ name.tail) : stem name = name := by
  cases name with
  | nil => rfl
  | cons first rest =>
    have hall := forall_ne_of_not_mem (show '.' ∉ rest from h)
    unfold stem
    rw [List.reverse_cons, List.dropWhile_append_of_pos hall]
    by_cases hfirst : first = '.' <;> simp [hfirst]

theorem stem_cases (name : List Char) :
    '.' ∉ name.tail ∨ ∃ front ext, front ≠ [] ∧ '.' ∉ ext ∧ name = front ++ '.' :: ext := by
  cases name with
  | nil => exact .inl (by simp)
  | cons first rest =>
    by_cases h : '.' ∈ rest
    · obtain ⟨ext, front, hrest, hext⟩ := List.eq_append_cons_of_mem (List.mem_reverse.mpr h)
      refine .inr ⟨first :: front.reverse, ext.reverse, by simp, by simpa using hext, ?_⟩
      have := congrArg List.reverse hrest
      simpa using this
    · exact .inl h

end Path

/-! ## Files of scripts -/

/-- The file of a script by the shape of the script's name: what stands behind the last dot goes,
unless the name starts with that dot. -/
inductive FileOf : String → String → Prop where
  /-- A name with no dot, or only one in front. -/
  | plain {name : String} (h : '.' ∉ name.toList.tail) : FileOf name (name ++ ".sgc")
  | extended {base ext : String} (hbase : base ≠ "" ∧ base ≠ ".") (hext : '.' ∉ ext.toList) :
    FileOf (base ++ "." ++ ext) (base ++ ".sgc")
  /-- With its extension cut off, such a name is no longer one: the path leads up. -/
  | up {ext : String} (hext : '.' ∉ ext.toList) : FileOf (".." ++ ext) ".."

/-- The file of a script. -/
def fileOf (name : String) : String :=
  if Path.stem name.toList = ['.'] then ".."
  else String.ofList (Path.stem name.toList) ++ "." ++ scriptExtension

theorem eq_fileOf {name file : String} (h : FileOf name file) (hname : name ≠ ".") :
    file = fileOf name := by
  unfold fileOf
  cases h with
  | plain h =>
    have hdot : name.toList ≠ ['.'] := fun heq => hname (String.toList_inj.mp heq)
    rw [Path.stem_of_no_dot h, if_neg hdot, String.ofList_toList, String.append_assoc]
    rfl
  | @extended base ext hbase hext =>
    have hchars : (base ++ "." ++ ext).toList = base.toList ++ '.' :: ext.toList := by simp
    have hempty : base.toList ≠ [] := fun heq => hbase.1 (String.toList_inj.mp heq)
    have hdot : base.toList ≠ ['.'] := fun heq => hbase.2 (String.toList_inj.mp heq)
    rw [hchars, Path.stem_of_dot hempty hext, if_neg hdot, String.ofList_toList,
      String.append_assoc]
    rfl
  | @up ext hext =>
    have hchars : (".." ++ ext).toList = ['.'] ++ '.' :: ext.toList := by simp
    rw [hchars, Path.stem_of_dot (List.cons_ne_nil _ _) hext, if_pos rfl]

theorem exists_fileOf (name : String) : ∃ file, FileOf name file := by
  rcases Path.stem_cases name.toList with h | ⟨front, ext, hfront, hext, hname⟩
  · exact ⟨_, .plain h⟩
  · have hsplit : name = String.ofList front ++ "." ++ String.ofList ext :=
      String.toList_inj.mp (by simp [hname])
    have hext : '.' ∉ (String.ofList ext).toList := by rwa [String.toList_ofList]
    rw [hsplit]
    by_cases hup : front = ['.']
    · have hdots : String.ofList ['.'] ++ "." = ".." := rfl
      rw [hup, hdots]
      exact ⟨_, .up hext⟩
    · refine ⟨_, .extended ⟨fun heq => hfront ?_, fun heq => hup ?_⟩ hext⟩
      · simpa using congrArg String.toList heq
      · simpa using congrArg String.toList heq

theorem fileOf_iff {name file : String} (h : name ≠ ".") :
    FileOf name file ↔ file = fileOf name := by
  refine ⟨fun hfile => eq_fileOf hfile h, ?_⟩
  rintro rfl
  obtain ⟨file, hfile⟩ := exists_fileOf name
  exact eq_fileOf hfile h ▸ hfile

theorem slash_not_mem_of_fileOf {name file : String} (h : FileOf name file)
    (hname : '/' ∉ name.toList) : '/' ∉ file.toList := by
  cases h with
  | plain _ => simpa using hname
  | extended _ _ =>
    simp only [String.toList_append, List.mem_append, not_or] at hname ⊢
    exact ⟨hname.1.1, by decide⟩
  | up _ => decide

/-- A script is looked for at its file, in the directory of scripts. -/
theorem scriptPath_eq (directory : Path) {name file : String} (h : IsComponent name)
    (hfile : FileOf name file) : scriptPath directory name = directory.join file := by
  have hslash := slash_not_mem_of_fileOf hfile h.no_slash
  rw [scriptPath, Path.join_eq directory h.no_slash, Path.join_eq directory hslash,
    Path.withExtension, Path.splitName?_of_isComponent directory h, eq_fileOf hfile h.ne_dot]
  unfold fileOf
  by_cases hstem : Path.stem name.toList = ['.']
  · simp [hstem]
  · simp [hstem, String.append_assoc]

theorem FileOf.ne_empty_and_ne_dot {name file : String} (h : FileOf name file) :
    file ≠ "" ∧ file ≠ "." := by
  have hlength : 1 < file.toList.length := by
    cases h with
    | plain _ => simp
    | extended _ _ => simp
    | up _ => decide
  constructor
  all_goals
    rintro rfl
    exact absurd hlength (by decide)

/-! ## Places -/

namespace FileTree

variable {tree : FileTree} {directory : Path} {place next : Place} {name file other : String}

theorem eq_of_step (h : tree.step place name = .ok next) (hname : name ≠ "" ∧ name ≠ ".") :
    next = if name = ".." then place.tail else name :: place := by
  rcases (step_eq_ok_iff.mp h).2 with ⟨hstay, -⟩ | ⟨hup, hnext⟩ | ⟨hown, -, hnext⟩
  · exact absurd hstay (by simp [hname])
  · rw [if_pos hup, hnext]
  · have hup : name ≠ ".." := by
      rintro rfl
      exact absurd hown.2.1 (by decide)
    rw [if_neg hup, hnext]

/-- A name in a directory is looked up from where the directory's path leads. -/
theorem exists_step_of_locate (tree : FileTree) (directory : Path) :
    ∃ found : Except DiskError Place, ∀ name place, '/' ∉ name.toList →
      tree.locate (directory.join name) = .ok place →
        ∃ inside, found = .ok inside ∧ tree.step inside name = .ok place := by
  obtain ⟨front, hfront⟩ := directory.exists_names_join
  refine ⟨tree.walk (if directory.lead.head? == some '/' then [] else tree.home) front, ?_⟩
  intro name place hname hlocate
  obtain ⟨names, hnames, hwalk⟩ := bind_eq_ok_iff.mp hlocate
  rw [eq_names_of_namesOf hnames, hfront name hname, start, Path.isAbsolute_join directory hname,
    walk_concat] at hwalk
  exact bind_eq_ok_iff.mp hwalk

/-- Files that are named differently stand at different places. -/
theorem eq_of_locate_join (hfile : '/' ∉ file.toList) (hother : '/' ∉ other.toList)
    (hfile' : file ≠ "" ∧ file ≠ ".") (hother' : other ≠ "" ∧ other ≠ ".")
    (hlocate : tree.locate (directory.join file) = .ok place)
    (hlocate' : tree.locate (directory.join other) = .ok place) : file = other := by
  obtain ⟨found, hfound⟩ := exists_step_of_locate tree directory
  obtain ⟨inside, hinside, hstep⟩ := hfound file place hfile hlocate
  obtain ⟨inside', hinside', hstep'⟩ := hfound other place hother hlocate'
  obtain rfl := Except.ok.inj (hinside.symm.trans hinside')
  have hsame := (eq_of_step hstep hfile').symm.trans (eq_of_step hstep' hother')
  split_ifs at hsame with hup hup' hup'
  · exact hup.trans hup'.symm
  · have hlength := congrArg List.length hsame
    simp only [List.length_tail, List.length_cons] at hlength
    omega
  · have hlength := congrArg List.length hsame
    simp only [List.length_tail, List.length_cons] at hlength
    omega
  · exact (List.cons.inj hsame).1

/-- The text of the file at a path. -/
def readText (tree : FileTree) (path : Path) : Except DiskError String := do
  let bytes ← tree.read path
  match Text.ofUtf8? bytes with
  | some text => .ok text
  | none => .error .notText

end FileTree

/-! ## Loading scripts -/

section

variable {format : Format} {tree : FileTree} {directory : Path} {name : String}

theorem result_run_loadText (path : Path) :
    ((loadText path).run tree).result = (tree.readText path).mapError fun e =>
      { doing := [.reading path], cause := .disk e } := rfl

/-- A script has the text of its file. -/
theorem loadScript_eq_ok_iff {source : ScriptSource} (h : IsComponent name) :
    ((loadScript directory name).run tree).result = .ok source ↔ source.name = name ∧
      ∃ file, FileOf name file ∧ tree.readText (directory.join file) = .ok source.text := by
  simp only [loadScript, Loading.result_run_bind, result_run_loadText, bind_eq_ok_iff,
    mapError_eq_ok_iff, Loading.run_pure, Report.result_pure, Except.ok.injEq]
  constructor
  · rintro ⟨text, htext, rfl⟩
    obtain ⟨file, hfile⟩ := exists_fileOf name
    exact ⟨rfl, file, hfile, scriptPath_eq directory h hfile ▸ htext⟩
  · rintro ⟨rfl, file, hfile, htext⟩
    exact ⟨source.text, scriptPath_eq directory h hfile ▸ htext, rfl⟩

/-- A script can't be loaded if its file can't be read. -/
theorem loadScript_eq_error_iff {failure : Failure} (h : IsComponent name) :
    ((loadScript directory name).run tree).result = .error failure ↔
      ∃ file e, FileOf name file ∧ tree.readText (directory.join file) = .error e ∧
        failure = { doing := [.reading (directory.join file)], cause := .disk e } := by
  obtain ⟨file, hfile⟩ := exists_fileOf name
  have hunique : ∀ other, FileOf name other ↔ other = file := by
    intro other
    rw [fileOf_iff h.ne_dot, eq_fileOf hfile h.ne_dot]
  simp only [loadScript, Loading.result_run_bind, result_run_loadText, Loading.run_pure,
    Report.result_pure, scriptPath_eq directory h hfile, hunique]
  cases htext : tree.readText (directory.join file) with
  | ok text => simp [bind_eq_error_iff, Except.mapError, htext]
  | error e =>
    rw [bind_eq_error_iff]
    simp [Except.mapError, htext, eq_comm]

/-- The scripts of a manifest are loaded as the manifest lists them. -/
theorem result_run_loadScripts {names : List String}
    (h : ((loadManifest format "scripts" (directory.join "scripts.json")).run tree).result =
      .ok names) :
    ((loadScripts format directory).run tree).result =
      names.mapM fun name => ((loadScript directory name).run tree).result := by
  rw [loadScripts, Loading.result_run_bind, bind_of_eq_ok h, Loading.result_run_mapM]

end

/-- Scripts are loaded in the order of their manifest, each with the text of its file; loading fails
at the first file that can't be read. Two scripts read the same file if their files have the same
name and not otherwise. -/
theorem scripts_are_read_by_their_stems (format : Format) (tree : FileTree) (directory : Path)
    {names : List String}
    (hmanifest : ((loadManifest format "scripts" (directory.join "scripts.json")).run tree).result =
      .ok names)
    (hnames : ∀ name ∈ names, IsComponent name) :
    (∀ sources, ((loadScripts format directory).run tree).result = .ok sources ↔
      List.Forall₂ (fun name source => source.name = name ∧ ∃ file, FileOf name file ∧
        tree.readText (directory.join file) = .ok source.text) names sources) ∧
    (∀ failure, ((loadScripts format directory).run tree).result = .error failure ↔
      ∃ (index : Nat) (name file : String) (e : DiskError), names[index]? = some name ∧
        FileOf name file ∧ tree.readText (directory.join file) = .error e ∧
        failure = { doing := [.reading (directory.join file)], cause := .disk e } ∧
        ∀ before < index, ∀ earlier, names[before]? = some earlier →
          ∃ file text, FileOf earlier file ∧ tree.readText (directory.join file) = .ok text) ∧
    ∀ name ∈ names, ∀ other ∈ names, ∀ file otherFile place, FileOf name file →
      FileOf other otherFile → tree.locate (directory.join file) = .ok place →
        (tree.locate (directory.join otherFile) = .ok place ↔ otherFile = file) := by
  have hmember : ∀ {index : Nat} {name : String}, names[index]? = some name → IsComponent name :=
    fun hname => hnames _ (List.mem_of_getElem? hname)
  rw [result_run_loadScripts hmanifest]
  refine ⟨fun sources => ?_, fun failure => ?_, ?_⟩
  · rw [mapM_eq_ok_iff]
    constructor
    · intro h
      refine ((List.forall₂_and_left names sources).mpr ⟨hnames, h⟩).imp ?_
      rintro name source ⟨hname, hsource⟩
      exact (loadScript_eq_ok_iff hname).mp hsource
    · intro h
      refine ((List.forall₂_and_left names sources).mpr ⟨hnames, h⟩).imp ?_
      rintro name source ⟨hname, hsource⟩
      exact (loadScript_eq_ok_iff hname).mpr hsource
  · rw [mapM_eq_error_iff]
    constructor
    · rintro ⟨index, name, hname, hfails, hbefore⟩
      obtain ⟨file, e, hfile, htext, hfailure⟩ :=
        (loadScript_eq_error_iff (hmember hname)).mp hfails
      refine ⟨index, name, file, e, hname, hfile, htext, hfailure, ?_⟩
      intro before hindex earlier hearlier
      obtain ⟨source, hsource⟩ := hbefore before hindex earlier hearlier
      obtain ⟨-, file, hfile, htext⟩ := (loadScript_eq_ok_iff (hmember hearlier)).mp hsource
      exact ⟨file, source.text, hfile, htext⟩
    · rintro ⟨index, name, file, e, hname, hfile, htext, hfailure, hbefore⟩
      refine ⟨index, name, hname,
        (loadScript_eq_error_iff (hmember hname)).mpr ⟨file, e, hfile, htext, hfailure⟩, ?_⟩
      intro before hindex earlier hearlier
      obtain ⟨file, text, hfile, htext⟩ := hbefore before hindex earlier hearlier
      exact ⟨⟨earlier, text⟩,
        (loadScript_eq_ok_iff (hmember hearlier)).mpr ⟨rfl, file, hfile, htext⟩⟩
  · intro name hname other hother file otherFile place hfile hotherFile hplace
    refine ⟨fun hplace' => ?_, fun hsame => hsame ▸ hplace⟩
    have hslash := slash_not_mem_of_fileOf hfile (hnames name hname).no_slash
    have hotherSlash := slash_not_mem_of_fileOf hotherFile (hnames other hother).no_slash
    exact FileTree.eq_of_locate_join hotherSlash hslash hotherFile.ne_empty_and_ne_dot
      hfile.ne_empty_and_ne_dot hplace' hplace

/-- Scripts of which one seems to be a second version of the other. -/
def versions : FileTree where
  directories := [["scripts"]]
  files := [
    (["scripts.json", "scripts"], Text.utf8 "\x7b\"scripts\": [\"main\", \"main.v2\"]\x7d"),
    (["main.sgc", "scripts"], Text.utf8 "const VERSION = 1;"),
    (["main.v2.sgc", "scripts"], Text.utf8 "const VERSION = 2;")]

theorem versions_are_read_by_their_stems :
    ((loadManifest .json "scripts" (Path.join ⟨"scripts"⟩ "scripts.json")).run versions).result =
      .ok ["main", "main.v2"] ∧ (∀ name ∈ ["main", "main.v2"], IsComponent name) ∧
    ((loadScripts .json ⟨"scripts"⟩).run versions).result =
      .ok [⟨"main", "const VERSION = 1;"⟩, ⟨"main.v2", "const VERSION = 1;"⟩] := by
  have hmanifest : ((loadManifest .json "scripts" (Path.join ⟨"scripts"⟩ "scripts.json")).run
      versions).result = .ok ["main", "main.v2"] := by
    decide +kernel
  have hnames : ∀ name ∈ ["main", "main.v2"], IsComponent name := by
    simp only [List.forall_mem_cons, List.not_mem_nil, false_implies, implies_true, and_true]
    exact ⟨⟨by simp, by simp, by simp, by simp⟩, by simp, by simp, by simp, by simp⟩
  have htext : versions.readText (Path.join ⟨"scripts"⟩ "main.sgc") = .ok "const VERSION = 1;" := by
    decide +kernel
  have hloads := (scripts_are_read_by_their_stems .json versions ⟨"scripts"⟩ hmanifest hnames).1
  refine ⟨hmanifest, hnames, (hloads _).mpr ?_⟩
  have hfirst : FileOf "main" "main.sgc" := .plain (by simp)
  have hsecond : FileOf ("main" ++ "." ++ "v2") "main.sgc" := .extended (by simp) (by simp)
  exact .cons ⟨rfl, _, hfirst, htext⟩ (.cons ⟨rfl, _, hsecond, htext⟩ .nil)

/-- The script `main.v2` has a file of its own name, and the text of another one. -/
theorem second_version_is_not_read :
    versions.readText ⟨"scripts/main.v2.sgc"⟩ = .ok "const VERSION = 2;" ∧
    ((loadScripts .json ⟨"scripts"⟩).run versions).result =
      .ok [⟨"main", "const VERSION = 1;"⟩, ⟨"main.v2", "const VERSION = 1;"⟩] := by
  decide +kernel

end RoomForge.Game
