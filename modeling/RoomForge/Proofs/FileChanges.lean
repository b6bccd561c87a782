import RoomForge.Game.Disk
import RoomForge.Proofs.Fallible

set_option autoImplicit false

/-! # What changes in a tree of files

Making directories leaves all files alone and makes only directories that were missing; writing a
file changes what stands at one place. What a path led to before either of them, it leads to
afterwards. `step_eq_ok_iff` says once what an operation on a tree does, and the rest follows from
it by induction on the steps of a path.
-/

namespace RoomForge.Game

/-- A path stands before the directories above it. -/
theorem Path.exists_ancestors_eq (path : Path) : ∃ above, path.ancestors = path :: above := by
  unfold ancestors ancestorsUpTo
  split
  · exact ⟨_, rfl⟩
  · split
    · exact ⟨_, rfl⟩
    · exact ⟨_, rfl⟩

namespace FileTree

/-! ## Walking -/

/-- A name of its own, which can be looked up in a directory. -/
def IsName (name : String) : Prop :=
  name ≠ "" ∧ isDots name = false ∧ name.utf8ByteSize ≤ nameLimit

section

variable {tree before after : FileTree} {place next : Place} {name : String}

/-- A step to a name of its own asks what stands there. -/
theorem step_of_isName (hplace : tree.isDirectory place = true) (hname : IsName name) :
    tree.step place name =
      if tree.isTaken (name :: place) then .ok (name :: place) else .error .notFound := by
  obtain ⟨hempty, hdots, hlimit⟩ := hname
  simp only [isDots, Bool.or_eq_false_iff, beq_eq_false_iff_ne] at hdots
  simp [step, hplace, hempty, hdots.1, hdots.2, Nat.not_lt.mpr hlimit]

/-- Where a step leads: it stays, goes up, or comes to something of that name. -/
theorem step_eq_ok_iff :
    tree.step place name = .ok next ↔ tree.isDirectory place = true ∧
      ((name = "" ∨ name = ".") ∧ next = place ∨ name = ".." ∧ next = place.tail ∨
        IsName name ∧ tree.isTaken (name :: place) = true ∧ next = name :: place) := by
  constructor
  · intro h
    unfold step at h
    split at h
    · cases h
    · next hplace =>
      refine ⟨by simpa using hplace, ?_⟩
      split at h
      · next hstay => exact .inl ⟨hstay, (Except.ok.inj h).symm⟩
      · next hstay =>
        split at h
        · next hup => exact .inr (.inl ⟨hup, (Except.ok.inj h).symm⟩)
        · next hup =>
          split at h
          · cases h
          · next hlimit =>
            split at h
            · next htaken =>
              rw [not_or] at hstay
              have hdots : isDots name = false := by simp [isDots, hstay.2, hup]
              have hname : IsName name := ⟨hstay.1, hdots, Nat.not_lt.mp hlimit⟩
              exact .inr (.inr ⟨hname, htaken, (Except.ok.inj h).symm⟩)
            · cases h
  · rintro ⟨hplace, ⟨hstay, rfl⟩ | ⟨rfl, rfl⟩ | ⟨hname, htaken, rfl⟩⟩
    · simp [step, hplace, hstay]
    · simp [step, hplace]
    · rw [step_of_isName hplace hname, if_pos htaken]

/-- A name that is not found is one of its own, in a directory where nothing has it. -/
theorem step_eq_notFound (h : tree.step place name = .error .notFound) :
    tree.isDirectory place = true ∧ IsName name ∧ tree.isTaken (name :: place) = false := by
  unfold step at h
  split at h
  · exact absurd h (by simp)
  · next hplace =>
    split at h
    · exact absurd h (by simp)
    · next hstay =>
      split at h
      · exact absurd h (by simp)
      · next hup =>
        split at h
        · exact absurd h (by simp)
        · next hlimit =>
          split at h
          · exact absurd h (by simp)
          · next htaken =>
            rw [not_or] at hstay
            have hdots : isDots name = false := by simp [isDots, hstay.2, hup]
            exact ⟨by simpa using hplace, ⟨hstay.1, hdots, Nat.not_lt.mp hlimit⟩,
              by simpa using htaken⟩

/-- Whatever is found in `before` is found in `after`. -/
structure Extends (before after : FileTree) : Prop where
  home : after.home = before.home
  directory : ∀ place, before.isDirectory place = true → after.isDirectory place = true
  taken : ∀ place, before.isTaken place = true → after.isTaken place = true

theorem Extends.refl (tree : FileTree) : Extends tree tree :=
  ⟨rfl, fun _ => id, fun _ => id⟩

theorem Extends.trans {middle : FileTree} (h : Extends before middle) (h' : Extends middle after) :
    Extends before after :=
  ⟨h'.home.trans h.home, fun place hplace => h'.directory place (h.directory place hplace),
    fun place hplace => h'.taken place (h.taken place hplace)⟩

theorem Extends.step (h : Extends before after) (hstep : before.step place name = .ok next) :
    after.step place name = .ok next := by
  rw [step_eq_ok_iff] at hstep ⊢
  obtain ⟨hplace, hleads⟩ := hstep
  refine ⟨h.directory place hplace, hleads.imp_right fun hleads => hleads.imp_right ?_⟩
  rintro ⟨hname, htaken, hnext⟩
  exact ⟨hname, h.taken _ htaken, hnext⟩

theorem Extends.walk {names : List String} (h : Extends before after)
    (hwalk : before.walk place names = .ok next) : after.walk place names = .ok next := by
  unfold FileTree.walk at hwalk ⊢
  induction names generalizing place with
  | nil => exact hwalk
  | cons name rest ih =>
    rw [List.foldlM_cons] at hwalk ⊢
    obtain ⟨middle, hstep, hrest⟩ := bind_eq_ok_iff.mp hwalk
    rw [bind_of_eq_ok (h.step hstep)]
    exact ih hrest

theorem Extends.start (h : Extends before after) (path : Path) :
    after.start path = before.start path := by
  rw [FileTree.start, FileTree.start, h.home]

/-- A path leads where it led before. -/
theorem Extends.locate {path : Path} (h : Extends before after)
    (hlocate : before.locate path = .ok place) : after.locate path = .ok place := by
  unfold FileTree.locate at hlocate ⊢
  obtain ⟨names, hnames, hwalk⟩ := bind_eq_ok_iff.mp hlocate
  rw [bind_of_eq_ok hnames, h.start]
  exact h.walk hwalk

/-- A walk to a last name goes to its directory first. -/
theorem walk_concat (tree : FileTree) (place : Place) (front : List String) (name : String) :
    tree.walk place (front ++ [name]) =
      tree.walk place front >>= fun next => tree.step next name := by
  simp [walk, List.foldlM_append]

/-- A path leads to what stands under its last name. -/
theorem locate_of_walk {path : Path} {front : List String}
    (hnames : namesOf path = .ok (front ++ [name]))
    (hwalk : tree.walk (tree.start path) front = .ok place)
    (hplace : tree.isDirectory place = true) (hname : IsName name)
    (htaken : tree.isTaken (name :: place) = true) : tree.locate path = .ok (name :: place) := by
  rw [locate, bind_of_eq_ok hnames, walk_concat, bind_of_eq_ok hwalk, step_of_isName hplace hname,
    if_pos htaken]

theorem eq_names_of_namesOf {path : Path} {names : List String} (h : namesOf path = .ok names) :
    names = path.names := by
  unfold namesOf at h
  split_ifs at h
  exact (Except.ok.inj h).symm

/-- The names of a path that can be looked up end in a last one. -/
theorem exists_concat_of_namesOf {path : Path} {names : List String}
    (h : namesOf path = .ok names) : ∃ front name, names = front ++ [name] := by
  obtain rfl := eq_names_of_namesOf h
  have hnonempty : path.names ≠ [] := by
    simp [Path.names, List.splitOn, List.splitOnP_ne_nil]
  exact ⟨_, _, (List.dropLast_concat_getLast hnonempty).symm⟩

theorem splitLast_concat (front : List String) : splitLast (front ++ [name]) = (front, name) := by
  simp [splitLast]

end

/-! ## Single changes -/

section

variable {tree after : FileTree} {place other : Place} {path : Path} {bytes : Bytes}

theorem isDirectory_withDirectory :
    isDirectory { tree with directories := place :: tree.directories } other =
      (other == place || tree.isDirectory other) := by
  simp only [isDirectory, List.contains_cons]
  rw [Bool.or_left_comm]

/-- One more directory hides nothing. -/
theorem extends_withDirectory (tree : FileTree) (place : Place) :
    Extends tree { tree with directories := place :: tree.directories } := by
  refine ⟨rfl, fun other hother => ?_, fun other hother => ?_⟩
  · rw [isDirectory_withDirectory, hother, Bool.or_true]
  · rw [isTaken, isDirectory_withDirectory]
    rw [isTaken, Bool.or_eq_true] at hother
    rcases hother with hfile | hdirectory
    · exact Bool.or_eq_true _ _ ▸ .inl hfile
    · rw [hdirectory, Bool.or_true, Bool.or_true]

/-- One more directory is made where nothing was, at the path that it was asked for. -/
theorem makeDirectory_ok (h : tree.makeDirectory path = .ok after) :
    ∃ place, tree.isTaken place = false ∧
      after = { tree with directories := place :: tree.directories } ∧
      after.locate path = .ok place := by
  unfold makeDirectory at h
  obtain ⟨names, hnames, h⟩ := bind_eq_ok_iff.mp h
  obtain ⟨front, name, rfl⟩ := exists_concat_of_namesOf hnames
  rw [splitLast_concat] at h
  split at h
  · cases h
  · next hmissing =>
    dsimp only at h
    split at h
    · cases h
    · obtain ⟨place, hfront, h⟩ := bind_eq_ok_iff.mp h
      split at h
      · cases h
      · obtain rfl := Except.ok.inj h
        rw [walk_concat, bind_of_eq_ok hfront] at hmissing
        obtain ⟨hplace, hname, hfree⟩ := step_eq_notFound hmissing
        have hkept := extends_withDirectory tree (name :: place)
        refine ⟨name :: place, hfree, rfl, ?_⟩
        apply locate_of_walk hnames (hkept.walk hfront) (hkept.directory place hplace) hname
        simp [isTaken, isDirectory_withDirectory]
  · cases h

/-- What is put at a place stands there, and all other files stay. -/
theorem file?_put :
    (tree.put place bytes).file? other =
      if other = place then some bytes else tree.file? other := by
  unfold file? put
  rw [List.find?_cons]
  split_ifs with h
  · simp [h]
  · rw [beq_false_of_ne (Ne.symm h)]
    dsimp only
    rw [List.find?_filter]
    congr 2
    funext entry
    by_cases hentry : entry.1 = other
    · simp [hentry, h]
    · simp [hentry]

theorem extends_put (tree : FileTree) (place : Place) (bytes : Bytes) :
    Extends tree (tree.put place bytes) := by
  refine ⟨rfl, fun other hother => hother, fun other hother => ?_⟩
  rw [isTaken, file?_put]
  split_ifs with hplace
  · rfl
  · exact hother

theorem length_trimNames_le (names : List String) : (trimNames names).length ≤ names.length := by
  simpa [trimNames] using (List.dropWhile_sublist (· == "") (l := names.reverse)).length_le

theorem trimNames_concat (front : List String) (name : String) :
    trimNames (front ++ [name]) = if name = "" then trimNames front else front ++ [name] := by
  by_cases h : name = "" <;> simp [trimNames, h]

/-- A file that is written stands at the path that it was written to. -/
theorem write_ok (h : tree.write path bytes = .ok after) :
    ∃ place, after = tree.put place bytes ∧ after.locate path = .ok place := by
  unfold write at h
  obtain ⟨names, hnames, h⟩ := bind_eq_ok_iff.mp h
  obtain ⟨front, name, rfl⟩ := exists_concat_of_namesOf hnames
  rw [trimNames_concat] at h
  by_cases hempty : name = ""
  · -- a path that ends in a slash is refused
    have hshort := Nat.lt_succ_of_le (length_trimNames_le front)
    rw [if_pos hempty] at h
    obtain ⟨place, -, h⟩ := bind_eq_ok_iff.mp h
    by_cases hplace : (!tree.isDirectory place) = true
    · rw [if_pos hplace] at h
      cases h
    · rw [if_neg hplace, if_pos (by simp [hshort])] at h
      cases h
  · rw [if_neg hempty] at h
    dsimp only at h
    rw [splitLast_concat] at h
    obtain ⟨place, hfront, h⟩ := bind_eq_ok_iff.mp h
    split at h
    · cases h
    · next hplace =>
      split at h
      · cases h
      · next hdots =>
        split at h
        · cases h
        · next hlimit =>
          split at h
          · cases h
          · obtain rfl := Except.ok.inj h
            have hkept := extends_put tree (name :: place) bytes
            refine ⟨name :: place, rfl, ?_⟩
            apply locate_of_walk hnames (hkept.walk hfront)
            · exact hkept.directory place (by simpa using hplace)
            · exact ⟨hempty, by simpa using hdots, Nat.not_lt.mp hlimit⟩
            · simp [isTaken, file?_put]

end

/-! ## Many changes -/

/-- All that is new in `after` besides files: directories that `paths` lead to, where there was
nothing before. -/
structure Grown (paths : List Path) (before after : FileTree) : Prop where
  kept : Extends before after
  made : ∀ place, after.isDirectory place = true → before.isDirectory place = true ∨
    before.isTaken place = false ∧ ∃ path ∈ paths, after.locate path = .ok place

section

variable {tree before middle after : FileTree} {paths others : List Path} {path : Path}

theorem Grown.refl (paths : List Path) (tree : FileTree) : Grown paths tree tree :=
  ⟨.refl tree, fun _ => .inl⟩

theorem Grown.trans (h : Grown paths before middle) (h' : Grown paths middle after) :
    Grown paths before after := by
  refine ⟨h.kept.trans h'.kept, fun place hplace => ?_⟩
  rcases h'.made place hplace with hmiddle | ⟨hfree, hpath⟩
  · refine (h.made place hmiddle).imp_right ?_
    rintro ⟨hfree, path, hpath, hlocate⟩
    exact ⟨hfree, path, hpath, h'.kept.locate hlocate⟩
  · refine .inr ⟨?_, hpath⟩
    exact Bool.eq_false_iff.mpr fun htaken => Bool.eq_false_iff.mp hfree (h.kept.taken place htaken)

theorem Grown.mono (h : Grown paths before after) (hsub : paths ⊆ others) :
    Grown others before after := by
  refine ⟨h.kept, fun place hplace => (h.made place hplace).imp_right ?_⟩
  rintro ⟨hfree, path, hpath, hlocate⟩
  exact ⟨hfree, path, hsub hpath, hlocate⟩

theorem grown_put (tree : FileTree) (place : Place) (bytes : Bytes) :
    Grown paths tree (tree.put place bytes) :=
  ⟨extends_put tree place bytes, fun _ => .inl⟩

theorem grown_of_makeDirectory (h : tree.makeDirectory path = .ok after) (hpath : path ∈ paths) :
    Grown paths tree after := by
  obtain ⟨place, hfree, rfl, hlocate⟩ := makeDirectory_ok h
  refine ⟨extends_withDirectory tree place, fun other hother => ?_⟩
  rw [isDirectory_withDirectory, Bool.or_eq_true, beq_iff_eq] at hother
  rcases hother with rfl | hother
  · exact .inr ⟨hfree, path, hpath, hlocate⟩
  · exact .inl hother

end

/-- A program goes on with the tree that its first part leaves. -/
theorem bind_apply {α β : Type} (program : StateM FileTree α) (next : α → StateM FileTree β)
    (tree : FileTree) : (program >>= next) tree = next (program tree).1 (program tree).2 := rfl

/-- Whatever the program does to a tree, it makes directories that `paths` lead to and leaves files
alone. -/
def Furnishes {α : Type} (paths : List Path) (program : StateM FileTree α) : Prop :=
  ∀ tree, Grown paths tree (program tree).2 ∧ (program tree).2.files = tree.files

namespace Furnishes

variable {α β : Type} {paths others : List Path}

theorem pure (value : α) : Furnishes paths (pure value : StateM FileTree α) :=
  fun tree => ⟨.refl paths tree, rfl⟩

theorem bind {program : StateM FileTree α} {next : α → StateM FileTree β}
    (h : Furnishes paths program) (hnext : ∀ value, Furnishes paths (next value)) :
    Furnishes paths (program >>= next) := by
  intro tree
  obtain ⟨hgrown, hfiles⟩ := h tree
  obtain ⟨hgrown', hfiles'⟩ := hnext (program tree).1 (program tree).2
  exact ⟨hgrown.trans hgrown', hfiles'.trans hfiles⟩

theorem mono {program : StateM FileTree α} (h : Furnishes paths program) (hsub : paths ⊆ others) :
    Furnishes others program :=
  fun tree => ⟨(h tree).1.mono hsub, (h tree).2⟩

theorem makeDirectory {path : Path} (hpath : path ∈ paths) :
    Furnishes paths (disk.makeDirectory path) := by
  intro tree
  show Grown paths tree (tree.after (tree.makeDirectory path)).2 ∧
    (tree.after (tree.makeDirectory path)).2.files = tree.files
  cases hmade : tree.makeDirectory path with
  | error e => exact ⟨.refl paths tree, rfl⟩
  | ok made =>
    refine ⟨grown_of_makeDirectory hmade hpath, ?_⟩
    obtain ⟨place, -, rfl, -⟩ := makeDirectory_ok hmade
    rfl

theorem excuse (path : Path) (e : DiskError) : Furnishes paths (disk.excuse path e) := by
  refine bind (fun tree => ⟨.refl paths tree, rfl⟩) fun found => ?_
  split
  · exact pure _
  · exact pure _

/-- However making a chain of directories ends, nothing but its paths is made. -/
theorem makeChain (paths : List Path) : Furnishes paths (disk.makeChain paths) := by
  induction paths with
  | nil => exact pure _
  | cons path above ih =>
    have hmake := makeDirectory (List.mem_cons_self (a := path) (l := above))
    have habove := ih.mono (List.subset_cons_self path above)
    unfold Disk.makeChain
    split
    · exact pure _
    · refine bind hmake fun made => ?_
      split
      · exact pure _
      · refine bind habove fun ready => ?_
        split
        · exact pure _
        · refine bind hmake fun made => ?_
          split
          · exact pure _
          · exact excuse path _
      · exact excuse path _

end Furnishes

theorem makeDirectory_of_locate {tree : FileTree} {path : Path} {place : Place}
    (h : tree.locate path = .ok place) : tree.makeDirectory path = .error .alreadyExists := by
  unfold locate at h
  obtain ⟨names, hnames, hwalk⟩ := bind_eq_ok_iff.mp h
  rw [makeDirectory, bind_of_eq_ok hnames, hwalk]
  rfl

/-- Where the directory is there already, none is made. -/
theorem makeDirectories_of_hasDirectory {tree : FileTree} {path : Path}
    (h : tree.hasDirectory path = true) : disk.makeDirectories path tree = (.ok (), tree) := by
  obtain ⟨above, habove⟩ := path.exists_ancestors_eq
  have hlocate : ∃ place, tree.locate path = .ok place := by
    unfold hasDirectory at h
    split at h
    · next place hplace => exact ⟨place, hplace⟩
    · cases h
  obtain ⟨place, hplace⟩ := hlocate
  have hmake : disk.makeDirectory path tree = (.error .alreadyExists, tree) := by
    show tree.after (tree.makeDirectory path) = _
    rw [makeDirectory_of_locate hplace]
    rfl
  have hexcuse : disk.excuse path .alreadyExists tree = (.ok (), tree) := by
    show (if tree.hasDirectory path = true then _ else _ : StateM FileTree _) tree = _
    rw [h]
    rfl
  rw [Disk.makeDirectories, habove, Disk.makeChain]
  split
  · rfl
  · rw [bind_apply, hmake]
    exact hexcuse

end FileTree

end RoomForge.Game
