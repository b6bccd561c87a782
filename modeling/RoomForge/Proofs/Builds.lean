import RoomForge.Game.Build
import RoomForge.Game.Decoder
import RoomForge.Proofs.FileChanges
import RoomForge.Proofs.Loaded

set_option autoImplicit false

/-! # What a build does to files

A build that fails leaves every file as it was, wherever it fails; until all rooms have compiled it
changes nothing at all, and later on it makes missing directories above the game file. A build that
succeeds changes one file. This is `failed_build_leaves_files_alone`, for trees of files and every
format of descriptors (specification, section 4.5, atomic output).

`build_cases` tells apart where a build can fail. Directories that a failed build has made stay, of
which the section says nothing.
-/

namespace RoomForge.Game

open RoomForge.Resource RoomForge.Room

section

variable {format : Format} {tree : FileTree} {input output : Path} {rooms : List RoomForge.Room}
  {bytes : Bytes}

/-! ## Loading, compiling and packing -/

/-- What a program was doing is put around its failure alone. -/
theorem Loading.result_run_doing {α : Type} (program : Loading α) (doing : Doing) :
    ((program.doing doing).run tree).result =
      (program.run tree).result.mapError (·.during doing) := by
  induction program with
  | done result => rfl
  | say message rest ih => exact ih
  | read path rest ih => exact ih (tree.read path)
  | find path rest ih => exact ih (tree.hasPath path)

/-- The game in `input` loads, and compiles to `rooms`. -/
def Compiles (format : Format) (tree : FileTree) (input : Path) (rooms : List RoomForge.Room) :
    Prop :=
  ∃ sources, ((loadGame format input).run tree).result = .ok sources ∧
    (compileGame sources).result = .ok rooms

/-- The block of the game file can be built from `rooms`, and its bytes are `bytes`. -/
def Packs (rooms : List RoomForge.Room) (bytes : Bytes) : Prop :=
  ∃ block, (gameBlock rooms).result = .ok block ∧ block.toBytes = .ok bytes

theorem prepare_eq_ok_iff :
    ((prepare format input).run tree).result = .ok rooms ↔ Compiles format tree input rooms := by
  simp only [prepare, Compiles, Loading.result_run_bind, Loading.result_run_doing,
    Loading.run_ofReport, Report.doing, Report.result_mapError, bind_eq_ok_iff,
    mapError_eq_ok_iff]

theorem gameBytes_eq_ok_iff : (gameBytes rooms).result = .ok bytes ↔ Packs rooms bytes := by
  simp only [gameBytes, Packs, Report.doing, Report.result_bind, Report.result_mapError,
    Report.result_ofExcept, bind_eq_ok_iff, mapError_eq_ok_iff]

/-! ## Storing -/

/-- The directory of a path and those above it. -/
def parentsOf (path : Path) : List Path :=
  match directoryOf? path with
  | none => []
  | some directory => directory.ancestors

theorem furnishes_makeRoom (output : Path) :
    FileTree.Furnishes (parentsOf output) (makeRoom FileTree.disk output) := by
  unfold makeRoom parentsOf
  cases directoryOf? output with
  | none => exact .pure _
  | some directory => exact .bind (.makeChain directory.ancestors) fun _ => .pure _

/-- Where the directory is there, none is made. -/
theorem makeRoom_of_hasDirectory
    (h : ∀ directory, directoryOf? output = some directory → tree.hasDirectory directory = true) :
    makeRoom FileTree.disk output tree = (pure (), tree) := by
  unfold makeRoom
  cases hdirectory : directoryOf? output with
  | none => rfl
  | some directory =>
    have hthere := FileTree.makeDirectories_of_hasDirectory (h directory hdirectory)
    dsimp only
    rw [FileTree.bind_apply, hthere]
    rfl

/-- A game file is written as a whole, or the tree stays as it was; it does so only where the game
can't be packed or its file can't be written. -/
theorem writeGame_cases (tree : FileTree) (output : Path) (rooms : List RoomForge.Room) :
    (∃ failure, (writeGame FileTree.disk output rooms tree).1.result = .error failure ∧
      (writeGame FileTree.disk output rooms tree).2 = tree ∧
      ∀ bytes written, Packs rooms bytes → tree.write output bytes ≠ .ok written) ∨
    ∃ bytes, (writeGame FileTree.disk output rooms tree).1.result = .ok () ∧ Packs rooms bytes ∧
      tree.write output bytes = .ok (writeGame FileTree.disk output rooms tree).2 := by
  unfold writeGame
  cases hpacked : (gameBytes rooms).result with
  | error failure =>
    refine .inl ⟨failure, rfl, rfl, fun bytes written hbytes => ?_⟩
    rw [← gameBytes_eq_ok_iff, hpacked] at hbytes
    cases hbytes
  | ok bytes =>
    have hdisk : FileTree.disk.write output bytes tree = tree.after (tree.write output bytes) := rfl
    dsimp only
    rw [FileTree.bind_apply, hdisk]
    cases hwrite : tree.write output bytes with
    | error e =>
      refine .inl ⟨_, rfl, rfl, fun others written hothers => ?_⟩
      rw [← gameBytes_eq_ok_iff, hpacked] at hothers
      obtain rfl := Except.ok.inj hothers
      simp [hwrite]
    | ok written => exact .inr ⟨bytes, rfl, gameBytes_eq_ok_iff.mp hpacked, hwrite⟩

theorem storeGame_of_ok (h : (makeRoom FileTree.disk output tree).1.result = .ok ()) :
    storeGame FileTree.disk output rooms tree =
      let written := writeGame FileTree.disk output rooms (makeRoom FileTree.disk output tree).2
      ((makeRoom FileTree.disk output tree).1 >>= fun () => written.1.doing .writingResources,
        written.2) := by
  rw [storeGame, FileTree.bind_apply, h]
  rfl

theorem storeGame_of_error {failure : Failure}
    (h : (makeRoom FileTree.disk output tree).1.result = .error failure) :
    storeGame FileTree.disk output rooms tree =
      (⟨(makeRoom FileTree.disk output tree).1.log, .error failure⟩,
        (makeRoom FileTree.disk output tree).2) := by
  rw [storeGame, FileTree.bind_apply, h]
  rfl

/-- Storing rooms ends in a failure that has left files alone, or in the game file. -/
theorem storeGame_cases (tree : FileTree) (output : Path) (rooms : List RoomForge.Room) :
    ∃ made, FileTree.Grown (parentsOf output) tree made ∧ made.files = tree.files ∧
      ((∃ failure, (storeGame FileTree.disk output rooms tree).1.result = .error failure ∧
        (storeGame FileTree.disk output rooms tree).2 = made) ∨
      ∃ bytes, (storeGame FileTree.disk output rooms tree).1.result = .ok () ∧ Packs rooms bytes ∧
        made.write output bytes = .ok (storeGame FileTree.disk output rooms tree).2) := by
  obtain ⟨hgrown, hfiles⟩ := furnishes_makeRoom output tree
  refine ⟨_, hgrown, hfiles, ?_⟩
  cases hmade : (makeRoom FileTree.disk output tree).1.result with
  | error failure =>
    rw [storeGame_of_error hmade]
    exact .inl ⟨failure, rfl, rfl⟩
  | ok =>
    rw [storeGame_of_ok hmade]
    simp only [Report.doing, Report.result_bind, Report.result_mapError, hmade, ok_bind]
    rcases writeGame_cases (makeRoom FileTree.disk output tree).2 output rooms with
      ⟨failure, hfailure, hsame, -⟩ | ⟨bytes, hok, hbytes, hwrite⟩
    · exact .inl ⟨_, by rw [hfailure]; rfl, hsame⟩
    · exact .inr ⟨bytes, by rw [hok]; rfl, hbytes, hwrite⟩

/-- Rooms whose game file can be written where it belongs are stored. -/
theorem storeGame_of_write {written : FileTree}
    (hdirectory : ∀ directory, directoryOf? output = some directory →
      tree.hasDirectory directory = true)
    (hbytes : Packs rooms bytes) (hwrite : tree.write output bytes = .ok written) :
    (storeGame FileTree.disk output rooms tree).1.result = .ok () ∧
      (storeGame FileTree.disk output rooms tree).2 = written := by
  have hmade := makeRoom_of_hasDirectory hdirectory
  have hok : (makeRoom FileTree.disk output tree).1.result = .ok () := by rw [hmade]; rfl
  rw [storeGame_of_ok hok, hmade]
  rcases writeGame_cases tree output rooms with
    ⟨failure, -, -, hnever⟩ | ⟨others, hstored, hothers, hlast⟩
  · exact absurd hwrite (hnever bytes written hbytes)
  · rw [← gameBytes_eq_ok_iff] at hbytes hothers
    obtain rfl := Except.ok.inj (hbytes.symm.trans hothers)
    refine ⟨?_, Except.ok.inj (hlast.symm.trans hwrite)⟩
    simp only [Report.doing, Report.result_bind, Report.result_mapError, Report.result_pure,
      ok_bind]
    rw [hstored]
    rfl

/-! ## Building -/

theorem build_of_compiles (output : Path) (h : Compiles format tree input rooms) :
    (build format tree input output).1.result =
        (storeGame FileTree.disk output rooms tree).1.result ∧
      (build format tree input output).2 = (storeGame FileTree.disk output rooms tree).2 := by
  have hprepared := prepare_eq_ok_iff.mpr h
  unfold build
  generalize (prepare format input).run tree = prepared at hprepared ⊢
  dsimp only
  rw [hprepared]
  exact ⟨rfl, rfl⟩

theorem build_of_not_compiles (output : Path) (h : ∀ rooms, ¬ Compiles format tree input rooms) :
    (∃ failure, (build format tree input output).1.result = .error failure) ∧
      (build format tree input output).2 = tree := by
  have hprepared : ∀ rooms, ((prepare format input).run tree).result ≠ .ok rooms :=
    fun rooms hrooms => h rooms (prepare_eq_ok_iff.mp hrooms)
  unfold build
  generalize (prepare format input).run tree = prepared at hprepared ⊢
  dsimp only
  cases hresult : prepared.result with
  | error failure => exact ⟨⟨failure, rfl⟩, rfl⟩
  | ok rooms => exact absurd hresult (hprepared rooms)

/-- How a build ends: after a failure there are at most new directories, otherwise also the game
file at the end of the path `output`. -/
theorem build_cases (format : Format) (tree : FileTree) (input output : Path) :
    ∃ made, FileTree.Grown (parentsOf output) tree made ∧ made.files = tree.files ∧
      ((∃ failure, (build format tree input output).1.result = .error failure ∧
        (build format tree input output).2 = made) ∨
      ∃ rooms bytes, (build format tree input output).1.result = .ok () ∧
        Compiles format tree input rooms ∧ Packs rooms bytes ∧
        made.write output bytes = .ok (build format tree input output).2) := by
  by_cases hcompiles : ∃ rooms, Compiles format tree input rooms
  · obtain ⟨rooms, hrooms⟩ := hcompiles
    obtain ⟨hresult, hafter⟩ := build_of_compiles output hrooms
    obtain ⟨made, hgrown, hfiles, hends⟩ := storeGame_cases tree output rooms
    rw [hresult, hafter]
    refine ⟨made, hgrown, hfiles, hends.imp_right ?_⟩
    rintro ⟨bytes, hok, hbytes, hwrite⟩
    exact ⟨rooms, bytes, hok, hrooms, hbytes, hwrite⟩
  · obtain ⟨⟨failure, hfailure⟩, hsame⟩ :=
      build_of_not_compiles output (not_exists.mp hcompiles)
    exact ⟨tree, .refl _ tree, rfl, .inl ⟨failure, hfailure, hsame⟩⟩

end

/-- A failed build leaves every file and every directory as it was. It makes directories above
`output` at most, and those only when all rooms have compiled. A build that succeeds changes the
file `output` alone, which then holds the bytes of the compiled game. It does succeed where the game
compiles and packs and its file can be written. -/
theorem failed_build_leaves_files_alone (format : Format) (tree : FileTree)
    (input output : Path) :
    (∀ failure, (build format tree input output).1.result = .error failure →
      ∀ place, (build format tree input output).2.file? place = tree.file? place) ∧
    FileTree.Grown (parentsOf output) tree (build format tree input output).2 ∧
    ((∀ rooms, ¬ Compiles format tree input rooms) →
      (∃ failure, (build format tree input output).1.result = .error failure) ∧
        (build format tree input output).2 = tree) ∧
    ((build format tree input output).1.result = .ok () → ∃ rooms bytes place,
      Compiles format tree input rooms ∧ Packs rooms bytes ∧
      (build format tree input output).2.locate output = .ok place ∧
      (build format tree input output).2.file? place = some bytes ∧
      ∀ other, other ≠ place → (build format tree input output).2.file? other = tree.file? other) ∧
    ∀ rooms bytes written, Compiles format tree input rooms → Packs rooms bytes →
      (∀ directory, directoryOf? output = some directory → tree.hasDirectory directory = true) →
      tree.write output bytes = .ok written →
      (build format tree input output).1.result = .ok () ∧
        (build format tree input output).2 = written := by
  obtain ⟨made, hgrown, hfiles, hends⟩ := build_cases format tree input output
  have hsame : ∀ place, made.file? place = tree.file? place := by
    intro place
    rw [FileTree.file?, FileTree.file?, hfiles]
  refine ⟨?_, ?_, build_of_not_compiles output, ?_, ?_⟩
  · intro failure hfailure
    rcases hends with ⟨_, -, hmade⟩ | ⟨rooms, bytes, hok, -⟩
    · rwa [hmade]
    · exact absurd (hok.symm.trans hfailure) (by simp)
  · rcases hends with ⟨_, -, hmade⟩ | ⟨rooms, bytes, -, -, -, hwrite⟩
    · rwa [hmade]
    · obtain ⟨place, hput, -⟩ := FileTree.write_ok hwrite
      rw [hput]
      exact hgrown.trans (FileTree.grown_put made place bytes)
  · intro hok
    rcases hends with ⟨_, hfailure, -⟩ | ⟨rooms, bytes, -, hrooms, hbytes, hwrite⟩
    · exact absurd (hok.symm.trans hfailure) (by simp)
    · obtain ⟨place, hput, hlocate⟩ := FileTree.write_ok hwrite
      refine ⟨rooms, bytes, place, hrooms, hbytes, hlocate, ?_, fun other hother => ?_⟩
      · rw [hput, FileTree.file?_put, if_pos rfl]
      · rw [hput, FileTree.file?_put, if_neg hother, hsame]
  · intro rooms bytes written hrooms hbytes hdirectory hwrite
    obtain ⟨hresult, hafter⟩ := build_of_compiles output hrooms
    rw [hresult, hafter]
    exact storeGame_of_write hdirectory hbytes hwrite

-- A game without rooms is a block without parts; the directory `out` is made for it.
example :
    let game := Text.utf8 "\x7b\"rooms\":[]\x7d"
    (build .json { files := [(["game.json"], game)] } ⟨"."⟩ ⟨"out/game"⟩).2.files =
      [(["game", "out"], [76, 69, 67, 70, 0, 0, 0, 8]), (["game.json"], game)] := by
  decide +kernel

end RoomForge.Game
