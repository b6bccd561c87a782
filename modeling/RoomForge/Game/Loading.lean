import RoomForge.Failure

set_option autoImplicit false

/-! # Reading programs

What loading a game does: it asks for files, says something, and ends. Such a program is a value;
`Loading.run` carries it out on a tree of files, and the command line on the disk. It has no way to
change a file, which is half of what section 4.5 of the specification calls atomic output.
-/

namespace RoomForge.Game

/-- A program that reads files. -/
inductive Loading (α : Type) where
  | done (result : Except Failure α)
  /-- Says something and goes on. -/
  | say (message : Message) (next : Loading α)
  /-- Asks for the bytes of a file. -/
  | read (path : Path) (next : Except DiskError Bytes → Loading α)
  /-- Asks whether there is a file or directory. -/
  | find (path : Path) (next : Bool → Loading α)

namespace Loading

variable {α β : Type}

/-- Goes on with `next`, unless `program` fails. -/
def bind (program : Loading α) (next : α → Loading β) : Loading β :=
  match program with
  | done (.ok value) => next value
  | done (.error failure) => done (.error failure)
  | say message rest => say message (rest.bind next)
  | read path rest => read path fun answer => (rest answer).bind next
  | find path rest => find path fun answer => (rest answer).bind next

instance : Monad Loading where
  pure value := done (.ok value)
  bind := Loading.bind

/-- Says something. -/
def tell (level : Level) (text : String) : Loading Unit :=
  say ⟨level, text⟩ (done (.ok ()))

/-- Fails. -/
def fail (failure : Failure) : Loading α :=
  done (.error failure)

/-- Ends as `result` does. -/
def ofExcept (result : Except Failure α) : Loading α :=
  done result

/-- Says what a report says and ends as it does. -/
def ofReport (report : Report Failure α) : Loading α :=
  report.log.foldr say (done report.result)

/-- Puts what the program was doing around its failure. -/
def doing (program : Loading α) (doing : Doing) : Loading α :=
  match program with
  | done result => done (result.mapError (·.during doing))
  | say message rest => say message (rest.doing doing)
  | read path rest => read path fun answer => (rest answer).doing doing
  | find path rest => find path fun answer => (rest answer).doing doing

/-- Carries a program out on a tree of files. -/
def run (tree : FileTree) : Loading α → Report Failure α
  | done result => .ofExcept result
  | say message rest =>
    let report := rest.run tree
    ⟨message :: report.log, report.result⟩
  | read path rest => (rest (tree.read path)).run tree
  | find path rest => (rest (tree.hasPath path)).run tree

@[simp] theorem run_pure (tree : FileTree) (value : α) :
    (pure value : Loading α).run tree = pure value := rfl

@[simp] theorem run_read (tree : FileTree) (path : Path)
    (next : Except DiskError Bytes → Loading α) :
    (read path next).run tree = (next (tree.read path)).run tree := rfl

@[simp] theorem run_find (tree : FileTree) (path : Path) (next : Bool → Loading α) :
    (find path next).run tree = (next (tree.hasPath path)).run tree := rfl

@[simp] theorem run_ofReport (tree : FileTree) (report : Report Failure α) :
    (ofReport report).run tree = report := by
  obtain ⟨log, result⟩ := report
  induction log with
  | nil => rfl
  | cons message rest ih =>
    have h : (rest.foldr say (done result)).run tree = ⟨rest, result⟩ := ih
    simp [ofReport, run, h]

/-- Programs in a row report as one after the other. -/
theorem run_bind (tree : FileTree) (program : Loading α) (next : α → Loading β) :
    (program >>= next).run tree = program.run tree >>= fun value => (next value).run tree := by
  show (program.bind next).run tree = (program.run tree).bind fun value => (next value).run tree
  induction program with
  | done result => cases result <;> rfl
  | say message rest ih =>
    simp only [Loading.bind, run, ih, Report.bind]
    cases (rest.run tree).result <;> rfl
  | read path rest ih => exact ih (tree.read path)
  | find path rest ih => exact ih (tree.hasPath path)

end Loading

end RoomForge.Game
