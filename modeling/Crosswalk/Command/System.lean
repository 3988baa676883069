import Crosswalk.Command.Folder
import Crosswalk.Error

/-!
# What is around a command

A command reads and writes through the operations of a system and knows nothing else of it. The
same command runs in the real system and in a world that is a value.

* `System`: the operations.
* `World`: what a command can change, and `Console`: what it only finds.
* `Console.system`: the operations on a world.
* `World.run`: a world with an action run in it.
-/

namespace Crosswalk

/-- The operations that a command has. -/
structure System (m : Type → Type) where
  /-- The bytes of a file. -/
  file : (path : String) → m (Except FileFault ByteArray)
  /-- The bytes of standard input. -/
  input : m (Except FileFault ByteArray)
  /-- Whether standard output is a terminal. -/
  isTerminal : m Bool
  print : (text : String) → m Unit
  /-- Writes a file, or says why it cannot be written. -/
  save : (path text : String) → m (Except FileFault Unit)

/-- What a command can change: files and folders from the root down, and the text that has been
printed. -/
structure World where
  root : Folder
  printed : String

/-- What a command finds: the place of the folder that it runs in, standard input, and the kind of
standard output. -/
structure Console where
  here : List String
  input : Except FileFault ByteArray
  isTerminal : Bool

/-- Something that is done in a world and can fail. What was done before it failed stays done. -/
abbrev Action (α : Type) := ExceptT Error (StateM World) α

/-- What comes of an action in a world, and the world after it. -/
def World.run {α : Type} (w : World) (x : Action α) : Outcome α × World :=
  StateT.run (ExceptT.run x) w

/-- The world with one more text printed. -/
def World.say (w : World) (text : String) : World := { w with printed := w.printed ++ text }

/-- A text written as a file. A file that cannot be written leaves the world as it is. -/
def World.save (w : World) (here : List String) (path text : String) :
    Except FileFault Unit × World :=
  match w.root.write here path text.toUTF8 with
  | .ok root => (.ok (), { w with root })
  | .error f => (.error f, w)

/-- The operations on a world. -/
def Console.system (c : Console) : System (StateM World) where
  file path := do return (← get).root.read c.here path
  input := pure c.input
  isTerminal := pure c.isTerminal
  print text := modify fun w => w.say text
  save path text := modifyGet fun w => w.save c.here path text

end Crosswalk
