import MotionRace.Command.Run

/-!
# The command in memory

A host that keeps its files and what is printed in a state, and whose clocks stand still. What the
command does on it is a function of its arguments and of the files it finds.
-/

namespace MotionRace.Command

open MotionRace.Random (WordStream)

/-- Files, and the text that was printed. -/
structure Desk where
  store : FileStore
  printed : String := ""
  deriving Repr, BEq, DecidableEq

namespace Desk

def print (desk : Desk) (text : String) : Desk := { desk with printed := desk.printed ++ text }

/-- Write a text to a path, in one of the ways a store has. What is written to the device of that
name is printed. -/
def write (desk : Desk) (path text : String) (result : Except WriteFault Unit × FileStore) :
    Except WriteFault Unit × Desk :=
  let desk := if desk.store.place path == .device .output then desk.print text else desk
  (result.1, { desk with store := result.2 })

end Desk

/-- A host on a desk. -/
def Host.inMemory (processors : Nat) (source : WordStream) : Host (StateM Desk) where
  processors := processors
  source := source
  readText path := fun desk => (desk.store.read? path, desk)
  appendLines path lines := fun desk =>
    desk.write path (Lines.text lines) (desk.store.append path lines)
  createText path text := fun desk => desk.write path text (desk.store.create path text)
  printLines lines := modify (·.print (Lines.text lines))
  clock := pure 0
  reportTime := pure "1970-01-01T00:00:00+00:00"
  logTime := pure "1970-01-01 00:00:00"

end MotionRace.Command
